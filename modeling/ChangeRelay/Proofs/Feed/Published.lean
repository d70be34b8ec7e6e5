import ChangeRelay.Proofs.Feed.Entry
import ChangeRelay.Proofs.Feed.Stream
import ChangeRelay.Proofs.Json.RoundTrip
import ChangeRelay.Proofs.Zstd.Stored

/-!
# A change by either feed

A change that is published goes into a log in memory as it is, and into a stream as texts: its
attributes as JSON, compressed if they are many and with their digest, its number and kind inside a
control. Whoever reads either is told of the same change, or of the same fault at its number.
-/

namespace ChangeRelay

/-! ## What is written of a change -/

theorem mapM_id_of_ok {ε α : Type} {f : α → Except ε α} (h : ∀ x, f x = .ok x) (l : List α) :
    l.mapM f = .ok l := by
  induction l with
  | nil => rfl
  | cons x l ih =>
      rw [List.mapM_cons, h x, ih]
      rfl

namespace Attributes

theorem plain_toValue (a : Attributes) : a.toValue.Plain Json.maxDepth := by
  refine .object fun p hp => ?_
  obtain ⟨q, -, rfl⟩ := List.mem_map.1 hp
  refine .array fun v hv => ?_
  obtain ⟨s, -, rfl⟩ := List.mem_map.1 hv
  exact .string s

/-- Attributes are read back from the value that is written of them. -/
theorem decode_toValue {a : Attributes} (h : Assoc.Ascending a) : decode a.toValue = .ok a := by
  have hvalues : ∀ items : List String,
      Json.Value.decodeList Json.Value.decodeString (.ofStrings items) = .ok items := by
    intro items
    rw [Json.Value.ofStrings, Json.Value.decodeList, List.mapM_map]
    exact mapM_id_of_ok (fun s => rfl) items
  have hpairs : ∀ p : String × List String, (do
      return (p.1, ← Json.Value.decodeList Json.Value.decodeString (.ofStrings p.2)) :
        Json.Decoded (String × List String)) = .ok p := by
    intro p
    rw [hvalues]
    rfl
  have hmap : (a.map fun p => (p.1, Json.Value.ofStrings p.2)).mapM (fun p => do
      return (p.1, ← Json.Value.decodeList Json.Value.decodeString p.2) :
        String × Json.Value → Json.Decoded (String × List String)) = .ok a := by
    rw [List.mapM_map]
    exact mapM_id_of_ok hpairs a
  have hasc : Assoc.ofList a = a := by
    refine Assoc.ofList_of_ascending (h.imp fun hlt => ⟨fun heq => ?_, fun hgt => ?_⟩)
    · exact absurd (heq ▸ hlt) (String.lt_irrefl _)
    · exact absurd (String.lt_trans hlt hgt) (String.lt_irrefl _)
  rw [decode, toValue, Json.Value.decodeObject]
  simp only [bind, Except.bind] at hmap ⊢
  rw [hmap]
  simp [hasc, pure, Except.pure]

end Attributes

section Metadata

variable (dn : String) (seq : UInt64) (op : Operation)

/-- What the control of a published change says. -/
def changeNotification : Json.Value :=
  .object [("changeNumber", .ofWord seq), ("changeType", .ofWord op.changeType)]

def changeControl : Json.Value :=
  .object [("type", .string entryChangeOid), ("value", changeNotification seq op)]

/-- The controls of a published change. -/
def changeControls : Json.Value := .array [changeControl seq op]

theorem find?_controls_entryMetadata :
    Assoc.find? "controls" (entryMetadata dn seq op) = some (changeControls seq op) := rfl

theorem find?_dn_entryMetadata :
    Assoc.find? "dn" (entryMetadata dn seq op) = some (.string dn) := by
  simp [entryMetadata, Assoc.find?]

theorem plain_ofWord (n : UInt64) {depth : Nat} : (Json.Value.ofWord n).Plain depth := by
  have hlt : n.toNat < wordLimit := n.toNat_lt
  exact .int (by simp [pow2]) (by omega)

theorem plain_changeControls : (changeControls seq op).Plain Json.maxDepth := by
  refine .array fun v hv => ?_
  rw [List.mem_singleton.1 hv]
  refine .object fun p hp => ?_
  rcases List.mem_pair.1 hp with rfl | rfl
  · exact .string _
  refine .object fun q hq => ?_
  rcases List.mem_pair.1 hq with rfl | rfl
  · exact plain_ofWord seq
  · exact plain_ofWord op.changeType

theorem canonical_changeControls : (changeControls seq op).canonical = changeControls seq op := by
  have hinner : Assoc.ofList [("changeNumber", Json.Value.ofWord seq),
      ("changeType", .ofWord op.changeType)] = [("changeNumber", .ofWord seq),
        ("changeType", .ofWord op.changeType)] := by
    refine Assoc.ofList_of_ascending (List.pairwise_pair.2 ?_)
    exact (by decide : "changeType" ≠ "changeNumber" ∧ ¬ "changeType" < "changeNumber")
  have houter : Assoc.ofList [("type", Json.Value.string entryChangeOid),
      ("value", changeNotification seq op)] = [("type", .string entryChangeOid),
        ("value", changeNotification seq op)] := by
    refine Assoc.ofList_of_ascending (List.pairwise_pair.2 ?_)
    exact (by decide : "value" ≠ "type" ∧ ¬ "value" < "type")
  have hword : ∀ n, (Json.Value.ofWord n).canonical = .ofWord n := fun n => rfl
  have hoid : (Json.Value.string entryChangeOid).canonical = .string entryChangeOid := rfl
  have hnotification : (changeNotification seq op).canonical = changeNotification seq op := by
    rw [changeNotification, Json.Value.canonical, Json.Value.canonicalFields,
      Json.Value.canonicalFields, Json.Value.canonicalFields, hword, hword, Json.Value.ofFields,
      hinner]
  rw [changeControls, changeControl, Json.Value.canonical, Json.Value.canonicalItems,
    Json.Value.canonicalItems, Json.Value.canonical, Json.Value.canonicalFields,
    Json.Value.canonicalFields, Json.Value.canonicalFields, hnotification, hoid,
    Json.Value.ofFields, houter]

theorem parse?_changeControls :
    Json.Value.parse? (changeControls seq op).text = some (changeControls seq op) := by
  rw [Json.Value.parse?, Json.Value.read?_text (plain_changeControls seq op), Option.map_some,
    canonical_changeControls]

theorem lenientWord?_ofWord (n : UInt64) : Control.lenientWord? (.ofWord n) = some n :=
  Json.Value.asWord?_ofWord n

/-- What is read of a published change depends on its name alone. -/
theorem ofMetadata_entryMetadata : Control.ofMetadata (entryMetadata dn seq op) =
    match Dn.normalize dn with
    | .error e => .error (.malformed (some seq) e.message)
    | .ok target =>
      if target = "" then .error (.malformed (some seq) "change targets the empty DN")
      else .ok { target, seq, operation := op } := by
  have hcontrols : (Assoc.find? "controls" (entryMetadata dn seq op)).bind Json.Value.asArray? =
      some [changeControl seq op] := rfl
  have hnotification : ([changeControl seq op].find? Control.isEntryChange).bind
      (Json.Value.get? "value") = some (changeNotification seq op) := rfl
  have hseq : ((changeNotification seq op).get? "changeNumber").bind Control.lenientWord? =
      some seq := by
    have hfield : (changeNotification seq op).get? "changeNumber" = some (.ofWord seq) := rfl
    rw [hfield, Option.bind_some, lenientWord?_ofWord]
  have hop : ((changeNotification seq op).get? "changeType").bind Control.lenientWord? =
      some op.changeType := by
    have hfield : (changeNotification seq op).get? "changeType" = some (.ofWord op.changeType) :=
      rfl
    rw [hfield, Option.bind_some, lenientWord?_ofWord]
  have hdn : (Assoc.find? "dn" (entryMetadata dn seq op)).bind Json.Value.asString? = some dn := rfl
  exact Control.ofMetadata_of_notified hcontrols hnotification hseq hop hdn

end Metadata

namespace Feed

open Redis (Reply Command)

/-! ## The entry of a stream -/

/-- The entry that a server keeps for a command that appends one, as it is read back. -/
def StreamEntry.appended? : Command → Option StreamEntry
  | name :: _ :: id :: fields =>
    if name = Text.encodeUtf8 "XADD" then do
      return { id := ← Redis.bulkText? id, fields := ← (Reply.array (fields.map .bulk)).fields? }
    else none
  | _ => none

namespace StreamEntry

variable {e : StreamEntry} {compress : Bytes → Bytes} {seq : UInt64} {op : Operation} {dn : String}
  {attributes : Attributes} {time : Option String}

/-- The entry of a published change. -/
def published (compress : Bytes → Bytes) (seq : UInt64) (op : Operation) (dn : String)
    (attributes : Attributes) (time : Option String) : StreamEntry where
  id := changeId seq
  fields := Assoc.ofList ((ChangeStream.publishFields compress seq op dn attributes time).map
    fun p => (p.1, .bulk p.2))

theorem appended?_publishCommand (stream : ChangeStream) :
    appended? (stream.publishCommand compress seq op dn attributes time) =
      some (published compress seq op dn attributes time) := by
  have hfields : ((ChangeStream.publishFields compress seq op dn attributes time).flatMap
      fun p => [Text.encodeUtf8 p.1, p.2]).map Reply.bulk =
        ((ChangeStream.publishFields compress seq op dn attributes time).map
          fun p => (p.1, Reply.bulk p.2)).flatMap fun p => [.bulk (Text.encodeUtf8 p.1), p.2] := by
    simp [List.map_flatMap, List.flatMap_map]
  have hid : Redis.bulkText? (Text.encodeUtf8 (changeId seq)) = some (changeId seq) := by
    rw [Redis.bulkText?, Text.decodeUtf8_encodeUtf8]
  simp only [ChangeStream.publishCommand, Redis.command, List.map_cons, List.map_nil,
    List.cons_append, List.nil_append, appended?, if_true, hid, hfields, fields?_flatMap]
  rfl

theorem textField_of_find? {name text : String}
    (h : Assoc.find? name e.fields = some (.bulk (Text.encodeUtf8 text))) :
    e.textField name = .ok text := by
  simp only [textField, h, Text.decodeUtf8_encodeUtf8]

theorem bytesField_of_find? {name : String} {bytes : Bytes}
    (h : Assoc.find? name e.fields = some (.bulk bytes)) : e.bytesField name = .ok bytes := by
  simp only [bytesField, h]

theorem optionalTextField_of_find? {name : String} {text : Option String}
    (h : Assoc.find? name e.fields = text.map fun t => .bulk (Text.encodeUtf8 t)) :
    e.optionalTextField name = .ok text := by
  rw [optionalTextField, Assoc.contains, h]
  cases text with
  | none => rfl
  | some t =>
      rw [textField_of_find? h]
      rfl

/-- Of the fields of a published change each is found under its name. -/
theorem find?_published (name : String) :
    Assoc.find? name (published compress seq op dn attributes time).fields =
      (Assoc.find? name (ChangeStream.publishFields compress seq op dn attributes time)).map
        .bulk := by
  -- no name comes twice, whether a time is told or not
  have hkeys : (Assoc.keys ((ChangeStream.publishFields compress seq op dn attributes time).map
      fun p => (p.1, Reply.bulk p.2))).Nodup := by
    rw [Assoc.keys_map_value]
    cases time with
    | none => exact (by decide : ["dn", "changes", "hash", "controls"].Nodup)
    | some t => exact (by decide : ["dn", "changes", "hash", "controls", "changetime"].Nodup)
  rw [published, Assoc.find?_ofList_of_nodup hkeys, Assoc.find?_map_value]

/-- A payload is read as what was compressed, if it was. -/
theorem expand_payload (hcompress : ∀ bytes, Zstd.expand? (compress bytes) = some bytes)
    (a : Attributes) :
    expand (ChangeStream.payload compress (Text.encodeUtf8 a.toValue.text)) =
      .ok (Text.encodeUtf8 a.toValue.text) := by
  -- what is not compressed opens with a brace
  have hplain : Zstd.isCompressed (Text.encodeUtf8 a.toValue.text) = false := by
    have hfirst : ∃ rest, Text.encodeUtf8 a.toValue.text = 0x7B :: rest := by
      have hbrace : String.utf8EncodeChar Json.openBrace = [0x7B] := by decide
      obtain ⟨cs, hcs⟩ : ∃ cs, a.toValue.textChars = Json.openBrace :: cs := by
        cases a <;> exact ⟨_, rfl⟩
      refine ⟨cs.flatMap String.utf8EncodeChar, ?_⟩
      rw [Text.encodeUtf8, Json.Value.text, String.toList_ofList, hcs, List.flatMap_cons, hbrace]
      rfl
    obtain ⟨rest, hrest⟩ := hfirst
    rw [hrest]
    rfl
  -- short payloads go as they are
  rw [ChangeStream.payload]
  split
  · rw [expand, hcompress]
  · rw [expand, Zstd.expand?, hplain]
    rfl

theorem decodeAttributes_published (h : Assoc.Ascending attributes) :
    decodeAttributes (Text.encodeUtf8 attributes.toValue.text) = .ok attributes := by
  simp only [decodeAttributes, Text.decodeUtf8_encodeUtf8,
    Json.Value.read?_text attributes.plain_toValue, Attributes.decode_toValue h]

theorem contents_published (hcompress : ∀ bytes, Zstd.expand? (compress bytes) = some bytes)
    (hasc : Assoc.Ascending attributes) :
    (published compress seq op dn attributes time).contents = .ok (attributes,
      (published compress seq op dn attributes time).metadataOf dn (changeControls seq op)
        time) := by
  have hhash : (published compress seq op dn attributes time).textField "hash" =
      .ok (contentHash (Text.encodeUtf8 attributes.toValue.text)) :=
    textField_of_find? (find?_published "hash")
  have htime : Assoc.find? "changetime" (published compress seq op dn attributes time).fields =
      time.map fun t => .bulk (Text.encodeUtf8 t) := by
    rw [find?_published]
    cases time <;> rfl
  exact contents_eq_ok.2 ⟨dn, _, _, _, changeControls seq op, time,
    textField_of_find? (find?_published "dn"), bytesField_of_find? (find?_published "changes"),
    expand_payload hcompress attributes, checkHash_eq_ok.2 fun _ => hhash,
    decodeAttributes_published hasc, textField_of_find? (find?_published "controls"),
    parse?_changeControls seq op, optionalTextField_of_find? htime, rfl⟩

end StreamEntry

/-! ## What is told of it -/

section Told

variable {seq : UInt64} {op : Operation} {dn : String} {attributes : Attributes}
  {metadata : Json.Fields}

/-- What is told of a published change, whatever else its metadata say. -/
def told (seq : UInt64) (op : Operation) (dn : String) (attributes : Attributes)
    (metadata : Json.Fields) : Except FeedFault Change :=
  match Dn.normalize dn with
  | .error e => .error (.malformed (some seq) e.message)
  | .ok target =>
    if target = "" then .error (.malformed (some seq) "change targets the empty DN")
    else .ok { seq, operation := op, target, attributes, metadata }

theorem told_of_ofMetadata
    (h : Control.ofMetadata metadata = Control.ofMetadata (entryMetadata dn seq op)) :
    Change.ofMetadata attributes metadata = told seq op dn attributes metadata := by
  rw [Change.ofMetadata, h, ofMetadata_entryMetadata, told]
  cases Dn.normalize dn with
  | error e => rfl
  | ok target => by_cases hroot : target = "" <;> simp [hroot, Except.map]

/-- The name alone decides whether a change is told or a fault, which is pinned to the number. -/
theorem told_cases (seq : UInt64) (op : Operation) (dn : String) (attributes : Attributes) :
    (∃ target, Dn.normalize dn = .ok target ∧ target ≠ "" ∧
      ∀ metadata,
        told seq op dn attributes metadata = .ok ⟨seq, op, target, attributes, metadata⟩) ∨
    (∀ target, Dn.normalize dn = .ok target → target = "") ∧ ∃ reason, ∀ metadata,
      told seq op dn attributes metadata = .error (.malformed (some seq) reason) := by
  cases hdn : Dn.normalize dn with
  | error e => exact .inr ⟨nofun, e.message, fun _ => by simp [told, hdn]⟩
  | ok target =>
      by_cases hroot : target = ""
      · refine .inr ⟨?_, "change targets the empty DN", fun _ => by simp [told, hdn, hroot]⟩
        rintro _ ⟨⟩
        exact hroot
      · exact .inl ⟨target, rfl, hroot, fun _ => by simp [told, hdn, hroot]⟩

theorem LogEntry.change_of_metadata {entry : LogEntry}
    (hcontrol : Control.ofMetadata entry.metadata = Control.ofMetadata (entryMetadata dn seq op)) :
    entry.change seq = told seq op dn entry.attributes entry.metadata := by
  rw [LogEntry.change, told_of_ofMetadata hcontrol]
  rcases told_cases seq op dn entry.attributes with ⟨target, -, -, hok⟩ | ⟨-, reason, herror⟩
  · simp [hok]
  · simp [herror, FeedFault.pinnedTo]

theorem StreamEntry.change_of_contents {e : StreamEntry} (hid : parseChangeId? e.id = some seq)
    (hcontents : e.contents = .ok (attributes, metadata))
    (hcontrol : Control.ofMetadata metadata = Control.ofMetadata (entryMetadata dn seq op)) :
    e.change = told seq op dn attributes metadata := by
  rw [StreamEntry.change, hid]
  simp only [hcontents, told_of_ofMetadata hcontrol]
  rcases told_cases seq op dn attributes with ⟨target, -, -, hok⟩ | ⟨-, reason, herror⟩
  · simp [hok]
  · simp [herror, FeedFault.pinnedTo]

/-- An entry of a stream tells of a published change what its log entry tells. -/
theorem StreamEntry.change_published {compress : Bytes → Bytes}
    (hcompress : ∀ bytes, Zstd.expand? (compress bytes) = some bytes)
    (hasc : Assoc.Ascending attributes) (time : Option String) :
    ∃ metadata, (published compress seq op dn attributes time).change =
      told seq op dn attributes metadata := by
  refine ⟨_, change_of_contents ?_ (contents_published hcompress hasc)
    (Control.ofMetadata_congr ?_ ?_)⟩
  · exact (congrArg parseChangeId? (EntryId.changeId_eq seq)).trans (EntryId.parseChangeId?_text _)
  · rw [find?_controls_metadataOf, find?_controls_entryMetadata]
  · rw [find?_dn_metadataOf, find?_dn_entryMetadata]

end Told

/-! ## Reading either feed -/

/-- Two readers are told the same of a published change: the change but for what else their feeds
say of it, or one and the same fault, if its name has no normal form or is the root's. -/
inductive Agree (seq : UInt64) (op : Operation) (dn : String) (attributes : Attributes) :
    Except FeedFault Change → Option FeedAnswer → Prop
  | event {target : String} (hdn : Dn.normalize dn = .ok target) (hroot : target ≠ "")
      (metadata metadata' : Json.Fields) :
      Agree seq op dn attributes (.ok ⟨seq, op, target, attributes, metadata⟩)
        (some (.ok (some (.event ⟨seq, op, target, attributes, metadata'⟩))))
  | fault (hdn : ∀ target, Dn.normalize dn = .ok target → target = "") (reason : String) :
      Agree seq op dn attributes (.error (.malformed (some seq) reason))
        (some (.error (.malformed (some seq) reason)))

/-- Beyond a position with nothing in between, what is published comes first. -/
theorem filter_insert {log : Log} {seq after : UInt64} (entry : LogEntry) (hlt : after < seq)
    (hnext : ∀ p ∈ log, after < p.1 → ¬ p.1 < seq) :
    ∃ rest, (Assoc.insert seq entry log).filter (fun p => after < p.1) = (seq, entry) :: rest := by
  induction log with
  | nil => exact ⟨[], by simp [Assoc.insert, hlt]⟩
  | cons p log ih =>
      obtain ⟨n, old⟩ := p
      rw [Assoc.insert]
      split
      · exact ⟨_, List.filter_cons_of_pos (by simpa using hlt)⟩
      · rename_i hne
        split
        · exact ⟨_, List.filter_cons_of_pos (by simpa using hlt)⟩
        · rename_i hge
          -- what stands before it lies at the position or before
          have hbehind : ¬ after < n := by
            intro hn
            have := hnext (n, old) List.mem_cons_self hn
            grind
          rw [List.filter_cons_of_neg (by simpa using hbehind)]
          exact ih fun p hp => hnext p (List.mem_cons_of_mem _ hp)

theorem accepts_root (target : String) : Matcher.accepts ⟨"", .sub⟩ target = true := by
  simp [Matcher.accepts, Dn.inScope, Dn.isUnder]

/-- A subscription to the whole tree is told of the next entry, whatever it is. -/
theorem poll_of_next {s : Subscription} {f : Memory} {seq : UInt64} {entry : LogEntry} {rest : Log}
    (hlive : s.remaining ≠ some 0) (hmatcher : s.matcher = ⟨"", .sub⟩)
    (hlog : f.entries.filter (fun p => s.cursor < p.1) = (seq, entry) :: rest) :
    (s.poll f).2.2 = some ((entry.change seq).map fun c => some (.event c)) := by
  have hlook : (s.look f).2 = match entry.change seq with
      | .ok c => .found c
      | .error e => .fault e := by
    rw [Subscription.look, if_neg hlive, hlog, Subscription.scan, hmatcher]
    cases entry.change seq with
    | error e => rfl
    | ok c => simp [accepts_root]
  cases hchange : entry.change seq with
  | error e =>
      rw [hchange] at hlook
      rw [poll_of_fault hlook]
      rfl
  | ok c =>
      rw [hchange] at hlook
      rw [poll_of_found hlook]
      rfl

/-- Whoever subscribes to the whole tree before a published change, and whoever reads the entry that
is appended for it, is told of the same change, or of the same fault at its number. -/
theorem either_feed_tells {compress : Bytes → Bytes}
    (hcompress : ∀ bytes, Zstd.expand? (compress bytes) = some bytes) {attributes : Attributes}
    (hasc : Assoc.Ascending attributes) (seq : UInt64) (op : Operation) (dn : String)
    (time : Option String) (stream : ChangeStream) {f : Memory} {q : Query} {after : UInt64}
    (hwhole : q.matcher = .ok ⟨"", .sub⟩) (hafter : after < seq)
    (hnext : ∀ p ∈ f.entries, after < p.1 → ¬ p.1 < seq) (hlive : f.disconnectAfter ≠ some 0)
    (hwilling : f.failSubscribes = 0) (hkept : f.trimmedThrough ≤ after) :
    ∃ e f' s,
      StreamEntry.appended? (stream.publishCommand compress seq op dn attributes time) = some e ∧
        e.id = changeId seq ∧
        (f.publish seq op dn attributes).subscribe q after = (f', .ok s) ∧
        Agree seq op dn attributes e.change (s.poll f').2.2 := by
  refine ⟨_, _, _, StreamEntry.appended?_publishCommand stream, rfl,
    Memory.subscribe_of_kept hwhole hwilling hkept, ?_⟩
  obtain ⟨metadata, hstream⟩ := StreamEntry.change_published hcompress hasc time
  rw [hstream]
  -- the subscription finds the change first
  obtain ⟨rest, hfirst⟩ := filter_insert ⟨attributes, entryMetadata dn seq op⟩ hafter hnext
  have hlog : (⟨attributes, entryMetadata dn seq op⟩ : LogEntry).change seq =
      told seq op dn attributes (entryMetadata dn seq op) :=
    @LogEntry.change_of_metadata seq op dn ⟨attributes, entryMetadata dn seq op⟩ rfl
  rw [poll_of_next hlive rfl hfirst, hlog]
  rcases told_cases seq op dn attributes with ⟨target, hdn, hne, hok⟩ |
    ⟨hunnamed, reason, herror⟩
  · rw [hok, hok]
    exact .event hdn hne _ _
  · rw [herror, herror]
    exact .fault hunnamed reason

theorem either_feed_tells_spaced :
    ∃ e metadata metadata', StreamEntry.appended? ((⟨"s", ⟨0⟩, 1⟩ : ChangeStream).publishCommand
        Zstd.store 7 .add " CN=a , dc=x" [("cn", ["a"])] none) = some e ∧
      e.change = .ok ⟨7, .add, "cn=a,dc=x", [("cn", ["a"])], metadata⟩ ∧
      ∃ f' s, ((({} : Memory).publish 7 .add " CN=a , dc=x" [("cn", ["a"])]).subscribe
          (Query.subtree "") 6) = (f', .ok s) ∧
        (s.poll f').2.2 =
          some (.ok (some (.event ⟨7, .add, "cn=a,dc=x", [("cn", ["a"])], metadata'⟩))) := by
  have hwhole : (Query.subtree "").matcher = .ok ⟨"", .sub⟩ := rfl
  have hname : Dn.normalize " CN=a , dc=x" = .ok "cn=a,dc=x" := rfl
  obtain ⟨e, f', s, happended, -, hsubscribe, hagree⟩ := @either_feed_tells Zstd.store
    Zstd.expand?_store [("cn", ["a"])] (List.pairwise_singleton _ _) 7 .add " CN=a , dc=x" none
    ⟨"s", ⟨0⟩, 1⟩ {} _ 6 hwhole (by decide) (by simp) (by simp) rfl (by decide)
  generalize hstream : e.change = told, hpoll : (s.poll f').2.2 = handed at hagree
  cases hagree with
  | @event target hdn hroot metadata metadata' =>
      rw [hname] at hdn
      cases hdn
      exact ⟨e, metadata, metadata', happended, hstream, f', s, hsubscribe, hpoll⟩
  | fault hdn reason => exact absurd (hdn _ hname) (by decide)

end Feed

end ChangeRelay
