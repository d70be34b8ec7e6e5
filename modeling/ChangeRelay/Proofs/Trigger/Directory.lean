import ChangeRelay.Proofs.Change
import ChangeRelay.Proofs.Checkpoint.Commit
import ChangeRelay.Proofs.Intent

/-!
# The mirror and the directory

What a history of changes makes of a directory: which entries there are, and which values the last
change that says anything of an attribute gave it. A mirror of the history shows the same,
attribute by attribute, in whatever batches its intents are committed.
-/

namespace ChangeRelay

open Checkpoint (Data Outcome StandsBefore intentAddress)
open Store (Records Memory)

/-! ## Histories -/

namespace Change

/-- The attributes of a change, with lowercased names. -/
def lowered (c : Change) : Attributes := c.attributes.map fun p => (Text.lowercase p.1, p.2)

/-- Whether there is an entry after a change; none if the change leaves that as it is. -/
def presence (c : Change) : Option Bool :=
  match c.operation with
  | .add => some true
  | .modify => none
  | .delete => some false

/-- The values that a change gives an attribute of its entry, by the lowercased name; none if the
change does not name it. An added entry has no attributes but those of the change, a deleted one
has none at all. -/
def given (name : String) (c : Change) : Option (List String) :=
  match c.operation with
  | .add => some ((Assoc.find? name c.lowered).getD [])
  | .modify => Assoc.find? name c.lowered
  | .delete => some []

end Change

/-- What the last change of an entry says that says anything. -/
def lastSaid (say : Change → Option α) (history : List Change) (dn : String) : Option α :=
  history.reverse.findSome? fun c => if c.target = dn then say c else none

/-- The entry was added, and not deleted since. -/
abbrev Present (history : List Change) (dn : String) : Prop :=
  lastSaid Change.presence history dn = some true

theorem lastSaid_append_singleton (say : Change → Option α) (history : List Change) (c : Change)
    (dn : String) :
    lastSaid say (history ++ [c]) dn =
      if c.target = dn then (say c).or (lastSaid say history dn) else lastSaid say history dn := by
  unfold lastSaid
  rw [List.reverse_append, List.reverse_singleton, List.singleton_append, List.findSome?_cons]
  by_cases htarget : c.target = dn
  · rw [if_pos htarget, if_pos htarget]
    cases say c with
    | none => rfl
    | some a => rfl
  · rw [if_neg htarget, if_neg htarget]

/-- A history of a directory, read from its change log. -/
structure Course (history : List Change) : Prop where
  read : ∀ c ∈ history, Change.ofMetadata c.attributes c.metadata = .ok c
  ascending : Ascending history
  /-- Only entries that are there are modified or deleted. -/
  present : ∀ n, (h : n < history.length) → history[n].operation ≠ .add →
    Present (history.take n) history[n].target
  attributes : ∀ c ∈ history, c.operation = .add → c.attributes ≠ []
  /-- The names of the attributes of a change differ in more than their case. -/
  names : ∀ c ∈ history, (Assoc.keys c.lowered).Nodup

namespace Course

variable {history : List Change} {c : Change}

/-- A history without its last change is one, too. -/
theorem init (h : Course (history ++ [c])) : Course history where
  read c hc := h.read c (List.mem_append_left _ hc)
  ascending := (List.pairwise_append.1 h.ascending).1
  present n hn hop := by
    have hlt : n < (history ++ [c]).length := by
      rw [List.length_append]
      omega
    have hget : (history ++ [c])[n] = history[n] := List.getElem_append_left hn
    have hpresent := h.present n hlt
    rw [hget, List.take_append_of_le_length (Nat.le_of_lt hn)] at hpresent
    exact hpresent hop
  attributes c hc := h.attributes c (List.mem_append_left _ hc)
  names c hc := h.names c (List.mem_append_left _ hc)

/-- The last change of a history modifies or deletes an entry that is there. -/
theorem present_last (h : Course (history ++ [c])) (hop : c.operation ≠ .add) :
    Present history c.target := by
  have hlt : history.length < (history ++ [c]).length := by simp
  have hget : (history ++ [c])[history.length] = c := by simp
  have hpresent := h.present history.length hlt
  rw [hget, List.take_left] at hpresent
  exact hpresent hop

end Course

/-! ## What a mirror makes of one change -/

namespace Mirror

variable {m : Mirror} {attributes : Attributes} {c : Change} {history : List Change}
  {dn name : String} {fields : Json.Fields}

theorem find?_kept (m : Mirror) (c : Change) (name : String) :
    Assoc.find? name (m.kept c.attributes) =
      if m.keeps name then Assoc.find? name c.lowered else none :=
  Assoc.find?_filter_key m.keeps name c.lowered

theorem kept_nodup (m : Mirror) (hnd : (Assoc.keys c.lowered).Nodup) :
    (Assoc.keys (m.kept c.attributes)).Nodup :=
  hnd.sublist (List.filter_sublist.map Prod.fst)

/-- The fields of the object of an added entry. -/
theorem entry_eq (m : Mirror) (hnd : (Assoc.keys c.lowered).Nodup) :
    ∃ fields, m.entry c.attributes = .object fields ∧ Assoc.Ascending fields ∧
      ∀ name, Assoc.find? name fields =
        ((Assoc.find? name (m.kept c.attributes)).filter (· ≠ [])).map .ofStrings := by
  have hkept := m.kept_nodup hnd
  refine ⟨_, rfl, Assoc.ascending_ofList _, ?_⟩
  intro name
  have hnd' : (Assoc.keys ((m.kept c.attributes).filter fun p => p.2 ≠ [])).Nodup :=
    hkept.sublist (List.filter_sublist.map Prod.fst)
  rw [Assoc.find?_ofList_of_nodup (by rwa [Assoc.keys_map_value]), Assoc.find?_map_value]
  exact congrArg _ (Assoc.find?_filter_value hkept (fun values => values ≠ []) name)

/-- A patch names the kept attributes of its change. -/
theorem find?_patch (m : Mirror) (hnd : (Assoc.keys c.lowered).Nodup) (name : String) :
    Assoc.find? name (m.patch c.attributes) =
      (Assoc.find? name (m.kept c.attributes)).map fun values =>
        if values = [] then .null else .ofStrings values := by
  let value (values : List String) : Json.Value := if values = [] then .null else .ofStrings values
  have hkeys := Assoc.keys_map_value value (m.kept c.attributes)
  have hnd' : (Assoc.keys ((m.kept c.attributes).map fun p => (p.1, value p.2))).Nodup :=
    hkeys ▸ m.kept_nodup hnd
  exact (Assoc.find?_ofList_of_nodup hnd' name).trans (Assoc.find?_map_value value name _)

theorem patch_ascending (m : Mirror) (attributes : Attributes) :
    Assoc.Ascending (m.patch attributes) := Assoc.ascending_ofList _

/-! ## What a mirror holds -/

/-- What a mirror shows of an attribute after a history. -/
def shown (m : Mirror) (history : List Change) (dn name : String) : Option Json.Value :=
  if m.keeps name then
    ((lastSaid (Change.given name) history dn).filter (· ≠ [])).map .ofStrings
  else none

/-- An object with the attributes of an entry. -/
structure Reproduces (m : Mirror) (history : List Change) (dn : String) (fields : Json.Fields) :
    Prop where
  ascending : Assoc.Ascending fields
  find? : ∀ name, Assoc.find? name fields = m.shown history dn name

/-- What a mirror holds under a name: an object if there is an entry, nothing otherwise. -/
def Holds (m : Mirror) (history : List Change) (dn : String) (value : Option Json.Value) : Prop :=
  if Present history dn then
    ∃ fields, value = some (.object fields) ∧ m.Reproduces history dn fields
  else value = none

/-- A change says nothing of other entries. -/
theorem holds_append_of_ne {value : Option Json.Value} (hne : c.target ≠ dn) :
    m.Holds (history ++ [c]) dn value ↔ m.Holds history dn value := by
  have hsame : ∀ name, m.shown (history ++ [c]) dn name = m.shown history dn name := by
    intro name
    rw [shown, shown, lastSaid_append_singleton, if_neg hne]
  unfold Holds Present
  rw [lastSaid_append_singleton, if_neg hne]
  have hiff : ∀ fields, m.Reproduces (history ++ [c]) dn fields ↔ m.Reproduces history dn fields :=
    fun fields => ⟨fun h => ⟨h.ascending, fun name => (h.find? name).trans (hsame name)⟩,
      fun h => ⟨h.ascending, fun name => (h.find? name).trans (hsame name).symm⟩⟩
  simp only [hiff]

/-- An added entry has the attributes of its change. -/
theorem reproduces_entry (m : Mirror) (history : List Change) (hop : c.operation = .add)
    (hnd : (Assoc.keys c.lowered).Nodup) :
    ∃ fields, m.entry c.attributes = .object fields ∧
      m.Reproduces (history ++ [c]) c.target fields := by
  obtain ⟨fields, hentry, hasc, hfind⟩ := m.entry_eq hnd
  refine ⟨fields, hentry, hasc, ?_⟩
  intro name
  have hgiven : c.given name = some ((Assoc.find? name c.lowered).getD []) := by
    simp only [Change.given, hop]
  rw [hfind, find?_kept, shown, lastSaid_append_singleton, if_pos rfl, hgiven, Option.some_or]
  by_cases hkeep : m.keeps name = true
  · rw [if_pos hkeep, if_pos hkeep]
    -- an attribute without values is left out, as is one that is not named
    cases Assoc.find? name c.lowered with
    | none => rfl
    | some values => rfl
  · rw [if_neg hkeep, if_neg hkeep]
    rfl

/-- A modified entry has the attributes that its change names with the values given there, and
keeps the others. -/
theorem Reproduces.modify {fields : Json.Fields} (h : m.Reproduces history c.target fields)
    (hop : c.operation = .modify) (hnd : (Assoc.keys c.lowered).Nodup) :
    m.Reproduces (history ++ [c]) c.target ((m.patch c.attributes).foldl mergeField fields) := by
  refine ⟨ascending_foldl_mergeField h.ascending _, ?_⟩
  intro name
  have hgiven : c.given name = Assoc.find? name c.lowered := by
    simp only [Change.given, hop]
  rw [find?_foldl_mergeField, Assoc.find?_reverse (m.patch_ascending _).keys_nodup,
    m.find?_patch hnd, find?_kept, h.find?, shown, shown, lastSaid_append_singleton, if_pos rfl,
    hgiven]
  by_cases hkeep : m.keeps name = true
  · simp only [if_pos hkeep]
    cases hfind : Assoc.find? name c.lowered with
    | none => rfl
    | some values =>
        -- the attribute is removed, or takes the values that are given
        by_cases hvalues : values = []
        · simp [hvalues, Json.Value.isNull, Option.filter_some]
        · simp [hvalues, Json.Value.isNull, Json.Value.ofStrings, Option.filter_some]
  · simp only [if_neg hkeep]
    rfl

/-- A mirror that holds what a history made does so after one more change. -/
theorem Holds.step {d : Data} (hcourse : Course (history ++ [c]))
    (h : ∀ dn, m.Holds history dn (d ⟨m.bucket, dn⟩)) :
    ∃ intents, m.transform c = .ok intents ∧
      ∀ dn, m.Holds (history ++ [c]) dn (d.applyAll intents ⟨m.bucket, dn⟩) := by
  have hlast : c ∈ history ++ [c] := List.mem_append_right _ (List.mem_singleton_self c)
  have htarget := Change.target_ne_of_ofMetadata (hcourse.read c hlast)
  have hnd := hcourse.names c hlast
  -- what the intents do not name is as it was
  have hother : ∀ i : Intent, intentAddress i = ⟨m.bucket, c.target⟩ → ∀ dn, c.target ≠ dn →
      m.Holds (history ++ [c]) dn (d.applyAll [i] ⟨m.bucket, dn⟩) := by
    intro i hi dn hne
    rw [holds_append_of_ne hne, Data.applyAll_of_ne]
    · exact h dn
    · intro j hj heq
      rw [List.mem_singleton.1 hj, hi] at heq
      exact hne (Store.Address.mk.inj heq).2
  cases hop : c.operation with
  | add =>
      have hattributes := hcourse.attributes c hlast hop
      obtain ⟨fields, hentry, hreproduces⟩ := m.reproduces_entry history hop hnd
      refine ⟨[.put m.bucket c.target (m.entry c.attributes)], ?_, ?_⟩
      · simp [transform, htarget, hop, hattributes]
      · intro dn
        by_cases hdn : c.target = dn
        · subst hdn
          have hpresent : Present (history ++ [c]) c.target := by
            rw [Present, lastSaid_append_singleton, if_pos rfl, Change.presence, hop]
            rfl
          rw [Holds, if_pos hpresent]
          refine ⟨fields, ?_, hreproduces⟩
          rw [← hentry]
          simp [Data.apply]
        · exact hother _ rfl dn hdn
  | modify =>
      have hwas : Present history c.target := hcourse.present_last (by rw [hop]; decide)
      have hpresent : Present (history ++ [c]) c.target := by
        rw [Present, lastSaid_append_singleton, if_pos rfl, Change.presence, hop]
        exact hwas
      have hheld := h c.target
      rw [Holds, if_pos hwas] at hheld
      obtain ⟨fields, hvalue, hreproduces⟩ := hheld
      have hmodified := hreproduces.modify hop hnd
      by_cases hpatch : m.patch c.attributes = []
      · -- the change names no attribute that is kept
        refine ⟨[], ?_, ?_⟩
        · simp [transform, htarget, hop, hpatch]
        · intro dn
          by_cases hdn : c.target = dn
          · subst hdn
            rw [Holds, if_pos hpresent]
            rw [hpatch] at hmodified
            exact ⟨fields, hvalue, hmodified⟩
          · rw [holds_append_of_ne hdn]
            exact h dn
      · refine ⟨[.merge m.bucket c.target (.object (m.patch c.attributes))], ?_, ?_⟩
        · simp [transform, htarget, hop, hpatch]
        · intro dn
          by_cases hdn : c.target = dn
          · subst hdn
            rw [Holds, if_pos hpresent]
            refine ⟨_, ?_, hmodified⟩
            simp [Data.apply, hvalue, applyMerge, objectFields]
          · exact hother _ rfl dn hdn
  | delete =>
      refine ⟨[.delete m.bucket c.target], ?_, ?_⟩
      · simp [transform, htarget, hop]
      · intro dn
        by_cases hdn : c.target = dn
        · subst hdn
          have hgone : ¬ Present (history ++ [c]) c.target := by
            rw [Present, lastSaid_append_singleton, if_pos rfl, Change.presence, hop]
            simp
          rw [Holds, if_neg hgone]
          simp [Data.apply]
        · exact hother _ rfl dn hdn

/-- A pipeline with nothing but a mirror has the intents of the mirror. -/
theorem apply_of_transform (consumer : String) {intents : List Intent}
    (h : m.transform c = .ok intents) :
    (⟨consumer, [m.trigger]⟩ : Pipeline).apply c = .ok intents := by
  simp [Pipeline.apply, Pipeline.applyFrom, trigger, h]

/-- From nothing, a mirror comes to hold what a history makes, and refuses none of its changes. -/
theorem holds_run (consumer : String) {d : Data} (hempty : ∀ dn, d ⟨m.bucket, dn⟩ = none)
    (hcourse : Course history) :
    (∀ c ∈ history, ∃ intents, (⟨consumer, [m.trigger]⟩ : Pipeline).apply c = .ok intents) ∧
      ∀ dn, m.Holds history dn
        (d.applyAll (history.flatMap (⟨consumer, [m.trigger]⟩ : Pipeline).intentsOf)
          ⟨m.bucket, dn⟩) := by
  induction history using List.reverseRecOn with
  | nil =>
      constructor
      · intro c hc
        cases hc
      · intro dn
        have hnot : ¬ Present [] dn := by simp [Present, lastSaid]
        rw [Holds, if_neg hnot]
        exact hempty dn
  | append_singleton history c ih =>
      obtain ⟨haccepts, hholds⟩ := ih hcourse.init
      obtain ⟨intents, htransform, hholds'⟩ := Holds.step hcourse hholds
      have happly := apply_of_transform consumer htransform
      constructor
      · intro x hx
        rcases List.mem_append.1 hx with hx | hx
        · exact haccepts x hx
        · exact ⟨intents, List.mem_singleton.1 hx ▸ happly⟩
      · intro dn
        rw [List.flatMap_append, Data.applyAll_append, List.flatMap_singleton,
          Pipeline.intentsOf_of_apply happly]
        exact hholds' dn

/-- A mirror writes no bucket but its own. -/
theorem keepsOff (m : Mirror) (consumer : String) {a : Store.Address} (ha : m.bucket ≠ a.bucket) :
    (⟨consumer, [m.trigger]⟩ : Pipeline).KeepsOff a := by
  intro change intents happly i hi heq
  obtain ⟨t, ht, part, hpart, hmem⟩ := Pipeline.mem_applyFrom happly hi
  obtain rfl := List.mem_singleton.1 ht
  apply ha
  rw [← m.trigger_writesOnly _ _ _ hpart i hmem, ← heq]
  rfl

/-- What stands in an object that reproduces an entry. -/
theorem Reproduces.mem_iff {names : List String} {bucket : String}
    (h : (⟨bucket, names.map Text.lowercase⟩ : Mirror).Reproduces history dn fields)
    (name : String) (v : Json.Value) :
    (name, v) ∈ fields ↔ (names = [] ∨ ∃ listed ∈ names, Text.lowercase listed = name) ∧
      ∃ values, lastSaid (Change.given name) history dn = some values ∧ values ≠ [] ∧
        v = .ofStrings values := by
  have hkeeps : (⟨bucket, names.map Text.lowercase⟩ : Mirror).keeps name = true ↔
      (names = [] ∨ ∃ listed ∈ names, Text.lowercase listed = name) := by
    simp [keeps]
  rw [← Assoc.find?_eq_some_iff h.ascending.keys_nodup, h.find?, shown, ← hkeeps]
  by_cases hkeep : (⟨bucket, names.map Text.lowercase⟩ : Mirror).keeps name = true
  · rw [if_pos hkeep]
    constructor
    · intro hsome
      obtain ⟨values, hvalues, rfl⟩ := Option.map_eq_some_iff.1 hsome
      obtain ⟨hsaid, hne⟩ := Option.filter_eq_some_iff.1 hvalues
      exact ⟨hkeep, values, hsaid, of_decide_eq_true hne, rfl⟩
    · rintro ⟨-, values, hsaid, hne, rfl⟩
      rw [hsaid, Option.filter_some, if_pos (decide_eq_true hne)]
      rfl
  · rw [if_neg hkeep]
    constructor
    · intro hnone
      cases hnone
    · rintro ⟨hkeep', -⟩
      exact absurd hkeep' hkeep

/-- Whatever the allowlist and however the changes are cut into batches: committed in order to a
bucket that is empty, the intents of a mirror leave one record for every entry of the directory,
under its name, and no other. The record is an object with the entry's attributes, as far as they
are listed and have values, and those are the values that the last change to name them gave. -/
theorem reproduces_directory (names : List String) (bucket consumer checkpoints : String)
    (hbucket : bucket ≠ checkpoints) (history : List Change) (hcourse : Course history)
    (batches : List (Int × List Change)) (hcut : batches.flatMap Prod.snd = history)
    (s : Memory) (hs : s.Working) (hempty : ∀ dn, s.get ⟨bucket, dn⟩ = .ok none)
    (hbefore : ∀ c ∈ history, StandsBefore s.records ⟨checkpoints, consumer⟩ c.seq)
    (p : Pipeline)
    (hp : p = ⟨consumer, [(⟨bucket, names.map Text.lowercase⟩ : Mirror).trigger]⟩) :
    (∀ c ∈ history, ∃ intents, p.apply c = .ok intents) ∧
      (∀ result ∈ (s.commitAll (p.proposals checkpoints batches)).2, result = .ok .applied) ∧
      ∀ dn, ∃ found,
        (s.commitAll (p.proposals checkpoints batches)).1.get ⟨bucket, dn⟩ = .ok found ∧
        (found.isSome = true ↔ Present history dn) ∧
        ∀ record ∈ found, ∃ fields, record.value = .object fields ∧
          (fields.map Prod.fst).Nodup ∧
          ∀ name v, (name, v) ∈ fields ↔
            (names = [] ∨ ∃ listed ∈ names, Text.lowercase listed = name) ∧
              ∃ values, lastSaid (Change.given name) history dn = some values ∧ values ≠ [] ∧
                v = .ofStrings values := by
  subst hp
  subst hcut
  generalize hm : (⟨bucket, names.map Text.lowercase⟩ : Mirror) = m
  have hmbucket : m.bucket = bucket := by rw [← hm]
  have hoff := m.keepsOff consumer (a := ⟨checkpoints, consumer⟩) (hmbucket ▸ hbucket)
  obtain ⟨hworking, hresults, hvalues⟩ := commitAll_applied hoff hcourse.ascending hs hbefore
  have hnothing : ∀ dn, s.records.value ⟨m.bucket, dn⟩ = none := by
    intro dn
    have hread := hempty dn
    rw [hs.get, Except.ok.injEq] at hread
    rw [hmbucket, Records.value, hread]
    rfl
  obtain ⟨haccepts, hholds⟩ := holds_run consumer hnothing hcourse
  refine ⟨haccepts, hresults, ?_⟩
  intro dn
  have hne : (⟨bucket, dn⟩ : Store.Address) ≠ ⟨checkpoints, consumer⟩ := by
    intro heq
    exact hbucket (Store.Address.mk.inj heq).1
  have hheld := hholds dn
  rw [hmbucket, ← hvalues _ hne, Records.value, Holds] at hheld
  refine ⟨_, hworking.get ⟨bucket, dn⟩, ?_⟩
  by_cases hpresent : Present (batches.flatMap Prod.snd) dn
  · rw [if_pos hpresent] at hheld
    obtain ⟨fields, hvalue, hreproduces⟩ := hheld
    obtain ⟨record, hrecord, hfields⟩ := Option.map_eq_some_iff.1 hvalue
    rw [hrecord]
    refine ⟨⟨fun _ => hpresent, fun _ => rfl⟩, ?_⟩
    intro record' hrecord'
    obtain rfl := Option.some.inj hrecord'
    subst hm
    exact ⟨fields, hfields, hreproduces.ascending.keys_nodup, hreproduces.mem_iff⟩
  · rw [if_neg hpresent, Option.map_eq_none_iff] at hheld
    rw [hheld]
    refine ⟨⟨?_, fun h => absurd h hpresent⟩, ?_⟩
    · intro hsome
      cases hsome
    · intro record hrecord
      cases hrecord

/-- A change as the directory attaches its metadata. -/
def changed (seq : UInt64) (op : Operation) (target : String) (attributes : Attributes) : Change :=
  ⟨seq, op, target, attributes, entryMetadata target seq op⟩

/-- Two people are added; one loses an attribute, the other is deleted and added again. -/
def comings : List Change :=
  [changed 1 .add "cn=ann,dc=x" [("CN", ["Ann"]), ("Mail", ["a@x"]), ("phone", ["1"])],
    changed 2 .add "cn=bob,dc=x" [("cn", ["Bob"]), ("mail", ["b@x"])],
    changed 3 .modify "cn=ann,dc=x" [("MAIL", []), ("cn", ["Anna"])],
    changed 4 .delete "cn=bob,dc=x" [],
    changed 5 .add "cn=bob,dc=x" [("cn", ["Bobby"]), ("mail", []), ("phone", ["2"])]]

theorem reproduces_directory_added_again :
    let m : Mirror := ⟨"mirror", ["CN", "mail"].map Text.lowercase⟩
    let p : Pipeline := ⟨"people", [m.trigger]⟩
    let s := (({} : Memory).commitAll
      (p.proposals "checkpoints" [(7, comings.take 1), (8, []), (9, comings.drop 1)])).1
    ∃ record fields, s.get ⟨"mirror", "cn=bob,dc=x"⟩ = .ok (some record) ∧
      record.value = .object fields ∧ ("cn", .ofStrings ["Bobby"]) ∈ fields ∧
      ∀ v, ("mail", v) ∉ fields ∧ ("phone", v) ∉ fields := by
  intro m p s
  have hascending : Ascending comings := by
    unfold Ascending
    decide +kernel
  have hcourse : Course comings :=
    ⟨by decide +kernel, hascending, by decide +kernel, by decide +kernel, by decide +kernel⟩
  have hpresent : Present comings "cn=bob,dc=x" := by decide +kernel
  have hcn : lastSaid (Change.given "cn") comings "cn=bob,dc=x" = some ["Bobby"] := by
    decide +kernel
  have hmail : lastSaid (Change.given "mail") comings "cn=bob,dc=x" = some [] := by
    decide +kernel
  obtain ⟨-, -, hshown⟩ := reproduces_directory ["CN", "mail"] "mirror" "people" "checkpoints"
    (by decide) comings hcourse [(7, comings.take 1), (8, []), (9, comings.drop 1)] (by rfl) {}
    ⟨rfl, rfl, rfl⟩ (fun _ => rfl) (fun c _ => Checkpoint.standsBefore_of_absent rfl c.seq) p rfl
  obtain ⟨found, hget, hiff, hobject⟩ := hshown "cn=bob,dc=x"
  obtain ⟨record, rfl⟩ := Option.isSome_iff_exists.1 (hiff.2 hpresent)
  obtain ⟨fields, hfields, -, hmem⟩ := hobject record rfl
  refine ⟨record, fields, hget, hfields, ?_, ?_⟩
  · exact (hmem _ _).2 ⟨.inr ⟨"CN", by simp, by decide +kernel⟩, ["Bobby"], hcn, by simp, rfl⟩
  · intro v
    constructor
    · intro hv
      obtain ⟨-, values, hsaid, hne, -⟩ := (hmem _ _).1 hv
      rw [hmail] at hsaid
      exact hne (Option.some.inj hsaid).symm
    · intro hv
      obtain ⟨hlisted, -⟩ := (hmem _ _).1 hv
      have hnot : ¬ (["CN", "mail"] = [] ∨
          ∃ listed ∈ ["CN", "mail"], Text.lowercase listed = "phone") := by decide +kernel
      exact hnot hlisted

end Mirror

end ChangeRelay
