import ChangeRelay.Feed.ChangeStream
import ChangeRelay.Feed.Reading
import ChangeRelay.Proofs.Assoc
import ChangeRelay.Proofs.Change
import ChangeRelay.Proofs.Feed.Log

/-!
# Entries and their faults

What an entry of a stream has to hold to be read as a change, and the position that the fault of any
other entry is pinned to: the number in its ID, whatever its controls may say. An entry of a log in
memory is pinned to its position in the log.
-/

namespace ChangeRelay.Feed

namespace StreamEntry

variable {e : StreamEntry} {c : Change} {attributes : Attributes} {metadata : Json.Fields}

/-- What an entry says of its change. -/
structure Tells (e : StreamEntry) (c : Change) : Prop where
  /-- The ID has the number. -/
  number : parseChangeId? e.id = some c.seq
  /-- So has the first entry change notification among the controls, and it has the kind. -/
  notification : ∃ text controls control notification,
    e.textField "controls" = .ok text ∧ Json.Value.parse? text = some (.array controls) ∧
      controls.find? Control.isEntryChange = some control ∧
      control.get? "value" = some notification ∧
      (notification.get? "changeNumber").bind Control.lenientWord? = some c.seq ∧
      ((notification.get? "changeType").bind Control.lenientWord?).bind Operation.ofChangeType? =
        some c.operation
  /-- The name has a normal form, and is not the root's. -/
  target : ∃ dn, e.textField "dn" = .ok dn ∧ Dn.normalize dn = .ok c.target ∧ c.target ≠ ""
  /-- The attributes are those of the expanded payload; a digest is that of the same octets. -/
  payload : ∃ raw changes, e.bytesField "changes" = .ok raw ∧ expand raw = .ok changes ∧
    decodeAttributes changes = .ok c.attributes ∧
    (Assoc.contains "hash" e.fields = true →
      e.textField "hash" = .ok (Text.hex (Sha256.digest changes)))

/-- The metadata of an entry. -/
def metadataOf (e : StreamEntry) (dn : String) (controls : Json.Value) (time : Option String) :
    Json.Fields :=
  Assoc.ofList ([("dn", .string dn), ("controls", controls), ("stream_id", .string e.id)] ++
    (time.map fun t => ("changetime", .string t)).toList)

theorem contents_eq_ok : e.contents = .ok (attributes, metadata) ↔
    ∃ dn raw changes text controls time, e.textField "dn" = .ok dn ∧
      e.bytesField "changes" = .ok raw ∧ expand raw = .ok changes ∧ e.checkHash changes = .ok () ∧
      decodeAttributes changes = .ok attributes ∧ e.textField "controls" = .ok text ∧
      Json.Value.parse? text = some controls ∧ e.optionalTextField "changetime" = .ok time ∧
      metadata = e.metadataOf dn controls time := by
  unfold contents
  simp only [bind_eq_ok, pure, Except.pure]
  constructor
  · rintro ⟨dn, hdn, raw, hraw, changes, hexpand, ⟨⟩, hhash, attributes', hattributes, text, htext,
      h⟩
    cases hparse : Json.Value.parse? text with
    | none =>
        simp only [hparse] at h
        cases h
    | some controls =>
        simp only [hparse] at h
        obtain ⟨_, hcontrols, h⟩ := bind_eq_ok.1 h
        obtain ⟨time, htime, h⟩ := bind_eq_ok.1 h
        cases hcontrols
        cases h
        exact ⟨dn, raw, changes, text, controls, time, hdn, hraw, hexpand, hhash, hattributes,
          htext, hparse, htime, rfl⟩
  · rintro ⟨dn, raw, changes, text, controls, time, hdn, hraw, hexpand, hhash, hattributes, htext,
      hparse, htime, rfl⟩
    refine ⟨dn, hdn, raw, hraw, changes, hexpand, (), hhash, attributes, hattributes, text, htext,
      ?_⟩
    simp only [hparse]
    exact bind_eq_ok.2 ⟨controls, rfl, bind_eq_ok.2 ⟨time, htime, rfl⟩⟩

/-- A payload passes if the entry states its digest or none. -/
theorem checkHash_eq_ok {changes : Bytes} : e.checkHash changes = .ok () ↔
    (Assoc.contains "hash" e.fields = true →
      e.textField "hash" = .ok (Text.hex (Sha256.digest changes))) := by
  unfold checkHash optionalTextField
  cases hhash : Assoc.contains "hash" e.fields with
  | false => simp [bind, Except.bind, pure, Except.pure]
  | true =>
      cases htext : e.textField "hash" with
      | error reason => simp [bind, Except.bind, Except.map]
      | ok expected =>
          simp only [if_true, Except.map, bind_eq_ok, Except.ok.injEq, forall_const]
          constructor
          · rintro ⟨_, rfl, h⟩
            by_cases heq : expected = contentHash changes
            · exact heq
            · simp [heq] at h
          · rintro rfl
            exact ⟨_, rfl, by simp [contentHash, Sha256.hexDigest, pure, Except.pure]⟩

theorem find?_controls_metadataOf (e : StreamEntry) (dn : String) (controls : Json.Value)
    (time : Option String) :
    Assoc.find? "controls" (e.metadataOf dn controls time) = some controls := by
  rw [metadataOf, Assoc.find?_ofList]
  cases time <;> simp [Assoc.find?]

theorem find?_dn_metadataOf (e : StreamEntry) (dn : String) (controls : Json.Value)
    (time : Option String) :
    Assoc.find? "dn" (e.metadataOf dn controls time) = some (.string dn) := by
  rw [metadataOf, Assoc.find?_ofList]
  cases time <;> simp [Assoc.find?]

/-- What is read from an entry is what it says. -/
theorem tells_of_change (h : e.change = .ok c) : e.Tells c := by
  unfold change at h
  split at h
  · cases h
  rename_i seq hseq
  split at h
  · cases h
  rename_i attributes metadata hcontents
  split at h
  · cases h
  rename_i c' hchange
  split at h
  · rename_i heq
    cases h
    subst heq
    obtain ⟨dn, raw, changes, text, controls, time, hdn, hraw, hexpand, hhash, hattributes, htext,
      hparse, -, rfl⟩ := contents_eq_ok.1 hcontents
    obtain ⟨⟨⟨items, control, notification, hitems, hnotified⟩, dn', hdn', htarget⟩, rfl, -⟩ :=
      Change.ofMetadata_eq_ok.1 hchange
    -- the controls and the name that were looked at are those of the fields
    rw [find?_controls_metadataOf] at hitems
    rw [find?_dn_metadataOf] at hdn'
    cases hitems
    cases hdn'
    exact ⟨hseq, ⟨text, items, control, notification, htext, hparse, hnotified⟩, ⟨dn, hdn, htarget⟩,
      ⟨raw, changes, hraw, hexpand, hattributes, checkHash_eq_ok.1 hhash⟩⟩
  · cases h

/-- An entry that is not read as a change is malformed, and pinned to the number in its ID. -/
theorem malformed_of_change {fault : FeedFault} (h : e.change = .error fault) :
    ∃ reason, fault = .malformed (parseChangeId? e.id) reason := by
  unfold change at h
  split at h
  · rename_i hseq
    cases h
    exact ⟨_, by rw [hseq]⟩
  rename_i seq hseq
  rw [hseq]
  split at h
  · cases h
    exact ⟨_, rfl⟩
  split at h
  · rename_i fault' hfault
    cases h
    obtain ⟨n, reason, rfl⟩ := Change.malformed_of_ofMetadata hfault
    exact ⟨reason, rfl⟩
  · split at h
    · cases h
    · cases h
      exact ⟨_, rfl⟩

end StreamEntry

/-! ## Entries of a log in memory -/

namespace Subscription

variable {s t : Subscription} {f f' : Memory} {n : Option UInt64} {reason : String}

theorem stopsAt_of_poll (h : s.poll f = (f', t, some (.error (.malformed n reason)))) :
    s.StopsAt f t (.malformed n reason) := by
  have hlook : (s.look f).2 = .fault (.malformed n reason) := look_of_poll_error (by rw [h])
  have hcursor : (s.look f).1 = t := by
    rw [poll_of_fault hlook, Prod.mk.injEq, Prod.mk.injEq] at h
    exact h.2.1
  rcases look_fault hlook with ⟨_, _, hother⟩ | hstops
  · cases hother
  · exact hcursor ▸ hstops

theorem setOut_ne_malformed (s : Subscription) :
    s.setOut ≠ .returns (.error (.malformed n reason)) := by
  unfold setOut
  split <;> simp

theorem stopsAt_of_inspect {woken : Bool}
    (h : s.inspect f woken = (t, .returns (.error (.malformed n reason)))) :
    s.StopsAt f t (.malformed n reason) := by
  unfold inspect at h
  split at h
  · cases h
  rename_i seq entry hbeyond
  have hmem := List.mem_of_find?_eq_some hbeyond
  have hlt := List.find?_some hbeyond
  split at h
  · rename_i fault hchange
    cases h
    exact ⟨entry, hmem, of_decide_eq_true hlt, hchange⟩
  · split at h
    · cases h
    · exact absurd (Prod.mk.inj h).2 (setOut_ne_malformed s)

/-- A read that goes on step by step stops at entries only, too. -/
theorem stopsAt_of_resume {read : Read}
    (h : s.resume f read = some (f', t, .returns (.error (.malformed n reason)))) :
    s.StopsAt f t (.malformed n reason) := by
  unfold resume at h
  split at h
  · obtain ⟨-, h⟩ := Prod.mk.inj (Option.some.inj h)
    exact stopsAt_of_inspect h
  · cases h
  · obtain ⟨-, h⟩ := Prod.mk.inj (Option.some.inj h)
    obtain ⟨-, h⟩ := Prod.mk.inj h
    split at h <;> cases h
  · cases h
  · split at h
    · obtain ⟨-, h⟩ := Prod.mk.inj (Option.some.inj h)
      exact absurd (Prod.mk.inj h).2 (setOut_ne_malformed s)
    · cases h

end Subscription

/-- What is read from a stream's entry is what the entry says, and what cannot be read is malformed
at the number in its ID. A subscription of a log in memory that finds an entry malformed has come to
its position, and names it. -/
theorem change_told_or_pinned :
    (∀ (e : StreamEntry) (c : Change), e.change = .ok c → e.Tells c) ∧
      (∀ (e : StreamEntry) (fault : FeedFault), e.change = .error fault →
        ∃ reason, fault = .malformed (parseChangeId? e.id) reason) ∧
      ∀ (s t : Subscription) (f f' : Memory) (n : Option UInt64) (reason : String),
        s.poll f = (f', t, some (.error (.malformed n reason))) ∨
          (∃ read, s.resume f read = some (f', t, .returns (.error (.malformed n reason)))) →
        n = some t.cursor ∧ s.StopsAt f t (.malformed n reason) := by
  refine ⟨fun e c => StreamEntry.tells_of_change,
    fun e fault => StreamEntry.malformed_of_change, ?_⟩
  intro s t f f' n reason hread
  have hstops : s.StopsAt f t (.malformed n reason) := by
    rcases hread with hpoll | ⟨read, hresume⟩
    · exact Subscription.stopsAt_of_poll hpoll
    · exact Subscription.stopsAt_of_resume hresume
  obtain ⟨reason', hpinned⟩ := hstops.malformed
  cases hpinned
  exact ⟨rfl, hstops⟩

/-- An entry of number 7, and one like it with another number in its controls. -/
def numbered (number : String) : StreamEntry where
  id := "7-0"
  fields := [("changes", .bulk (Text.encodeUtf8 "\x7b\"cn\":[\"a\"]\x7d")),
    ("controls", .bulk (Text.encodeUtf8
      ("[\x7b\"type\":\"2.16.840.1.113730.3.4.7\",\"value\":" ++
        "\x7b\"changeType\":1,\"changeNumber\":" ++ number ++ "\x7d\x7d]"))),
    ("dn", .bulk (Text.encodeUtf8 " CN=a , dc=x"))]

theorem change_told_or_pinned_numbered :
    (∃ c, (numbered "7").change = .ok c ∧ (numbered "7").Tells c ∧
      c.target = "cn=a,dc=x" ∧ c.attributes = [("cn", ["a"])]) ∧
      ∃ reason, (numbered "8").change = .error (.malformed (some 7) reason) := by
  obtain ⟨htells, hpinned, -⟩ := change_told_or_pinned
  constructor
  · cases hread : (numbered "7").change with
    | ok c =>
        have hparts : (numbered "7").change.toOption.map (fun c => (c.target, c.attributes)) =
            some ("cn=a,dc=x", [("cn", ["a"])]) := by decide +kernel
        rw [hread] at hparts
        obtain ⟨htarget, hattributes⟩ := Prod.mk.inj (Option.some.inj hparts)
        exact ⟨c, rfl, htells _ _ hread, htarget, hattributes⟩
    | error fault =>
        have hok : (numbered "7").change.isOk = true := by decide +kernel
        rw [hread] at hok
        cases hok
  · cases hread : (numbered "8").change with
    | ok c =>
        have hok : (numbered "8").change.isOk = false := by decide +kernel
        rw [hread] at hok
        cases hok
    | error fault =>
        obtain ⟨reason, rfl⟩ := hpinned _ _ hread
        have hid : parseChangeId? (numbered "8").id = some 7 := by decide +kernel
        exact ⟨reason, by rw [hid]⟩

end ChangeRelay.Feed
