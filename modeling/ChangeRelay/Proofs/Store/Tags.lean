import ChangeRelay.Proofs.Json.Alike
import ChangeRelay.Proofs.Text.RoundTrip
import ChangeRelay.Store.Record
import Mathlib.Data.Set.Function

/-!
# Tags identify values

The canonical text of a value can be read back, so values of one tag are alike unless their texts
are two octet strings of one digest. A guard on what was read before therefore holds exactly while
the record is there or not as before, with a value that is alike.
-/

namespace ChangeRelay.Store

open Json

/-- The octets that the tag of a value is the digest of, however the value was written. -/
def message (v : Value) : Bytes := Text.encodeUtf8 v.canonical.text

/-- The record of a value, however it was written. -/
def Record.ofWritten (v : Value) : Record := .of v.canonical

/-- Values are alike exactly if their tags are digests of the same octets. -/
theorem message_eq_iff {a b : Value} (ha : a.Sound) (hb : b.Sound) :
    message a = message b ↔ a.Alike b := by
  rw [← Value.canonical_eq_iff ha hb]
  constructor
  · intro h
    have htext := congrArg String.toList (Text.encodeUtf8_inj h)
    rw [Value.text, Value.text, String.toList_ofList, String.toList_ofList] at htext
    exact ha.canonical.eq_of_textChars_eq hb.canonical htext
  · intro h
    rw [message, message, h]

theorem etag_canonical (v : Value) : etag v.canonical = Text.hex (Sha256.digest (message v)) := rfl

/-- Where no two octet strings have one digest, tags are the same exactly for alike values. -/
theorem etag_eq_iff {S : Set Bytes} (hS : S.InjOn Sha256.digest) {a b : Value} (ha : a.Sound)
    (hb : b.Sound) (hmemA : message a ∈ S) (hmemB : message b ∈ S) :
    etag a.canonical = etag b.canonical ↔ a.Alike b := by
  rw [← message_eq_iff ha hb, etag_canonical, etag_canonical]
  constructor
  · intro h
    exact hS hmemA hmemB (Text.hex_inj h)
  · intro h
    rw [h]

/-- Tags identify values, and the guard that demands what was read holds exactly while the record
is unchanged: still absent, or still there with a value that is alike. -/
theorem etag_identifies {S : Set Bytes} (hS : S.InjOn Sha256.digest) :
    (∀ a b : Value, a.Sound → b.Sound → message a ∈ S → message b ∈ S →
      (etag a.canonical = etag b.canonical ↔ a.Alike b)) ∧
    ∀ observed current : Option Value,
      (∀ v ∈ observed, v.Sound ∧ message v ∈ S) → (∀ v ∈ current, v.Sound ∧ message v ∈ S) →
      ((Guard.ofCurrent (observed.map Record.ofWritten)).holds
          ((current.map Record.ofWritten).map Record.etag) = true ↔
        Option.Rel Value.Alike observed current) := by
  constructor
  · intro a b ha hb hmemA hmemB
    exact etag_eq_iff hS ha hb hmemA hmemB
  · intro observed current hobserved hcurrent
    cases observed with
    | none => cases current <;> simp [Guard.ofCurrent, Guard.holds]
    | some a =>
      cases current with
      | none => simp [Guard.ofCurrent, Guard.holds]
      | some b =>
        obtain ⟨ha, hmemA⟩ := hobserved a rfl
        obtain ⟨hb, hmemB⟩ := hcurrent b rfl
        rw [Option.rel_some_some, ← etag_eq_iff hS ha hb hmemA hmemB]
        simp only [Option.map_some, Guard.ofCurrent, Guard.holds, decide_eq_true_eq,
          Option.some.injEq]
        exact eq_comm

/-- An object of a number and an array that ends in a zero of this sign, its fields written in
either order. -/
def zeroObject (neg reordered : Bool) : Value :=
  let a := ("a", Value.array [.int 2, .double (.zero neg)])
  let b := ("b", Value.int 1)
  .object (if reordered then [b, a] else [a, b])

theorem sound_zeroObject (neg reordered : Bool) : (zeroObject neg reordered).Sound := by
  have hzero : (Double.zero neg).isFinite = true := by cases neg <;> decide
  have harray : (Value.array [.int 2, .double (.zero neg)]).Sound := by
    apply Value.Sound.array
    intro v hv
    rcases List.mem_pair.1 hv with rfl | rfl
    · exact .int (by decide) (by decide)
    · exact .double hzero
  have hint : (Value.int 1).Sound := .int (by decide) (by decide)
  apply Value.Sound.object
  cases reordered <;> simp [harray, hint]

theorem etag_identifies_zero_signs :
    Set.InjOn Sha256.digest {message (zeroObject false false), message (zeroObject true false)} ∧
    etag (zeroObject false false).canonical = etag (zeroObject false true).canonical ∧
    (Guard.ofCurrent (some (.ofWritten (zeroObject false false)))).holds
      (some (Record.ofWritten (zeroObject false true)).etag) = true ∧
    (Guard.ofCurrent (some (.ofWritten (zeroObject false false)))).holds
      (some (Record.ofWritten (zeroObject true false)).etag) = false := by
  have hS : Set.InjOn Sha256.digest
      {message (zeroObject false false), message (zeroObject true false)} := by
    have hdigests : Sha256.digest (message (zeroObject false false)) ≠
        Sha256.digest (message (zeroObject true false)) := by
      decide +kernel
    rw [Set.injOn_pair]
    exact fun heq => absurd heq hdigests
  have hplus := sound_zeroObject false false
  have hreordered := sound_zeroObject false true
  have hminus := sound_zeroObject true false
  have hsame : message (zeroObject false true) = message (zeroObject false false) := by
    decide +kernel
  have hother : ¬ (zeroObject false false).Alike (zeroObject true false) := by
    rw [← message_eq_iff hplus hminus]
    decide +kernel
  obtain ⟨htags, hguards⟩ := etag_identifies hS
  have halike := (message_eq_iff hplus hreordered).1 hsame.symm
  refine ⟨hS, (htags _ _ hplus hreordered (.inl rfl) (.inl hsame)).2 halike, ?_, ?_⟩
  · refine (hguards (some _) (some _) ?_ ?_).2 (.some halike)
    · rintro _ ⟨⟩
      exact ⟨hplus, .inl rfl⟩
    · rintro _ ⟨⟩
      exact ⟨hreordered, .inl hsame⟩
  · rw [← Bool.not_eq_true]
    intro hholds
    have hrel := (hguards (some (zeroObject false false)) (some (zeroObject true false))
      (by rintro _ ⟨⟩; exact ⟨hplus, .inl rfl⟩) (by rintro _ ⟨⟩; exact ⟨hminus, .inr rfl⟩)).1 hholds
    exact hother (Option.rel_some_some.1 hrel)

end ChangeRelay.Store
