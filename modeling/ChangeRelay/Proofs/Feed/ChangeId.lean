import ChangeRelay.Proofs.Feed.Stream
import Mathlib.Algebra.Ring.Nat
import Mathlib.Data.List.TakeWhile

/-!
# Change numbers in entry IDs

An entry ID is the numeral of a word, or two of them with a dash between, and its change number is
the first one. A numeral may have a plus sign and zeros in front; one that is too large for a word
is refused wherever it stands, and nothing else is an ID.
-/

namespace ChangeRelay

/-! ## Numerals -/

namespace Text

/-- The numerals of a number: ASCII digits, of which there is at least one, behind an optional plus
sign. Zeros in front do not count. -/
inductive Numeral : Nat → List Char → Prop where
  | plain {ds : List Char} :
      ds ≠ [] → (∀ d ∈ ds, d.isDigit = true) → Numeral (Nat.ofDigitChars 10 ds 0) ds
  | signed {ds : List Char} :
      ds ≠ [] → (∀ d ∈ ds, d.isDigit = true) → Numeral (Nat.ofDigitChars 10 ds 0) ('+' :: ds)

variable {n : Nat} {cs : List Char}

theorem isDigit_of_digitValue? {c : Char} {d : Nat} (h : digitValue? c = some d) :
    c.isDigit = true := by
  rw [digitValue?] at h
  split at h
  · rename_i hdigit
    simpa [Char.isDigit, Char.le_def] using hdigit
  · cases h

/-- Nothing but digits is read as a run of them, and the whole run is read. -/
theorem readDigits?_eq_some_iff {acc : Nat} :
    readDigits? acc cs = some n ↔
      (∀ c ∈ cs, c.isDigit = true) ∧ Nat.ofDigitChars 10 cs acc = n := by
  constructor
  · intro h
    have hdigits : ∀ c ∈ cs, c.isDigit = true := by
      induction cs generalizing acc with
      | nil => simp
      | cons c cs ih =>
        rw [readDigits?, Option.bind_eq_some_iff] at h
        obtain ⟨d, hd, hrest⟩ := h
        exact List.forall_mem_cons.2 ⟨isDigit_of_digitValue? hd, ih hrest⟩
    rw [readDigits?_of_isDigit hdigits, Option.some_inj] at h
    exact ⟨hdigits, h⟩
  · rintro ⟨hdigits, rfl⟩
    exact readDigits?_of_isDigit hdigits acc

theorem readNat?_eq_some_iff :
    readNat? cs = some n ↔
      cs ≠ [] ∧ (∀ c ∈ cs, c.isDigit = true) ∧ Nat.ofDigitChars 10 cs 0 = n := by
  cases cs with
  | nil => simp [readNat?]
  | cons c cs => simp [readNat?, readDigits?_eq_some_iff]

/-- What is read as a number are its numerals. -/
theorem readUnsigned?_eq_some_iff : readUnsigned? cs = some n ↔ Numeral n cs := by
  constructor
  · intro h
    rw [readUnsigned?.eq_def] at h
    split at h
    · obtain ⟨hne, hdigits, rfl⟩ := readNat?_eq_some_iff.1 h
      exact .signed hne hdigits
    · obtain ⟨hne, hdigits, rfl⟩ := readNat?_eq_some_iff.1 h
      exact .plain hne hdigits
  · rintro (⟨hne, hdigits⟩ | ⟨hne, hdigits⟩)
    · have hread := readNat?_eq_some_iff.2 ⟨hne, hdigits, rfl⟩
      rw [readUnsigned?.eq_def]
      split
      · -- the plus sign is no digit
        exact absurd (hdigits '+' List.mem_cons_self) (by decide)
      · exact hread
    · exact readNat?_eq_some_iff.2 ⟨hne, hdigits, rfl⟩

theorem Numeral.toDigits (n : Nat) : Numeral n (Nat.toDigits 10 n) :=
  readUnsigned?_eq_some_iff.1 (readUnsigned?_toDigits n)

theorem Numeral.dash_not_mem (h : Numeral n cs) : '-' ∉ cs := by
  intro hmem
  rcases h with ⟨-, hdigits⟩ | ⟨-, hdigits⟩
  · exact absurd (hdigits '-' hmem) (by decide)
  · rcases List.mem_cons.1 hmem with heq | hmem
    · exact absurd heq (by decide)
    · exact absurd (hdigits '-' hmem) (by decide)

theorem wordOfNat?_eq_ite (n : Nat) :
    wordOfNat? n = if n < 2 ^ 64 then some (UInt64.ofNat n) else none := rfl

theorem wordOfNat?_eq_some_iff {w : UInt64} : wordOfNat? n = some w ↔ n = w.toNat := by
  constructor
  · intro h
    rw [wordOfNat?] at h
    split at h
    · rename_i hlt
      cases h
      exact (UInt64.toNat_ofNat_of_lt' hlt).symm
    · cases h
  · rintro rfl
    exact wordOfNat?_toNat w

/-- What is read as a word are the numerals of its value. -/
theorem readUnsigned?_bind_wordOfNat?_eq_some_iff {w : UInt64} :
    (readUnsigned? cs).bind wordOfNat? = some w ↔ Numeral w.toNat cs := by
  rw [Option.bind_eq_some_iff]
  constructor
  · rintro ⟨n, hread, hword⟩
    rw [wordOfNat?_eq_some_iff] at hword
    rw [← hword]
    exact readUnsigned?_eq_some_iff.1 hread
  · intro h
    exact ⟨w.toNat, readUnsigned?_eq_some_iff.2 h, wordOfNat?_toNat w⟩

end Text

/-! ## IDs -/

namespace Feed

open Text (Numeral readUnsigned? wordOfNat?)

/-- The IDs of a change number: a numeral of it, alone or with the numeral of some word behind a
dash. -/
inductive IdOf (seq : UInt64) : List Char → Prop where
  | whole {d : List Char} : Numeral seq.toNat d → IdOf seq d
  | parts {d e : List Char} (part : UInt64) :
      Numeral seq.toNat d → Numeral part.toNat e → IdOf seq (d ++ '-' :: e)

variable {d e : List Char} {n k : Nat} {seq : UInt64}

theorem forall_ne_dash (h : '-' ∉ d) : ∀ c ∈ d, decide (c ≠ '-') = true := fun _ hc =>
  decide_eq_true (ne_of_mem_of_not_mem hc h)

/-- A text without a dash is read as a whole. -/
theorem parseChangeId?_whole (h : '-' ∉ d) :
    parseChangeId? (String.ofList d) = (readUnsigned? d).bind wordOfNat? := by
  have hdrop := List.dropWhile_eq_nil_iff.2 (forall_ne_dash h)
  have htake := List.takeWhile_eq_self_iff.2 (forall_ne_dash h)
  simp only [parseChangeId?, String.toList_ofList, hdrop, htake]
  -- the second part is zero then
  rfl

/-- Of a text with a dash, what stands before the first one is read, if the rest is a word too. -/
theorem parseChangeId?_parts (h : '-' ∉ d) :
    parseChangeId? (String.ofList (d ++ '-' :: e)) =
      ((readUnsigned? e).bind wordOfNat?).bind fun _ => (readUnsigned? d).bind wordOfNat? := by
  have hdrop : (d ++ '-' :: e).dropWhile (· ≠ '-') = '-' :: e := by
    rw [List.dropWhile_append_of_pos (forall_ne_dash h)]
    rfl
  have htake : (d ++ '-' :: e).takeWhile (· ≠ '-') = d := by
    rw [List.takeWhile_append_of_pos (forall_ne_dash h)]
    simp
  simp only [parseChangeId?, String.toList_ofList, hdrop, htake]
  cases (readUnsigned? e).bind wordOfNat? <;> rfl

theorem parseChangeId?_eq_some_iff (id : String) :
    parseChangeId? id = some seq ↔ IdOf seq id.toList := by
  obtain ⟨cs, rfl⟩ : ∃ cs, id = String.ofList cs := ⟨id.toList, String.ofList_toList.symm⟩
  rw [String.toList_ofList]
  constructor
  · intro h
    by_cases hdash : '-' ∈ cs
    · obtain ⟨d, e, rfl, hd⟩ := List.eq_append_cons_of_mem hdash
      rw [parseChangeId?_parts hd, Option.bind_eq_some_iff] at h
      obtain ⟨part, hsecond, hfirst⟩ := h
      exact .parts part (Text.readUnsigned?_bind_wordOfNat?_eq_some_iff.1 hfirst)
        (Text.readUnsigned?_bind_wordOfNat?_eq_some_iff.1 hsecond)
    · rw [parseChangeId?_whole hdash] at h
      exact .whole (Text.readUnsigned?_bind_wordOfNat?_eq_some_iff.1 h)
  · rintro (hfirst | ⟨part, hfirst, hsecond⟩)
    · rw [parseChangeId?_whole hfirst.dash_not_mem]
      exact Text.readUnsigned?_bind_wordOfNat?_eq_some_iff.2 hfirst
    · rw [parseChangeId?_parts hfirst.dash_not_mem,
        Text.readUnsigned?_bind_wordOfNat?_eq_some_iff.2 hsecond]
      exact Text.readUnsigned?_bind_wordOfNat?_eq_some_iff.2 hfirst

/-- Of two numerals, both have to be those of words. -/
theorem parseChangeId?_numerals (hfirst : Numeral n d) (hsecond : Numeral k e) :
    parseChangeId? (String.ofList (d ++ '-' :: e)) =
      if n < 2 ^ 64 ∧ k < 2 ^ 64 then some (UInt64.ofNat n) else none := by
  rw [parseChangeId?_parts hfirst.dash_not_mem, Text.readUnsigned?_eq_some_iff.2 hfirst,
    Text.readUnsigned?_eq_some_iff.2 hsecond, Option.bind_some, Option.bind_some,
    Text.wordOfNat?_eq_ite, Text.wordOfNat?_eq_ite]
  by_cases hk : k < 2 ^ 64
  · rw [if_pos hk, Option.bind_some]
    simp only [hk, and_true]
  · rw [if_neg hk, Option.bind_none, if_neg fun h => hk h.2]

/-- A change number is read from exactly the IDs that have it, one rendered by itself or with any
second part among them, and a numeral beyond all words is refused in either part. -/
theorem change_number_exact :
    (∀ (id : String) (seq : UInt64), parseChangeId? id = some seq ↔ IdOf seq id.toList) ∧
    (∀ seq part : UInt64,
      parseChangeId? (toString seq) = some seq ∧ parseChangeId? s!"{seq}-0" = some seq ∧
      parseChangeId? s!"{seq}-{part}" = some seq) ∧
    ∀ (d e : List Char) (n k : Nat), Numeral n d → Numeral k e →
      parseChangeId? (String.ofList d) = (if n < 2 ^ 64 then some (UInt64.ofNat n) else none) ∧
      parseChangeId? (String.ofList (d ++ '-' :: e)) =
        if n < 2 ^ 64 ∧ k < 2 ^ 64 then some (UInt64.ofNat n) else none := by
  refine ⟨fun id seq => parseChangeId?_eq_some_iff id, ?_, ?_⟩
  · intro seq part
    refine ⟨?_, ?_, EntryId.parseChangeId?_text ⟨seq, part⟩⟩
    · rw [parseChangeId?_eq_some_iff]
      have hdigits : (toString seq).toList = Nat.toDigits 10 seq.toNat := by
        simp [toString, Nat.repr_eq_ofList_toDigits]
      rw [hdigits]
      exact .whole (Numeral.toDigits seq.toNat)
    · exact (congrArg parseChangeId? (EntryId.changeId_eq seq)).trans
        (EntryId.parseChangeId?_text (.after seq))
  · intro d e n k hfirst hsecond
    refine ⟨?_, parseChangeId?_numerals hfirst hsecond⟩
    rw [parseChangeId?_whole hfirst.dash_not_mem, Text.readUnsigned?_eq_some_iff.2 hfirst,
      Option.bind_some, Text.wordOfNat?_eq_ite]

/-- A sign and zeros in front of a number, and behind it the first number that is no word. -/
theorem change_number_exact_no_word :
    Numeral 7 ['+', '0', '0', '7'] ∧ Numeral (2 ^ 64) "18446744073709551616".toList ∧
      parseChangeId? "+007" = some 7 ∧ parseChangeId? "+007-18446744073709551616" = none ∧
      parseChangeId? "18446744073709551616-+007" = none := by
  have hseven : Numeral 7 ['+', '0', '0', '7'] := Text.readUnsigned?_eq_some_iff.1 (by decide)
  have hbeyond : Numeral (2 ^ 64) "18446744073709551616".toList :=
    Text.readUnsigned?_eq_some_iff.1 (by decide +kernel)
  obtain ⟨hfirst, hsecond⟩ := change_number_exact.2.2 _ _ _ _ hseven hbeyond
  exact ⟨hseven, hbeyond, hfirst, hsecond, (change_number_exact.2.2 _ _ _ _ hbeyond hseven).2⟩

end Feed

end ChangeRelay
