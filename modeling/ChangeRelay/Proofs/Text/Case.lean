import ChangeRelay.Text.Blank
import ChangeRelay.Text.Lowercase
import Mathlib.Data.List.TakeWhile

/-!
# What lowercasing and trimming leave alone

The lowercase form of a text is made character by character, and no character becomes one of the
symbols that stand in front of the small letters in the code table. Trimming leaves a part of the
text, and takes off blanks only.
-/

namespace ChangeRelay.Text

/-! ## Lowercasing -/

/-- The last code point in front of the small letters that is a symbol of names, the backslash. -/
def lastSymbol : Nat := 92

/-- What holds of the first 128 code points holds of every ASCII character. -/
theorem forall_ascii {P : Char → Prop} (h : ∀ n < 128, P (Char.ofNat n)) :
    ∀ c : Char, c.toNat < 128 → P c := by
  intro c hc
  rw [← Char.ofNat_toNat c]
  exact h c.toNat hc

/-- The lowercase form of an ASCII character is that character or a small letter. -/
theorem toLower_ascii :
    ∀ c : Char, c.toNat < 128 → c.toLower = c ∨ lastSymbol < c.toLower.toNat :=
  forall_ascii (by decide)

/-- Every run of the case table leads to code points that are characters, none of them a symbol. -/
theorem lowercaseRuns_range : ∀ r ∈ lowercaseRuns,
    (lastSymbol : Int) < r.first + r.offset ∧
      (r.last + r.offset < 0xD800 ∨
        (0xDFFF < r.first + r.offset ∧ r.last + r.offset < 0x110000)) := by
  decide +kernel

theorem CaseRun.contains_iff {r : CaseRun} {n : Nat} :
    r.contains n = true ↔ (r.first ≤ n ∧ n ≤ r.last) ∧ (n - r.first) % r.step = 0 := by
  simp [contains]

/-- What a character becomes: its form by the table, if it is in one. -/
theorem lowercaseChar_cases (c : Char) :
    (c.toNat < 128 ∧ lowercaseChar c = [c.toLower]) ∨
    lowercaseChar c = ['i', Char.ofNat 0x307] ∨
    (∃ r ∈ lowercaseRuns, r.contains c.toNat = true ∧
      ∃ d, lowercaseChar c = [d] ∧ d.toNat = (c.toNat + r.offset).toNat) ∨
    lowercaseChar c = [c] := by
  unfold lowercaseChar
  split
  · rename_i hascii
    exact .inl ⟨hascii, rfl⟩
  · split
    · exact .inr (.inl rfl)
    · split
      · rename_i r hr
        have hmem : r ∈ lowercaseRuns := List.mem_of_find?_eq_some hr
        have hcontains : r.contains c.toNat = true := by simpa using List.find?_some hr
        refine .inr (.inr (.inl ⟨r, hmem, hcontains, _, rfl, ?_⟩))
        -- the code point lies in the run, and its lowercase form in the run's image
        obtain ⟨hlow, hvalid⟩ := lowercaseRuns_range r hmem
        have hrun := CaseRun.contains_iff.1 hcontains
        have hchar : (c.toNat + r.offset).toNat.isValidChar := by
          rw [Nat.isValidChar]
          omega
        rw [Char.ofNat, dif_pos hchar]
        rfl
      · exact .inr (.inr (.inr rfl))

theorem lowercaseChar_ne_nil (c : Char) : lowercaseChar c ≠ [] := by
  rcases lowercaseChar_cases c with ⟨-, h⟩ | h | ⟨_, -, -, _, h, -⟩ | h <;> simp [h]

/-- A character becomes nothing that is a symbol, unless it is one. -/
theorem mem_lowercaseChar {c d : Char} (h : d ∈ lowercaseChar c) :
    d = c ∨ lastSymbol < d.toNat := by
  rcases lowercaseChar_cases c with ⟨hascii, hc⟩ | hc | ⟨r, hr, hcontains, e, hc, he⟩ | hc
  · rw [hc, List.mem_singleton] at h
    rw [h]
    exact toLower_ascii c hascii
  · right
    rw [hc] at h
    simp only [List.mem_cons, List.not_mem_nil, or_false] at h
    rcases h with rfl | rfl <;> decide
  · right
    rw [hc, List.mem_singleton] at h
    obtain ⟨hlow, -⟩ := lowercaseRuns_range r hr
    have hrun := CaseRun.contains_iff.1 hcontains
    rw [h, he]
    omega
  · left
    rwa [hc, List.mem_singleton] at h

/-- The forms that a character takes in texts. -/
def Becomes (c d : Char) : Prop := d ∈ lowercaseChar c ∨ (c = 'Σ' ∧ d = 'ς')

/-- In a text, too, a character becomes one or more. -/
theorem lowercaseAfter_cons_becomes (before : List Char) (c : Char) (rest : List Char) :
    ∃ first, lowercaseAfter before (c :: rest) = first ++ lowercaseAfter (c :: before) rest ∧
      first ≠ [] ∧ ∀ d ∈ first, Becomes c d := by
  rw [lowercaseAfter]
  by_cases hsigma : c = 'Σ'
  · subst hsigma
    have hsmall : 'σ' ∈ lowercaseChar 'Σ' := by decide
    rw [if_pos rfl]
    by_cases hfinal : (startsCased before && !startsCased rest) = true
    · exact ⟨['ς'], by rw [if_pos hfinal], by simp, by simp [Becomes]⟩
    · exact ⟨['σ'], by rw [if_neg hfinal], by simp, by simp [Becomes, hsmall]⟩
  · rw [if_neg hsigma]
    exact ⟨lowercaseChar c, rfl, lowercaseChar_ne_nil c, fun d hd => .inl hd⟩

theorem Becomes.symbol {c d : Char} (h : Becomes c d) : d = c ∨ lastSymbol < d.toNat := by
  rcases h with h | ⟨rfl, rfl⟩
  · exact mem_lowercaseChar h
  · decide

/-- What a character becomes is no symbol, unless the character is one. -/
theorem lowercaseAfter_cons (before : List Char) (c : Char) (rest : List Char) :
    ∃ first, lowercaseAfter before (c :: rest) = first ++ lowercaseAfter (c :: before) rest ∧
      first ≠ [] ∧ ∀ d ∈ first, d = c ∨ lastSymbol < d.toNat := by
  obtain ⟨first, hfirst, hne, hall⟩ := lowercaseAfter_cons_becomes before c rest
  exact ⟨first, hfirst, hne, fun d hd => (hall d hd).symbol⟩

/-- A character that has no other form stays as it is. -/
theorem lowercaseAfter_cons_of_eq {c : Char} (hc : lowercaseChar c = [c]) (hsigma : c ≠ 'Σ')
    (before rest : List Char) :
    lowercaseAfter before (c :: rest) = c :: lowercaseAfter (c :: before) rest := by
  rw [lowercaseAfter, if_neg hsigma, hc]
  rfl

/-- Every character of a lowercase text is one that a character of the text becomes. -/
theorem exists_becomes {before cs : List Char} {d : Char} (h : d ∈ lowercaseAfter before cs) :
    ∃ c ∈ cs, Becomes c d := by
  induction cs generalizing before with
  | nil => cases h
  | cons c rest ih =>
      obtain ⟨first, hfirst, -, hall⟩ := lowercaseAfter_cons_becomes before c rest
      rw [hfirst] at h
      rcases List.mem_append.1 h with h | h
      · exact ⟨c, List.mem_cons_self, hall d h⟩
      · obtain ⟨c', hc', hbecomes⟩ := ih h
        exact ⟨c', List.mem_cons_of_mem _ hc', hbecomes⟩

theorem mem_lowercaseAfter {before cs : List Char} {d : Char} (h : d ∈ lowercaseAfter before cs) :
    d ∈ cs ∨ lastSymbol < d.toNat := by
  obtain ⟨c, hc, hbecomes⟩ := exists_becomes h
  rcases hbecomes.symbol with rfl | hlarge
  · exact .inl hc
  · exact .inr hlarge

/-! ## Trimming -/

/-- Trailing blanks stand behind what is left. -/
theorem trimEndChars_append (cs : List Char) :
    ∃ blanks, cs = trimEndChars cs ++ blanks ∧ ∀ c ∈ blanks, isBlank c = true := by
  refine ⟨(cs.reverse.takeWhile isBlank).reverse, ?_, ?_⟩
  · rw [trimEndChars, ← List.reverse_append, List.takeWhile_append_dropWhile, List.reverse_reverse]
  · intro c hc
    exact List.mem_takeWhile_imp (List.mem_reverse.1 hc)

/-- A text is what is left of it between blanks. -/
theorem trimChars_append (cs : List Char) :
    ∃ before behind, cs = before ++ trimChars cs ++ behind ∧
      (∀ c ∈ before, isBlank c = true) ∧ ∀ c ∈ behind, isBlank c = true := by
  obtain ⟨behind, hcs, hbehind⟩ := trimEndChars_append (cs.dropWhile isBlank)
  refine ⟨cs.takeWhile isBlank, behind, ?_, fun c hc => List.mem_takeWhile_imp hc, hbehind⟩
  rw [List.append_assoc, trimChars, ← hcs, List.takeWhile_append_dropWhile]

theorem mem_of_mem_trimChars {cs : List Char} {c : Char} (h : c ∈ trimChars cs) : c ∈ cs := by
  obtain ⟨before, behind, hcs, -, -⟩ := trimChars_append cs
  rw [hcs]
  exact List.mem_append_left _ (List.mem_append_right _ h)

end ChangeRelay.Text
