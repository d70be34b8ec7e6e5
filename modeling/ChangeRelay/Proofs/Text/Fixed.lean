import ChangeRelay.Proofs.Text.Case
import Mathlib.Data.List.Basic

/-!
# Texts that lowercasing and trimming leave alone

No lowercase form has another lowercase form, so a lowercase text is its own lowercase form,
whatever stands around it: no final sigma is left to decide. No lowercase form of a character that
is not blank is blank, so lowercasing brings no blanks to the ends of a trimmed text.
-/

namespace ChangeRelay.Text

/-! ## Runs apart from each other -/

/-- The code points that a run leads to. -/
def CaseRun.image (r : CaseRun) : CaseRun :=
  ⟨(r.first + r.offset).toNat, (r.last + r.offset).toNat, r.step, 0⟩

/-- Whether two runs lie behind each other, or the second takes every other code point and the
first lies between these. -/
def CaseRun.misses (r s : CaseRun) : Bool :=
  Nat.blt r.last s.first || (Nat.blt s.last r.first ||
    (Nat.beq s.step 2 && (Nat.beq r.step 2 || Nat.beq r.first r.last) &&
      Nat.beq ((r.first + s.first) % 2) 1))

theorem CaseRun.contains_eq_false {r s : CaseRun} (h : r.misses s = true) {n : Nat}
    (hn : r.contains n = true) : s.contains n = false := by
  rw [Bool.eq_false_iff]
  intro hs
  obtain ⟨hends, hstep⟩ := contains_iff.1 hn
  obtain ⟨hends', hstep'⟩ := contains_iff.1 hs
  simp only [misses, Bool.or_eq_true, Bool.and_eq_true, Nat.blt_eq, Nat.beq_eq] at h
  rcases h with h | h | ⟨⟨htwo, h⟩, hodd⟩
  · omega
  · omega
  · rw [htwo] at hstep'
    rcases h with htwo' | hone
    · rw [htwo'] at hstep
      omega
    · omega

/-- The code point of `İ`, the one character that becomes two. -/
def dottedRun : CaseRun := ⟨0x130, 0x130, 1, 0⟩

/-- No run leads to a code point that has a lowercase form of its own. -/
theorem lowercaseRuns_misses : (lowercaseRuns.all fun r =>
    (dottedRun :: lowercaseRuns).all fun s => r.image.misses s) = true := by
  decide +kernel

/-- No run leads to a blank. -/
theorem lowercaseRuns_not_blank : ∀ r ∈ lowercaseRuns,
    (r.last + r.offset < 0x85 ∨ (0xA0 : Int) < r.first + r.offset) ∧
    (r.last + r.offset < 0x1680 ∨ (0x1680 : Int) < r.first + r.offset) ∧
    (r.last + r.offset < 0x2000 ∨ (0x205F : Int) < r.first + r.offset) ∧
    (r.last + r.offset < 0x3000 ∨ (0x3000 : Int) < r.first + r.offset) := by
  decide +kernel

theorem CaseRun.contains_image {r : CaseRun} (hr : r ∈ lowercaseRuns) {n : Nat}
    (hn : r.contains n = true) : r.image.contains (n + r.offset).toNat = true := by
  obtain ⟨hlow, -⟩ := lowercaseRuns_range r hr
  obtain ⟨⟨hfirst, hlast⟩, hstep⟩ := contains_iff.1 hn
  have hrest : (n + r.offset).toNat - (r.first + r.offset).toNat = n - r.first := by omega
  simp only [contains_iff, image, hrest, hstep, and_true]
  omega

/-! ## Lowercase forms -/

theorem toLower_lt_ascii : ∀ c : Char, c.toNat < 128 → c.toLower.toNat < 128 :=
  forall_ascii (by decide)

theorem toLower_toLower_ascii : ∀ c : Char, c.toNat < 128 → c.toLower.toLower = c.toLower :=
  forall_ascii (by decide)

/-- Behind the backslash there are no capitals. -/
theorem toLower_eq_ascii : ∀ c : Char, c.toNat < 128 → lastSymbol < c.toNat → c.toLower = c :=
  forall_ascii (by decide)

theorem isBlank_toLower_ascii : ∀ c : Char, c.toNat < 128 → isBlank c.toLower = isBlank c :=
  forall_ascii (by decide)

theorem lowercaseChar_of_ascii {c : Char} (h : c.toNat < 128) : lowercaseChar c = [c.toLower] := by
  rw [lowercaseChar, if_pos h]

/-- A character that no run and no exception is about is its own lowercase form. -/
theorem lowercaseChar_of_misses {c : Char} (hlarge : lastSymbol < c.toNat)
    (h : ∀ s ∈ dottedRun :: lowercaseRuns, s.contains c.toNat = false) : lowercaseChar c = [c] := by
  by_cases hascii : c.toNat < 128
  · rw [lowercaseChar_of_ascii hascii, toLower_eq_ascii c hascii hlarge]
  · obtain ⟨hdotted, hruns⟩ := List.forall_mem_cons.1 h
    have hne : c.toNat ≠ 0x130 := by
      intro heq
      rw [heq] at hdotted
      exact absurd hdotted (by decide)
    have hfind : lowercaseRuns.find? (·.contains c.toNat) = none := by
      rw [List.find?_eq_none]
      intro s hs
      simp [hruns s hs]
    rw [lowercaseChar, if_neg hascii, if_neg hne, hfind]

/-- A character that another one becomes is its own lowercase form. -/
theorem Becomes.lowercaseChar_eq {c d : Char} (h : Becomes c d) : lowercaseChar d = [d] := by
  rcases h with h | ⟨-, rfl⟩
  · rcases lowercaseChar_cases c with ⟨hascii, hc⟩ | hc | ⟨r, hr, hcontains, e, hc, he⟩ | hc
    · rw [hc, List.mem_singleton] at h
      rw [h, lowercaseChar_of_ascii (toLower_lt_ascii c hascii), toLower_toLower_ascii c hascii]
    · rw [hc] at h
      simp only [List.mem_cons, List.not_mem_nil, or_false] at h
      rcases h with rfl | rfl <;> decide
    · rw [hc, List.mem_singleton] at h
      subst h
      have hlarge : lastSymbol < d.toNat := by
        obtain ⟨hlow, -⟩ := lowercaseRuns_range r hr
        have hrun := CaseRun.contains_iff.1 hcontains
        omega
      refine lowercaseChar_of_misses hlarge fun s hs => ?_
      have hmisses := List.all_eq_true.1 (List.all_eq_true.1 lowercaseRuns_misses r hr) s hs
      rw [he]
      exact CaseRun.contains_eq_false hmisses (CaseRun.contains_image hr hcontains)
    · rw [hc, List.mem_singleton] at h
      rwa [h]
  · decide

/-- What a character becomes is blank only if the character is. -/
theorem Becomes.isBlank_eq_false {c d : Char} (h : Becomes c d) (hc : isBlank c = false) :
    isBlank d = false := by
  rcases h with h | ⟨-, rfl⟩
  · rcases lowercaseChar_cases c with ⟨hascii, hform⟩ | hform | ⟨r, hr, hrun, e, hform, he⟩ | hform
    · rw [hform, List.mem_singleton] at h
      rw [h, isBlank_toLower_ascii c hascii, hc]
    · rw [hform] at h
      simp only [List.mem_cons, List.not_mem_nil, or_false] at h
      rcases h with rfl | rfl <;> decide
    · rw [hform, List.mem_singleton] at h
      subst h
      obtain ⟨hlow, -⟩ := lowercaseRuns_range r hr
      have hblank := lowercaseRuns_not_blank r hr
      obtain ⟨hends, -⟩ := CaseRun.contains_iff.1 hrun
      rw [lastSymbol] at hlow
      rw [Bool.eq_false_iff]
      intro hd
      simp only [isBlank, Bool.or_eq_true, Bool.and_eq_true, decide_eq_true_eq, beq_iff_eq] at hd
      omega
    · rw [hform, List.mem_singleton] at h
      rwa [h]
  · decide

/-! ## Lowercase texts -/

/-- A text whose characters are their own lowercase forms. -/
def IsLower (cs : List Char) : Prop := ∀ c ∈ cs, lowercaseChar c = [c]

theorem isLower_lowercaseAfter (before cs : List Char) : IsLower (lowercaseAfter before cs) := by
  intro d hd
  obtain ⟨c, -, hbecomes⟩ := exists_becomes hd
  exact hbecomes.lowercaseChar_eq

/-- A lowercase text stays as it is, whatever stands in front of it. -/
theorem IsLower.lowercaseAfter_eq {cs : List Char} (h : IsLower cs) (before : List Char) :
    lowercaseAfter before cs = cs := by
  induction cs generalizing before with
  | nil => rfl
  | cons c rest ih =>
      obtain ⟨hc, hrest⟩ := List.forall_mem_cons.1 h
      have hsigma : c ≠ 'Σ' := by
        rintro rfl
        exact absurd hc (by decide)
      rw [lowercaseAfter_cons_of_eq hc hsigma, ih hrest]

theorem lowercaseAfter_ne_nil (before : List Char) {cs : List Char} (h : cs ≠ []) :
    lowercaseAfter before cs ≠ [] := by
  obtain ⟨c, rest, rfl⟩ := List.exists_cons_of_ne_nil h
  obtain ⟨first, hfirst, hne, -⟩ := lowercaseAfter_cons_becomes before c rest
  rw [hfirst]
  exact List.append_ne_nil_of_left_ne_nil hne _

theorem IsLower.append {p q : List Char} (hp : IsLower p) (hq : IsLower q) : IsLower (p ++ q) :=
  List.forall_mem_append.2 ⟨hp, hq⟩

/-! ## Tight texts -/

/-- A text with no blank at either end. -/
structure Tight (cs : List Char) : Prop where
  head : ∀ c ∈ cs.head?, isBlank c = false
  last : ∀ c ∈ cs.getLast?, isBlank c = false

theorem tight_trimChars (cs : List Char) : Tight (trimChars cs) := by
  have hhead : ∀ (l : List Char), ∀ c ∈ (l.dropWhile isBlank).head?, isBlank c = false := by
    intro l c hc
    have := List.head?_dropWhile_not isBlank l
    rw [Option.mem_def.1 hc] at this
    simpa using this
  constructor
  · intro c hc
    -- the first character is that of the text without the blanks in front
    obtain ⟨blanks, hcs, -⟩ := trimEndChars_append (cs.dropWhile isBlank)
    apply hhead cs c
    rw [hcs]
    exact List.mem_head?_append_of_mem_head? hc
  · intro c hc
    rw [trimChars, trimEndChars, List.getLast?_reverse] at hc
    exact hhead _ c hc

theorem Tight.trimChars_eq {cs : List Char} (h : Tight cs) : trimChars cs = cs := by
  have hdrop : ∀ l : List Char, (∀ c ∈ l.head?, isBlank c = false) → l.dropWhile isBlank = l := by
    intro l hl
    cases l with
    | nil => rfl
    | cons c rest => simp [hl c rfl]
  rw [trimChars, hdrop cs h.head, trimEndChars, hdrop, List.reverse_reverse]
  rw [List.head?_reverse]
  exact h.last

/-- The ends of a text made of two decide. -/
theorem Tight.append {p q : List Char} (hp : Tight p) (hq : Tight q) (hpne : p ≠ []) (hqne : q ≠ [])
    (middle : List Char) : Tight (p ++ middle ++ q) := by
  constructor
  · rw [List.append_assoc, List.head?_append_of_ne_nil _ hpne]
    exact hp.head
  · rw [List.getLast?_append_of_ne_nil _ hqne]
    exact hq.last

theorem mem_head?_lowercaseAfter {before cs : List Char} {d : Char}
    (h : d ∈ (lowercaseAfter before cs).head?) : ∃ c ∈ cs.head?, Becomes c d := by
  cases cs with
  | nil => cases h
  | cons c rest =>
      obtain ⟨first, hfirst, hne, hall⟩ := lowercaseAfter_cons_becomes before c rest
      rw [hfirst, List.head?_append_of_ne_nil _ hne] at h
      exact ⟨c, rfl, hall d (List.mem_of_mem_head? h)⟩

theorem mem_getLast?_lowercaseAfter {before cs : List Char} {d : Char}
    (h : d ∈ (lowercaseAfter before cs).getLast?) : ∃ c ∈ cs.getLast?, Becomes c d := by
  induction cs generalizing before with
  | nil => cases h
  | cons c rest ih =>
      obtain ⟨first, hfirst, hne, hall⟩ := lowercaseAfter_cons_becomes before c rest
      rw [hfirst] at h
      by_cases hrest : lowercaseAfter (c :: before) rest = []
      · -- the last character is one that becomes nothing else
        obtain rfl : rest = [] := by
          by_contra hne'
          exact lowercaseAfter_ne_nil _ hne' hrest
        rw [hrest, List.append_nil] at h
        exact ⟨c, rfl, hall d (List.mem_of_mem_getLast? h)⟩
      · rw [List.getLast?_append_of_ne_nil _ hrest] at h
        obtain ⟨c', hc', hbecomes⟩ := ih h
        refine ⟨c', ?_, hbecomes⟩
        rw [List.getLast?_cons, Option.mem_def.1 hc']
        rfl

theorem Tight.lowercaseChars {cs : List Char} (h : Tight cs) : Tight (lowercaseChars cs) := by
  constructor
  · intro d hd
    obtain ⟨c, hc, hbecomes⟩ := mem_head?_lowercaseAfter hd
    exact hbecomes.isBlank_eq_false (h.head c hc)
  · intro d hd
    obtain ⟨c, hc, hbecomes⟩ := mem_getLast?_lowercaseAfter hd
    exact hbecomes.isBlank_eq_false (h.last c hc)

end ChangeRelay.Text
