import ChangeRelay.Query

/-!
# The grammar of filters

A filter is checked by counting parentheses in one pass. What it accepts is a grammar: one group
around everything, in which escaped characters, plain characters and groups follow each other.
While `n` parentheses are open, the rest of the text has to be `n` bodies, a closing parenthesis
behind each of them.
-/

namespace ChangeRelay.Filter

/-- What stands between a pair of parentheses: any sequence of escaped characters, of characters
that are neither parentheses nor backslashes, and of groups. -/
inductive Body : List Char → Prop where
  | empty : Body []
  | escaped (c : Char) {rest : List Char} : Body rest → Body ('\\' :: c :: rest)
  | plain {c : Char} {rest : List Char} :
      c ≠ '(' → c ≠ ')' → c ≠ '\\' → Body rest → Body (c :: rest)
  | group {inner rest : List Char} : Body inner → Body rest → Body ('(' :: inner ++ ')' :: rest)

/-- A pair of parentheses around a body. -/
def Group (cs : List Char) : Prop := ∃ body, Body body ∧ cs = '(' :: body ++ [')']

/-- A text that closes a number of open parentheses, the last of them with its last character. -/
inductive Closing : Nat → List Char → Prop where
  | done : Closing 0 []
  | close {n : Nat} {body rest : List Char} :
      Body body → Closing n rest → Closing (n + 1) (body ++ ')' :: rest)

theorem closing_zero {cs : List Char} : Closing 0 cs ↔ cs = [] := by
  constructor
  · rintro ⟨⟩
    rfl
  · rintro rfl
    exact .done

theorem closing_one {cs : List Char} : Closing 1 cs ↔ ∃ body, Body body ∧ cs = body ++ [')'] := by
  constructor
  · rintro (_ | ⟨hbody, hrest⟩)
    rw [closing_zero.1 hrest]
    exact ⟨_, hbody, rfl⟩
  · rintro ⟨body, hbody, rfl⟩
    exact .close hbody .done

/-! ## By the first character -/

theorem not_closing_nil (n : Nat) : ¬ Closing (n + 1) [] := by
  generalize hcs : ([] : List Char) = cs
  rintro (_ | ⟨-, -⟩)
  simp at hcs

/-- A closing parenthesis ends the innermost body. -/
theorem closing_close {n : Nat} {rest : List Char} :
    Closing (n + 1) (')' :: rest) ↔ Closing n rest := by
  constructor
  · generalize hcs : ')' :: rest = cs
    rintro (_ | ⟨hbody, hrest⟩)
    cases hbody with
    | empty =>
        cases hcs
        exact hrest
    | escaped => simp at hcs
    | plain _ hclose => exact absurd (List.cons.inj hcs).1.symm hclose
    | group => simp at hcs
  · exact Closing.close .empty

/-- An opening parenthesis begins a body of its own. -/
theorem closing_open {n : Nat} {rest : List Char} :
    Closing (n + 1) ('(' :: rest) ↔ Closing (n + 2) rest := by
  constructor
  · generalize hcs : '(' :: rest = cs
    rintro (_ | ⟨hbody, hrest⟩)
    cases hbody with
    | empty => simp at hcs
    | escaped => simp at hcs
    | plain hopen => exact absurd (List.cons.inj hcs).1.symm hopen
    | group hinner hbehind =>
        simp only [List.cons_append, List.append_assoc, List.cons.injEq, true_and] at hcs
        subst hcs
        exact .close hinner (.close hbehind hrest)
  · rintro (_ | ⟨hinner, _ | ⟨hbehind, hrest⟩⟩)
    have := Closing.close (.group hinner hbehind) hrest
    simpa using this

/-- A backslash takes the character behind it, whatever that is. -/
theorem closing_backslash {n : Nat} {rest : List Char} :
    Closing (n + 1) ('\\' :: rest) ↔ ∃ c behind, rest = c :: behind ∧ Closing (n + 1) behind := by
  constructor
  · generalize hcs : '\\' :: rest = cs
    rintro (_ | ⟨hbody, hrest⟩)
    cases hbody with
    | empty => simp at hcs
    | escaped c hbehind =>
        simp only [List.cons_append, List.cons.injEq, true_and] at hcs
        exact ⟨c, _, hcs, .close hbehind hrest⟩
    | plain _ _ hbackslash => exact absurd (List.cons.inj hcs).1.symm hbackslash
    | group => simp at hcs
  · rintro ⟨c, _, rfl, _ | ⟨hbody, hrest⟩⟩
    exact .close (.escaped c hbody) hrest

theorem closing_plain {n : Nat} {c : Char} {rest : List Char} (hopen : c ≠ '(') (hclose : c ≠ ')')
    (hbackslash : c ≠ '\\') : Closing (n + 1) (c :: rest) ↔ Closing (n + 1) rest := by
  constructor
  · generalize hcs : c :: rest = cs
    rintro (_ | ⟨hbody, hrest⟩)
    cases hbody with
    | empty => exact absurd (List.cons.inj hcs).1 hclose
    | escaped => exact absurd (List.cons.inj hcs).1 hbackslash
    | plain _ _ _ hbehind =>
        rw [(List.cons.inj hcs).2]
        exact .close hbehind hrest
    | group => exact absurd (List.cons.inj hcs).1 hopen
  · rintro (_ | ⟨hbody, hrest⟩)
    exact .close (.plain hopen hclose hbackslash hbody) hrest

/-! ## Counting -/

/-- Counting accepts what closes the parentheses that are open; behind a backslash one character
does not count. -/
theorem closes_iff (n : Nat) (cs : List Char) :
    (closes (n + 1) false cs = true ↔ Closing (n + 1) cs) ∧
    (closes (n + 1) true cs = true ↔ ∃ c rest, cs = c :: rest ∧ Closing (n + 1) rest) := by
  induction cs generalizing n with
  | nil => simp [closes, not_closing_nil]
  | cons c rest ih =>
      refine ⟨?_, ?_⟩
      · by_cases hbackslash : c = '\\'
        · subst hbackslash
          rw [closing_backslash, ← (ih n).2]
          simp [closes]
        · by_cases hopen : c = '('
          · subst hopen
            rw [closing_open, ← (ih (n + 1)).1]
            simp [closes]
          · by_cases hclose : c = ')'
            · subst hclose
              rw [closing_close]
              cases n with
              | zero => simp [closes, closing_zero]
              | succ n =>
                  rw [← (ih n).1]
                  simp [closes]
            · rw [closing_plain hopen hclose hbackslash, ← (ih n).1]
              simp [closes, hbackslash, hopen, hclose]
      · have hescaped : closes (n + 1) true (c :: rest) = closes (n + 1) false rest := by
          simp [closes]
        rw [hescaped, (ih n).1]
        constructor
        · intro h
          exact ⟨c, rest, rfl, h⟩
        · rintro ⟨_, _, heq, h⟩
          cases heq
          exact h

/-- From no open parenthesis on, a text that begins with one is counted as a group. -/
theorem closes_zero_iff (rest : List Char) :
    closes 0 false ('(' :: rest) = true ↔ Group ('(' :: rest) := by
  have hfirst : closes 0 false ('(' :: rest) = closes 1 false rest := by simp [closes]
  rw [hfirst, (closes_iff 0 rest).1, closing_one, Group]
  simp

theorem Group.ends {cs : List Char} (h : Group cs) :
    (∃ rest, cs = '(' :: rest) ∧ cs.getLast? = some ')' := by
  obtain ⟨body, -, rfl⟩ := h
  exact ⟨⟨_, rfl⟩, List.getLast?_concat⟩

/-- A filter is accepted exactly if, without the blanks around it, it is a group and that group is
not empty. -/
theorem validate_eq_ok_iff (filter : String) :
    validate filter = .ok () ↔
      Group (Text.trimChars filter.toList) ∧ Text.trim filter ≠ "()" := by
  have hempty : Text.trim filter ≠ "()" ↔ Text.trimChars filter.toList ≠ ['(', ')'] := by
    rw [ne_eq, ← String.toList_inj, Text.toList_trim]
    rfl
  rw [hempty, validate]
  generalize Text.trimChars filter.toList = cs
  by_cases hends : (∃ rest, cs = '(' :: rest) ∧ cs.getLast? = some ')'
  · obtain ⟨⟨rest, rfl⟩, hlast⟩ := hends
    rw [← closes_zero_iff]
    grind
  · have hgroup : ¬ Group cs := mt Group.ends hends
    have hhead : ¬ (cs.head? = some '(' ∧ cs.getLast? = some ')') := by
      rintro ⟨hhead, hlast⟩
      exact hends ⟨List.head?_eq_some_iff.1 hhead, hlast⟩
    grind

/-- Escaped parentheses do not count, at the end of a filter neither. -/
example : validate " (cn=\\(x) " = .ok () ∧ validate "(cn=x\\)" = .error (.unbalanced "(cn=x\\)") :=
  ⟨rfl, rfl⟩

end ChangeRelay.Filter
