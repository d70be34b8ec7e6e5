import ChangeRelay.Dn
import Mathlib.Data.List.Induction

/-!
# RDNs of a name and back

Splitting a name at its unescaped commas, and joining pieces by commas. The two undo each other
as long as no piece but the last ends in a backslash that escapes what is put behind it: such a
piece takes the comma, and the piece after it, for its own.
-/

namespace ChangeRelay.Dn

/-! ## Escapes -/

/-- Whether a text ends in a backslash that escapes what follows; `escaped` says that its first
character is escaped. -/
def escapesNext (escaped : Bool) : List Char → Bool
  | [] => escaped
  | c :: rest => escapesNext (c = '\\' && !escaped) rest

/-- The backslashes that a text ends in. -/
def trailing (cs : List Char) : Nat := (cs.reverse.takeWhile (· = '\\')).length

/-- The text ends in a backslash that no other backslash escapes. -/
def Dangling (cs : List Char) : Prop := trailing cs % 2 = 1

instance (cs : List Char) : Decidable (Dangling cs) := inferInstanceAs (Decidable (_ = _))

theorem escapesNext_append (escaped : Bool) (p q : List Char) :
    escapesNext escaped (p ++ q) = escapesNext (escapesNext escaped p) q := by
  induction p generalizing escaped with
  | nil => rfl
  | cons c p ih => exact ih _

theorem trailing_append_singleton (cs : List Char) (c : Char) :
    trailing (cs ++ [c]) = if c = '\\' then trailing cs + 1 else 0 := by
  by_cases h : c = '\\' <;> simp [trailing, h]

/-- A text escapes what follows exactly if the number of backslashes at its end is odd. -/
theorem escapesNext_iff (cs : List Char) : escapesNext false cs = true ↔ Dangling cs := by
  induction cs using List.reverseRecOn with
  | nil => simp [escapesNext, Dangling, trailing]
  | append_singleton cs c ih =>
      rw [escapesNext_append, Dangling, trailing_append_singleton]
      by_cases hc : c = '\\'
      · rw [Dangling] at ih
        cases he : escapesNext false cs <;> simp [escapesNext, hc, he] at ih ⊢ <;> omega
      · simp [escapesNext, hc]

theorem escapesNext_eq_false (cs : List Char) : escapesNext false cs = false ↔ ¬ Dangling cs := by
  rw [← escapesNext_iff, Bool.not_eq_true]

/-! ## Splitting -/

/-- Puts a text in front of the first piece. -/
def prependAll (p : List Char) : List (List Char) → List (List Char)
  | [] => [p]
  | q :: qs => (p ++ q) :: qs

theorem prepend_ne_nil (c : Char) (ps : List (List Char)) : prepend c ps ≠ [] := by
  cases ps <;> simp [prepend]

theorem splitFrom_ne_nil (escaped : Bool) (cs : List Char) : splitFrom escaped cs ≠ [] := by
  cases cs with
  | nil => simp [splitFrom]
  | cons c rest =>
      unfold splitFrom
      split
      · simp
      · exact prepend_ne_nil _ _

theorem split_ne_nil (cs : List Char) : split cs ≠ [] := splitFrom_ne_nil false cs

theorem prepend_append (c : Char) {ps : List (List Char)} (h : ps ≠ []) (qs : List (List Char)) :
    prepend c (ps ++ qs) = prepend c ps ++ qs := by
  cases ps with
  | nil => exact absurd rfl h
  | cons p ps => rfl

theorem splitFrom_comma (rest : List Char) : splitFrom false (',' :: rest) = [] :: split rest := rfl

theorem splitFrom_cons {escaped : Bool} {c : Char} (h : ¬ (c = ',' ∧ escaped = false))
    (rest : List Char) :
    splitFrom escaped (c :: rest) = prepend c (splitFrom (c = '\\' && !escaped) rest) := by
  rw [splitFrom, if_neg (by simpa using h)]

/-- A comma that is not escaped divides the pieces. -/
theorem splitFrom_append_comma {escaped : Bool} {p : List Char}
    (h : escapesNext escaped p = false) (q : List Char) :
    splitFrom escaped (p ++ ',' :: q) = splitFrom escaped p ++ split q := by
  induction p generalizing escaped with
  | nil =>
      have hescaped : escaped = false := h
      rw [hescaped]
      rfl
  | cons c p ih =>
      have hp := ih h
      by_cases hc : c = ',' ∧ escaped = false
      · obtain ⟨rfl, rfl⟩ := hc
        rw [List.cons_append, splitFrom_comma, splitFrom_comma, List.cons_append]
        exact congrArg _ hp
      · rw [List.cons_append, splitFrom_cons hc, splitFrom_cons hc, hp,
          prepend_append c (splitFrom_ne_nil _ _)]

/-- Wherever the pieces of a text are divided in two, there is a comma that is not escaped. -/
theorem splitFrom_eq_append {escaped : Bool} {cs : List Char} {ps qs : List (List Char)}
    (h : splitFrom escaped cs = ps ++ qs) (hps : ps ≠ []) (hqs : qs ≠ []) :
    ∃ p q, cs = p ++ ',' :: q ∧ escapesNext escaped p = false ∧ splitFrom escaped p = ps ∧
      split q = qs := by
  induction cs generalizing escaped ps with
  | nil =>
      -- an empty text is one piece
      have hlen := congrArg List.length h
      have hps' := List.length_pos_iff.2 hps
      have hqs' := List.length_pos_iff.2 hqs
      simp only [splitFrom, List.length_append, List.length_singleton] at hlen
      omega
  | cons c rest ih =>
      obtain ⟨first, ps', rfl⟩ := List.exists_cons_of_ne_nil hps
      by_cases hc : c = ',' ∧ escaped = false
      · obtain ⟨rfl, rfl⟩ := hc
        rw [splitFrom_comma, List.cons_append, List.cons.injEq] at h
        obtain ⟨rfl, hrest⟩ := h
        by_cases hps' : ps' = []
        · -- this comma is the one
          subst hps'
          exact ⟨[], rest, rfl, rfl, rfl, hrest⟩
        · obtain ⟨p, q, rfl, hescape, hp, hq⟩ := ih hrest hps'
          refine ⟨',' :: p, q, rfl, hescape, ?_, hq⟩
          rw [splitFrom_comma, split, hp]
      · rw [splitFrom_cons hc] at h
        -- the character belongs to the first piece of what is left
        obtain ⟨piece, pieces, hpieces⟩ := List.exists_cons_of_ne_nil
          (splitFrom_ne_nil (c = '\\' && !escaped) rest)
        rw [hpieces, prepend, List.cons_append, List.cons.injEq] at h
        obtain ⟨rfl, rfl⟩ := h
        obtain ⟨p, q, rfl, hescape, hp, hq⟩ :=
          @ih _ (piece :: ps') hpieces (List.cons_ne_nil _ _)
        refine ⟨c :: p, q, rfl, hescape, ?_, hq⟩
        rw [splitFrom_cons hc, hp, prepend]

/-! ## Joining -/

@[simp] theorem join_nil : join [] = [] := rfl

@[simp] theorem join_singleton (p : List Char) : join [p] = p := by simp [join]

theorem join_cons (p : List Char) {ps : List (List Char)} (h : ps ≠ []) :
    join (p :: ps) = p ++ ',' :: join ps := by
  obtain ⟨q, qs, rfl⟩ := List.exists_cons_of_ne_nil h
  simp [join, List.intercalate, List.intersperse]

theorem join_prepend (c : Char) {ps : List (List Char)} (h : ps ≠ []) :
    join (prepend c ps) = c :: join ps := by
  obtain ⟨p, ps, rfl⟩ := List.exists_cons_of_ne_nil h
  by_cases hps : ps = []
  · subst hps
    simp [prepend]
  · rw [prepend, join_cons _ hps, join_cons _ hps]
    rfl

theorem join_splitFrom (escaped : Bool) (cs : List Char) : join (splitFrom escaped cs) = cs := by
  induction cs generalizing escaped with
  | nil => rfl
  | cons c rest ih =>
      by_cases hc : c = ',' ∧ escaped = false
      · obtain ⟨rfl, rfl⟩ := hc
        have hrest : join (split rest) = rest := ih false
        rw [splitFrom_comma, join_cons _ (split_ne_nil rest), hrest]
        rfl
      · rw [splitFrom_cons hc, join_prepend _ (splitFrom_ne_nil _ _), ih]

theorem join_rdns (cs : List Char) : join (rdns cs) = cs := by
  rw [rdns]
  split
  · rename_i h
    rw [h, join_nil]
  · exact join_splitFrom false cs

theorem rdns_inj {cs ds : List Char} : rdns cs = rdns ds ↔ cs = ds := by
  constructor
  · intro h
    rw [← join_rdns cs, h, join_rdns]
  · intro h
    rw [h]

theorem rdns_of_ne_nil {cs : List Char} (h : cs ≠ []) : rdns cs = split cs := if_neg h

@[simp] theorem rdns_nil : rdns [] = [] := rfl

/-! ## Whole pieces -/

/-- Whether a text has no unescaped comma. -/
def isWhole (escaped : Bool) : List Char → Bool
  | [] => true
  | c :: rest => !(c = ',' && !escaped) && isWhole (c = '\\' && !escaped) rest

theorem isWhole_cons {escaped : Bool} {c : Char} {rest : List Char} :
    isWhole escaped (c :: rest) = true ↔
      ¬ (c = ',' ∧ escaped = false) ∧ isWhole (c = '\\' && !escaped) rest = true := by
  simp [isWhole, Decidable.imp_iff_not_or]

theorem isWhole_append (escaped : Bool) (p q : List Char) :
    isWhole escaped (p ++ q) = (isWhole escaped p && isWhole (escapesNext escaped p) q) := by
  induction p generalizing escaped with
  | nil => rfl
  | cons c p ih => simp only [List.cons_append, isWhole, escapesNext, ih, Bool.and_assoc]

/-- A whole text in front of another becomes part of the other's first piece. -/
theorem splitFrom_append_of_isWhole {escaped : Bool} {p : List Char}
    (h : isWhole escaped p = true) (q : List Char) :
    splitFrom escaped (p ++ q) = prependAll p (splitFrom (escapesNext escaped p) q) := by
  induction p generalizing escaped with
  | nil =>
      obtain ⟨piece, pieces, hpieces⟩ := List.exists_cons_of_ne_nil (splitFrom_ne_nil escaped q)
      rw [List.nil_append, escapesNext, hpieces]
      rfl
  | cons c p ih =>
      obtain ⟨hc, hp⟩ := isWhole_cons.1 h
      rw [List.cons_append, splitFrom_cons hc, ih hp, escapesNext]
      cases splitFrom (escapesNext (c = '\\' && !escaped) p) q <;> rfl

/-- No piece has an unescaped comma; only the first of them begins in the midst of an escape. -/
theorem isWhole_of_splitFrom {escaped : Bool} {cs p : List Char} {ps : List (List Char)}
    (h : splitFrom escaped cs = p :: ps) :
    isWhole escaped p = true ∧ ∀ q ∈ ps, isWhole false q = true := by
  induction cs generalizing escaped p ps with
  | nil =>
      cases h
      exact ⟨rfl, fun _ hq => nomatch hq⟩
  | cons c rest ih =>
      by_cases hc : c = ',' ∧ escaped = false
      · obtain ⟨rfl, rfl⟩ := hc
        rw [splitFrom_comma, List.cons.injEq] at h
        obtain ⟨rfl, rfl⟩ := h
        obtain ⟨q, qs, hsplit⟩ := List.exists_cons_of_ne_nil (splitFrom_ne_nil false rest)
        obtain ⟨hq, hqs⟩ := ih hsplit
        refine ⟨rfl, ?_⟩
        rw [split, hsplit, List.forall_mem_cons]
        exact ⟨hq, hqs⟩
      · obtain ⟨q, qs, hsplit⟩ := List.exists_cons_of_ne_nil
          (splitFrom_ne_nil (c = '\\' && !escaped) rest)
        rw [splitFrom_cons hc, hsplit, prepend, List.cons.injEq] at h
        obtain ⟨rfl, rfl⟩ := h
        obtain ⟨hq, hqs⟩ := ih hsplit
        exact ⟨isWhole_cons.2 ⟨hc, hq⟩, hqs⟩

theorem isWhole_of_mem_rdns {cs p : List Char} (h : p ∈ rdns cs) : isWhole false p = true := by
  rw [rdns] at h
  split at h
  · cases h
  · obtain ⟨q, qs, hsplit⟩ := List.exists_cons_of_ne_nil (splitFrom_ne_nil false cs)
    obtain ⟨hq, hqs⟩ := isWhole_of_splitFrom hsplit
    rw [split, hsplit, List.mem_cons] at h
    rcases h with rfl | h
    · exact hq
    · exact hqs p h

/-! ## Pieces that take the next one for their own -/

/-- Pieces put together where one of them ends in a backslash that escapes the comma behind it. -/
def glue : List (List Char) → List (List Char)
  | [] => []
  | p :: rest =>
    if Dangling p then
      match glue rest with
      | [] => [p]
      | q :: qs => (p ++ ',' :: q) :: qs
    else p :: glue rest

theorem glue_of_not_dangling {p : List Char} (h : ¬ Dangling p) (rest : List (List Char)) :
    glue (p :: rest) = p :: glue rest := by
  rw [glue, if_neg h]

theorem glue_singleton (p : List Char) : glue [p] = [p] := by
  rw [glue]
  split <;> rfl

theorem glue_eq_nil {ps : List (List Char)} : glue ps = [] ↔ ps = [] := by
  cases ps with
  | nil => simp [glue]
  | cons p rest =>
      rw [glue]
      split
      · split <;> simp
      · simp

/-- What a text of whole pieces is split into again: the pieces, but for those that took the next
one for their own. -/
theorem split_join {ps : List (List Char)} (hne : ps ≠ [])
    (h : ∀ p ∈ ps, isWhole false p = true) : split (join ps) = glue ps := by
  induction ps with
  | nil => exact absurd rfl hne
  | cons p rest ih =>
      obtain ⟨hp, hrest⟩ := List.forall_mem_cons.1 h
      have hwhole := splitFrom_append_of_isWhole hp
      by_cases hnil : rest = []
      · subst hnil
        have hone := hwhole []
        rw [List.append_nil] at hone
        rw [join_singleton, glue_singleton, split, hone]
        simp [splitFrom, prependAll]
      · rw [join_cons p hnil, split, hwhole]
        have hsplit : splitFrom false (join rest) = glue rest := ih hnil hrest
        by_cases hdangling : Dangling p
        · -- the comma is escaped, and goes with what is behind it
          obtain ⟨q, qs, hglue⟩ := List.exists_cons_of_ne_nil (mt glue_eq_nil.1 hnil)
          rw [(escapesNext_iff p).2 hdangling, splitFrom_cons (by simp), glue, if_pos hdangling]
          simp only [Bool.not_true, Bool.and_false, hsplit, hglue]
          rfl
        · rw [(escapesNext_eq_false p).2 hdangling, splitFrom_comma, split, hsplit,
            glue_of_not_dangling hdangling]
          simp [prependAll]

theorem rdns_join {ps : List (List Char)} (h : ∀ p ∈ ps, isWhole false p = true)
    (hne : ∀ p ∈ ps, p ≠ []) : rdns (join ps) = glue ps := by
  by_cases hnil : ps = []
  · subst hnil
    rfl
  · obtain ⟨p, rest, rfl⟩ := List.exists_cons_of_ne_nil hnil
    have hjoin : join (p :: rest) ≠ [] := by
      by_cases hrest : rest = []
      · subst hrest
        simpa using hne p List.mem_cons_self
      · simp [join_cons p hrest]
    rw [rdns_of_ne_nil hjoin, split_join hnil h]

theorem length_glue_le (ps : List (List Char)) : (glue ps).length ≤ ps.length := by
  induction ps with
  | nil => exact Nat.le_refl 0
  | cons p rest ih =>
      rw [glue]
      split
      · split
        · simp
        · rename_i hglue
          rw [hglue] at ih
          exact Nat.le_succ_of_le ih
      · exact Nat.succ_le_succ ih

/-- No piece is lost exactly if none but the last ends in a backslash that escapes. -/
theorem length_glue_iff {ps : List (List Char)} :
    (glue ps).length = ps.length ↔ ∀ p ∈ ps.dropLast, ¬ Dangling p := by
  induction ps with
  | nil => simp [glue]
  | cons p rest ih =>
      by_cases hnil : rest = []
      · subst hnil
        simp [glue_singleton]
      · rw [List.dropLast_cons_of_ne_nil hnil, List.forall_mem_cons, ← ih]
        by_cases hdangling : Dangling p
        · -- the piece and the next one became one
          have hle := length_glue_le rest
          obtain ⟨q, qs, hglue⟩ := List.exists_cons_of_ne_nil (mt glue_eq_nil.1 hnil)
          rw [hglue] at hle
          rw [glue, if_pos hdangling, hglue]
          simp only [List.length_cons] at hle ⊢
          constructor
          · intro hlen
            omega
          · intro hand
            exact absurd hdangling hand.1
        · rw [glue_of_not_dangling hdangling]
          simp [hdangling]

theorem glue_eq_self_iff {ps : List (List Char)} :
    glue ps = ps ↔ ∀ p ∈ ps.dropLast, ¬ Dangling p := by
  rw [← length_glue_iff]
  constructor
  · intro h
    rw [h]
  · intro h
    rw [length_glue_iff] at h
    induction ps with
    | nil => rfl
    | cons p rest ih =>
        by_cases hnil : rest = []
        · subst hnil
          exact glue_singleton p
        · rw [List.dropLast_cons_of_ne_nil hnil, List.forall_mem_cons] at h
          rw [glue_of_not_dangling h.1, ih h.2]

end ChangeRelay.Dn
