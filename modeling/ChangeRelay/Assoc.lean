/-!
# Association lists in key order

Maps are lists of pairs kept in ascending key order by `insert`. Looking up what was inserted or
erased needs no order: the laws below hold of every list.
-/

namespace ChangeRelay.Assoc

variable {κ : Type u} {β : Type v} [DecidableEq κ]

/-- The value of a key. -/
def find? (k : κ) : List (κ × β) → Option β
  | [] => none
  | (j, v) :: rest => if k = j then some v else find? k rest

/-- The map without a key. -/
def erase (k : κ) (m : List (κ × β)) : List (κ × β) :=
  m.filter fun p => decide (p.1 ≠ k)

/-- The keys, in the order of the list. -/
def keys (m : List (κ × β)) : List κ := m.map Prod.fst

def contains (k : κ) (m : List (κ × β)) : Bool := (find? k m).isSome

section Ordered

variable [LT κ] [DecidableLT κ]

/-- The map with a key set: its old pair is replaced, a new one is put before the first greater
key. -/
def insert (k : κ) (v : β) : List (κ × β) → List (κ × β)
  | [] => [(k, v)]
  | (j, w) :: rest =>
    if k = j then (k, v) :: rest
    else if k < j then (k, v) :: (j, w) :: rest
    else (j, w) :: insert k v rest

/-- The map of a list of pairs, of which the last with a key counts. -/
def ofList (pairs : List (κ × β)) : List (κ × β) :=
  pairs.foldl (fun m p => insert p.1 p.2 m) []

end Ordered

@[simp] theorem find?_nil (k : κ) : find? k ([] : List (κ × β)) = none := rfl

/-- What is found is in the list. -/
theorem mem_of_find? {k : κ} {v : β} {m : List (κ × β)} (h : find? k m = some v) : (k, v) ∈ m := by
  induction m with
  | nil => simp at h
  | cons p rest ih =>
    rw [find?] at h
    split at h
    · rename_i hk
      cases h
      exact hk ▸ List.mem_cons_self
    · exact List.mem_cons_of_mem p (ih h)

theorem find?_erase (k j : κ) (m : List (κ × β)) :
    find? j (erase k m) = if j = k then none else find? j m := by
  induction m with
  | nil => simp [erase]
  | cons p rest ih =>
    have hrest : erase k (p :: rest) = if p.1 = k then erase k rest else p :: erase k rest := by
      by_cases h : p.1 = k <;> simp [erase, h]
    rw [hrest]
    by_cases h : p.1 = k
    · -- the head is dropped
      simp only [h, if_true, ih, find?]
      by_cases hj : j = k <;> simp [hj]
    · -- the head stays
      simp only [h, if_false, find?, ih]
      by_cases hj : j = p.1
      · subst hj; simp [h]
      · simp [hj]

section Ordered

variable [LT κ] [DecidableLT κ]

theorem find?_insert (k j : κ) (v : β) (m : List (κ × β)) :
    find? j (insert k v m) = if j = k then some v else find? j m := by
  induction m with
  | nil => simp [insert, find?]
  | cons p rest ih =>
    obtain ⟨i, w⟩ := p
    simp only [insert]
    by_cases h : k = i
    · subst h
      simp only [if_true, find?]
      by_cases hj : j = k <;> simp [hj]
    · by_cases hlt : k < i
      · simp [h, hlt, find?]
      · simp only [h, hlt, if_false, find?, ih]
        by_cases hj : j = i
        · subst hj; simp [Ne.symm h]
        · simp [hj]

@[simp] theorem find?_insert_self (k : κ) (v : β) (m : List (κ × β)) :
    find? k (insert k v m) = some v := by
  simp [find?_insert]

/-- A key that comes after all others is put at the end. -/
theorem insert_eq_append {k : κ} (v : β) {m : List (κ × β)} (h : ∀ p ∈ m, k ≠ p.1 ∧ ¬ k < p.1) :
    insert k v m = m ++ [(k, v)] := by
  induction m with
  | nil => rfl
  | cons p rest ih =>
    obtain ⟨hne, hlt⟩ := h p List.mem_cons_self
    rw [insert, if_neg hne, if_neg hlt, ih fun p' hp' => h p' (List.mem_cons_of_mem _ hp')]
    rfl

/-- A list whose keys ascend is the map of its pairs. -/
theorem ofList_of_ascending {m : List (κ × β)}
    (h : m.Pairwise fun p q => q.1 ≠ p.1 ∧ ¬ q.1 < p.1) : ofList m = m := by
  -- going through the list: what is done is a map already, and the rest comes after it
  suffices hrest : ∀ done, (done ++ m).Pairwise (fun p q => q.1 ≠ p.1 ∧ ¬ q.1 < p.1) →
      m.foldl (fun m p => insert p.1 p.2 m) done = done ++ m from hrest [] h
  clear h
  induction m with
  | nil => simp
  | cons p rest ih =>
    intro done hdone
    have hlast := (List.pairwise_append.1 hdone).2.2
    rw [List.foldl_cons, insert_eq_append p.2 fun q hq => hlast q hq p List.mem_cons_self]
    rw [List.append_cons] at hdone
    rw [ih _ hdone, List.append_assoc]
    rfl

end Ordered

end ChangeRelay.Assoc
