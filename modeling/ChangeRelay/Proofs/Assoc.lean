import ChangeRelay.Assoc
import Mathlib.Data.List.Induction
import Mathlib.Data.List.Nodup

/-!
# Maps as lists

What a map made of pairs holds, and what filtering it or changing its values leaves. Keys that
ascend stay so under `insert` and `erase`, and a list of such keys has each of them once.
-/

namespace ChangeRelay.Assoc

variable {κ : Type u} {β : Type v} {γ : Type w} [DecidableEq κ] {m : List (κ × β)}

/-! ## Looking up -/

theorem find?_cons (k : κ) (p : κ × β) (m : List (κ × β)) :
    find? k (p :: m) = if k = p.1 then some p.2 else find? k m := rfl

theorem find?_append (k : κ) (m m' : List (κ × β)) :
    find? k (m ++ m') = (find? k m).or (find? k m') := by
  induction m with
  | nil => rfl
  | cons p rest ih =>
      rw [List.cons_append, find?_cons, find?_cons, ih]
      split
      · rfl
      · rfl

/-- Nothing is found under a key that the list does not have. -/
theorem find?_eq_none {k : κ} : find? k m = none ↔ k ∉ keys m := by
  induction m with
  | nil => simp [keys]
  | cons p rest ih =>
      rw [find?_cons]
      by_cases hk : k = p.1
      · simp [keys, hk]
      · rw [if_neg hk, ih]
        simp [keys, hk]

/-- Where every key is there once, what is found under it is what is there. -/
theorem find?_eq_some_iff (hnd : (keys m).Nodup) {k : κ} {v : β} :
    find? k m = some v ↔ (k, v) ∈ m := by
  constructor
  · exact mem_of_find?
  · intro hmem
    induction m with
    | nil => cases hmem
    | cons p rest ih =>
        rw [keys, List.map_cons, List.nodup_cons] at hnd
        rw [find?_cons]
        rcases List.mem_cons.1 hmem with rfl | hrest
        · rw [if_pos rfl]
        · have hne : k ≠ p.1 := by
            intro heq
            exact hnd.1 (heq ▸ List.mem_map_of_mem hrest)
          rw [if_neg hne]
          exact ih hnd.2 hrest

/-- Where every key is there once, the order of the pairs does not matter. -/
theorem find?_reverse (hnd : (keys m).Nodup) (k : κ) : find? k m.reverse = find? k m := by
  have hnd' : (keys m.reverse).Nodup := by
    rw [keys, List.map_reverse, List.nodup_reverse]
    exact hnd
  apply Option.ext
  intro v
  rw [find?_eq_some_iff hnd', find?_eq_some_iff hnd, List.mem_reverse]

theorem find?_filter_key (keep : κ → Bool) (k : κ) (m : List (κ × β)) :
    find? k (m.filter fun p => keep p.1) = if keep k then find? k m else none := by
  induction m with
  | nil => simp
  | cons p rest ih =>
      by_cases hk : k = p.1
      · subst hk
        by_cases hkeep : keep p.1 = true
        · simp [hkeep, find?_cons]
        · simp [hkeep, ih]
      · by_cases hkeep : keep p.1 = true
        · simp [hkeep, find?_cons, hk, ih]
        · simp [hkeep, find?_cons, hk, ih]

theorem find?_filter_value (hnd : (keys m).Nodup) (keep : β → Bool) (k : κ) :
    find? k (m.filter fun p => keep p.2) = (find? k m).filter keep := by
  have hnd' : (keys (m.filter fun p => keep p.2)).Nodup :=
    hnd.sublist (List.filter_sublist.map Prod.fst)
  apply Option.ext
  intro v
  rw [find?_eq_some_iff hnd', Option.filter_eq_some_iff, find?_eq_some_iff hnd, List.mem_filter]

theorem find?_map_value (f : β → γ) (k : κ) (m : List (κ × β)) :
    find? k (m.map fun p => (p.1, f p.2)) = (find? k m).map f := by
  induction m with
  | nil => rfl
  | cons p rest ih =>
      rw [List.map_cons, find?_cons, find?_cons, ih]
      split
      · rfl
      · rfl

omit [DecidableEq κ] in
theorem keys_map_value (f : β → γ) (m : List (κ × β)) :
    keys (m.map fun p => (p.1, f p.2)) = keys m := by
  simp [keys, Function.comp_def]

/-! ## Making maps -/

section Ordered

variable [LT κ] [DecidableLT κ]

theorem mem_keys_insert {k j : κ} {v : β} : j ∈ keys (insert k v m) ↔ j = k ∨ j ∈ keys m := by
  rw [← not_iff_not, ← find?_eq_none, find?_insert, not_or, ← find?_eq_none]
  split <;> simp [*]

theorem ofList_append_singleton (pairs : List (κ × β)) (p : κ × β) :
    ofList (pairs ++ [p]) = insert p.1 p.2 (ofList pairs) := by
  simp [ofList, List.foldl_append]

/-- Of the pairs with one key the last counts. -/
theorem find?_ofList (k : κ) (pairs : List (κ × β)) :
    find? k (ofList pairs) = find? k pairs.reverse := by
  induction pairs using List.reverseRecOn with
  | nil => rfl
  | append_singleton pairs p ih =>
      rw [ofList_append_singleton, find?_insert, List.reverse_append, List.reverse_singleton,
        List.singleton_append, find?_cons, ih]

theorem find?_ofList_of_nodup {pairs : List (κ × β)} (hnd : (keys pairs).Nodup) (k : κ) :
    find? k (ofList pairs) = find? k pairs := by
  rw [find?_ofList, find?_reverse hnd]

/-! ## Ascending keys -/

/-- The keys of the list ascend. -/
def Ascending (m : List (κ × β)) : Prop := m.Pairwise fun p q => p.1 < q.1

omit [DecidableEq κ] [DecidableLT κ] in
theorem Ascending.nil : Ascending ([] : List (κ × β)) := List.Pairwise.nil

omit [DecidableEq κ] [DecidableLT κ] in
theorem Ascending.keys_nodup [Std.Irrefl (α := κ) (· < ·)] (h : Ascending m) :
    (keys m).Nodup := by
  rw [keys, List.Nodup, List.pairwise_map]
  apply h.imp
  intro p q hlt heq
  rw [heq] at hlt
  exact Std.Irrefl.irrefl q.1 hlt

omit [DecidableLT κ] in
theorem Ascending.erase (h : Ascending m) (k : κ) : Ascending (erase k m) := h.filter _

/-- What stands in the list with a key set is the new pair or stood there before. -/
theorem mem_insert {k : κ} {v : β} {p : κ × β} (h : p ∈ insert k v m) : p = (k, v) ∨ p ∈ m := by
  induction m with
  | nil => exact .inl (List.mem_singleton.1 h)
  | cons q rest ih =>
      rw [insert] at h
      split at h
      · rcases List.mem_cons.1 h with heq | hmem
        · exact .inl heq
        · exact .inr (List.mem_cons_of_mem _ hmem)
      · split at h
        · rcases List.mem_cons.1 h with heq | hmem
          · exact .inl heq
          · exact .inr hmem
        · rcases List.mem_cons.1 h with heq | hmem
          · exact .inr (heq ▸ List.mem_cons_self)
          · rcases ih hmem with heq | hmem
            · exact .inl heq
            · exact .inr (List.mem_cons_of_mem _ hmem)

variable [Trans (α := κ) (· < ·) (· < ·) (· < ·)] [Std.Trichotomous (α := κ) (· < ·)]

omit [DecidableLT κ] [Std.Trichotomous (α := κ) (· < ·)] in
/-- Lists of ascending keys under which the same is found are the same. -/
theorem Ascending.ext [Std.Irrefl (α := κ) (· < ·)] {m' : List (κ × β)} (h : Ascending m)
    (h' : Ascending m') (hfind : ∀ k, find? k m = find? k m') : m = m' := by
  have hperm : m.Perm m' := by
    refine (List.perm_ext_iff_of_nodup h.keys_nodup.of_map h'.keys_nodup.of_map).2 fun p => ?_
    rw [← find?_eq_some_iff h.keys_nodup, ← find?_eq_some_iff h'.keys_nodup, hfind]
  refine hperm.eq_of_pairwise (fun p q _ _ hpq hqp => ?_) h h'
  -- no key comes before itself
  exact absurd (Trans.trans (r := (· < ·)) (s := (· < ·)) hpq hqp) (Std.Irrefl.irrefl p.1)

theorem Ascending.insert (h : Ascending m) (k : κ) (v : β) : Ascending (insert k v m) := by
  induction m with
  | nil => exact List.pairwise_singleton _ _
  | cons p rest ih =>
      rw [Ascending, List.pairwise_cons] at h
      obtain ⟨hfirst, hrest⟩ := h
      rw [Assoc.insert]
      split
      · -- the pair of the key is replaced
        rename_i heq
        rw [Ascending, List.pairwise_cons]
        refine ⟨?_, hrest⟩
        intro q hq
        rw [heq]
        exact hfirst q hq
      · rename_i hne
        split
        · -- the key comes before the first one
          rename_i hlt
          rw [Ascending, List.pairwise_cons, List.pairwise_cons]
          refine ⟨?_, hfirst, hrest⟩
          intro q hq
          rcases List.mem_cons.1 hq with rfl | hq
          · exact hlt
          · exact Trans.trans (r := (· < ·)) (s := (· < ·)) hlt (hfirst q hq)
        · rename_i hge
          have hgt : p.1 < k := by
            by_contra hnot
            exact hne (Std.Trichotomous.trichotomous k p.1 hge hnot)
          rw [Ascending, List.pairwise_cons]
          refine ⟨?_, ih hrest⟩
          intro q hq
          rcases mem_insert hq with rfl | hq
          · exact hgt
          · exact hfirst q hq

theorem ascending_ofList (pairs : List (κ × β)) : Ascending (ofList pairs) := by
  induction pairs using List.reverseRecOn with
  | nil => exact Ascending.nil
  | append_singleton pairs p ih =>
      rw [ofList_append_singleton]
      exact ih.insert p.1 p.2

end Ordered

end ChangeRelay.Assoc
