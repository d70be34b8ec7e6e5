import ChangeRelay.Intent
import ChangeRelay.Proofs.Assoc

/-!
# Merge patches

A patch folded into the fields of an object sets what it names, removes what it names with null, and
leaves the rest as it is. One patch after another does what a single patch does that has the fields
of both, and a patch that is applied again changes nothing.
-/

namespace ChangeRelay

/-- What is found under a name after one field of a patch. -/
theorem find?_mergeField (name : String) (fields : Json.Fields) (p : String × Json.Value) :
    Assoc.find? name (mergeField fields p) =
      if name = p.1 then (if p.2.isNull then none else some p.2) else Assoc.find? name fields := by
  unfold mergeField
  by_cases hnull : p.2.isNull = true
  · rw [if_pos hnull, if_pos hnull, Assoc.find?_erase]
  · rw [if_neg hnull, if_neg hnull, Assoc.find?_insert]

/-- What is found under a name after a patch: the last field of the patch that has the name
decides. -/
theorem find?_foldl_mergeField (name : String) (fields patch : Json.Fields) :
    Assoc.find? name (patch.foldl mergeField fields) =
      match Assoc.find? name patch.reverse with
      | some v => if v.isNull then none else some v
      | none => Assoc.find? name fields := by
  induction patch using List.reverseRecOn with
  | nil => rfl
  | append_singleton patch p ih =>
      rw [List.foldl_append, List.foldl_cons, List.foldl_nil, find?_mergeField, ih,
        List.reverse_append, List.reverse_singleton, List.singleton_append, Assoc.find?_cons]
      by_cases hname : name = p.1
      · rw [if_pos hname, if_pos hname]
      · rw [if_neg hname, if_neg hname]

theorem ascending_mergeField {fields : Json.Fields} (h : Assoc.Ascending fields)
    (p : String × Json.Value) : Assoc.Ascending (mergeField fields p) := by
  unfold mergeField
  split
  · exact h.erase p.1
  · exact h.insert p.1 p.2

theorem ascending_foldl_mergeField {fields : Json.Fields} (h : Assoc.Ascending fields)
    (patch : Json.Fields) : Assoc.Ascending (patch.foldl mergeField fields) := by
  induction patch generalizing fields with
  | nil => exact h
  | cons p rest ih => exact ih (ascending_mergeField h p)

/-! ## One patch after another -/

/-- The fields of a patch, with those of a later one in the place of its own. A field that is null
stays: what it is to remove may be in the record. -/
def overridden (patch later : Json.Fields) : Json.Fields :=
  later.foldl (fun fields p => Assoc.insert p.1 p.2 fields) patch

theorem overridden_append_singleton (patch later : Json.Fields) (p : String × Json.Value) :
    overridden patch (later ++ [p]) = Assoc.insert p.1 p.2 (overridden patch later) := by
  simp [overridden, List.foldl_append]

theorem find?_overridden (name : String) (patch later : Json.Fields) :
    Assoc.find? name (overridden patch later) =
      (Assoc.find? name later.reverse).or (Assoc.find? name patch) := by
  induction later using List.reverseRecOn with
  | nil => rfl
  | append_singleton later p ih =>
      rw [overridden_append_singleton, Assoc.find?_insert, ih, List.reverse_append,
        List.reverse_singleton, List.singleton_append, Assoc.find?_cons]
      split
      · rfl
      · rfl

theorem ascending_overridden {patch : Json.Fields} (h : Assoc.Ascending patch)
    (later : Json.Fields) : Assoc.Ascending (overridden patch later) := by
  induction later using List.reverseRecOn with
  | nil => exact h
  | append_singleton later p ih =>
      rw [overridden_append_singleton]
      exact ih.insert p.1 p.2

section Patches

variable {current : Option Json.Value} {p q : Json.Fields}

/-- Objects of ascending names are the same if the same is found in them. -/
theorem object_ext {fields fields' : Json.Fields} (h : Assoc.Ascending fields)
    (h' : Assoc.Ascending fields')
    (hfind : ∀ name, Assoc.find? name fields = Assoc.find? name fields') :
    Json.Value.object fields = .object fields' :=
  congrArg Json.Value.object (h.ext h' hfind)

theorem applyMerge_applyMerge (hcurrent : Assoc.Ascending (objectFields current))
    (hp : Assoc.Ascending p) :
    applyMerge (some (applyMerge current (.object p))) (.object q) =
      applyMerge current (.object (overridden p q)) := by
  have hmerged := ascending_foldl_mergeField hcurrent p
  refine object_ext (ascending_foldl_mergeField hmerged q)
    (ascending_foldl_mergeField hcurrent _) fun name => ?_
  have hnodup := (ascending_overridden hp q).keys_nodup
  change Assoc.find? name (q.foldl mergeField (p.foldl mergeField (objectFields current))) = _
  rw [find?_foldl_mergeField, find?_foldl_mergeField, find?_foldl_mergeField,
    Assoc.find?_reverse hnodup, find?_overridden, Assoc.find?_reverse hp.keys_nodup]
  -- the later patch decides if it has the name, and else the earlier one
  cases Assoc.find? name q.reverse with
  | some v => rfl
  | none => rfl

theorem applyMerge_self (hcurrent : Assoc.Ascending (objectFields current))
    (patch : Json.Value) :
    applyMerge (some (applyMerge current patch)) patch = applyMerge current patch := by
  cases patch with
  | object fields =>
      have hmerged := ascending_foldl_mergeField hcurrent fields
      refine object_ext (ascending_foldl_mergeField hmerged fields) hmerged fun name => ?_
      change Assoc.find? name
        (fields.foldl mergeField (fields.foldl mergeField (objectFields current))) = _
      rw [find?_foldl_mergeField, find?_foldl_mergeField]
      cases Assoc.find? name fields.reverse with
      | some v => rfl
      | none => rfl
  | _ => rfl

theorem get?_applyMerge_of_not_mem {fields : Json.Fields} {name : String}
    (h : name ∉ Assoc.keys p) :
    (applyMerge (some (.object fields)) (.object p)).get? name = Assoc.find? name fields := by
  have hnone : Assoc.find? name p.reverse = none := by
    rw [Assoc.find?_eq_none, Assoc.keys, List.map_reverse, List.mem_reverse]
    exact h
  change Assoc.find? name (p.foldl mergeField fields) = _
  rw [find?_foldl_mergeField, hnone]

/-- Two patches that are objects, one after the other, do what the first overridden by the second
does, whatever the record holds. A patch of any kind does nothing more when it is applied again. A
patch that is an object leaves what an object holds under other names as it is. -/
theorem patches_compose_and_replay (hcurrent : Assoc.Ascending (objectFields current))
    (hp : Assoc.Ascending p) (hq : Assoc.Ascending q) :
    (applyMerge (some (applyMerge current (.object p))) (.object q) =
        applyMerge current (.object (overridden p q)) ∧
      Assoc.Ascending (overridden p q) ∧
      ∀ name, Assoc.find? name (overridden p q) =
        (Assoc.find? name q).or (Assoc.find? name p)) ∧
    (∀ patch, applyMerge (some (applyMerge current patch)) patch = applyMerge current patch) ∧
    ∀ fields, current = some (.object fields) → ∀ name, name ∉ Assoc.keys p →
      (applyMerge current (.object p)).get? name = Assoc.find? name fields := by
  refine ⟨⟨applyMerge_applyMerge hcurrent hp, ascending_overridden hp q, ?_⟩,
    applyMerge_self hcurrent, ?_⟩
  · intro name
    rw [find?_overridden, Assoc.find?_reverse hq.keys_nodup]
  · rintro fields rfl name hname
    exact get?_applyMerge_of_not_mem hname

/-- A null of the first patch has to stay in the patch that does what both do: the record still has
the field. Of the record, the first patch removes one field, leaves one and sets one; the second
removes the rest. -/
theorem patches_compose_and_replay_nulls :
    let current : Option Json.Value := some (.object [("a", .int 1), ("b", .int 2)])
    let p : Json.Fields := [("a", .null), ("c", .int 3)]
    let q : Json.Fields := [("b", .null), ("c", .null)]
    Assoc.Ascending (objectFields current) ∧ Assoc.Ascending p ∧ Assoc.Ascending q ∧
      overridden p q = [("a", .null), ("b", .null), ("c", .null)] ∧
      applyMerge (some (applyMerge current (.object p))) (.object q) =
        applyMerge current (.object [("a", .null), ("b", .null), ("c", .null)]) ∧
      (applyMerge current (.object p)).get? "b" = some (.int 2) ∧
      (applyMerge current (.object p)).get? "a" = none ∧
      (applyMerge current (.object p)).get? "c" = some (.int 3) ∧
      applyMerge (some (applyMerge current (.object p))) (.object q) = .object [] := by
  intro current p q
  have hcurrent : Assoc.Ascending (objectFields current) :=
    Assoc.ascending_ofList (objectFields current)
  have hp : Assoc.Ascending p := Assoc.ascending_ofList p
  have hq : Assoc.Ascending q := Assoc.ascending_ofList q
  obtain ⟨⟨hcompose, -, -⟩, -, hkept⟩ := patches_compose_and_replay hcurrent hp hq
  have hoverridden : overridden p q = [("a", .null), ("b", .null), ("c", .null)] := by decide
  rw [hoverridden] at hcompose
  refine ⟨hcurrent, hp, hq, hoverridden, hcompose, hkept _ rfl "b" (by decide), rfl, rfl, ?_⟩
  rw [hcompose]
  rfl

end Patches

end ChangeRelay
