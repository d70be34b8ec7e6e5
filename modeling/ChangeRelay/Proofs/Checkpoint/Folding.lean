import ChangeRelay.Proofs.Checkpoint.Proposal
import ChangeRelay.Proofs.Store.Batch

/-!
# Folding intents and applying them one by one

The batch that stands for a list of intents names each record once, in the order in which the
intents first touch them. On the records that it was made from it goes through, and it leaves the
data that the intents make one by one. So it does not matter where a list of intents is cut into
batches.
-/

namespace ChangeRelay.Checkpoint

open Store (Address Record Records Guard BatchOp Memory)

variable {read : Address → Option Record} {slots : List Slot} {intents : List Intent} {rs : Records}

/-- Records are touched in the order of the intents, each where it is named first. -/
theorem touched_resolveFrom (read : Address → Option Record) (slots : List Slot)
    (intents : List Intent) :
    touched (resolveFrom read slots intents) = touched slots ++
      ((intents.map intentAddress).filter fun a => a ∉ touched slots).eraseDups := by
  induction intents generalizing slots with
  | nil => simp [resolveFrom]
  | cons i rest ih =>
      cases ht : touch i slots with
      | some slots' =>
          -- the intent names a record that has a slot
          have hmem := mem_touched_of_touch ht
          simp only [resolveFrom, ht]
          rw [ih, touched_touch ht, List.map_cons, List.filter_cons_of_neg (by simpa using hmem)]
      | none =>
          have hnew : intentAddress i ∉ touched slots := by
            simpa [touched] using touch_eq_none.1 ht
          have hlast : touched (slots ++ [Slot.ofRead i (read (intentAddress i))]) =
              touched slots ++ [intentAddress i] := by simp [touched, Slot.ofRead]
          simp only [resolveFrom, ht]
          rw [ih, hlast, List.map_cons, List.filter_cons_of_pos (by simpa using hnew),
            List.eraseDups_cons, List.filter_filter, List.append_assoc, List.singleton_append]
          have hfilter : (fun a => decide (a ∉ touched slots ++ [intentAddress i])) =
              fun a => !a == intentAddress i && decide (a ∉ touched slots) := by
            funext a
            by_cases ha : a = intentAddress i <;> simp [ha]
          rw [hfilter]

theorem map_address_resolve (read : Address → Option Record) (intents : List Intent) :
    (resolve read intents).map BatchOp.address = (intents.map intentAddress).eraseDups := by
  have h := touched_resolveFrom read [] intents
  simpa [touched, resolve, Slot.op, Function.comp_def] using h

/-- What the operation of a slot leaves is the value that the slot shows. -/
theorem Slot.map_value_result (s : Slot) : s.op.action.result.map Record.value = s.value := by
  cases hv : s.value <;> simp [Slot.op, hv, Store.Action.result, Record.of]

/-- Writing the operations of slots makes the data that the slots show. -/
theorem value_write_slots (h : (slots.map Slot.address).Nodup) :
    (rs.write (slots.map Slot.op)).value = overlay (fun a => Assoc.find? a rs) slots := by
  funext a
  rw [Records.value]
  cases ha : slot? a slots with
  | some s =>
      have haddr : s.address = a := by simpa using List.find?_some ha
      have hop : s.op ∈ slots.map Slot.op := List.mem_map_of_mem (List.mem_of_find?_eq_some ha)
      have hnd : ((slots.map Slot.op).map BatchOp.address).Nodup := by
        simpa [Slot.op, Function.comp_def] using h
      rw [overlay_of_some ha, ← s.map_value_result, ← haddr]
      exact congrArg _ (Records.find?_write_of_mem hnd hop)
  | none =>
      rw [overlay_of_none ha, Records.find?_write_of_ne]
      simpa [Slot.op] using slot?_eq_none.1 ha

/-- What the batch for a list of intents is to the records that it was made from. -/
structure Folds (rs : Records) (intents : List Intent) (ops : List BatchOp) : Prop where
  /-- No record is written twice. -/
  once : (ops.map BatchOp.address).Nodup
  /-- The records are those that the intents name, in the order in which they name them first. -/
  order : ops.map BatchOp.address = (intents.map intentAddress).eraseDups
  /-- Each has to be what was read. -/
  guarded : ∀ op ∈ ops, op.guard = .ofCurrent (Assoc.find? op.address rs)
  /-- The batch does to the data what the intents do one by one. -/
  data : (rs.write ops).value = Data.applyAll rs.value intents

theorem folds_resolve (rs : Records) (intents : List Intent) :
    Folds rs intents (resolve (fun a => Assoc.find? a rs) intents) := by
  have hslots := resolveFrom_guarded (Slots.Guarded.nil fun a => Assoc.find? a rs) intents
  have hdata : overlay (fun a => Assoc.find? a rs) [] = rs.value := rfl
  refine ⟨?_, map_address_resolve _ intents, ?_, ?_⟩
  · simpa [resolve, Slot.op, Function.comp_def] using hslots.nodup
  · intro op hop
    obtain ⟨s, hs, rfl⟩ := List.mem_map.1 hop
    exact hslots.guard s hs
  · rw [resolve, value_write_slots hslots.nodup, overlay_resolveFrom, hdata]

/-- A guard that demands what was read holds as long as nobody else writes. -/
theorem Folds.allows {ops : List BatchOp} (h : Folds rs intents ops) :
    ∀ op ∈ ops, rs.allows op = true := by
  intro op hop
  rw [Records.allows, h.guarded op hop]
  exact Guard.holds_ofCurrent _

/-! ## Batches in a row -/

/-- Writes lists of intents one after the other, each as a batch made from what the store holds
then; a batch that is refused ends it. -/
def writeEach (s : Memory) : List (List Intent) → Memory × Except StoreFault Unit
  | [] => (s, .ok ())
  | piece :: rest =>
    match s.putBatch (resolve (fun a => Assoc.find? a s.records) piece) with
    | (s, .ok ()) => writeEach s rest
    | (s, .error e) => (s, .error e)

variable {s : Memory}

theorem putBatch_resolve (h : s.Working) (intents : List Intent) :
    ∃ s', s.putBatch (resolve (fun a => Assoc.find? a s.records) intents) = (s', .ok ()) ∧
      s'.Working ∧ s'.records.value = Data.applyAll s.records.value intents := by
  have hfolds := folds_resolve s.records intents
  have htakes : s.Takes (resolve (fun a => Assoc.find? a s.records) intents) :=
    ⟨h.available, h.willing, by simp [h.steady], hfolds.allows⟩
  exact ⟨_, Memory.putBatch_of_takes hfolds.once htakes, ⟨h.available, h.willing, rfl⟩, hfolds.data⟩

theorem writeEach_data (h : s.Working) (pieces : List (List Intent)) :
    ∃ s', writeEach s pieces = (s', .ok ()) ∧
      s'.records.value = Data.applyAll s.records.value pieces.flatten := by
  induction pieces generalizing s with
  | nil => exact ⟨s, rfl, rfl⟩
  | cons piece rest ih =>
      obtain ⟨s', hput, hworking, hdata⟩ := putBatch_resolve h piece
      obtain ⟨s'', hrest, hdata'⟩ := ih hworking
      refine ⟨s'', ?_, ?_⟩
      · simp only [writeEach, hput, hrest]
      · rw [hdata', hdata, List.flatten_cons, Data.applyAll_append]

/-- A proposal that goes through its intents at a store that answers comes to write one operation
for each record they name, in the order of first touch and guarded by what was read; these make of
the data what the intents make of it one by one. Where the store refuses nothing, the intents may
be cut into batches in any way, each made from what the ones before it left. -/
theorem resolve_one_by_one (rs : Records) (intents : List Intent) :
    Folds rs intents (resolve (fun a => Assoc.find? a rs) intents) ∧
      (∀ (σ : Type) (get : σ → Address → Except StoreFault (Option Record))
        (put : σ → List BatchOp → σ × Except StoreFault Unit) (s : σ),
        (∀ a, get s a = .ok (Assoc.find? a rs)) → ∀ (p : Proposal) (cp : Option Record),
          (p.continueWith cp [] intents).run get put s =
            Proposal.run get put s { p with
              phase := .write (resolve (fun a => Assoc.find? a rs) intents ++
                [p.checkpointOp cp]) }) ∧
      (∀ s : Memory, s.Working → s.records = rs →
        ∀ pieces : List (List Intent), pieces.flatten = intents →
          ∃ s', writeEach s pieces = (s', .ok ()) ∧
            s'.records.value =
              (rs.write (resolve (fun a => Assoc.find? a rs) intents)).value) := by
  have hfolds := folds_resolve rs intents
  refine ⟨hfolds, ?_, ?_⟩
  · intro σ get put s hget p cp
    exact Proposal.run_continueWith hget cp [] intents
  · rintro s hworking rfl pieces rfl
    rw [hfolds.data]
    exact writeEach_data hworking pieces

/-- A store with two records. -/
def shelved : Memory := (({} : Memory).apply
  [⟨⟨"b", "k"⟩, .put (.object [("kept", .int 1)]), .any⟩, ⟨⟨"b", "old"⟩, .put (.int 0), .any⟩]).1

/-- Intents that remove both, and make the first anew from a patch. -/
def remade : List Intent :=
  [.delete "b" "k", .put "b" "other" (.int 2), .merge "b" "k" (.object [("new", .int 3)]),
    .delete "b" "old"]

theorem resolve_one_by_one_remade :
    let ops := resolve (fun a => Assoc.find? a shelved.records) remade
    ops.map BatchOp.address = [⟨"b", "k"⟩, ⟨"b", "other"⟩, ⟨"b", "old"⟩] ∧
      (shelved.records.write ops).value ⟨"b", "k"⟩ = some (.object [("new", .int 3)]) ∧
      (shelved.records.write ops).value ⟨"b", "other"⟩ = some (.int 2) ∧
      shelved.records.value ⟨"b", "old"⟩ = some (.int 0) ∧
      (shelved.records.write ops).value ⟨"b", "old"⟩ = none ∧
      ∃ s', writeEach shelved [remade.take 1, remade.drop 1] = (s', .ok ()) ∧
        s'.records.value = (shelved.records.write ops).value := by
  intro ops
  obtain ⟨hfolds, -, hpieces⟩ := resolve_one_by_one shelved.records remade
  have hdata (a : Address) : (shelved.records.write ops).value a =
      Data.applyAll shelved.records.value remade a := congrFun hfolds.data a
  refine ⟨?_, ?_, ?_, rfl, ?_, hpieces shelved ⟨rfl, rfl, rfl⟩ rfl _ rfl⟩
  · rw [hfolds.order]
    decide
  · rw [hdata]
    rfl
  · rw [hdata]
    rfl
  · rw [hdata]
    rfl

end ChangeRelay.Checkpoint
