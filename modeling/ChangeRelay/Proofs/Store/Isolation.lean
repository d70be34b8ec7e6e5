import ChangeRelay.Store.Script

/-!
# Which records share cells

The names of a bucket's two hashes are put together without an escape, so the tags of one bucket
lie where a bucket of a longer name keeps its values. Two records are kept apart unless their
buckets are related in this way; where they are, a write of one shows in the other.
-/

namespace ChangeRelay.Store

/-- The name of the bucket whose values lie where the tags of a bucket do. -/
def shadow (bucket : String) : String := bucket ++ ":etag"

/-- Two records of which one lies where the tag of the other does. -/
def Overlay (a b : Address) : Prop :=
  a.key = b.key ∧ (a.bucket = shadow b.bucket ∨ b.bucket = shadow a.bucket)

instance (a b : Address) : Decidable (Overlay a b) := inferInstanceAs (Decidable (_ ∧ _))

theorem shadow_ne (bucket : String) : shadow bucket ≠ bucket := by
  intro h
  have hlen := congrArg String.length h
  simp [shadow] at hlen

theorem shadow_inj {bucket other : String} : shadow bucket = shadow other ↔ bucket = other := by
  simp [shadow]

namespace Cells

/-! ## Names of hashes -/

theorem valueHash_inj (s : Cells) {bucket other : String} :
    s.valueHash bucket = s.valueHash other ↔ bucket = other := by
  simp [valueHash, toString]

/-- The tags of a bucket lie where its shadow would keep its values. -/
theorem etagHash_eq (s : Cells) (bucket : String) :
    s.etagHash bucket = s.valueHash (shadow bucket) := by
  simp [etagHash, valueHash, shadow, toString, String.append_assoc]

theorem valueCell_eq_valueCell (s : Cells) {a b : Address} :
    s.valueCell a = s.valueCell b ↔ a = b := by
  cases a
  cases b
  simp [valueCell, valueHash_inj]

theorem etagCell_eq_etagCell (s : Cells) {a b : Address} :
    s.etagCell a = s.etagCell b ↔ a = b := by
  cases a
  cases b
  simp [etagCell, etagHash_eq, valueHash_inj, shadow_inj]

theorem valueCell_eq_etagCell (s : Cells) {a b : Address} :
    s.valueCell a = s.etagCell b ↔ a.key = b.key ∧ a.bucket = shadow b.bucket := by
  simp [valueCell, etagCell, etagHash_eq, valueHash_inj, and_comm]

/-- Two records share a cell exactly if one lies where the tag of the other does. -/
theorem cells_disjoint_iff (s : Cells) {a b : Address} (hne : a ≠ b) :
    (∀ c ∈ s.cells a, c ∉ s.cells b) ↔ ¬ Overlay a b := by
  have hvalue : s.valueCell a ≠ s.valueCell b := fun h => hne (s.valueCell_eq_valueCell.1 h)
  have hetag : s.etagCell a ≠ s.etagCell b := fun h => hne (s.etagCell_eq_etagCell.1 h)
  have hcross : s.etagCell a = s.valueCell b ↔ a.key = b.key ∧ b.bucket = shadow a.bucket := by
    rw [eq_comm, s.valueCell_eq_etagCell, eq_comm]
  simp only [cells, List.mem_cons, List.not_mem_nil, or_false, forall_eq_or_imp, forall_eq,
    hvalue, hetag, false_or, s.valueCell_eq_etagCell, hcross]
  rw [Overlay, and_or_left, not_or]

/-! ## What the script is told -/

/-- An operation as the script reads it. -/
def scriptOp (s : Cells) (op : BatchOp) : ScriptOp :=
  ⟨s.valueHash op.address.bucket, s.etagHash op.address.bucket, op.address.key,
    (actionArgs op.action).1, (guardArgs op.guard).1, (guardArgs op.guard).2,
    (actionArgs op.action).2.1, (actionArgs op.action).2.2⟩

/-- The script reads the operations of a batch back from its keys and arguments. -/
theorem read_batch (s : Cells) (ops : List BatchOp) :
    ScriptOp.read (ops.flatMap s.opKeys) (ops.flatMap opArgs) = ops.map s.scriptOp := by
  induction ops with
  | nil => rfl
  | cons op ops ih =>
    simp only [List.flatMap_cons, List.map_cons, opKeys, opArgs, List.cons_append,
      List.nil_append, ScriptOp.read, ih]
    rfl

end Cells

/-- An operation of the script writes its own two cells only. -/
theorem ScriptOp.write_of_ne {op : ScriptOp} {h : Hashes} {c : Cell} (hvalue : c ≠ op.valueCell)
    (hetag : c ≠ op.etagCell) : op.write h c = h c := by
  rw [ScriptOp.write]
  split <;> rw [Hashes.set_of_ne hetag, Hashes.set_of_ne hvalue]

theorem ScriptOp.run_of_ne {ops : List ScriptOp} {h : Hashes} {c : Cell}
    (hc : ∀ op ∈ ops, c ≠ op.valueCell ∧ c ≠ op.etagCell) : (ScriptOp.run ops h).1 c = h c := by
  have hwrites : ∀ h : Hashes, ops.foldl (fun h op => op.write h) h c = h c := by
    induction ops with
    | nil => intro h; rfl
    | cons op ops ih =>
      intro h
      have hop := hc op List.mem_cons_self
      rw [List.foldl_cons, ih (fun o ho => hc o (List.mem_cons_of_mem _ ho)),
        write_of_ne hop.1 hop.2]
  rw [ScriptOp.run]
  split
  · rfl
  · exact hwrites h

namespace Cells

/-- A batch changes no cell but those of the records it names. -/
theorem putBatch_of_notMem (s : Cells) (h : Hashes) {ops : List BatchOp} {c : Cell}
    (hc : ∀ op ∈ ops, c ∉ s.cells op.address) : (s.putBatch h ops).1 c = h c := by
  rw [putBatch]
  split
  · rfl
  · simp only [read_batch]
    apply ScriptOp.run_of_ne
    intro o ho
    obtain ⟨op, hop, rfl⟩ := List.mem_map.1 ho
    have := hc op hop
    simp only [cells, List.mem_cons, List.not_mem_nil, or_false, not_or] at this
    exact this

/-- What a read answers depends on the two cells of its record only. -/
theorem get_congr (s : Cells) {h h' : Hashes} {a : Address}
    (heq : ∀ c ∈ s.cells a, h c = h' c) : s.get h a = s.get h' a := by
  have hvalue := heq (s.valueCell a) (by simp [cells])
  have hetag := heq (s.etagCell a) (by simp [cells])
  simp only [get, Hashes.reply, hvalue, hetag]

/-- A batch leaves alone every record that it does not name and that no record it names lies
over. -/
theorem get_putBatch (s : Cells) (h : Hashes) {ops : List BatchOp} {b : Address}
    (hops : ∀ op ∈ ops, op.address ≠ b ∧ ¬ Overlay op.address b) :
    s.get (s.putBatch h ops).1 b = s.get h b := by
  apply s.get_congr
  intro c hc
  apply s.putBatch_of_notMem
  intro op hop hmem
  obtain ⟨hne, hover⟩ := hops op hop
  exact (s.cells_disjoint_iff hne).2 hover c hmem hc

/-! ## What shows through -/

/-- A read finds no record exactly where both of its cells are empty. -/
theorem get_eq_ok_none (s : Cells) (h : Hashes) (a : Address) :
    s.get h a = .ok none ↔ ∀ c ∈ s.cells a, h c = none := by
  simp only [cells, List.mem_cons, List.not_mem_nil, or_false, forall_eq_or_imp, forall_eq, get,
    Hashes.reply]
  cases h (s.valueCell a) <;> cases h (s.etagCell a) <;>
    simp only [fetched, Redis.Reply.optionalText?, Redis.Reply.text?]
  · simp
  · -- only the tag is there
    cases Redis.bulkText? _ <;> simp
  · -- only the value is there
    cases Redis.bulkText? _ <;> simp
  · cases Redis.bulkText? _ <;> cases Redis.bulkText? _ <;> simp
    split <;> simp

/-- A put without a guard fills both cells of its record. -/
theorem putBatch_put_fills (s : Cells) (h : Hashes) (a : Address) (v : Json.Value) {c : Cell}
    (hc : c ∈ s.cells a) : (s.putBatch h [⟨a, .put v, .any⟩]).1 c ≠ none := by
  have hrun : (s.putBatch h [⟨a, .put v, .any⟩]).1 =
      (h.set (s.valueCell a) (some v.text)).set (s.etagCell a) (some (etag v)) := by
    rw [putBatch, if_neg (by simp), read_batch]
    simp [ScriptOp.run, ScriptOp.allowed, ScriptOp.write, scriptOp, actionArgs, guardArgs,
      ScriptOp.valueCell, ScriptOp.etagCell, valueCell, etagCell]
  rw [hrun, Hashes.set]
  split
  · simp
  · rename_i hne
    have hvalue : c = s.valueCell a := by simpa [cells, hne] using hc
    simp [hvalue]

/-- A put shows as a record, or as half of one, at every record that it lies over. -/
theorem get_putBatch_of_overlay (s : Cells) (h : Hashes) {a b : Address} (v : Json.Value)
    (hover : Overlay a b) : s.get (s.putBatch h [⟨a, .put v, .any⟩]).1 b ≠ .ok none := by
  have hne : a ≠ b := by
    rintro rfl
    exact shadow_ne _ (or_self_iff.1 hover.2).symm
  intro hnone
  rw [get_eq_ok_none] at hnone
  refine (s.cells_disjoint_iff hne).1 (fun c hca hcb => ?_) hover
  exact s.putBatch_put_fills h a v hca (hnone c hcb)

/-- How far records are apart: the value and the tag of one never share a cell; two records share
one exactly if one of them lies over the other; a batch changes what is read of none that it
neither names nor lies over; and a put over a record that is not there makes it appear. -/
theorem isolated_iff_not_overlay (s : Cells) :
    (∀ a, s.valueCell a ≠ s.etagCell a) ∧
      (∀ a b, a ≠ b → ((∀ c ∈ s.cells a, c ∉ s.cells b) ↔ ¬ Overlay a b)) ∧
      (∀ ops b, (∀ op ∈ ops, op.address ≠ b ∧ ¬ Overlay op.address b) →
        ∀ h, s.get (s.putBatch h ops).1 b = s.get h b) ∧
      ∀ a b, Overlay a b → ∀ h v, s.get h b = .ok none →
        s.get (s.putBatch h [⟨a, .put v, .any⟩]).1 b ≠ s.get h b := by
  refine ⟨fun a h => ?_, fun a b => s.cells_disjoint_iff, fun ops b hops h => s.get_putBatch h hops,
    fun a b hover h v hnone => ?_⟩
  · exact shadow_ne a.bucket (s.valueCell_eq_etagCell.1 h).2.symm
  · rw [hnone]
    exact s.get_putBatch_of_overlay h v hover

/-- The bucket of the tags of another one, and a bucket of checkpoints that neither has to do
with. -/
theorem isolated_iff_not_overlay_etag_bucket :
    let s : Cells := ⟨"p"⟩
    let put : BatchOp := ⟨⟨"m:etag", "k"⟩, .put (.string "two"), .any⟩
    s.valueCell ⟨"m", "k"⟩ ≠ s.etagCell ⟨"m", "k"⟩ ∧
      (¬ ∀ c ∈ s.cells put.address, c ∉ s.cells ⟨"m", "k"⟩) ∧
      (∀ h, s.get (s.putBatch h [put]).1 ⟨"checkpoints", "k"⟩ = s.get h ⟨"checkpoints", "k"⟩) ∧
      s.get (s.putBatch (fun _ => none) [put]).1 ⟨"m", "k"⟩ ≠ s.get (fun _ => none) ⟨"m", "k"⟩ := by
  intro s put
  obtain ⟨hself, hshare, hframe, hshow⟩ := isolated_iff_not_overlay s
  refine ⟨hself _, ?_, ?_, ?_⟩
  · rw [hshare _ _ (by decide)]
    decide
  · exact hframe [put] _ (by decide)
  · exact hshow _ _ (by decide) _ _ ((s.get_eq_ok_none _ _).2 fun _ _ => rfl)

end Cells

end ChangeRelay.Store
