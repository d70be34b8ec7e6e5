import ChangeRelay.Checkpoint
import ChangeRelay.Proofs.Store.Atomic
import Mathlib.Tactic.ByContra
import Mathlib.Tactic.Conv

/-!
# Intents and the batch that stands for them

A proposal folds its intents into one guarded operation per record. Writing that batch does to the
data what the intents would do one by one, provided that every record is still what was read.
-/

namespace ChangeRelay.Checkpoint

open Store (Address Record Records Guard BatchOp Memory)

/-- What the addresses of a store hold. -/
abbrev Data := Address → Option Json.Value

namespace Data

/-- The data after one intent. -/
def apply (d : Data) (i : Intent) : Data := fun a =>
  if a = intentAddress i then i.apply (d a) else d a

/-- The data after intents, one by one. -/
def applyAll (d : Data) (intents : List Intent) : Data := intents.foldl apply d

@[simp] theorem applyAll_nil (d : Data) : d.applyAll [] = d := rfl

@[simp] theorem applyAll_cons (d : Data) (i : Intent) (rest : List Intent) :
    d.applyAll (i :: rest) = (d.apply i).applyAll rest := rfl

theorem applyAll_append (d : Data) (is js : List Intent) :
    d.applyAll (is ++ js) = (d.applyAll is).applyAll js := by
  simp [applyAll, List.foldl_append]

/-- Intents leave alone what they do not name. -/
theorem applyAll_of_ne {d : Data} {intents : List Intent} {a : Address}
    (h : ∀ i ∈ intents, intentAddress i ≠ a) : d.applyAll intents a = d a := by
  induction intents generalizing d with
  | nil => rfl
  | cons i rest ih =>
      rw [applyAll_cons, ih fun j hj => h j (List.mem_cons_of_mem _ hj), apply,
        if_neg (Ne.symm (h i List.mem_cons_self))]

/-- What intents do at an address depends on nothing but what is there. -/
theorem applyAll_congr {d d' : Data} {a : Address} (intents : List Intent) (h : d a = d' a) :
    d.applyAll intents a = d'.applyAll intents a := by
  induction intents generalizing d d' with
  | nil => exact h
  | cons i rest ih =>
      rw [applyAll_cons, applyAll_cons]
      apply ih
      simp only [apply, h]

/-- Where a record is replaced, what stood there before does not matter. -/
theorem applyAll_of_puts {d d' : Data} {intents : List Intent} {a : Address}
    (hputs : ∀ i ∈ intents, intentAddress i = a → i.kind = .put)
    (htouched : ∃ i ∈ intents, intentAddress i = a) :
    d.applyAll intents a = d'.applyAll intents a := by
  induction intents generalizing d d' with
  | nil =>
      obtain ⟨i, hi, -⟩ := htouched
      cases hi
  | cons i rest ih =>
      have hrest : ∀ j ∈ rest, intentAddress j = a → j.kind = .put := fun j hj =>
        hputs j (List.mem_cons_of_mem _ hj)
      rw [applyAll_cons, applyAll_cons]
      by_cases hi : intentAddress i = a
      · -- from the first put on both are the same
        apply applyAll_congr
        have hkind := hputs i List.mem_cons_self hi
        simp only [apply, Intent.apply, hkind]
        rw [if_pos hi.symm, if_pos hi.symm]
      · apply ih hrest
        obtain ⟨j, hj, heq⟩ := htouched
        rcases List.mem_cons.1 hj with rfl | hj
        · exact absurd heq hi
        · exact ⟨j, hj, heq⟩

end Data

/-! ## Slots -/

/-- The slot of an address. -/
def slot? (a : Address) (slots : List Slot) : Option Slot := slots.find? fun s => s.address = a

/-- The data as slots over the records that were read show them. -/
def overlay (read : Address → Option Record) (slots : List Slot) : Data := fun a =>
  match slot? a slots with
  | some s => s.value
  | none => (read a).map Record.value

theorem slot?_eq_none {a : Address} {slots : List Slot} :
    slot? a slots = none ↔ ∀ s ∈ slots, s.address ≠ a := by
  simp [slot?]

/-- Where no two slots share an address, each is the slot of its own. -/
theorem slot?_of_mem {slots : List Slot} (hnd : (slots.map Slot.address).Nodup) {s : Slot}
    (hs : s ∈ slots) : slot? s.address slots = some s := by
  induction slots with
  | nil => cases hs
  | cons t rest ih =>
      rw [List.map_cons, List.nodup_cons] at hnd
      rcases List.mem_cons.1 hs with rfl | hmem
      · simp [slot?]
      · have hne : t.address ≠ s.address := by
          intro heq
          exact hnd.1 (heq ▸ List.mem_map_of_mem hmem)
        have hrest := ih hnd.2 hmem
        unfold slot? at hrest ⊢
        rw [List.find?_cons_of_neg (by simpa using hne)]
        exact hrest

theorem overlay_of_some {read : Address → Option Record} {slots : List Slot} {a : Address}
    {s : Slot} (h : slot? a slots = some s) : overlay read slots a = s.value := by
  rw [overlay, h]

theorem overlay_of_none {read : Address → Option Record} {slots : List Slot} {a : Address}
    (h : slot? a slots = none) : overlay read slots a = (read a).map Record.value := by
  rw [overlay, h]

theorem touch_eq_none {i : Intent} {slots : List Slot} :
    touch i slots = none ↔ ∀ s ∈ slots, s.address ≠ intentAddress i := by
  induction slots with
  | nil => simp [touch]
  | cons s rest ih =>
      by_cases hs : s.address = intentAddress i
      · simp [touch, hs]
      · simp [touch, hs, ih]

/-- Folding an intent in changes neither the addresses of the slots nor their guards. -/
theorem touch_frame {i : Intent} {slots slots' : List Slot} (h : touch i slots = some slots') :
    slots'.map (fun s => (s.address, s.guard)) = slots.map fun s => (s.address, s.guard) := by
  induction slots generalizing slots' with
  | nil => simp [touch] at h
  | cons s rest ih =>
      simp only [touch] at h
      split at h
      · cases h
        rfl
      · obtain ⟨rest', hrest, rfl⟩ := Option.map_eq_some_iff.1 h
        simp [ih hrest]

theorem slot?_touch {i : Intent} {slots slots' : List Slot} (h : touch i slots = some slots')
    (a : Address) : slot? a slots' = (slot? a slots).map fun s =>
      if a = intentAddress i then { s with value := i.apply s.value } else s := by
  induction slots generalizing slots' with
  | nil => simp [touch] at h
  | cons s rest ih =>
      -- either the first slot is the one that is touched, or it is further on
      simp only [touch] at h
      split at h
      · rename_i hs
        cases h
        by_cases ha : s.address = a
        · simp [slot?, ← ha, hs]
        · have hi : a ≠ intentAddress i := fun e => ha (hs.trans e.symm)
          simp [slot?, ha, hi]
      · rename_i hs
        obtain ⟨rest', hrest, rfl⟩ := Option.map_eq_some_iff.1 h
        by_cases ha : s.address = a
        · have hi : a ≠ intentAddress i := fun e => hs (ha.trans e)
          simp [slot?, ha, hi]
        · have := ih hrest
          simpa [slot?, ha] using this

theorem overlay_touch {read : Address → Option Record} {i : Intent} {slots slots' : List Slot}
    (h : touch i slots = some slots') : overlay read slots' = (overlay read slots).apply i := by
  funext a
  unfold Data.apply
  have hslot := slot?_touch h a
  cases ha : slot? a slots with
  | some s =>
      rw [ha, Option.map_some] at hslot
      rw [overlay_of_some hslot, overlay_of_some ha]
      split <;> rfl
  | none =>
      -- an intent that was folded in has a slot
      rw [ha, Option.map_none] at hslot
      rw [overlay_of_none hslot, overlay_of_none ha]
      by_cases hi : a = intentAddress i
      · have hnone := touch_eq_none.2 (hi ▸ slot?_eq_none.1 ha)
        rw [hnone] at h
        cases h
      · rw [if_neg hi]

theorem overlay_ofRead {read : Address → Option Record} {i : Intent} {slots : List Slot}
    (h : touch i slots = none) :
    overlay read (slots ++ [Slot.ofRead i (read (intentAddress i))]) =
      (overlay read slots).apply i := by
  funext a
  -- the new slot stands behind the others, none of which is for its record
  have hslot : slot? a (slots ++ [Slot.ofRead i (read (intentAddress i))]) =
      (slot? a slots).or (slot? a [Slot.ofRead i (read (intentAddress i))]) := by
    simp [slot?, List.find?_append]
  unfold Data.apply
  by_cases hi : a = intentAddress i
  · have hnone : slot? a slots = none := slot?_eq_none.2 (hi ▸ touch_eq_none.1 h)
    have hlast : slot? a [Slot.ofRead i (read (intentAddress i))] =
        some (Slot.ofRead i (read (intentAddress i))) := by
      simp [slot?, Slot.ofRead, hi]
    rw [hnone, hlast, Option.none_or] at hslot
    rw [overlay_of_some hslot, overlay_of_none hnone, if_pos hi, hi]
    rfl
  · have hlast : slot? a [Slot.ofRead i (read (intentAddress i))] = none := by
      simp [slot?, Slot.ofRead, Ne.symm hi]
    rw [hlast, Option.or_none] at hslot
    rw [if_neg hi]
    cases ha : slot? a slots with
    | some s => rw [overlay_of_some (hslot.trans ha), overlay_of_some ha]
    | none => rw [overlay_of_none (hslot.trans ha), overlay_of_none ha]

/-! ## Resolving -/

/-- Slots in good order: one per address, each guarded by what was read. -/
structure Slots.Guarded (read : Address → Option Record) (slots : List Slot) : Prop where
  nodup : (slots.map Slot.address).Nodup
  guard : ∀ s ∈ slots, s.guard = .ofCurrent (read s.address)

theorem Slots.Guarded.nil (read : Address → Option Record) : Slots.Guarded read [] :=
  ⟨List.nodup_nil, fun _ h => nomatch h⟩

theorem Slots.Guarded.touch {read : Address → Option Record} {i : Intent}
    {slots slots' : List Slot} (h : Slots.Guarded read slots)
    (ht : Checkpoint.touch i slots = some slots') : Slots.Guarded read slots' := by
  have hframe := touch_frame ht
  constructor
  · have : slots'.map Slot.address = slots.map Slot.address := by
      simpa [Function.comp_def] using congrArg (List.map Prod.fst) hframe
    rw [this]
    exact h.nodup
  · intro s hs
    have hmem : (s.address, s.guard) ∈ slots.map fun s => (s.address, s.guard) := by
      rw [← hframe]
      exact List.mem_map_of_mem (f := fun s : Slot => (s.address, s.guard)) hs
    obtain ⟨t, ht, heq⟩ := List.mem_map.1 hmem
    rw [Prod.mk.injEq] at heq
    rw [← heq.1, ← heq.2]
    exact h.guard t ht

theorem Slots.Guarded.ofRead {read : Address → Option Record} {i : Intent} {slots : List Slot}
    (h : Slots.Guarded read slots) (ht : Checkpoint.touch i slots = none) :
    Slots.Guarded read (slots ++ [Slot.ofRead i (read (intentAddress i))]) := by
  constructor
  · rw [List.map_append, List.nodup_append]
    refine ⟨h.nodup, by simp, ?_⟩
    intro a ha b hb
    obtain ⟨s, hs, rfl⟩ := List.mem_map.1 ha
    have hb' : b = intentAddress i := by simpa [Slot.ofRead] using hb
    rw [hb']
    exact touch_eq_none.1 ht s hs
  · intro s hs
    rcases List.mem_append.1 hs with hs | hs
    · exact h.guard s hs
    · rw [List.mem_singleton] at hs
      rw [hs]
      rfl

theorem resolveFrom_guarded {read : Address → Option Record} {slots : List Slot}
    (h : Slots.Guarded read slots) (intents : List Intent) :
    Slots.Guarded read (resolveFrom read slots intents) := by
  induction intents generalizing slots with
  | nil => exact h
  | cons i rest ih =>
      unfold resolveFrom
      split
      · rename_i ht
        exact ih (h.touch ht)
      · rename_i ht
        exact ih (h.ofRead ht)

/-- Resolving shows the data that the intents make one by one. -/
theorem overlay_resolveFrom (read : Address → Option Record) (slots : List Slot)
    (intents : List Intent) :
    overlay read (resolveFrom read slots intents) = (overlay read slots).applyAll intents := by
  induction intents generalizing slots with
  | nil => rfl
  | cons i rest ih =>
      unfold resolveFrom
      split
      · rename_i ht
        rw [ih, overlay_touch ht, Data.applyAll_cons]
      · rename_i ht
        rw [ih, overlay_ofRead ht, Data.applyAll_cons]

/-- The addresses of the slots, in the order of first touch. -/
def touched (slots : List Slot) : List Address := slots.map Slot.address

theorem touched_touch {i : Intent} {slots slots' : List Slot}
    (h : touch i slots = some slots') : touched slots' = touched slots := by
  simpa [touched, Function.comp_def] using congrArg (List.map Prod.fst) (touch_frame h)

/-- An intent is folded in only where its record was read. -/
theorem mem_touched_of_touch {i : Intent} {slots slots' : List Slot}
    (h : touch i slots = some slots') : intentAddress i ∈ touched slots := by
  by_contra hno
  have hnone : touch i slots = none := by
    rw [touch_eq_none]
    intro s hs heq
    exact hno (heq ▸ List.mem_map_of_mem hs)
  rw [hnone] at h
  cases h

/-- There is a slot for every intent, and no other. -/
theorem mem_touched_resolveFrom {read : Address → Option Record} {slots : List Slot}
    {intents : List Intent} {a : Address} :
    a ∈ touched (resolveFrom read slots intents) ↔
      a ∈ touched slots ∨ ∃ i ∈ intents, intentAddress i = a := by
  induction intents generalizing slots with
  | nil => simp [resolveFrom]
  | cons i rest ih =>
      unfold resolveFrom
      split
      · rename_i slots' ht
        rw [ih, touched_touch ht]
        -- an intent that is folded in brings no new address
        have hi := mem_touched_of_touch ht
        constructor
        · rintro (h | ⟨j, hj, h⟩)
          · exact .inl h
          · exact .inr ⟨j, List.mem_cons_of_mem _ hj, h⟩
        · rintro (h | ⟨j, hj, h⟩)
          · exact .inl h
          · rcases List.mem_cons.1 hj with rfl | hj
            · exact .inl (h ▸ hi)
            · exact .inr ⟨j, hj, h⟩
      · rw [ih]
        simp only [touched, List.map_append, List.map_cons, List.map_nil, List.mem_append,
          List.mem_cons, List.not_mem_nil, or_false, exists_eq_or_imp, Slot.ofRead]
        rw [or_assoc, @eq_comm _ a]

/-- Resolving looks at the records of its intents only. -/
theorem resolveFrom_congr {read read' : Address → Option Record} {slots : List Slot}
    {intents : List Intent}
    (h : ∀ i ∈ intents, read (intentAddress i) = read' (intentAddress i)) :
    resolveFrom read slots intents = resolveFrom read' slots intents := by
  induction intents generalizing slots with
  | nil => rfl
  | cons i rest ih =>
      have hrest : ∀ j ∈ rest, read (intentAddress j) = read' (intentAddress j) :=
        fun j hj => h j (List.mem_cons_of_mem _ hj)
      unfold resolveFrom
      rw [h i List.mem_cons_self]
      split <;> exact ih hrest

theorem resolveFrom_append (read : Address → Option Record) (slots : List Slot)
    (is js : List Intent) :
    resolveFrom read slots (is ++ js) = resolveFrom read (resolveFrom read slots is) js := by
  induction is generalizing slots with
  | nil => rfl
  | cons i rest ih =>
      -- both sides unfold at the first intent; the rest of the left one has to stay folded
      rw [List.cons_append]
      conv_lhs => unfold resolveFrom
      conv_rhs => rw [resolveFrom]
      split <;> exact ih _

/-- What `absorb` takes in is what resolving would have folded in before the next read. -/
theorem resolveFrom_absorb (read : Address → Option Record) (slots : List Slot)
    (intents : List Intent) :
    resolveFrom read slots intents =
      resolveFrom read (absorb slots intents).1 (absorb slots intents).2 := by
  induction intents generalizing slots with
  | nil => rfl
  | cons i rest ih =>
      cases ht : touch i slots with
      | some slots' => simp only [resolveFrom, absorb, ht]; exact ih slots'
      | none => simp [absorb, ht]

/-- `absorb` stops only at an intent that has no slot. -/
theorem touch_absorb {slots slots' : List Slot} {intents rest : List Intent} {i : Intent}
    (h : absorb slots intents = (slots', i :: rest)) : touch i slots' = none := by
  induction intents generalizing slots with
  | nil => simp [absorb] at h
  | cons j js ih =>
      unfold absorb at h
      split at h
      · exact ih h
      · rename_i ht
        rw [Prod.mk.injEq, List.cons.injEq] at h
        rw [← h.1, ← h.2.1]
        exact ht

/-- What `absorb` takes in are the first of the intents, all of them of records that were read. -/
theorem absorb_prefix (slots : List Slot) (intents : List Intent) :
    ∃ taken, intents = taken ++ (absorb slots intents).2 ∧
      (∀ read, (absorb slots intents).1 = resolveFrom read slots taken) ∧
      ∀ i ∈ taken, intentAddress i ∈ touched slots := by
  induction intents generalizing slots with
  | nil => exact ⟨[], rfl, fun _ => rfl, fun _ h => nomatch h⟩
  | cons i rest ih =>
      cases ht : touch i slots with
      | some slots' =>
          obtain ⟨taken, hsplit, hslots, hin⟩ := ih slots'
          -- the first intent has a slot, and so have those that are taken in behind it
          refine ⟨i :: taken, ?_, ?_, ?_⟩
          · simpa [absorb, ht] using hsplit
          · intro read
            simpa [absorb, ht, resolveFrom] using hslots read
          · intro j hj
            rcases List.mem_cons.1 hj with rfl | hj
            · exact mem_touched_of_touch ht
            · exact touched_touch ht ▸ hin j hj
      | none =>
          refine ⟨[], ?_, ?_, fun _ h => nomatch h⟩
          · simp [absorb, ht]
          · intro read
            simp [absorb, ht, resolveFrom]

/-! ## Writing the batch -/

/-- The batch of a proposal: the operations of its intents, and one more behind them. -/
def batchOf (read : Address → Option Record) (intents : List Intent) (op : BatchOp) :
    List BatchOp :=
  resolve read intents ++ [op]

variable {read : Address → Option Record} {intents : List Intent} {rs rs' : Records}

theorem batchOf_nodup (read : Address → Option Record) {op : BatchOp}
    (hop : ∀ i ∈ intents, intentAddress i ≠ op.address) :
    ((batchOf read intents op).map BatchOp.address).Nodup := by
  have hslots := resolveFrom_guarded (Slots.Guarded.nil read) intents
  have haddr : (resolve read intents).map BatchOp.address =
      touched (resolveFrom read [] intents) := by
    simp [resolve, touched, Slot.op, Function.comp_def]
  rw [batchOf, List.map_append, haddr, List.nodup_append]
  refine ⟨hslots.nodup, by simp, ?_⟩
  intro a ha b hb
  rcases mem_touched_resolveFrom.1 ha with h | ⟨i, hi, rfl⟩
  · simp [touched] at h
  · have hb' : b = op.address := by simpa using hb
    rw [hb']
    exact hop i hi

/-- A batch has an operation for each record that its intents name, and one more. -/
theorem length_batchOf (read : Address → Option Record) (intents : List Intent) (op : BatchOp) :
    (batchOf read intents op).length = (intents.map intentAddress).dedup.length + 1 := by
  have hguarded := resolveFrom_guarded (Slots.Guarded.nil read) intents
  have hperm : (touched (resolveFrom read [] intents)).Perm (intents.map intentAddress).dedup := by
    refine (List.perm_ext_iff_of_nodup hguarded.nodup (List.nodup_dedup _)).2 fun a => ?_
    refine mem_touched_resolveFrom.trans ?_
    rw [List.mem_dedup, List.mem_map]
    simp [touched]
  rw [← hperm.length_eq]
  simp [batchOf, resolve, touched]

/-- A batch writes what its intents name, and what the operation behind them writes. -/
theorem address_of_mem_batchOf {op o : BatchOp} (h : o ∈ batchOf read intents op) :
    o.address = op.address ∨ ∃ i ∈ intents, intentAddress i = o.address := by
  rcases List.mem_append.1 h with h | h
  · obtain ⟨s, hslot, rfl⟩ := List.mem_map.1 h
    have hmem : s.address ∈ touched (resolveFrom read [] intents) := List.mem_map_of_mem hslot
    rcases mem_touched_resolveFrom.1 hmem with hnone | hnamed
    · cases hnone
    · exact .inr hnamed
  · exact .inl (List.mem_singleton.1 h ▸ rfl)

/-- The guards of a batch made from what the store holds are true. -/
theorem holds_of_mem_batchOf {op : BatchOp}
    (hguard : op.guard = .ofCurrent (Assoc.find? op.address rs)) :
    ∀ o ∈ batchOf (fun a => Assoc.find? a rs) intents op,
      o.guard.holds ((Assoc.find? o.address rs).map Record.etag) = true := by
  intro o ho
  rcases List.mem_append.1 ho with ho | ho
  · obtain ⟨s, hslot, rfl⟩ := List.mem_map.1 ho
    have hslots := resolveFrom_guarded (Slots.Guarded.nil fun a => Assoc.find? a rs) intents
    change s.guard.holds ((Assoc.find? s.address rs).map Record.etag) = true
    rw [hslots.guard s hslot]
    exact Guard.holds_ofCurrent _
  · rw [List.mem_singleton.1 ho, hguard]
    exact Guard.holds_ofCurrent _

/-- A batch made from what the store holds goes through. -/
theorem exists_stage_batchOf {op : BatchOp} (hop : ∀ i ∈ intents, intentAddress i ≠ op.address)
    (hguard : op.guard = .ofCurrent (Assoc.find? op.address rs)) :
    ∃ rs', Memory.stage rs none (batchOf (fun a => Assoc.find? a rs) intents op) = .ok rs' :=
  Store.exists_stage_of_holds (batchOf_nodup _ hop) (holds_of_mem_batchOf hguard)

/-- A batch that goes through has found every record that it was made from to have the tag that
was read. -/
theorem holds_of_stage {op : BatchOp} (hop : ∀ i ∈ intents, intentAddress i ≠ op.address)
    (hs : Memory.stage rs none (batchOf read intents op) = .ok rs') :
    op.guard.holds ((Assoc.find? op.address rs).map Record.etag) = true ∧
      ∀ i ∈ intents, (Guard.ofCurrent (read (intentAddress i))).holds
        ((Assoc.find? (intentAddress i) rs).map Record.etag) = true := by
  have hnd := batchOf_nodup read hop
  constructor
  · exact (Store.stage_find?_of_mem hnd hs (by simp [batchOf])).1
  · intro i hi
    have hmem : intentAddress i ∈ touched (resolveFrom read [] intents) :=
      mem_touched_resolveFrom.2 (.inr ⟨i, hi, rfl⟩)
    obtain ⟨s, hslot, haddr⟩ := List.mem_map.1 hmem
    have hin : s.op ∈ batchOf read intents op :=
      List.mem_append_left _ (List.mem_map_of_mem hslot)
    have hguard := (Store.stage_find?_of_mem hnd hs hin).1
    rw [← haddr, ← (resolveFrom_guarded (Slots.Guarded.nil read) intents).guard s hslot]
    exact hguard

/-- A batch that goes through leaves alone what neither its intents name nor the operation behind
them writes. -/
theorem value_of_stage_of_ne {op : BatchOp}
    (hs : Memory.stage rs none (batchOf read intents op) = .ok rs') {a : Address}
    (ha : a ≠ op.address) (hno : ∀ i ∈ intents, intentAddress i ≠ a) :
    rs'.value a = rs.value a := by
  have hout : ∀ o ∈ batchOf read intents op, o.address ≠ a := by
    intro o ho heq
    rcases address_of_mem_batchOf ho with hop | ⟨i, hi, hio⟩
    · exact ha (heq ▸ hop)
    · exact hno i hi (hio.trans heq)
  rw [Records.value, Records.value, Store.stage_find?_of_ne hs hout]

/-- A batch that goes through leaves at a record that its intents name what they make, one by one,
of what was read. -/
theorem value_of_stage_of_named {op : BatchOp} (hop : ∀ i ∈ intents, intentAddress i ≠ op.address)
    (hs : Memory.stage rs none (batchOf read intents op) = .ok rs') {a : Address}
    (hnamed : ∃ i ∈ intents, intentAddress i = a) :
    rs'.value a = Data.applyAll (fun b => (read b).map Record.value) intents a := by
  have hmem : a ∈ touched (resolveFrom read [] intents) :=
    mem_touched_resolveFrom.2 (.inr hnamed)
  -- the record has a slot, which shows what the intents make of it
  obtain ⟨s, hslot, haddr⟩ := List.mem_map.1 hmem
  have hin : s.op ∈ batchOf read intents op :=
    List.mem_append_left _ (List.mem_map_of_mem hslot)
  have hfind := (Store.stage_find?_of_mem (batchOf_nodup read hop) hs hin).2
  have hval : rs'.value a = s.value := by
    have : s.op.address = a := haddr
    rw [this] at hfind
    rw [Records.value, hfind]
    cases hv : s.value <;> simp [Slot.op, hv, Store.Action.result, Record.of]
  have hself : slot? a (resolveFrom read [] intents) = some s := by
    have hguarded := resolveFrom_guarded (Slots.Guarded.nil read) intents
    exact haddr ▸ slot?_of_mem hguarded.nodup hslot
  have hover := congrFun (overlay_resolveFrom read [] intents) a
  rw [overlay_of_some hself] at hover
  rw [hval, hover]
  rfl

/-- A batch made from what the store holds does to the data what the intents do one by one. -/
theorem value_of_stage {op : BatchOp} (hop : ∀ i ∈ intents, intentAddress i ≠ op.address)
    (hread : ∀ i ∈ intents, read (intentAddress i) = Assoc.find? (intentAddress i) rs)
    (hs : Memory.stage rs none (batchOf read intents op) = .ok rs') (a : Address) :
    Assoc.find? op.address rs' = op.action.result ∧
      (a ≠ op.address → rs'.value a = Data.applyAll rs.value intents a) := by
  refine ⟨(Store.stage_find?_of_mem (batchOf_nodup read hop) hs (by simp [batchOf])).2, ?_⟩
  intro ha
  by_cases hnamed : ∃ i ∈ intents, intentAddress i = a
  · rw [value_of_stage_of_named hop hs hnamed]
    apply Data.applyAll_congr
    obtain ⟨i, hi, rfl⟩ := hnamed
    simp only [Records.value, hread i hi]
  · have hno : ∀ i ∈ intents, intentAddress i ≠ a := fun i hi heq => hnamed ⟨i, hi, heq⟩
    rw [value_of_stage_of_ne hs ha hno, Data.applyAll_of_ne hno]

end ChangeRelay.Checkpoint
