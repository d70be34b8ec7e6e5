import ChangeRelay.Proofs.Assoc
import ChangeRelay.Proofs.Store.Atomic
import Mathlib.Data.List.Perm.Basic

/-!
# Batches at the store in memory

A batch is staged operation by operation. Each guard is looked at in a copy that the operations in
front have changed already, and a crash may come in between. Where no two operations name one
record that comes to the same as looking at all guards first, in the records as they are: then the
batch is written as a whole, in whatever order, or it leaves no trace.
-/

namespace ChangeRelay.Store

/-! ## Addresses in order -/

theorem Address.lt_def {a b : Address} :
    a < b ↔ a.bucket < b.bucket ∨ (a.bucket = b.bucket ∧ a.key < b.key) := Iff.rfl

instance : Std.Irrefl (α := Address) (· < ·) where
  irrefl a := by simp [Address.lt_def]

instance : Trans (α := Address) (· < ·) (· < ·) (· < ·) where
  trans {a b c} hab hbc := by
    rw [Address.lt_def] at *
    rcases hab with hab | ⟨hab, hkey⟩
    · rcases hbc with hbc | ⟨hbc, -⟩
      · exact .inl (String.lt_trans hab hbc)
      · exact .inl (hbc ▸ hab)
    · rcases hbc with hbc | ⟨hbc, hkey'⟩
      · exact .inl (hab ▸ hbc)
      · exact .inr ⟨hab.trans hbc, String.lt_trans hkey hkey'⟩

instance : Std.Trichotomous (α := Address) (· < ·) where
  trichotomous a b hab hba := by
    rw [Address.lt_def, not_or, not_and] at hab hba
    have hbucket : a.bucket = b.bucket := Std.Trichotomous.trichotomous _ _ hab.1 hba.1
    have hkey : a.key = b.key :=
      Std.Trichotomous.trichotomous _ _ (hab.2 hbucket) (hba.2 hbucket.symm)
    cases a
    cases b
    simp_all

namespace Records

variable {rs : Records} {ops ops' : List BatchOp}

theorem ascending_set (h : Assoc.Ascending rs) (a : Address) (r : Option Record) :
    Assoc.Ascending (rs.set a r) := by
  cases r with
  | none => exact h.erase a
  | some r => exact h.insert a r

theorem ascending_write (h : Assoc.Ascending rs) (ops : List BatchOp) :
    Assoc.Ascending (rs.write ops) := by
  induction ops generalizing rs with
  | nil => exact h
  | cons op ops ih => exact ih (ascending_set h _ _)

/-- The order of a batch does not matter, if no two of its operations name one record. -/
theorem write_perm (hasc : Assoc.Ascending rs) (hnd : (ops.map BatchOp.address).Nodup)
    (hperm : ops'.Perm ops) : rs.write ops' = rs.write ops := by
  have hnd' : (ops'.map BatchOp.address).Nodup := (hperm.map BatchOp.address).nodup_iff.2 hnd
  refine (ascending_write hasc ops').ext (ascending_write hasc ops) fun a => ?_
  by_cases hnamed : ∃ op ∈ ops, op.address = a
  · obtain ⟨op, hop, rfl⟩ := hnamed
    rw [find?_write_of_mem hnd' (hperm.mem_iff.2 hop), find?_write_of_mem hnd hop]
  · have hno : ∀ op ∈ ops, op.address ≠ a := fun op hop heq => hnamed ⟨op, hop, heq⟩
    have hno' : ∀ op ∈ ops', op.address ≠ a := fun op hop => hno op (hperm.mem_iff.1 hop)
    rw [find?_write_of_ne hno', find?_write_of_ne hno]

end Records

namespace Memory

variable {rs : Records} {ops : List BatchOp} {crash : Option Nat}

/-- The first operation whose guard does not hold ends the staging, unless a crash comes first. -/
theorem stage_of_conflict {earlier later : List BatchOp} {op : BatchOp}
    (hnd : ((earlier ++ op :: later).map BatchOp.address).Nodup)
    (hearlier : ∀ o ∈ earlier, rs.allows o = true) (hop : rs.allows op = false)
    (hcrash : ∀ k ∈ crash, earlier.length < k) :
    stage rs crash (earlier ++ op :: later) = .error op.conflict := by
  induction earlier generalizing rs crash with
  | nil =>
      have hzero : crash ≠ some 0 := fun h => absurd (hcrash 0 h) (Nat.lt_irrefl 0)
      rw [Records.allows] at hop
      rw [List.nil_append, stage, if_neg hzero, hop]
      rfl
  | cons o earlier ih =>
      have hzero : crash ≠ some 0 := fun h => absurd (hcrash 0 h) (Nat.not_lt_zero _)
      have hbehind : ∀ o' ∈ earlier ++ op :: later,
          (rs.set o.address o.action.result).allows o' = rs.allows o' :=
        Records.allows_behind hnd _
      rw [List.cons_append, stage_of_allowed (hearlier o List.mem_cons_self) hzero]
      refine ih (List.nodup_cons.1 hnd).2 (fun o' ho' => ?_) ?_ fun k => le_of_mem_map_pred hcrash
      · rw [hbehind o' (List.mem_append_left _ ho')]
        exact hearlier o' (List.mem_cons_of_mem _ ho')
      · rw [hbehind op (List.mem_append_right _ List.mem_cons_self)]
        exact hop

/-! ## Batches -/

/-- The states that a store gets into: its switches are thrown at any time, and batches go through
their two parts, before and after the delay, with others in between. -/
inductive Reachable : Memory → Prop
  | new : Reachable {}
  | available {s : Memory} (h : Reachable s) (available : Bool) : Reachable { s with available }
  | failBatches {s : Memory} (h : Reachable s) (failBatches : Nat) :
      Reachable { s with failBatches }
  | crashAfter {s : Memory} (h : Reachable s) (crashAfter : Option Nat) :
      Reachable { s with crashAfter }
  | commitDelay {s : Memory} (h : Reachable s) (commitDelay : Nat) :
      Reachable { s with commitDelay }
  | enter {s : Memory} (h : Reachable s) : Reachable s.enter.1
  | apply {s : Memory} (h : Reachable s) (ops : List BatchOp) : Reachable (s.apply ops).1

theorem apply_records (s : Memory) (ops : List BatchOp) :
    stage s.records s.crashAfter ops = .ok (s.apply ops).1.records ∨
      (s.apply ops).1.records = s.records := by
  cases hstage : stage s.records s.crashAfter ops with
  | ok rs => exact .inl (by simp [apply, hstage])
  | error e => exact .inr (by simp [apply, hstage])

/-- In every state the records are in order, and each carries the tag of its value. -/
theorem Reachable.records {s : Memory} (h : s.Reachable) :
    Assoc.Ascending s.records ∧ s.records.Tagged := by
  induction h with
  | new => exact ⟨.nil, Records.tagged_nil⟩
  | available _ _ ih => exact ih
  | failBatches _ _ ih => exact ih
  | crashAfter _ _ ih => exact ih
  | commitDelay _ _ ih => exact ih
  | enter _ ih =>
      rw [enter_records]
      exact ih
  | @apply s _ ops ih =>
      rcases s.apply_records ops with hstage | hsame
      · rw [stage_eq_write hstage]
        exact ⟨Records.ascending_write ih.1 ops, ih.2.write ops⟩
      · rw [hsame]
        exact ih

/-- Nothing is in the way of a batch: no fault, and no guard that does not hold. -/
structure Takes (s : Memory) (ops : List BatchOp) : Prop where
  available : s.available = true
  willing : s.failBatches = 0
  steady : ∀ k ∈ s.crashAfter, ops.length ≤ k
  allowed : ∀ op ∈ ops, s.records.allows op = true

/-- A fault keeps the store from coming to the end of a batch, or to a guard that does not hold. -/
def Breaks (s : Memory) (ops : List BatchOp) : Prop :=
  s.available = false ∨ 0 < s.failBatches ∨ ∃ k ∈ s.crashAfter, s.records.CrashesAt ops k

variable {s : Memory}

theorem putBatch_of_takes (hnd : (ops.map BatchOp.address).Nodup) (h : s.Takes ops) :
    s.putBatch ops = ({ s with
      records := s.records.write ops, crashAfter := none, applied := s.applied + 1 }, .ok ()) := by
  rw [putBatch_of_willing h.available (by simp [h.willing]), apply,
    stage_of_allows hnd h.allowed h.steady]

theorem apply_of_error {e : StoreFault} (h : stage s.records s.crashAfter ops = .error e) :
    s.apply ops = ({ s with crashAfter := none, rejected := s.rejected + 1 }, .error e) := by
  rw [apply, h]

theorem putBatch_of_breaks (hnd : (ops.map BatchOp.address).Nodup) (h : s.Breaks ops) :
    ∃ s' text, s.putBatch ops = (s', .error (.unavailable "put_batch" text)) ∧
      s'.records = s.records := by
  by_cases hav : s.available = true
  · by_cases hrefuse : 0 < s.failBatches
    · exact ⟨{ s with failBatches := s.failBatches - 1, rejected := s.rejected + 1 },
        "injected failure", by simp [putBatch, enter, hav, hrefuse], rfl⟩
    · obtain ⟨k, hk, hcrash⟩ : ∃ k ∈ s.crashAfter, s.records.CrashesAt ops k := by
        simpa [Breaks, hav, hrefuse] using h
      have hstage := stage_of_crashesAt hnd hcrash
      rw [← Option.mem_def.1 hk] at hstage
      rw [putBatch_of_willing hav hrefuse, apply_of_error hstage]
      exact ⟨_, _, rfl, rfl⟩
  · exact ⟨s, "store offline", by simp [putBatch, enter, hav], rfl⟩

/-- Where no fault is in the way of a batch, the first guard that does not hold is. -/
theorem exists_conflict (h : ¬ s.Takes ops) (hbreaks : ¬ s.Breaks ops) :
    ∃ earlier op later, ops = earlier ++ op :: later ∧
      (∀ o ∈ earlier, s.records.allows o = true) ∧ s.records.allows op = false := by
  rw [Breaks, not_or, not_or] at hbreaks
  obtain ⟨hav, hwilling, hcrash⟩ := hbreaks
  cases hfind : ops.find? fun op => !s.records.allows op with
  | some op =>
      obtain ⟨hop, earlier, later, hsplit, hearlier⟩ := List.find?_eq_some_iff_append.1 hfind
      exact ⟨earlier, op, later, hsplit, by simpa using hearlier, by simpa using hop⟩
  | none =>
      -- then all guards hold, and a crash is not armed in time
      have hallows : ∀ op ∈ ops, s.records.allows op = true := by simpa using hfind
      refine absurd ⟨by simpa using hav, by omega, fun k hk => ?_, hallows⟩ h
      by_contra hlt
      exact hcrash ⟨k, hk, by omega, fun op hop => hallows op (List.mem_of_mem_take hop)⟩

theorem putBatch_of_conflict {earlier later : List BatchOp} {op : BatchOp}
    (hnd : ((earlier ++ op :: later).map BatchOp.address).Nodup)
    (hbreaks : ¬ s.Breaks (earlier ++ op :: later))
    (hearlier : ∀ o ∈ earlier, s.records.allows o = true) (hop : s.records.allows op = false) :
    ∃ s', s.putBatch (earlier ++ op :: later) = (s', .error op.conflict) ∧
      s'.records = s.records := by
  rw [Breaks, not_or, not_or] at hbreaks
  obtain ⟨hav, hwilling, hcrash⟩ := hbreaks
  have hlate : ∀ k ∈ s.crashAfter, earlier.length < k := by
    intro k hk
    by_contra hle
    -- a crash that early comes before the guard is looked at
    refine hcrash ⟨k, hk, by rw [List.length_append, List.length_cons]; omega, fun o ho => ?_⟩
    rw [List.take_append_of_le_length (by omega)] at ho
    exact hearlier o (List.mem_of_mem_take ho)
  rw [putBatch_of_willing (by simpa using hav) hwilling,
    apply_of_error (stage_of_conflict hnd hearlier hop hlate)]
  exact ⟨_, rfl, rfl⟩

/-- A batch with one operation for each record it names is written as a whole if the store is to
refuse nothing and every guard holds of the records before it, and in any order to the same effect.
Otherwise no record changes, and the answer tells a fault of the store from the first guard that
does not hold, whichever comes first. In every state each record carries the tag of its value. -/
theorem putBatch_whole_or_nothing (h : s.Reachable) (hnd : (ops.map BatchOp.address).Nodup) :
    s.records.Tagged ∧
      (s.Takes ops →
        s.putBatch ops = ({ s with
          records := s.records.write ops, crashAfter := none, applied := s.applied + 1 }, .ok ()) ∧
        ∀ ops', ops'.Perm ops → s.records.write ops' = s.records.write ops) ∧
      (¬ s.Takes ops →
        (s.putBatch ops).1.records = s.records ∧
        (s.Breaks ops → ∃ text,
          (s.putBatch ops).2 = .error (.unavailable "put_batch" text)) ∧
        (¬ s.Breaks ops → ∃ earlier op later, ops = earlier ++ op :: later ∧
          (∀ o ∈ earlier, s.records.allows o = true) ∧ s.records.allows op = false ∧
          (s.putBatch ops).2 = .error (.conflict op.address.bucket op.address.key))) := by
  refine ⟨h.records.2, fun htakes => ⟨putBatch_of_takes hnd htakes, fun ops' hperm => ?_⟩,
    fun hnot => ?_⟩
  · exact Records.write_perm h.records.1 hnd hperm
  · by_cases hbreaks : s.Breaks ops
    · obtain ⟨s', text, hput, hkeep⟩ := putBatch_of_breaks hnd hbreaks
      rw [hput]
      exact ⟨hkeep, fun _ => ⟨text, rfl⟩, fun hno => absurd hbreaks hno⟩
    · obtain ⟨earlier, op, later, rfl, hearlier, hop⟩ := exists_conflict hnot hbreaks
      obtain ⟨s', hput, hkeep⟩ := putBatch_of_conflict hnd hbreaks hearlier hop
      rw [hput]
      exact ⟨hkeep, fun hyes => absurd hyes hbreaks,
        fun _ => ⟨earlier, op, later, rfl, hearlier, hop, rfl⟩⟩

/-- A store with one record. -/
def stocked : Memory := (({} : Memory).apply [⟨⟨"b", "kept"⟩, .put (.int 1), .any⟩]).1

/-- Puts a new record and one that is there already, which must be new as well. -/
def intruding : List BatchOp :=
  [⟨⟨"b", "new"⟩, .put (.int 2), .any⟩, ⟨⟨"b", "kept"⟩, .put (.int 3), .absent⟩]

theorem putBatch_whole_or_nothing_intruding :
    (∃ text, ({ stocked with crashAfter := some 1 }.putBatch intruding).2 =
        .error (.unavailable "put_batch" text)) ∧
      (stocked.putBatch intruding).2 = .error (.conflict "b" "kept") ∧
      (stocked.putBatch intruding).1.records = stocked.records := by
  have hreach : stocked.Reachable := .apply .new _
  have hnd : (intruding.map BatchOp.address).Nodup := by decide
  have hfirst : stocked.records.allows ⟨⟨"b", "new"⟩, .put (.int 2), .any⟩ = true := rfl
  have hsecond : stocked.records.allows ⟨⟨"b", "kept"⟩, .put (.int 3), .absent⟩ = false := rfl
  have hnot : ∀ s : Memory, s.records = stocked.records → ¬ s.Takes intruding := by
    intro s hs htakes
    have := htakes.allowed _ (List.mem_cons_of_mem _ List.mem_cons_self)
    rw [hs, hsecond] at this
    cases this
  refine ⟨?_, ?_⟩
  · -- the crash comes right in front of the guard that does not hold
    refine ((putBatch_whole_or_nothing (hreach.crashAfter (some 1)) hnd).2.2 (hnot _ rfl)).2.1 ?_
    exact .inr (.inr ⟨1, rfl, by decide, by simpa [intruding] using hfirst⟩)
  · obtain ⟨hkeep, -, hconflict⟩ :=
      (putBatch_whole_or_nothing hreach hnd).2.2 (hnot stocked rfl)
    obtain ⟨earlier, op, later, hsplit, hearlier, hop, hput⟩ := hconflict (by
      rintro (hav | hrefuse | ⟨k, hk, -⟩)
      · cases hav
      · cases hrefuse
      · cases hk)
    refine ⟨?_, hkeep⟩
    -- it is the second operation that is refused
    rcases earlier with _ | ⟨o, _ | ⟨o', earlier⟩⟩
    · cases hsplit
      rw [hfirst] at hop
      cases hop
    · cases hsplit
      exact hput
    · have hlength := congrArg List.length hsplit
      simp [intruding] at hlength

end Memory

end ChangeRelay.Store
