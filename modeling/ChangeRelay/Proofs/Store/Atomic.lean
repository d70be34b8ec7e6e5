import ChangeRelay.Store.Memory
import Mathlib.Data.List.Dedup
import Mathlib.Data.List.Pairwise

/-!
# Atomic batches

What a store owes to those who write it side by side: a batch is written as a whole or not at all,
and a guard that holds says that its record is still what was read. The second part rests on the
tags: they must tell apart the values that a record takes in the course of a history.
-/

namespace ChangeRelay.Store

namespace Records

/-- The value at an address. -/
def value (rs : Records) (a : Address) : Option Json.Value := (Assoc.find? a rs).map Record.value

/-- Every record carries the tag of its value, as one that was put does. -/
def Tagged (rs : Records) : Prop :=
  ∀ a r, Assoc.find? a rs = some r → r = Record.of r.value

theorem tagged_nil : Tagged [] := by
  intro a r h
  simp at h

theorem Tagged.set {rs : Records} (h : rs.Tagged) (a : Address) (action : Action) :
    (rs.set a action.result).Tagged := by
  intro b r hr
  rw [find?_set] at hr
  split at hr
  · -- the record that was set
    cases action <;> simp [Action.result] at hr
    rw [← hr]
    rfl
  · exact h b r hr

end Records

/-! ## Histories and tags -/

/-- A value that a record had at some point of a history. -/
def Held (past : List Records) (a : Address) (v : Json.Value) : Prop :=
  ∃ rs ∈ past, rs.value a = some v

/-- No two values that a record had in the course of a history share a tag. -/
def TagsTell (past : List Records) (a : Address) : Prop :=
  ∀ v w, Held past a v → Held past a w → etag v = etag w → v = w

theorem TagsTell.mono {past past' : List Records} {a : Address} (h : TagsTell past' a)
    (hsub : ∀ rs ∈ past, rs ∈ past') : TagsTell past a := by
  rintro v w ⟨rs, hrs, hv⟩ ⟨rs', hrs', hw⟩
  exact h v w ⟨rs, hsub rs hrs, hv⟩ ⟨rs', hsub rs' hrs', hw⟩

/-- Tags tell the values of a record apart if they do so pair by pair. -/
theorem tagsTell_of_pairwise {past : List Records} {a : Address}
    (h : (past.filterMap fun rs => rs.value a).dedup.Pairwise fun v w => etag v ≠ etag w) :
    TagsTell past a := by
  -- what was held is among the values that the records show, each of them once
  have hmem : ∀ v, Held past a v → v ∈ (past.filterMap fun rs => rs.value a).dedup := by
    rintro v ⟨rs, hrs, hv⟩
    rw [List.mem_dedup]
    exact List.mem_filterMap.2 ⟨rs, hrs, hv⟩
  intro v w hv hw heq
  by_contra hne
  have : Std.Symm fun v w : Json.Value => etag v ≠ etag w := ⟨fun _ _ => Ne.symm⟩
  exact h.forall (hmem v hv) (hmem w hw) hne heq

/-- It is enough to look at the records that there are in a history. -/
theorem tagsTell_of_forall {past : List Records}
    (h : ∀ rs ∈ past, ∀ p ∈ rs, (past.filterMap fun rs => rs.value p.1).dedup.Pairwise
      fun v w => etag v ≠ etag w) (a : Address) : TagsTell past a := by
  intro v w hv hw
  obtain ⟨rs, hrs, hvalue⟩ := hv
  obtain ⟨r, hr, -⟩ := Option.map_eq_some_iff.1 hvalue
  have htell := tagsTell_of_pairwise (h rs hrs (a, r) (Assoc.mem_of_find? hr))
  exact htell v w ⟨rs, hrs, hvalue⟩ hw

/-- What a guard made of an earlier read says of a store: where it holds, the record is the same
again, changes in between or not. -/
def GuardsTell (past : List Records) (a : Address) (rs : Records) : Prop :=
  ∀ rs₀ ∈ past,
    (Guard.ofCurrent (Assoc.find? a rs₀)).holds ((Assoc.find? a rs).map Record.etag) = true →
      Assoc.find? a rs = Assoc.find? a rs₀

theorem TagsTell.guardsTell {past : List Records} {a : Address} (htell : TagsTell past a)
    (htag : ∀ rs ∈ past, rs.Tagged) {rs : Records} (h : rs ∈ past) : GuardsTell past a rs := by
  intro rs₀ h₀ hg
  cases hr₀ : Assoc.find? a rs₀ with
  | none => simpa [hr₀, Guard.ofCurrent, Guard.holds] using hg
  | some r₀ =>
      cases hr : Assoc.find? a rs with
      | none => simp [hr₀, hr, Guard.ofCurrent, Guard.holds] at hg
      | some r =>
          have he : r.etag = r₀.etag := by
            simpa [hr₀, hr, Guard.ofCurrent, Guard.holds] using hg
          have hr' := htag rs h a r hr
          have hr₀' := htag rs₀ h₀ a r₀ hr₀
          have hv : r.value = r₀.value := by
            apply htell
            · exact ⟨rs, h, by simp [Records.value, hr]⟩
            · exact ⟨rs₀, h₀, by simp [Records.value, hr₀]⟩
            · rw [hr', hr₀'] at he
              exact he
          rw [hr', hr₀', hv]

/-! ## Writing without looking -/

/-- The records with all operations of a batch carried out, one after the other. -/
def Records.write (rs : Records) (ops : List BatchOp) : Records :=
  ops.foldl (fun rs op => rs.set op.address op.action.result) rs

/-- Whether the guard of an operation holds of the records as they are. -/
def Records.allows (rs : Records) (op : BatchOp) : Bool :=
  op.guard.holds ((Assoc.find? op.address rs).map Record.etag)

namespace Records

variable {rs : Records} {op : BatchOp} {ops : List BatchOp} {a : Address}

@[simp] theorem write_nil (rs : Records) : rs.write [] = rs := rfl

@[simp] theorem write_cons (rs : Records) (op : BatchOp) (ops : List BatchOp) :
    rs.write (op :: ops) = (rs.set op.address op.action.result).write ops := rfl

theorem write_append (rs : Records) (ops ops' : List BatchOp) :
    rs.write (ops ++ ops') = (rs.write ops).write ops' := List.foldl_append

theorem Tagged.write (h : rs.Tagged) (ops : List BatchOp) : (rs.write ops).Tagged := by
  induction ops generalizing rs with
  | nil => exact h
  | cons op ops ih => exact ih (h.set op.address op.action)

theorem find?_write_of_ne (h : ∀ op ∈ ops, op.address ≠ a) :
    Assoc.find? a (rs.write ops) = Assoc.find? a rs := by
  induction ops generalizing rs with
  | nil => rfl
  | cons op ops ih =>
      rw [write_cons, ih fun o ho => h o (List.mem_cons_of_mem _ ho), find?_set,
        if_neg (Ne.symm (h op List.mem_cons_self))]

/-- What an operation leaves is there after the batch, if no other names its record. -/
theorem find?_write_of_mem (hnd : (ops.map BatchOp.address).Nodup) (hop : op ∈ ops) :
    Assoc.find? op.address (rs.write ops) = op.action.result := by
  induction ops generalizing rs with
  | nil => cases hop
  | cons o ops ih =>
      rw [List.map_cons, List.nodup_cons] at hnd
      rw [write_cons]
      rcases List.mem_cons.1 hop with rfl | hmem
      · have hothers : ∀ o ∈ ops, o.address ≠ op.address := by
          intro o ho heq
          exact hnd.1 (heq ▸ List.mem_map_of_mem ho)
        rw [find?_write_of_ne hothers, find?_set, if_pos rfl]
      · exact ih hnd.2 hmem

/-- An operation does not change what the guards behind it are held against, if no two operations
name one record. -/
theorem allows_behind (hnd : ((op :: ops).map BatchOp.address).Nodup) (r : Option Record) :
    ∀ o ∈ ops, (rs.set op.address r).allows o = rs.allows o := by
  intro o ho
  rw [List.map_cons, List.nodup_cons] at hnd
  have hne : o.address ≠ op.address := by
    intro heq
    exact hnd.1 (heq ▸ List.mem_map_of_mem ho)
  rw [allows, allows, find?_set, if_neg hne]

end Records

/-! ## What a batch does -/

/-- A crash after `k` operations comes before the end of a batch, and before any guard is found not
to hold. -/
def Records.CrashesAt (rs : Records) (ops : List BatchOp) (k : Nat) : Prop :=
  k < ops.length ∧ ∀ op ∈ ops.take k, rs.allows op = true

namespace Memory

variable {rs : Records} {ops : List BatchOp} {crash : Option Nat}

theorem stage_of_allowed {op : BatchOp} (hop : rs.allows op = true) (hcrash : crash ≠ some 0) :
    stage rs crash (op :: ops) =
      stage (rs.set op.address op.action.result) (crash.map (· - 1)) ops := by
  rw [Records.allows] at hop
  rw [stage, if_neg hcrash, hop]
  rfl

/-- A crash that comes later than some operations comes later than one less behind the first. -/
theorem le_of_mem_map_pred {n k : Nat} (h : ∀ k ∈ crash, n + 1 ≤ k)
    (hk : k ∈ crash.map (· - 1)) : n ≤ k := by
  obtain ⟨k, hk', rfl⟩ := Option.map_eq_some_iff.1 hk
  have := h k hk'
  omega

/-- A crash that comes in time ends the staging. -/
theorem stage_of_crashesAt (hnd : (ops.map BatchOp.address).Nodup) {k : Nat}
    (h : rs.CrashesAt ops k) :
    stage rs (some k) ops = .error (.unavailable "put_batch" "simulated crash") := by
  induction ops generalizing rs k with
  | nil => exact absurd h.1 (Nat.not_lt_zero k)
  | cons op ops ih =>
      cases k with
      | zero => rfl
      | succ k =>
          obtain ⟨hlt, hallows⟩ := h
          rw [List.take_succ_cons] at hallows
          rw [stage_of_allowed (hallows op List.mem_cons_self) (by simp)]
          refine ih (List.nodup_cons.1 hnd).2 ⟨Nat.lt_of_succ_lt_succ hlt, fun o ho => ?_⟩
          rw [Records.allows_behind hnd _ o (List.mem_of_mem_take ho)]
          exact hallows o (List.mem_cons_of_mem _ ho)

/-- Where all guards hold and no crash comes, the batch is written. -/
theorem stage_of_allows (hnd : (ops.map BatchOp.address).Nodup)
    (h : ∀ op ∈ ops, rs.allows op = true) (hcrash : ∀ k ∈ crash, ops.length ≤ k) :
    stage rs crash ops = .ok (rs.write ops) := by
  induction ops generalizing rs crash with
  | nil => rfl
  | cons op ops ih =>
      have hzero : crash ≠ some 0 := fun hk => absurd (hcrash 0 hk) (Nat.not_succ_le_zero _)
      rw [stage_of_allowed (h op List.mem_cons_self) hzero, Records.write_cons]
      refine ih (List.nodup_cons.1 hnd).2 (fun o ho => ?_) fun k => le_of_mem_map_pred hcrash
      rw [Records.allows_behind hnd _ o ho]
      exact h o (List.mem_cons_of_mem _ ho)

/-- A batch that goes through has passed the guard of its first operation, and then the others. -/
theorem allows_of_stage_cons {op : BatchOp} {rs' : Records}
    (hs : stage rs crash (op :: ops) = .ok rs') :
    rs.allows op = true ∧
      stage (rs.set op.address op.action.result) (crash.map (· - 1)) ops = .ok rs' := by
  simp only [stage] at hs
  split at hs
  · cases hs
  · split at hs
    · cases hs
    · rename_i hguard
      exact ⟨by simpa [Records.allows] using hguard, hs⟩

/-- A batch that goes through has carried out all its operations. -/
theorem stage_eq_write {rs' : Records} (hs : stage rs crash ops = .ok rs') :
    rs' = rs.write ops := by
  induction ops generalizing rs crash with
  | nil =>
      cases hs
      rfl
  | cons op ops ih => exact ih (allows_of_stage_cons hs).2

/-- Where no two operations name one record, a batch that goes through found every guard to hold of
what was there before it. -/
theorem allows_of_stage {rs' : Records} (hnd : (ops.map BatchOp.address).Nodup)
    (hs : stage rs crash ops = .ok rs') : ∀ op ∈ ops, rs.allows op = true := by
  induction ops generalizing rs crash with
  | nil => simp
  | cons op ops ih =>
      obtain ⟨hop, hrest⟩ := allows_of_stage_cons hs
      rw [List.forall_mem_cons]
      refine ⟨hop, fun o ho => ?_⟩
      rw [← Records.allows_behind hnd op.action.result o ho]
      exact ih (List.nodup_cons.1 hnd).2 hrest o ho

end Memory

theorem stage_tagged {rs rs' : Records} {crash : Option Nat} {ops : List BatchOp}
    (h : rs.Tagged) (hs : Memory.stage rs crash ops = .ok rs') : rs'.Tagged := by
  rw [Memory.stage_eq_write hs]
  exact h.write ops

/-- A batch leaves alone what it does not name. -/
theorem stage_find?_of_ne {rs rs' : Records} {crash : Option Nat} {ops : List BatchOp}
    {a : Address} (hs : Memory.stage rs crash ops = .ok rs') (ha : ∀ op ∈ ops, op.address ≠ a) :
    Assoc.find? a rs' = Assoc.find? a rs := by
  rw [Memory.stage_eq_write hs, Records.find?_write_of_ne ha]

/-- Where no two operations of a batch name one record, each found its guard to hold of what was
there before the batch, and what it leaves is there afterwards. -/
theorem stage_find?_of_mem {rs rs' : Records} {crash : Option Nat} {ops : List BatchOp}
    (hnd : (ops.map BatchOp.address).Nodup) (hs : Memory.stage rs crash ops = .ok rs')
    {op : BatchOp} (hop : op ∈ ops) :
    op.guard.holds ((Assoc.find? op.address rs).map Record.etag) = true ∧
      Assoc.find? op.address rs' = op.action.result := by
  refine ⟨Memory.allows_of_stage hnd hs op hop, ?_⟩
  rw [Memory.stage_eq_write hs, Records.find?_write_of_mem hnd hop]

/-- A batch whose guards hold goes through if no two of its operations name one record. -/
theorem exists_stage_of_holds {rs : Records} {ops : List BatchOp}
    (hnd : (ops.map BatchOp.address).Nodup)
    (h : ∀ op ∈ ops, op.guard.holds ((Assoc.find? op.address rs).map Record.etag) = true) :
    ∃ rs', Memory.stage rs none ops = .ok rs' :=
  ⟨_, Memory.stage_of_allows hnd h (by simp)⟩

/-- What the last operation of a batch leaves is there afterwards. -/
theorem stage_find?_of_last {rs rs' : Records} {crash : Option Nat} {ops : List BatchOp}
    {op : BatchOp} (hs : Memory.stage rs crash (ops ++ [op]) = .ok rs') :
    Assoc.find? op.address rs' = op.action.result := by
  rw [Memory.stage_eq_write hs, Records.write_append, Records.write_cons, Records.write_nil,
    Records.find?_set, if_pos rfl]

/-! ## Answers -/

/-- What becomes of a batch at an atomic store. -/
inductive Fate where
  /-- It is written if its guards hold. -/
  | decided
  /-- The store refuses it for a reason of its own. -/
  | refused (e : StoreFault)
  /-- It is written if its guards hold, but a fault is reported in any case. -/
  | unreported (e : StoreFault)

/-- The records after a batch, and the answer. -/
def Records.submit (rs : Records) (ops : List BatchOp) : Fate → Records × Except StoreFault Unit
  | .decided =>
    match Memory.stage rs none ops with
    | .ok rs' => (rs', .ok ())
    | .error e => (rs, .error e)
  | .refused e => (rs, .error e)
  | .unreported e =>
    match Memory.stage rs none ops with
    | .ok rs' => (rs', .error e)
    | .error e => (rs, .error e)

/-- Whether a batch was written. -/
def Fate.writes (rs : Records) (ops : List BatchOp) : Fate → Bool
  | .refused _ => false
  | .decided | .unreported _ => (Memory.stage rs none ops).isOk

/-- An atomic store writes the whole batch or nothing. -/
theorem submit_cases (rs : Records) (ops : List BatchOp) (fate : Fate) :
    (fate.writes rs ops = true ∧ Memory.stage rs none ops = .ok (rs.submit ops fate).1) ∨
      (fate.writes rs ops = false ∧ (rs.submit ops fate).1 = rs ∧
        ∃ e, (rs.submit ops fate).2 = .error e) := by
  cases hs : Memory.stage rs none ops with
  | ok rs' => cases fate <;> simp [Fate.writes, Records.submit, hs, Except.isOk, Except.toBool]
  | error e => cases fate <;> simp [Fate.writes, Records.submit, hs, Except.isOk, Except.toBool]

theorem submit_tagged {rs : Records} (h : rs.Tagged) (ops : List BatchOp) (fate : Fate) :
    (rs.submit ops fate).1.Tagged := by
  rcases submit_cases rs ops fate with ⟨-, hs⟩ | ⟨-, hsame, -⟩
  · exact stage_tagged h hs
  · rw [hsame]
    exact h

/-- The staging of a batch with a crash armed goes through only if it does without. -/
theorem stage_none_of_ok {rs rs' : Records} {crash : Option Nat} {ops : List BatchOp}
    (h : Memory.stage rs crash ops = .ok rs') : Memory.stage rs none ops = .ok rs' := by
  induction ops generalizing rs crash with
  | nil => exact h
  | cons op ops ih =>
      obtain ⟨hop, hrest⟩ := Memory.allows_of_stage_cons h
      rw [Memory.stage_of_allowed hop (by simp)]
      exact ih hrest

/-- The store in memory is atomic: whatever its switches, a batch there meets one of the two fates
that are reported as they are. -/
theorem Memory.putBatch_submit (s : Memory) (ops : List BatchOp) :
    ∃ fate, (fate = .decided ∨ ∃ e, fate = .refused e) ∧
      s.records.submit ops fate = ((s.putBatch ops).1.records, (s.putBatch ops).2) := by
  by_cases hav : s.available = true
  · by_cases hfail : 0 < s.failBatches
    · exact ⟨.refused (.unavailable "put_batch" "injected failure"), .inr ⟨_, rfl⟩,
        by simp [putBatch, enter, hav, hfail, Records.submit]⟩
    · cases hs : stage s.records s.crashAfter ops with
      | ok rs =>
          have hnone := stage_none_of_ok hs
          exact ⟨.decided, .inl rfl,
            by simp [putBatch, enter, hav, hfail, apply, hs, Records.submit, hnone]⟩
      | error e =>
          exact ⟨.refused e, .inr ⟨e, rfl⟩,
            by simp [putBatch, enter, hav, hfail, apply, hs, Records.submit]⟩
  · exact ⟨.refused (.unavailable "put_batch" "store offline"), .inr ⟨_, rfl⟩,
      by simp [putBatch, enter, hav, Records.submit]⟩

/-- Before its delay a batch changes no record. -/
theorem Memory.enter_records (s : Memory) : s.enter.1.records = s.records := by
  unfold enter
  split
  · rfl
  · split <;> rfl

theorem Memory.get_of_available {s : Memory} (hav : s.available = true) (a : Address) :
    s.get a = .ok (Assoc.find? a s.records) := by
  rw [Memory.get, if_pos hav]

theorem Memory.putBatch_of_willing {s : Memory} (hav : s.available = true)
    (hwilling : ¬ 0 < s.failBatches) (ops : List BatchOp) : s.putBatch ops = s.apply ops := by
  have henter : s.enter = (s, .ok ()) := by simp [Memory.enter, hav, hwilling]
  rw [Memory.putBatch, henter]

/-- A store in memory that is to refuse nothing. -/
structure Memory.Working (s : Memory) : Prop where
  available : s.available = true
  willing : s.failBatches = 0
  steady : s.crashAfter = none

section Working

variable {s : Memory}

theorem Memory.Working.get (h : s.Working) (a : Address) :
    s.get a = .ok (Assoc.find? a s.records) :=
  Memory.get_of_available h.available a

/-- Such a store decides every batch by its guards, and remains as it is. -/
theorem Memory.Working.putBatch (h : s.Working) (ops : List BatchOp) :
    (s.putBatch ops).1.Working ∧
      ((s.putBatch ops).1.records, (s.putBatch ops).2) = s.records.submit ops .decided := by
  rw [Memory.putBatch_of_willing h.available (by simp [h.willing])]
  cases hstage : Memory.stage s.records none ops with
  | ok rs =>
      simp only [Memory.apply, h.steady, Records.submit, hstage]
      exact ⟨⟨h.available, h.willing, rfl⟩, trivial⟩
  | error e =>
      simp only [Memory.apply, h.steady, Records.submit, hstage]
      exact ⟨⟨h.available, h.willing, rfl⟩, trivial⟩

end Working

/-! ## Armed faults -/

/-- A fault is armed that a batch of so many operations does not get past. -/
def Memory.Fails (s : Memory) (size : Nat) : Prop :=
  0 < s.failBatches ∨ ∃ k ∈ s.crashAfter, k < size

section Fails

variable {s : Memory} {ops : List BatchOp}

/-- An armed fault refuses a batch as if the store were away for a moment. -/
theorem Memory.putBatch_of_fails (hav : s.available = true)
    (hnd : (ops.map BatchOp.address).Nodup)
    (h : ∀ op ∈ ops, op.guard.holds ((Assoc.find? op.address s.records).map Record.etag) = true)
    (hfails : s.Fails ops.length) :
    ∃ s' text, s.putBatch ops = (s', .error (.unavailable "put_batch" text)) ∧
      s'.records = s.records := by
  by_cases hrefuse : 0 < s.failBatches
  · have henter : s.enter = ({ s with
        failBatches := s.failBatches - 1, rejected := s.rejected + 1 },
        .error (.unavailable "put_batch" "injected failure")) := by
      simp [Memory.enter, hav, hrefuse]
    rw [Memory.putBatch, henter]
    exact ⟨_, _, rfl, rfl⟩
  · obtain ⟨k, hk, hlt⟩ := hfails.resolve_left hrefuse
    have hcrash : s.records.CrashesAt ops k := ⟨hlt, fun op hop => h op (List.mem_of_mem_take hop)⟩
    rw [Memory.putBatch_of_willing hav hrefuse, Memory.apply, Option.mem_def.1 hk,
      Memory.stage_of_crashesAt hnd hcrash]
    exact ⟨_, _, rfl, rfl⟩

theorem Memory.putBatch_of_not_fails (hav : s.available = true)
    (hnd : (ops.map BatchOp.address).Nodup)
    (h : ∀ op ∈ ops, op.guard.holds ((Assoc.find? op.address s.records).map Record.etag) = true)
    (hfails : ¬ s.Fails ops.length) :
    ∃ s', s.putBatch ops = (s', .ok ()) ∧ Memory.stage s.records none ops = .ok s'.records := by
  have hwilling : ¬ 0 < s.failBatches := fun hrefuse => hfails (.inl hrefuse)
  have hlate : ∀ k ∈ s.crashAfter, ops.length ≤ k := by
    intro k hk
    exact Nat.le_of_not_lt fun hlt => hfails (.inr ⟨k, hk, hlt⟩)
  rw [Memory.putBatch_of_willing hav hwilling, Memory.apply, Memory.stage_of_allows hnd h hlate]
  exact ⟨_, rfl, Memory.stage_of_allows hnd h (by simp)⟩

end Fails

end ChangeRelay.Store
