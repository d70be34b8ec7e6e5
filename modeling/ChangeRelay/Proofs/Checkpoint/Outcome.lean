import ChangeRelay.Proofs.Checkpoint.Commit
import ChangeRelay.Writer

/-!
# What a commit comes to

Consumers commit to one store in memory, one commit after another, and in between somebody throws
the switches for faults of the store. What comes of a commit follows from where the checkpoint of
its consumer stands, against both ends of the range, and from the faults that are armed. Unless the
commit is applied, it leaves every record as it was.
-/

namespace ChangeRelay

open Store (Address Record Records BatchOp Memory)

namespace Checkpoint.Proposal

/-! ## Proposals -/

variable {s : Memory} {p : Proposal}

theorem run_offline (hav : s.available = false) (hphase : p.phase = .readCheckpoint) :
    p.run Memory.get Memory.putBatch s = (s, .error (.unavailable "get" "store offline")) := by
  have hget : s.get p.address = .error (.unavailable "get" "store offline") := by
    simp [Memory.get, hav]
  rw [run_readCheckpoint hphase, hget]
  refine run_done ?_
  simp [onRead, hphase, finish]

theorem run_unreadable (hav : s.available = true) (hphase : p.phase = .readCheckpoint)
    {e : StoreFault} (h : decodeRecord p.address (Assoc.find? p.address s.records) = .error e) :
    p.run Memory.get Memory.putBatch s = (s, .error e) := by
  rw [run_readCheckpoint hphase, Memory.get_of_available hav]
  refine run_done ?_
  simp [onRead, hphase, h, finish]

/-- A checkpoint in the range or beyond it is in the way of a proposal. -/
theorem run_conflict (hav : s.available = true) (hphase : p.phase = .readCheckpoint) {seq : UInt64}
    (h : standing s.records p.address = some seq) (hle : p.range.first ≤ seq) :
    p.run Memory.get Memory.putBatch s = (s, .ok (.conflict seq)) := by
  obtain ⟨r, hdecode⟩ := exists_decodeRecord_of_standing h
  rw [run_readCheckpoint hphase, Memory.get_of_available hav]
  refine run_done ?_
  simp [onRead, hphase, hdecode, hle, finish]

/-- The number of operations in the batch of a proposal. -/
def size (p : Proposal) : Nat := (p.intents.map intentAddress).dedup.length + 1

/-- The batch of a proposal that has read these records. -/
def batchAt (p : Proposal) (rs : Records) : List BatchOp :=
  batchOf (fun a => Assoc.find? a rs) p.intents (p.checkpointOp (Assoc.find? p.address rs))

theorem length_batchAt (p : Proposal) (rs : Records) : (p.batchAt rs).length = p.size :=
  length_batchOf _ _ _

theorem batchAt_nodup (hoff : ∀ i ∈ p.intents, intentAddress i ≠ p.address) (rs : Records) :
    ((p.batchAt rs).map BatchOp.address).Nodup :=
  batchOf_nodup _ hoff

theorem holds_of_mem_batchAt (p : Proposal) (rs : Records) :
    ∀ op ∈ p.batchAt rs, op.guard.holds ((Assoc.find? op.address rs).map Record.etag) = true :=
  holds_of_mem_batchOf rfl

theorem run_batchAt (hav : s.available = true) (hphase : p.phase = .readCheckpoint)
    (hbefore : StandsBefore s.records p.address p.range.first) :
    p.run Memory.get Memory.putBatch s =
      (onWrite { p with phase := .write (p.batchAt s.records) }
        (s.putBatch (p.batchAt s.records)).2).run Memory.get Memory.putBatch
        (s.putBatch (p.batchAt s.records)).1 := by
  obtain ⟨found, hfound, hlt⟩ := hbefore
  rw [run_checked (Memory.get_of_available hav) hphase hfound hlt, run_write rfl]
  rfl

section Before

variable (hav : s.available = true) (hphase : p.phase = .readCheckpoint)
  (hbefore : StandsBefore s.records p.address p.range.first)
  (hoff : ∀ i ∈ p.intents, intentAddress i ≠ p.address)

include hav hphase hbefore hoff

/-- A fault that is armed ends a proposal whose batch does not get past it. -/
theorem run_of_fails (hfails : s.Fails p.size) :
    ∃ s' e, p.run Memory.get Memory.putBatch s = (s', .error e) ∧ e.isTransient = true ∧
      s'.records = s.records := by
  rw [← p.length_batchAt s.records] at hfails
  obtain ⟨s', text, hput, hkeep⟩ := Memory.putBatch_of_fails hav
    (batchAt_nodup hoff _) (p.holds_of_mem_batchAt _) hfails
  refine ⟨s', .unavailable "put_batch" text, ?_, rfl, hkeep⟩
  rw [run_batchAt hav hphase hbefore, hput]
  exact run_done rfl

/-- A proposal whose batch gets past all faults is applied. -/
theorem run_of_not_fails (hfails : ¬ s.Fails p.size) :
    ∃ s', p.run Memory.get Memory.putBatch s = (s', .ok .applied) ∧
      Memory.stage s.records none (p.batchAt s.records) = .ok s'.records := by
  rw [← p.length_batchAt s.records] at hfails
  obtain ⟨s', hput, hstage⟩ := Memory.putBatch_of_not_fails hav
    (batchAt_nodup hoff _) (p.holds_of_mem_batchAt _) hfails
  refine ⟨s', ?_, hstage⟩
  rw [run_batchAt hav hphase hbefore, hput]
  exact run_done rfl

end Before

end Checkpoint.Proposal

open Checkpoint (Proposal Data StandsBefore decodeRecord intentAddress standing)

/-! ## Commits -/

/-- A commit: a writer with its breaker, and what it is given to write. -/
structure CommitCall where
  writer : Writer
  /-- An open breaker has waited long enough. -/
  recovered : Bool := false
  range : SeqRange
  intents : List Intent

namespace CommitCall

/-- The address of the checkpoint that a commit is to move. -/
def address (call : CommitCall) : Address := ⟨call.writer.bucket, call.writer.consumer⟩

def proposal (call : CommitCall) : Proposal := call.writer.proposal call.range call.intents

/-- A commit to a store that nobody else uses meanwhile. -/
def perform (call : CommitCall) (s : Memory) : Memory × Except StoreFault CommitOutcome :=
  let (_, s, result, _) := call.writer.commit call.recovered Memory.get Memory.putBatch s
    call.range call.intents
  (s, result)

/-- A commit with checkpoints in a bucket: its breaker lets it through, its range has an end behind
its beginning, and its intents keep off the checkpoints. -/
structure Legal (call : CommitCall) (bucket : String) : Prop where
  bucket_eq : call.writer.bucket = bucket
  passes : (call.writer.circuit.enter call.recovered).2 = true
  ordered : call.range.first ≤ call.range.last
  off : ∀ i ∈ call.intents, i.bucket ≠ bucket

/-- What a commit that was applied has done to the records. -/
structure Moved (call : CommitCall) (rs rs' : Records) : Prop where
  /-- The checkpoint is at the end of the range. -/
  reached : standing rs' call.address = some call.range.last
  /-- Nothing else is touched but what the intents name. -/
  others : ∀ a, a ≠ call.address → (∀ i ∈ call.intents, intentAddress i ≠ a) →
    Assoc.find? a rs' = Assoc.find? a rs
  /-- The data is what the intents make of it one by one. -/
  data : ∀ a, a ≠ call.address → rs'.value a = Data.applyAll rs.value call.intents a

/-- What comes of a commit: from a store to a store, with a result. -/
structure Settled (call : CommitCall) (s s' : Memory) (result : Except StoreFault CommitOutcome) :
    Prop where
  offline : s.available = false → ∃ e, result = .error e ∧ e.isTransient = true
  /-- The checkpoint is at the end of the range or behind it. -/
  covered : s.available = true → ∀ seq ∈ standing s.records call.address,
    call.range.last ≤ seq → result = .ok (.alreadyApplied seq)
  /-- The checkpoint is inside the range. -/
  inside : s.available = true → ∀ seq ∈ standing s.records call.address,
    call.range.first ≤ seq → seq < call.range.last → result = .ok (.overlap seq)
  /-- The checkpoint is before the range, or there is none, and a fault is armed that the batch
  does not get past. -/
  faulted : s.available = true → StandsBefore s.records call.address call.range.first →
    s.Fails call.proposal.size → ∃ e, result = .error e ∧ e.isTransient = true
  /-- The checkpoint is before the range, or there is none, and no fault comes. -/
  applied : s.available = true → StandsBefore s.records call.address call.range.first →
    ¬ s.Fails call.proposal.size → result = .ok .applied
  moved : result = .ok .applied → call.Moved s.records s'.records
  kept : result ≠ .ok .applied → s'.records = s.records

variable {call : CommitCall} {bucket : String} {s : Memory}

/-- A commit that is let through finds out what its proposal does. -/
theorem perform_of_run (h : call.Legal bucket) {s' : Memory}
    {found : Except StoreFault Checkpoint.Outcome}
    (hrun : call.proposal.run Memory.get Memory.putBatch s = (s', found)) :
    call.perform s = (s', found.map (Writer.outcomeOf call.range)) := by
  rcases henter : call.writer.circuit.enter call.recovered with ⟨circuit, passed⟩
  have hpassed : passed = true := by simpa [henter] using h.passes
  subst hpassed
  have hcommit : { call.writer with circuit }.proposal call.range call.intents = call.proposal :=
    rfl
  simp only [perform, Writer.commit, Writer.enter, henter, hcommit, hrun]
  cases found <;> rfl

theorem perform_offline (h : call.Legal bucket) (hav : s.available = false) :
    call.perform s = (s, .error (.unavailable "get" "store offline")) :=
  perform_of_run h (Proposal.run_offline hav rfl)

theorem perform_unreadable (h : call.Legal bucket) (hav : s.available = true) {e : StoreFault}
    (hdecode : decodeRecord call.address (Assoc.find? call.address s.records) = .error e) :
    call.perform s = (s, .error e) :=
  perform_of_run h (Proposal.run_unreadable hav rfl hdecode)

theorem perform_conflict (h : call.Legal bucket) (hav : s.available = true) {seq : UInt64}
    (hseq : standing s.records call.address = some seq) (hle : call.range.first ≤ seq) :
    call.perform s = (s, .ok (Writer.outcomeOf call.range (.conflict seq))) :=
  perform_of_run h (Proposal.run_conflict hav rfl hseq hle)

theorem Legal.keepsOff (h : call.Legal bucket) (consumer : String) :
    ∀ i ∈ call.intents, intentAddress i ≠ ⟨bucket, consumer⟩ := by
  intro i hi heq
  exact h.off i hi (congrArg Address.bucket heq)

theorem Legal.keepsOff_address (h : call.Legal bucket) :
    ∀ i ∈ call.intents, intentAddress i ≠ call.address := by
  rw [address, h.bucket_eq]
  exact h.keepsOff _

theorem perform_faulted (h : call.Legal bucket) (hav : s.available = true)
    (hbefore : StandsBefore s.records call.address call.range.first)
    (hfails : s.Fails call.proposal.size) :
    ∃ s' e, call.perform s = (s', .error e) ∧ e.isTransient = true ∧ s'.records = s.records := by
  obtain ⟨s', e, hrun, htransient, hkeep⟩ :=
    Proposal.run_of_fails (p := call.proposal) hav rfl hbefore h.keepsOff_address hfails
  exact ⟨s', e, perform_of_run h hrun, htransient, hkeep⟩

theorem perform_applied (h : call.Legal bucket) (hav : s.available = true)
    (hbefore : StandsBefore s.records call.address call.range.first)
    (hfails : ¬ s.Fails call.proposal.size) :
    ∃ s', call.perform s = (s', .ok .applied) ∧ call.Moved s.records s'.records := by
  obtain ⟨s', hrun, hstage⟩ :=
    Proposal.run_of_not_fails (p := call.proposal) hav rfl hbefore h.keepsOff_address hfails
  refine ⟨s', perform_of_run h hrun, ?_, ?_, ?_⟩
  · have hvalue := Checkpoint.value_of_stage h.keepsOff_address (fun _ _ => rfl) hstage
    exact Checkpoint.standing_of_put (hvalue call.address).1
  · intro a ha hoff
    refine Store.stage_find?_of_ne hstage fun op hop heq => ?_
    rcases Checkpoint.address_of_mem_batchOf hop with hcheckpoint | ⟨i, hi, hnamed⟩
    · exact ha (heq.symm.trans hcheckpoint)
    · exact hoff i hi (hnamed.trans heq)
  · intro a ha
    exact (Checkpoint.value_of_stage h.keepsOff_address (fun _ _ => rfl) hstage a).2 ha

/-- A commit is applied, or nothing happens to the records. -/
theorem perform_cases (h : call.Legal bucket) (s : Memory) :
    ((call.perform s).2 = .ok .applied ∧ call.Moved s.records (call.perform s).1.records) ∨
      ((call.perform s).2 ≠ .ok .applied ∧ (call.perform s).1.records = s.records) := by
  cases hav : s.available with
  | false =>
      rw [perform_offline h hav]
      exact .inr ⟨by simp, rfl⟩
  | true =>
      cases hdecode : decodeRecord call.address (Assoc.find? call.address s.records) with
      | error e =>
          rw [perform_unreadable h hav hdecode]
          exact .inr ⟨by simp, rfl⟩
      | ok found =>
          by_cases hbefore : ∀ x ∈ found, x.1 < call.range.first
          · by_cases hfails : s.Fails call.proposal.size
            · obtain ⟨s', e, hperform, -, hkeep⟩ :=
                perform_faulted h hav ⟨found, hdecode, hbefore⟩ hfails
              rw [hperform]
              exact .inr ⟨by simp, hkeep⟩
            · obtain ⟨s', hperform, hmoved⟩ :=
                perform_applied h hav ⟨found, hdecode, hbefore⟩ hfails
              rw [hperform]
              exact .inl ⟨rfl, hmoved⟩
          · -- a checkpoint that is not before the range is in the way
            obtain ⟨x, hx, hle⟩ : ∃ x ∈ found, call.range.first ≤ x.1 := by
              simpa using hbefore
            have hseq := (Checkpoint.standing_of_decodeRecord hdecode).1
            rw [Option.mem_def.1 hx] at hseq
            rw [perform_conflict h hav hseq hle, Writer.outcomeOf]
            refine .inr ⟨?_, rfl⟩
            split <;> simp

/-- What comes of one commit. -/
theorem settled (h : call.Legal bucket) (s : Memory) :
    call.Settled s (call.perform s).1 (call.perform s).2 where
  offline hav := by
    rw [perform_offline h hav]
    exact ⟨_, rfl, rfl⟩
  covered hav seq hseq hle := by
    rw [perform_conflict h hav hseq (UInt64.le_trans h.ordered hle), Writer.outcomeOf, if_pos hle]
  inside hav seq hseq hle hlt := by
    rw [perform_conflict h hav hseq hle, Writer.outcomeOf, if_neg (UInt64.not_le.2 hlt)]
  faulted hav hbefore hfails := by
    obtain ⟨s', e, hperform, htransient, -⟩ := perform_faulted h hav hbefore hfails
    rw [hperform]
    exact ⟨e, rfl, htransient⟩
  applied hav hbefore hfails := by
    obtain ⟨s', hperform, -⟩ := perform_applied h hav hbefore hfails
    rw [hperform]
  moved happlied := by
    rcases perform_cases h s with ⟨-, hmoved⟩ | ⟨hne, -⟩
    · exact hmoved
    · exact absurd happlied hne
  kept hne := by
    rcases perform_cases h s with ⟨happlied, -⟩ | ⟨-, hkeep⟩
    · exact absurd happlied hne
    · exact hkeep

end CommitCall

/-! ## One commit after another -/

/-- What happens at a store: a commit, or somebody throws the switches for faults. -/
inductive StoreEvent where
  | commit (call : CommitCall)
  | faults (available : Bool) (failBatches : Nat) (crashAfter : Option Nat)

namespace Store.Memory

def step (s : Memory) : StoreEvent → Memory
  | .commit call => (call.perform s).1
  | .faults available failBatches crashAfter => { s with available, failBatches, crashAfter }

/-- The store after events, one by one. -/
def after (s : Memory) (events : List StoreEvent) : Memory := events.foldl step s

end Store.Memory

/-- Every record of a bucket can be read as a checkpoint. -/
def Store.Records.Readable (rs : Records) (bucket : String) : Prop :=
  ∀ consumer, ∃ found,
    decodeRecord ⟨bucket, consumer⟩ (Assoc.find? ⟨bucket, consumer⟩ rs) = .ok found

theorem Store.Records.readable_nil (bucket : String) : Records.Readable [] bucket :=
  fun _ => ⟨none, rfl⟩

section Sequence

variable {bucket : String} {s : Memory}

/-- A commit leaves a checkpoint that can be read, and the other checkpoints alone. -/
theorem CommitCall.readable {call : CommitCall} (hlegal : call.Legal bucket)
    (h : s.records.Readable bucket) : (call.perform s).1.records.Readable bucket := by
  rcases call.perform_cases hlegal s with ⟨-, hmoved⟩ | ⟨-, hkeep⟩
  · intro consumer
    by_cases hown : (⟨bucket, consumer⟩ : Address) = call.address
    · obtain ⟨r, hdecode⟩ := Checkpoint.exists_decodeRecord_of_standing hmoved.reached
      rw [hown]
      exact ⟨_, hdecode⟩
    · rw [hmoved.others _ hown (hlegal.keepsOff consumer)]
      exact h consumer
  · rw [hkeep]
    exact h

theorem Store.Memory.readable_after {events : List StoreEvent}
    (hlegal : ∀ call, .commit call ∈ events → call.Legal bucket)
    (h : s.records.Readable bucket) : (s.after events).records.Readable bucket := by
  induction events generalizing s with
  | nil => exact h
  | cons e rest ih =>
      refine ih (fun call hmem => hlegal call (List.mem_cons_of_mem _ hmem)) ?_
      cases e with
      | commit call => exact CommitCall.readable (hlegal call List.mem_cons_self) h
      | faults available failBatches crashAfter => exact h

/-- Whatever was committed before and whatever faults are armed, every commit of a sequence ends
as the checkpoint of its consumer and the faults at that point decide. Where all checkpoints could
be read at the beginning, the one that decides can be read as well, or there is none. -/
theorem settled_of_legal {events earlier later : List StoreEvent} {call : CommitCall}
    (hlegal : ∀ call, .commit call ∈ events → call.Legal bucket)
    (hsplit : events = earlier ++ .commit call :: later) :
    call.Settled (s.after earlier) (s.after (earlier ++ [.commit call]))
        (call.perform (s.after earlier)).2 ∧
      (s.records.Readable bucket →
        (Assoc.find? call.address (s.after earlier).records = none ∨
          ∃ seq, standing (s.after earlier).records call.address = some seq)) := by
  subst hsplit
  have hcall : call.Legal bucket := hlegal call (by simp)
  constructor
  · rw [Memory.after, Memory.after, List.foldl_append]
    exact CommitCall.settled hcall _
  · intro h
    have hearlier : (s.after earlier).records.Readable bucket :=
      Memory.readable_after (fun call hmem => hlegal call (List.mem_append_left _ hmem)) h
    obtain ⟨found, hfound⟩ := hearlier call.writer.consumer
    rw [← hcall.bucket_eq] at hfound
    obtain ⟨hseq, hrecord⟩ := Checkpoint.standing_of_decodeRecord hfound
    cases found with
    | none => exact .inl hrecord
    | some x => exact .inr ⟨x.1, hseq⟩

/-- A commit of one record by a consumer that has none yet. -/
def firstCommit : CommitCall where
  writer := .new "people" Checkpoint.defaultBucket {}
  range := ⟨1, 2⟩
  intents := [.put "mirror" "cn=a,dc=x" (.object [])]

/-- An empty store that crashes after some operations of the next batch. -/
def armed (k : Nat) : Memory := ({} : Memory).after [.faults true 0 (some k)]

theorem settled_of_legal_firstCommit :
    (∃ e, (firstCommit.perform (armed 1)).2 = .error e ∧ e.isTransient = true) ∧
      (firstCommit.perform (armed 2)).2 = .ok .applied ∧
      (Assoc.find? firstCommit.address (armed 2).records = none ∨
        ∃ seq, standing (armed 2).records firstCommit.address = some seq) := by
  have hlegal : firstCommit.Legal Checkpoint.defaultBucket :=
    ⟨rfl, rfl, by decide, by decide⟩
  have hall : ∀ (k : Nat) (call : CommitCall),
      .commit call ∈ [StoreEvent.faults true 0 (some k), .commit firstCommit] →
        call.Legal Checkpoint.defaultBucket := by
    intro k call hmem
    obtain rfl : call = firstCommit := by simpa using hmem
    exact hlegal
  have hcommit := fun k =>
    @settled_of_legal _ {} _ [.faults true 0 (some k)] [] firstCommit (hall k) rfl
  have hbefore : ∀ k, StandsBefore (armed k).records firstCommit.address 1 :=
    fun k => Checkpoint.standsBefore_of_absent rfl 1
  have hsize : firstCommit.proposal.size = 2 := by decide
  refine ⟨?_, ?_, (hcommit 2).2 (Store.Records.readable_nil _)⟩
  · -- the batch has two operations, of which the crash lets one through
    refine (hcommit 1).1.faulted rfl (hbefore 1) (.inr ⟨1, rfl, ?_⟩)
    rw [hsize]
    decide
  · refine (hcommit 2).1.applied rfl (hbefore 2) ?_
    rw [hsize]
    rintro (hrefuse | ⟨k, hk, hlt⟩)
    · exact absurd hrefuse (by decide)
    · cases hk
      exact absurd hlt (by decide)

end Sequence

end ChangeRelay
