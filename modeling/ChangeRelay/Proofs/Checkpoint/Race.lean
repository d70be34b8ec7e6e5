import ChangeRelay.Proofs.Checkpoint.Proposal
import Mathlib.Data.List.Induction
import Mathlib.Logic.Function.Basic

/-!
# Proposals that race

Any number of callers run their proposals side by side over one atomic store, one access at a time
and in any order. What they leave is what the proposals that were applied leave one after another,
each alone with the store, in the order of their writes.
-/

namespace ChangeRelay.Checkpoint

open Store (Address Record Records BatchOp Fate GuardsTell Memory TagsTell)

/-- Callers, each with a proposal of its own, over one store. -/
structure Race (ι : Type) where
  store : Records
  caller : ι → Proposal
  /-- Every state of the store so far. -/
  past : List Records
  /-- The callers whose batch was written, in the order of the writes. -/
  writers : List ι := []
  /-- How many batches a caller handed to the store. -/
  puts : ι → Nat := fun _ => 0

/-- One access of a caller to the store. -/
inductive Access (ι : Type) where
  /-- It reads the record it waits for, at some time, unless the store has a fault. -/
  | get (i : ι) (time : Int) (fault : Option StoreFault)
  /-- It hands over its batch, which the store may refuse for a reason of its own. -/
  | put (i : ι) (refusal : Option StoreFault)

namespace Race

variable {ι : Type} [DecidableEq ι]

/-- Callers that are about to begin. -/
def begin (rs : Records) (start : ι → Proposal) : Race ι :=
  { store := rs, caller := start, past := [rs] }

/-- What the store answers to a read. -/
def answer (r : Race ι) (a : Address) : Option StoreFault → Except StoreFault (Option Record)
  | none => .ok (Assoc.find? a r.store)
  | some e => .error e

/-- What becomes of a batch at a store that reports what it did. -/
def fateOf : Option StoreFault → Fate
  | none => .decided
  | some e => .refused e

/-- One access; one that its caller does not wait for changes nothing. -/
def step (r : Race ι) : Access ι → Race ι
  | .get i time fault =>
    match (r.caller i).request with
    | some (.get a) =>
      { r with
        caller := Function.update r.caller i
          (Proposal.onRead { r.caller i with time } (r.answer a fault)) }
    | _ => r
  | .put i refusal =>
    match (r.caller i).request with
    | some (.putBatch ops) =>
      let after := r.store.submit ops (fateOf refusal)
      { store := after.1
        caller := Function.update r.caller i ((r.caller i).onWrite after.2)
        past := after.1 :: r.past
        writers := if (fateOf refusal).writes r.store ops then r.writers ++ [i] else r.writers
        puts := Function.update r.puts i (r.puts i + 1) }
    | _ => r

/-- Accesses one after another. -/
def run (r : Race ι) (accesses : List (Access ι)) : Race ι := accesses.foldl step r

theorem run_append (r : Race ι) (earlier later : List (Access ι)) :
    r.run (earlier ++ later) = (r.run earlier).run later := List.foldl_append

theorem run_append_singleton (r : Race ι) (accesses : List (Access ι)) (access : Access ι) :
    r.run (accesses ++ [access]) = (r.run accesses).step access := by
  simp [run, List.foldl_append]

/-! ## One after another -/

/-- Proposals run one after another, each alone with the store: what they leave and return. -/
def serially (rs : Records) : List Proposal → Records × List (Except StoreFault Outcome)
  | [] => (rs, [])
  | p :: rest =>
    let first := p.alone rs
    let others := serially first.1 rest
    (others.1, first.2 :: others.2)

theorem serially_append_singleton (rs : Records) (ps : List Proposal) (p : Proposal) :
    serially rs (ps ++ [p]) =
      ((p.alone (serially rs ps).1).1, (serially rs ps).2 ++ [(p.alone (serially rs ps).1).2]) := by
  induction ps generalizing rs with
  | nil => rfl
  | cons q rest ih => simp [serially, ih]

/-- The proposal of a caller with the time that its checkpoint record shows. -/
def proposalOf (start : ι → Proposal) (r : Race ι) (i : ι) : Proposal :=
  { start i with time := (r.caller i).time }

/-- What callers leave that did not disturb one another. -/
structure Serializable (rs : Records) (start : ι → Proposal) (r : Race ι) : Prop where
  /-- The store is what the proposals leave whose batch was written, and they are applied. -/
  serial : serially rs (r.writers.map (proposalOf start r)) =
    (r.store, List.replicate r.writers.length (.ok .applied))
  /-- These are the proposals that returned as applied; no other wrote anything. -/
  applied : ∀ i, i ∈ r.writers ↔ (r.caller i).result? = some (.ok .applied)
  nodup : r.writers.Nodup
  puts_le : ∀ i, r.puts i ≤ 5

end Race

/-! ## Steps of a proposal -/

namespace Proposal

/-- A proposal that nobody has run yet. -/
structure Fresh (p : Proposal) : Prop where
  attempt : p.attempt = 1
  phase : p.phase = .readCheckpoint

/-- Batches handed over, against the attempts so far. -/
structure Counted (p : Proposal) (puts : Nat) : Prop where
  attempt_le : p.attempt ≤ maxAttempts
  puts_le : puts ≤ p.attempt
  puts_lt : p.result? = none → puts < p.attempt

variable {p : Proposal}

theorem Counted.onRead {n : Nat} (h : p.Counted n) {a : Address}
    (hreq : p.request = some (.get a)) (answer : Except StoreFault (Option Record)) :
    (p.onRead answer).Counted n := by
  have hlt := h.puts_lt (result?_of_request hreq)
  rw [onRead_eq]
  exact ⟨h.attempt_le, h.puts_le, fun _ => hlt⟩

/-- A further attempt is begun only while there is one left. -/
theorem Counted.onWrite {n : Nat} (h : p.Counted n) {ops : List BatchOp}
    (hreq : p.request = some (.putBatch ops)) (answer : Except StoreFault Unit) :
    (p.onWrite answer).Counted (n + 1) := by
  have hlt := h.puts_lt (result?_of_request hreq)
  have hdone : ∀ r, (p.finish r).Counted (n + 1) := by
    intro r
    refine ⟨h.attempt_le, hlt, ?_⟩
    intro hnone
    simp [finish, result?] at hnone
  unfold Proposal.onWrite
  split
  · exact hdone _
  · split
    · rename_i hleft
      refine ⟨hleft, ?_, ?_⟩
      · exact Nat.le_succ_of_le hlt
      · intro _
        exact Nat.succ_lt_succ hlt
    · exact hdone _
  · exact hdone _

/-- What holds of a proposal on its way, `puts` batches after its start. -/
structure Underway (past : List Records) (start p : Proposal) (puts : Nat) : Prop where
  same : p = { start with time := p.time, attempt := p.attempt, phase := p.phase }
  grounded : Grounded past p p.phase
  counted : p.Counted puts

variable {past : List Records} {start : Proposal} {n : Nat}

theorem Fresh.underway (h : start.Fresh) (past : List Records) : Underway past start start 0 where
  same := rfl
  grounded := h.phase ▸ .readCheckpoint
  counted := by
    constructor
    · rw [h.attempt]
      decide
    · exact Nat.zero_le _
    · intro _
      rw [h.attempt]
      exact Nat.zero_lt_one

theorem Underway.mono {past' : List Records} (h : Underway past start p n)
    (hsub : ∀ rs ∈ past, rs ∈ past') : Underway past' start p n :=
  ⟨h.same, h.grounded.mono hsub, h.counted⟩

theorem Underway.at_time (h : Underway past start p n) {a : Address}
    (hreq : p.request = some (.get a)) (t : Int) :
    Underway past start { p with time := t } n := by
  constructor
  · rw [h.same]
  · exact h.grounded.at_time t (phase_ne_write_of_request_get hreq)
  · exact ⟨h.counted.attempt_le, h.counted.puts_le, h.counted.puts_lt⟩

theorem Underway.onRead (h : Underway past start p n) {a : Address}
    (hreq : p.request = some (.get a)) {answer : Except StoreFault (Option Record)}
    (hanswer : ∀ r, answer = .ok r → ∃ rs ∈ past, Assoc.find? a rs = r) :
    Underway past start (p.onRead answer) n := by
  refine ⟨?_, ?_, h.counted.onRead hreq answer⟩
  · rw [onRead_eq, h.same]
  · have hground : Grounded past p (p.onRead answer).phase := by
      cases answer with
      | error e => exact h.grounded.onRead_error
      | ok r =>
          obtain ⟨rs, hrs, rfl⟩ := hanswer r rfl
          exact h.grounded.onRead hrs hreq
    rw [onRead_eq]
    exact hground.at_phase _ _

theorem Underway.onWrite (h : Underway past start p n) {ops : List BatchOp}
    (hreq : p.request = some (.putBatch ops)) (answer : Except StoreFault Unit) :
    Underway past start (p.onWrite answer) (n + 1) := by
  refine ⟨?_, ?_, h.counted.onWrite hreq answer⟩
  · rw [onWrite_eq, h.same]
  · have hground := Grounded.onWrite past p answer
    rw [onWrite_eq]
    exact hground.at_phase _ _

/-- A proposal whose batch is written moves the checkpoint on. -/
theorem Underway.advances {rs rs' : Records} {ops : List BatchOp} (h : Underway past start p n)
    (hoff : ∀ i ∈ start.intents, intentAddress i ≠ start.address)
    (hphase : p.phase = .write ops) (hs : Memory.stage rs none ops = .ok rs')
    (htell : GuardsTell past start.address rs) : start.Advances rs rs' := by
  have hground := h.grounded
  rw [hphase] at hground
  have hsame : ∃ time attempt phase, p = { start with time, attempt, phase } := ⟨_, _, _, h.same⟩
  obtain ⟨time, attempt, phase, rfl⟩ := hsame
  have hadv := hground.advances hoff hs htell
  exact ⟨hadv.before, hadv.after⟩

/-- A proposal whose batch is written does what it would have done alone. -/
theorem Underway.alone {rs rs' : Records} {ops : List BatchOp} (h : Underway past start p n)
    (hfresh : start.Fresh) (hoff : ∀ i ∈ start.intents, intentAddress i ≠ start.address)
    (hphase : p.phase = .write ops) (hs : Memory.stage rs none ops = .ok rs')
    (htell : ∀ a, GuardsTell past a rs) :
    Proposal.alone rs { start with time := p.time } = (rs', .ok .applied) := by
  have hground := h.grounded
  rw [hphase] at hground
  have hsame : ∃ time attempt phase, p = { start with time, attempt, phase } := ⟨_, _, _, h.same⟩
  obtain ⟨time, attempt, phase, rfl⟩ := hsame
  -- the guards make the reads of the past reads of the store that the batch meets
  have hcp := (hground.current hoff hs (htell _)).1
  have hops := hground.ops_eq hoff hs (htell _) fun _ _ => htell _
  rw [hops] at hs
  exact alone_applied (p := { start with time }) hfresh.phase ⟨hcp.seen, hcp.before⟩ hs

end Proposal

namespace Race

variable {ι : Type} {rs : Records} {start : ι → Proposal} {r : Race ι}

/-- What holds of a race at any time, as long as tags tell values apart. -/
structure Inv (rs : Records) (start : ι → Proposal) (r : Race ι) : Prop where
  underway : ∀ i, Proposal.Underway r.past (start i) (r.caller i) (r.puts i)
  present : r.store ∈ r.past
  tagged : ∀ s ∈ r.past, s.Tagged
  serial : serially rs (r.writers.map (proposalOf start r)) =
    (r.store, List.replicate r.writers.length (.ok .applied))
  applied : ∀ i, i ∈ r.writers ↔ (r.caller i).result? = some (.ok .applied)
  nodup : r.writers.Nodup

theorem Inv.begin (htag : rs.Tagged) (hfresh : ∀ i, (start i).Fresh) :
    Inv rs start (begin rs start) where
  underway i := (hfresh i).underway _
  present := List.mem_singleton_self _
  tagged s hs := by
    rw [List.mem_singleton.1 hs]
    exact htag
  serial := rfl
  applied i := by
    have hphase : (start i).phase = .readCheckpoint := (hfresh i).phase
    simp [Race.begin, Proposal.result?, hphase]
  nodup := List.nodup_nil

/-- A caller that waits for an access has not written. -/
theorem Inv.not_mem_writers (h : Inv rs start r) {i : ι} {q : Request}
    (hreq : (r.caller i).request = some q) : i ∉ r.writers := by
  intro hmem
  have hdone := (h.applied i).1 hmem
  rw [Proposal.result?_of_request hreq] at hdone
  cases hdone

variable [DecidableEq ι]

/-- A store that reports what it did wrote the batch, or did nothing and reports a fault. -/
theorem submit_fateOf (s : Records) (ops : List BatchOp) (refusal : Option StoreFault) :
    (∃ s', Memory.stage s none ops = .ok s' ∧ (fateOf refusal).writes s ops = true ∧
        s.submit ops (fateOf refusal) = (s', .ok ())) ∨
      ∃ e, (fateOf refusal).writes s ops = false ∧
        s.submit ops (fateOf refusal) = (s, .error e) := by
  cases refusal with
  | some e => exact .inr ⟨e, rfl, rfl⟩
  | none =>
      cases hs : Memory.stage s none ops with
      | ok s' =>
          left
          exact ⟨s', rfl, by simp [fateOf, Fate.writes, hs, Except.isOk, Except.toBool],
            by simp [fateOf, Records.submit, hs]⟩
      | error e =>
          right
          exact ⟨e, by simp [fateOf, Fate.writes, hs, Except.isOk, Except.toBool],
            by simp [fateOf, Records.submit, hs]⟩

theorem mem_past_step {access : Access ι} {s : Records} (h : s ∈ r.past) :
    s ∈ (r.step access).past := by
  unfold step
  split
  · split <;> exact h
  · split
    · exact List.mem_cons_of_mem _ h
    · exact h

theorem mem_writers_step {access : Access ι} {i : ι} (h : i ∈ r.writers) :
    i ∈ (r.step access).writers := by
  unfold step
  split
  · split <;> exact h
  · split
    · simp only
      split
      · exact List.mem_append_left _ h
      · exact h
    · exact h

/-- Only a batch that is written changes the store. -/
theorem mem_writers_of_store_ne {access : Access ι} (h : (r.step access).store ≠ r.store) :
    ∃ i refusal, access = .put i refusal ∧ i ∈ (r.step access).writers := by
  cases access with
  | get i time fault =>
      simp only [step] at h
      split at h <;> exact absurd rfl h
  | put i refusal =>
      refine ⟨i, refusal, rfl, ?_⟩
      simp only [step] at h ⊢
      split at h
      · rename_i ops hreq
        rcases submit_fateOf r.store ops refusal with ⟨s, -, hwrites, -⟩ | ⟨e, -, hsubmit⟩
        · simp [hwrites]
        · simp [hsubmit] at h
      · exact absurd rfl h

theorem mem_past_run {accesses : List (Access ι)} {s : Records} (h : s ∈ r.past) :
    s ∈ (r.run accesses).past := by
  induction accesses generalizing r with
  | nil => exact h
  | cons access rest ih => exact ih (mem_past_step h)

theorem mem_writers_run {accesses : List (Access ι)} {i : ι} (h : i ∈ r.writers) :
    i ∈ (r.run accesses).writers := by
  induction accesses generalizing r with
  | nil => exact h
  | cons access rest ih => exact ih (mem_writers_step h)

/-- The proposals that were written show the times of their writes, whatever another caller
does. -/
theorem map_proposalOf_update {i : ι} {p : Proposal} {writers : List ι} (hi : i ∉ writers)
    {r' : Race ι} (hcaller : r'.caller = Function.update r.caller i p) :
    writers.map (proposalOf start r') = writers.map (proposalOf start r) := by
  apply List.map_congr_left
  intro j hj
  have hne : j ≠ i := fun heq => hi (heq ▸ hj)
  unfold proposalOf
  rw [hcaller, Function.update_of_ne hne]

/-- A step of one caller leaves the others underway. -/
theorem Inv.underway_update (h : Inv rs start r) {past : List Records} {i : ι} {p : Proposal}
    {n : Nat} (hp : Proposal.Underway past (start i) p n) (hsub : ∀ s ∈ r.past, s ∈ past) (j : ι) :
    Proposal.Underway past (start j) (Function.update r.caller i p j)
      (Function.update r.puts i n j) := by
  by_cases hj : j = i
  · subst hj
    simpa only [Function.update_self] using hp
  · simp only [Function.update_of_ne hj]
    exact (h.underway j).mono hsub

/-- A caller that did not write is not applied by a step of its own unless it writes. -/
theorem Inv.applied_update (h : Inv rs start r) {i : ι} {p : Proposal} (hi : i ∉ r.writers)
    (hp : p.result? ≠ some (.ok .applied)) (j : ι) :
    j ∈ r.writers ↔ (Function.update r.caller i p j).result? = some (.ok .applied) := by
  by_cases hj : j = i
  · subst hj
    rw [Function.update_self]
    exact ⟨fun hmem => absurd hmem hi, fun hdone => absurd hdone hp⟩
  · -- the others are as they were
    rw [Function.update_of_ne hj]
    exact h.applied j

theorem Inv.get (h : Inv rs start r) (i : ι) (time : Int) (fault : Option StoreFault) :
    Inv rs start (r.step (.get i time fault)) := by
  simp only [step]
  split
  · rename_i a hreq
    -- the caller as it reads, at this time
    have hreq' : Proposal.request { r.caller i with time } = some (.get a) := hreq
    have hwriters := h.not_mem_writers hreq
    have hanswer : ∀ record, r.answer a fault = .ok record →
        ∃ s ∈ r.past, Assoc.find? a s = record := by
      intro record hrecord
      cases fault with
      | none =>
          cases hrecord
          exact ⟨r.store, h.present, rfl⟩
      | some e => cases hrecord
    have hread := ((h.underway i).at_time hreq time).onRead hreq' hanswer
    refine ⟨?_, h.present, h.tagged, ?_, ?_, h.nodup⟩
    · intro j
      simpa using h.underway_update hread (fun _ hs => hs) j
    · rw [map_proposalOf_update hwriters rfl]
      exact h.serial
    · exact h.applied_update hwriters (Proposal.onRead_result?_ne hreq' _)
  · exact h

/-- A batch that is written takes its caller's place behind those before it. -/
theorem Inv.written (h : Inv rs start r) (hfresh : ∀ i, (start i).Fresh)
    (hoff : ∀ i, ∀ x ∈ (start i).intents, intentAddress x ≠ (start i).address)
    (htell : ∀ a, TagsTell r.past a) {i : ι} {ops : List BatchOp}
    (hreq : (r.caller i).request = some (.putBatch ops)) {s : Records}
    (hs : Memory.stage r.store none ops = .ok s) :
    Inv rs start
      { store := s
        caller := Function.update r.caller i ((r.caller i).onWrite (.ok ()))
        past := s :: r.past
        writers := r.writers ++ [i]
        puts := Function.update r.puts i (r.puts i + 1) } := by
  have hwriters := h.not_mem_writers hreq
  refine ⟨?_, List.mem_cons_self, ?_, ?_, ?_, ?_⟩
  · apply h.underway_update
    · exact ((h.underway i).onWrite hreq _).mono fun _ => List.mem_cons_of_mem _
    · exact fun _ => List.mem_cons_of_mem _
  · intro t ht
    rcases List.mem_cons.1 ht with rfl | ht
    · exact Store.stage_tagged (h.tagged _ h.present) hs
    · exact h.tagged t ht
  · -- the caller's proposal, run alone behind the others, leaves the same
    have halone := (h.underway i).alone (hfresh i) (hoff i) (Proposal.phase_of_request_put hreq) hs
      fun a => (htell a).guardsTell h.tagged h.present
    rw [List.map_append, map_proposalOf_update hwriters rfl, List.map_singleton,
      serially_append_singleton, h.serial]
    have hlast : proposalOf start { store := s
                                    caller := Function.update r.caller i
                                      ((r.caller i).onWrite (.ok ()))
                                    past := s :: r.past
                                    writers := r.writers ++ [i]
                                    puts := Function.update r.puts i (r.puts i + 1) } i =
        { start i with time := (r.caller i).time } := by
      simp [proposalOf, Proposal.onWrite, Proposal.finish]
    rw [hlast, halone, List.length_append, List.length_singleton, List.replicate_succ']
  · intro j
    by_cases hj : j = i
    · subst hj
      simp [Proposal.onWrite, Proposal.finish, Proposal.result?]
    · simp only [Function.update_of_ne hj, List.mem_append, List.mem_singleton, hj, or_false]
      exact h.applied j
  · rw [List.nodup_append]
    refine ⟨h.nodup, by simp, ?_⟩
    intro j hj k hk
    rw [List.mem_singleton] at hk
    exact fun heq => hwriters (hk ▸ heq ▸ hj)

/-- A batch that is refused leaves the store to the others. -/
theorem Inv.refused (h : Inv rs start r) {i : ι} {ops : List BatchOp}
    (hreq : (r.caller i).request = some (.putBatch ops)) (e : StoreFault) :
    Inv rs start
      { r with
        caller := Function.update r.caller i ((r.caller i).onWrite (.error e))
        past := r.store :: r.past
        puts := Function.update r.puts i (r.puts i + 1) } := by
  have hwriters := h.not_mem_writers hreq
  refine ⟨?_, List.mem_cons_self, ?_, ?_, ?_, h.nodup⟩
  · apply h.underway_update
    · exact ((h.underway i).onWrite hreq _).mono fun _ => List.mem_cons_of_mem _
    · exact fun _ => List.mem_cons_of_mem _
  · intro t ht
    rcases List.mem_cons.1 ht with rfl | ht
    · exact h.tagged _ h.present
    · exact h.tagged t ht
  · rw [map_proposalOf_update hwriters rfl]
    exact h.serial
  · exact h.applied_update hwriters (Proposal.onWrite_error_result?_ne _ e)

theorem Inv.step (h : Inv rs start r) (hfresh : ∀ i, (start i).Fresh)
    (hoff : ∀ i, ∀ x ∈ (start i).intents, intentAddress x ≠ (start i).address)
    (access : Access ι) (htell : ∀ a, TagsTell (r.step access).past a) :
    Inv rs start (r.step access) := by
  cases access with
  | get i time fault => exact h.get i time fault
  | put i refusal =>
      have htell' : ∀ a, TagsTell r.past a := fun a => (htell a).mono fun _ => mem_past_step
      simp only [Race.step]
      split
      · rename_i ops hreq
        rcases submit_fateOf r.store ops refusal with
          ⟨s, hs, hwrites, hsubmit⟩ | ⟨e, hwrites, hsubmit⟩
        · simp only [hsubmit, hwrites, if_true]
          exact h.written hfresh hoff htell' hreq hs
        · simp only [hsubmit, hwrites]
          exact h.refused hreq e
      · exact h

theorem Inv.run (htag : rs.Tagged) (hfresh : ∀ i, (start i).Fresh)
    (hoff : ∀ i, ∀ x ∈ (start i).intents, intentAddress x ≠ (start i).address)
    (accesses : List (Access ι))
    (htell : ∀ a, TagsTell ((Race.begin rs start).run accesses).past a) :
    Inv rs start ((Race.begin rs start).run accesses) := by
  -- from the end: a beginning of the run has seen less, so that the tags tell its values apart
  -- as well
  induction accesses using List.reverseRecOn with
  | nil => exact Inv.begin htag hfresh
  | append_singleton accesses access ih =>
      rw [run_append_singleton] at htell ⊢
      refine Inv.step (ih ?_) hfresh hoff access htell
      exact fun a => (htell a).mono fun _ => mem_past_step

/-- A caller becomes applied only by a batch that moves its checkpoint on. -/
theorem Inv.advances (h : Inv rs start r)
    (hoff : ∀ i, ∀ x ∈ (start i).intents, intentAddress x ≠ (start i).address)
    {access : Access ι} (htell : ∀ a, TagsTell (r.step access).past a) {i : ι}
    (hbefore : (r.caller i).result? ≠ some (.ok .applied))
    (hafter : ((r.step access).caller i).result? = some (.ok .applied)) :
    (start i).Advances r.store (r.step access).store := by
  cases access with
  | get j time fault =>
      -- a read makes nobody applied: whoever is has a place among the writers
      exfalso
      apply hbefore
      rw [← (h.get j time fault).applied i] at hafter
      rw [← h.applied i]
      simp only [Race.step] at hafter
      split at hafter <;> exact hafter
  | put j refusal =>
      have htell' : ∀ a, TagsTell r.past a := fun a => (htell a).mono fun _ => mem_past_step
      simp only [Race.step] at hafter ⊢
      split at hafter
      · rename_i ops hreq
        by_cases hi : i = j
        · subst hi
          simp only [Function.update_self] at hafter
          rcases submit_fateOf r.store ops refusal with ⟨s, hs, -, hsubmit⟩ | ⟨e, -, hsubmit⟩
          · rw [hsubmit]
            exact (h.underway i).advances (hoff i) (Proposal.phase_of_request_put hreq) hs
              ((htell' _).guardsTell h.tagged h.present)
          · rw [hsubmit] at hafter
            exact absurd hafter (Proposal.onWrite_error_result?_ne _ e)
        · simp only [Function.update_of_ne hi] at hafter
          exact absurd hafter hbefore
      · exact absurd hafter hbefore

/-- Callers that race for a store leave what the applied proposals leave one after another, each
alone with the store. Only a proposal that is applied in the end ever changes the store, and it
moves the checkpoint of its consumer on when it does. -/
theorem run_serializable (rs : Records) (start : ι → Proposal) (bucket : String)
    (accesses : List (Access ι)) (htag : rs.Tagged) (hfresh : ∀ i, (start i).Fresh)
    (hbucket : ∀ i, (start i).bucket = bucket)
    (hrange : ∀ i, (start i).range.first ≤ (start i).range.last)
    (hoff : ∀ i, ∀ x ∈ (start i).intents, x.bucket ≠ bucket)
    (htell : ∀ a, TagsTell ((begin rs start).run accesses).past a) :
    Serializable rs start ((begin rs start).run accesses) ∧
      (∀ earlier access, earlier ++ [access] <+: accesses →
        ((begin rs start).run (earlier ++ [access])).store ≠ ((begin rs start).run earlier).store →
        ∃ i refusal, access = .put i refusal ∧
          (((begin rs start).run accesses).caller i).result? = some (.ok .applied)) ∧
      ∀ earlier access i, earlier ++ [access] <+: accesses →
        (((begin rs start).run earlier).caller i).result? ≠ some (.ok .applied) →
        (((begin rs start).run (earlier ++ [access])).caller i).result? =
          some (.ok .applied) →
        standing ((begin rs start).run earlier).store (start i).address <
          standing ((begin rs start).run (earlier ++ [access])).store (start i).address := by
  have hoff' : ∀ i, ∀ x ∈ (start i).intents, intentAddress x ≠ (start i).address := by
    intro i x hx heq
    apply hoff i x hx
    rw [← hbucket i]
    exact congrArg Address.bucket heq
  have h := Inv.run htag hfresh hoff' accesses htell
  refine ⟨⟨h.serial, h.applied, h.nodup, ?_⟩, ?_, ?_⟩
  · intro i
    exact Nat.le_trans (h.underway i).counted.puts_le (h.underway i).counted.attempt_le
  · intro earlier access hprefix hne
    obtain ⟨later, rfl⟩ := hprefix
    rw [run_append_singleton] at hne
    obtain ⟨i, refusal, rfl, hmem⟩ := mem_writers_of_store_ne hne
    refine ⟨i, refusal, rfl, (h.applied i).1 ?_⟩
    rw [run_append, run_append_singleton]
    exact mem_writers_run hmem
  · intro earlier access i hprefix hbefore hafter
    obtain ⟨later, rfl⟩ := hprefix
    -- what the whole run has seen tells apart what its beginning has seen
    have htell' : ∀ a, TagsTell ((begin rs start).run (earlier ++ [access])).past a := by
      intro a
      refine (htell a).mono fun s hs => ?_
      rw [run_append]
      exact mem_past_run hs
    rw [run_append_singleton] at htell' hafter ⊢
    have h : Inv rs start ((begin rs start).run earlier) :=
      Inv.run htag hfresh hoff' earlier fun a => (htell' a).mono fun _ => mem_past_step
    have hadv := h.advances hoff' htell' hbefore hafter
    exact hadv.lt (hrange i)

/-- Two callers of one consumer with ranges that overlap. -/
def rivals : Bool → Proposal
  | true =>
    { bucket := defaultBucket, consumer := "people", range := ⟨1, 2⟩
      intents := [.put "people" "ann" .null] }
  | false =>
    { bucket := defaultBucket, consumer := "people", range := ⟨2, 3⟩
      intents := [.delete "people" "ann"] }

/-- Both read before either writes, so that the second has to start over. -/
def rivalAccesses : List (Access Bool) :=
  [.get true 0 none, .get false 0 none, .get true 0 none, .get false 0 none,
    .put true none, .put false none, .get false 7 none]

set_option maxRecDepth 100000 in
theorem run_serializable_rivals :
    ((begin [] rivals).run rivalAccesses).writers = [true] ∧
      Serializable [] rivals ((begin [] rivals).run rivalAccesses) := by
  refine ⟨by decide +kernel, ?_⟩
  refine (run_serializable [] rivals defaultBucket rivalAccesses ?_ ?_ ?_ ?_ ?_ ?_).1
  · exact Records.tagged_nil
  · intro i
    cases i <;> exact ⟨rfl, rfl⟩
  · intro i
    cases i <;> rfl
  · decide
  · decide
  · apply Store.tagsTell_of_forall
    decide +kernel

end Race

end ChangeRelay.Checkpoint
