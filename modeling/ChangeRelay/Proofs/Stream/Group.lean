import ChangeRelay.Proofs.Stream.Member
import Mathlib.Logic.Function.Basic

/-!
# Groups of consumers

Any number of consumers of one name over one atomic store. Their feeds may hand out whatever they
like, the store may fail or leave a batch unreported, consumers may crash and come back: as long as
their triggers keep off the checkpoint, no sequence number is applied twice and the checkpoint
never goes back.
-/

namespace ChangeRelay

open Checkpoint (Proposal position standing)
open Store (Address Record Records BatchOp Action Fate GuardsTell TagsTell Memory)

/-- A batch that was written. -/
structure Commit (ι : Type) where
  member : ι
  /-- The subscription that its changes came from. -/
  session : Nat
  changes : List Change
  /-- Where the checkpoint stood before. -/
  before : Option UInt64
  after : Option UInt64

/-- Consumers over one store. -/
structure Group (ι : Type) where
  store : Records
  member : ι → Member
  /-- Every state of the store so far. -/
  past : List Records
  /-- The batches that were written, in the order of the writes. -/
  commits : List (Commit ι) := []

/-- A signal that only the store gives. -/
def Signal.ofStore : Signal → Bool
  | .read _ | .wrote _ => true
  | _ => false

/-- A new instance in the place of a consumer, with settings of its own. -/
def Member.restart (mb : Member) (settings : ConsumerSettings) (circuit : Circuit.Config) :
    Member :=
  { consumer :=
      { query := mb.consumer.query
        pipeline := mb.consumer.pipeline
        writer := .new mb.consumer.writer.consumer mb.consumer.writer.bucket circuit
        settings }
    session := mb.session }

namespace Group

/-- What can happen to a group. -/
inductive Event (ι : Type) where
  /-- A member is given a signal by its feed, its clock or its supervisor. -/
  | signal (i : ι) (m : Moment) (s : Signal)
  /-- A member reads the record it waits for, unless the store has a fault. -/
  | read (i : ι) (m : Moment) (fault : Option StoreFault)
  /-- A member hands its batch to the store. -/
  | write (i : ι) (m : Moment) (fate : Fate)
  /-- A member crashes, and a new instance begins. -/
  | restart (i : ι) (settings : ConsumerSettings) (circuit : Circuit.Config)
  /-- Somebody else writes a record. -/
  | foreign (a : Address) (action : Action)

variable {ι : Type} [DecidableEq ι]

/-- A group that is about to begin. -/
def begin (rs : Records) (start : ι → Consumer) : Group ι :=
  { store := rs, member := fun i => { consumer := start i }, past := [rs] }

/-- A group in which a member takes a step. -/
def stepMember (g : Group ι) (i : ι) (m : Moment) (s : Signal) : Group ι :=
  { g with member := Function.update g.member i ((g.member i).step m s) }

/-- What the store answers to a read. -/
def answer (g : Group ι) (a : Address) : Option StoreFault → Except StoreFault (Option Record)
  | none => .ok (Assoc.find? a g.store)
  | some e => .error e

/-- What is noted of a batch of a member that leaves the store as it is given. -/
def commitOf (g : Group ι) (i : ι) (rs : Records) : Commit ι :=
  { member := i
    session := (g.member i).session
    changes := (g.member i).taken
    before := standing g.store (g.member i).consumer.checkpoint
    after := standing rs (g.member i).consumer.checkpoint }

/-- A group in which the store takes the batch of a member. -/
def stepStore (g : Group ι) (i : ι) (m : Moment) (ops : List BatchOp) (fate : Fate) : Group ι :=
  let after := g.store.submit ops fate
  { store := after.1
    member := Function.update g.member i ((g.member i).step m (.wrote after.2))
    past := after.1 :: g.past
    commits := if fate.writes g.store ops then g.commits ++ [g.commitOf i after.1] else g.commits }

/-- One event; one that its member does not wait for changes nothing. -/
def step (g : Group ι) : Event ι → Group ι
  | .signal i m s => if s.ofStore then g else g.stepMember i m s
  | .read i m fault =>
    match (g.member i).consumer.request with
    | some (.get a) => g.stepMember i m (.read (g.answer a fault))
    | _ => g
  | .write i m fate =>
    match (g.member i).consumer.request with
    | some (.putBatch ops) => g.stepStore i m ops fate
    | _ => g
  | .restart i settings circuit =>
    { g with member := Function.update g.member i ((g.member i).restart settings circuit) }
  | .foreign a action =>
    let store := g.store.set a action.result
    { g with store, past := store :: g.past }

/-- Events one after another. -/
def run (g : Group ι) (events : List (Event ι)) : Group ι := events.foldl step g

theorem run_append (g : Group ι) (earlier later : List (Event ι)) :
    g.run (earlier ++ later) = (g.run earlier).run later := List.foldl_append

theorem run_append_singleton (g : Group ι) (events : List (Event ι)) (e : Event ι) :
    g.run (events ++ [e]) = (g.run events).step e := by
  simp [run, List.foldl_append]

/-- What an event does to the store, and what is noted of it. -/
inductive Effect (g : Group ι) (e : Event ι) : Prop where
  | none (hstore : (g.step e).store = g.store) (hcommits : (g.step e).commits = g.commits)
  | foreign {a : Address} {action : Action} (he : e = .foreign a action)
      (hstore : (g.step e).store = g.store.set a action.result)
      (hcommits : (g.step e).commits = g.commits)
  /-- The batch of a member is written. -/
  | written {i : ι} {ops : List BatchOp}
      (hreq : (g.member i).consumer.request = some (.putBatch ops))
      (hs : Memory.stage g.store none ops = .ok (g.step e).store)
      (hcommits : (g.step e).commits = g.commits ++ [g.commitOf i (g.step e).store])

theorem step_effect (g : Group ι) (e : Event ι) : g.Effect e := by
  cases e with
  | signal i m s =>
      have hsame : (g.step (.signal i m s)).store = g.store ∧
          (g.step (.signal i m s)).commits = g.commits := by
        simp only [step]
        split <;> exact ⟨rfl, rfl⟩
      exact .none hsame.1 hsame.2
  | read i m fault =>
      have hsame : (g.step (.read i m fault)).store = g.store ∧
          (g.step (.read i m fault)).commits = g.commits := by
        simp only [step]
        split <;> exact ⟨rfl, rfl⟩
      exact .none hsame.1 hsame.2
  | write i m fate =>
      cases hreq : (g.member i).consumer.request with
      | none => exact .none (by simp only [step, hreq]) (by simp only [step, hreq])
      | some q =>
          cases q with
          | get a => exact .none (by simp only [step, hreq]) (by simp only [step, hreq])
          | putBatch ops =>
              have hstep : g.step (.write i m fate) = g.stepStore i m ops fate := by
                simp only [step, hreq]
              -- a batch is written as a whole, whatever is reported of it, or not at all
              rcases Store.submit_cases g.store ops fate with ⟨hwrites, hs⟩ | ⟨hwrites, hstore, -⟩
              · refine .written hreq ?_ ?_
                · rw [hstep]
                  exact hs
                · rw [hstep]
                  simp only [stepStore, hwrites, if_true]
              · refine .none ?_ ?_
                · rw [hstep]
                  exact hstore
                · rw [hstep]
                  simp only [stepStore, hwrites, Bool.false_eq_true, if_false]
  | restart i settings circuit => exact .none rfl rfl
  | foreign a action => exact .foreign rfl rfl rfl

end Group

/-! ## What holds at any time -/

/-- What is known of the batches that were written: they ascend from one to the next, and each lies
between the checkpoints around it. -/
structure Journal {ι : Type} (a : Address) (rs : Records) (commits : List (Commit ι)) : Prop where
  ascending : Ascending (commits.flatMap Commit.changes)
  bounds : ∀ k ∈ commits, ∀ x ∈ k.changes, k.before < some x.seq ∧ some x.seq ≤ k.after
  reached : ∀ k ∈ commits, ∀ x ∈ k.changes, some x.seq ≤ standing rs a

theorem le_standing_trans {x y z : Option UInt64} (h : x ≤ y) (h' : y ≤ z) : x ≤ z := by
  cases x with
  | none => exact Option.none_le
  | some x =>
      cases y with
      | none => exact absurd h Option.not_some_le_none
      | some y =>
          cases z with
          | none => exact absurd h' Option.not_some_le_none
          | some z =>
              rw [Option.some_le_some] at h h' ⊢
              exact UInt64.le_trans h h'

theorem standing_le_refl (rs : Records) (a : Address) : standing rs a ≤ standing rs a := by
  cases standing rs a with
  | none => exact Option.none_le
  | some x => exact Option.some_le_some.2 (UInt64.le_refl x)

theorem standing_set_of_ne (rs : Records) {a b : Address} (h : b ≠ a) (r : Option Record) :
    standing (rs.set b r) a = standing rs a := by
  rw [standing, standing, Records.value, Records.value, Records.find?_set, if_neg (Ne.symm h)]

theorem lt_of_le_of_standing_lt {x y : UInt64} {s : Option UInt64} (h : some x ≤ s)
    (h' : s < some y) : x < y := by
  cases s with
  | none => exact absurd h Option.not_some_le_none
  | some s =>
      rw [Option.some_le_some] at h
      rw [Option.some_lt_some] at h'
      exact UInt64.lt_of_le_of_lt h h'

/-- A batch that begins behind the checkpoint is noted behind the others. -/
theorem Journal.append {ι : Type} {a : Address} {rs rs' : Records} {commits : List (Commit ι)}
    (h : Journal a rs commits) {k : Commit ι} (hk : Ascending k.changes)
    (hbefore : k.before = standing rs a) (hafter : k.after = standing rs' a)
    (hbetween : ∀ x ∈ k.changes, standing rs a < some x.seq ∧ some x.seq ≤ standing rs' a)
    (hle : standing rs a ≤ standing rs' a) : Journal a rs' (commits ++ [k]) where
  ascending := by
    rw [List.flatMap_append, Ascending, List.pairwise_append]
    refine ⟨h.ascending, by simpa [Ascending] using hk, ?_⟩
    intro x hx y hy
    -- the batches before end at or before the checkpoint, and the new one begins behind it
    obtain ⟨k', hk', hx⟩ := List.mem_flatMap.1 hx
    have hy' : y ∈ k.changes := by simpa using hy
    exact lt_of_le_of_standing_lt (h.reached k' hk' x hx) (hbetween y hy').1
  bounds k' hk' x hx := by
    rcases List.mem_append.1 hk' with hk' | hk'
    · exact h.bounds k' hk' x hx
    · rw [List.mem_singleton.1 hk'] at hx ⊢
      rw [hbefore, hafter]
      exact hbetween x hx
  reached k' hk' x hx := by
    rcases List.mem_append.1 hk' with hk' | hk'
    · exact le_standing_trans (h.reached k' hk' x hx) hle
    · rw [List.mem_singleton.1 hk'] at hx
      exact (hbetween x hx).2

theorem Journal.of_standing_eq {ι : Type} {a : Address} {rs rs' : Records}
    {commits : List (Commit ι)} (h : Journal a rs commits)
    (heq : standing rs' a = standing rs a) : Journal a rs' commits :=
  ⟨h.ascending, h.bounds, fun k hk x hx => heq ▸ h.reached k hk x hx⟩

theorem position_le_of_standing_le {a : Address} {rs rs' : Records}
    (h : standing rs a ≤ standing rs' a) : position rs a ≤ position rs' a := by
  unfold position
  cases hs : standing rs a with
  | none => exact UInt64.zero_le
  | some x =>
      rw [hs] at h
      cases hs' : standing rs' a with
      | none => exact absurd (hs' ▸ h) Option.not_some_le_none
      | some y =>
          rw [hs', Option.some_le_some] at h
          exact h

theorem le_position_of_le_standing {a : Address} {rs : Records} {x : UInt64}
    (h : some x ≤ standing rs a) : x ≤ position rs a := by
  unfold position
  cases hs : standing rs a with
  | none => exact absurd (hs ▸ h) Option.not_some_le_none
  | some y =>
      rw [hs, Option.some_le_some] at h
      exact h

namespace Group

variable {ι : Type} {known : List Records} {a : Address} {g : Group ι}

/-- What holds of a group at any time, where `known` are the states of the store that a guard may
have been made of. -/
structure Sound (known : List Records) (a : Address) (g : Group ι) : Prop where
  stands : ∀ i, Stands known (position g.store a) (g.member i).consumer (g.member i).taken
    (g.member i).consumer.phase
  address : ∀ i, (g.member i).consumer.checkpoint = a
  keepsOff : ∀ i, (g.member i).consumer.pipeline.KeepsOff a
  present : g.store ∈ known
  journal : Journal a g.store g.commits

theorem Sound.begin {rs : Records} {start : ι → Consumer}
    (hfresh : ∀ i, (start i).phase = .starting) (haddress : ∀ i, (start i).checkpoint = a)
    (hoff : ∀ i, (start i).pipeline.KeepsOff a) :
    Sound [rs] a (begin rs start) where
  stands i := by
    have hphase : ((Group.begin rs start).member i).consumer.phase = .starting := hfresh i
    rw [hphase]
    exact .quiet .starting rfl
  address := haddress
  keepsOff := hoff
  present := List.mem_singleton_self _
  journal := ⟨List.Pairwise.nil, by simp [Group.begin], by simp [Group.begin]⟩

/-- A batch that is written: what its member proposed, and how it moves the checkpoint on. -/
structure Writes (known : List Records) (g : Group ι) (i : ι) (ops : List BatchOp) (rs : Records)
    (p : Proposal) (after : AfterCommit) : Prop where
  phase : (g.member i).consumer.phase = .committing p after
  proposes : Proposes known (g.member i).consumer (g.member i).taken p after
  grounded : Proposal.Grounded known p (.write ops)
  off : ∀ x ∈ p.intents, Checkpoint.intentAddress x ≠ p.address
  advances : p.Advances g.store rs

theorem Sound.writes (h : Sound known a g) (htell : GuardsTell known a g.store) {i : ι}
    {ops : List BatchOp} (hreq : (g.member i).consumer.request = some (.putBatch ops))
    {rs : Records} (hs : Memory.stage g.store none ops = .ok rs) :
    ∃ p after, Writes known g i ops rs p after := by
  obtain ⟨p, after, hphase, hwrite⟩ := committing_of_request hreq
  have hstands := h.stands i
  rw [hphase] at hstands
  cases hstands with
  | quiet hquiet => cases hquiet
  | committing hp hpending =>
      have haddr : p.address = a := hp.address.trans (h.address i)
      have hground := hp.grounded
      rw [hwrite] at hground
      have hoff := hp.keepsOff (haddr ▸ h.keepsOff i)
      exact ⟨p, after, hphase, hp, hground, hoff, hground.advances hoff hs (haddr ▸ htell)⟩

/-- The changes of a batch that is written lie between the checkpoints around it. -/
theorem Writes.between {i : ι} {ops : List BatchOp} {rs : Records} {p : Proposal}
    {after : AfterCommit} (h : Writes known g i ops rs p after) :
    ∀ x ∈ (g.member i).taken, standing g.store p.address < some x.seq ∧
      some x.seq ≤ standing rs p.address := by
  intro x hx
  -- the range of the batch begins behind the checkpoint that it was made from
  obtain ⟨hfirst, hlast⟩ := collect_bounds h.proposes.ascending h.proposes.range x hx
  constructor
  · cases hs : standing g.store p.address with
    | none => exact Option.none_lt_some
    | some seq =>
        exact Option.some_lt_some.2 (UInt64.lt_of_lt_of_le (h.advances.before seq hs) hfirst)
  · rw [h.advances.after]
    exact hlast

theorem Writes.address {i : ι} {ops : List BatchOp} {rs : Records} {p : Proposal}
    {after : AfterCommit} (h : Writes known g i ops rs p after) (hsound : Sound known a g) :
    p.address = a := h.proposes.address.trans (hsound.address i)

/-- The checkpoint comes to the last change of the batch. -/
theorem Writes.reaches {i : ι} {ops : List BatchOp} {rs : Records} {p : Proposal}
    {after : AfterCommit} (h : Writes known g i ops rs p after) (hsound : Sound known a g) :
    ∃ x ∈ (g.member i).taken, position rs a = x.seq := by
  obtain ⟨x, hx, hlast⟩ := collect_last h.proposes.range
  refine ⟨x, List.mem_of_getLast? hx, ?_⟩
  rw [position, ← h.address hsound, h.advances.after, hlast]
  rfl

/-- The checkpoint does not go back when a batch is written. -/
theorem Writes.standing_le {i : ι} {ops : List BatchOp} {rs : Records} {p : Proposal}
    {after : AfterCommit} (h : Writes known g i ops rs p after) :
    standing g.store p.address ≤ standing rs p.address := by
  obtain ⟨x, hx, -⟩ := collect_last h.proposes.range
  have hbounds := collect_bounds h.proposes.ascending h.proposes.range x (List.mem_of_getLast? hx)
  rw [h.advances.after]
  cases hs : standing g.store p.address with
  | none => exact Option.none_le
  | some seq =>
      have hlt := UInt64.lt_of_lt_of_le (h.advances.before seq hs) hbounds.1
      exact Option.some_le_some.2 (UInt64.le_of_lt (UInt64.lt_of_lt_of_le hlt hbounds.2))

variable [DecidableEq ι]

/-- A step of one member. What the others know has to stay known. -/
theorem Sound.update (h : Sound known a g) {g' : Group ι} {i : ι} {mb : Member}
    (hmember : g'.member = Function.update g.member i mb)
    (hkeeps : (g.member i).consumer.Keeps mb.consumer) {known' : List Records}
    (hstands : Stands known' (position g'.store a) mb.consumer mb.taken mb.consumer.phase)
    (hothers : ∀ j, j ≠ i → ∀ s ∈ known, s ∈ known')
    (hle : position g.store a ≤ position g'.store a) (hnew : g'.store ∈ known')
    (hjournal : Journal a g'.store g'.commits) : Sound known' a g' where
  stands j := by
    rw [hmember]
    by_cases hj : j = i
    · subst hj
      rwa [Function.update_self]
    · rw [Function.update_of_ne hj]
      exact (h.stands j).mono (hothers j hj) hle
  address j := by
    rw [hmember]
    by_cases hj : j = i
    · subst hj
      rw [Function.update_self, hkeeps.checkpoint]
      exact h.address j
    · rw [Function.update_of_ne hj]
      exact h.address j
  keepsOff j := by
    rw [hmember]
    by_cases hj : j = i
    · subst hj
      rw [Function.update_self, hkeeps.pipeline]
      exact h.keepsOff j
    · rw [Function.update_of_ne hj]
      exact h.keepsOff j
  present := hnew
  journal := hjournal

/-- A step of one member that leaves the store alone. -/
theorem Sound.update_member (h : Sound known a g) {i : ι} {mb : Member}
    (hstands : Stands known (position g.store a) mb.consumer mb.taken mb.consumer.phase)
    (hkeeps : (g.member i).consumer.Keeps mb.consumer) :
    Sound known a { g with member := Function.update g.member i mb } :=
  h.update rfl hkeeps hstands (fun _ _ _ hs => hs) (UInt64.le_refl _) h.present h.journal

theorem Sound.stepMember (h : Sound known a g) {i : ι} {m : Moment} {s : Signal}
    (htrue : TrueTo known (position g.store a) (g.member i).consumer s)
    (hs : ∀ answer, s ≠ .wrote answer) : Sound known a (g.stepMember i m s) :=
  h.update_member ((h.stands i).step m htrue hs) ((g.member i).consumer.step_turns m s).keeps

theorem Sound.signal (h : Sound known a g) (i : ι) (m : Moment) (s : Signal) :
    Sound known a (g.step (.signal i m s)) := by
  simp only [step]
  split
  · exact h
  · rename_i hs
    apply h.stepMember
    · intro r hr
      simp [hr, Signal.ofStore] at hs
    · intro answer hanswer
      simp [hanswer, Signal.ofStore] at hs

theorem Sound.read (h : Sound known a g) (i : ι) (m : Moment) (fault : Option StoreFault) :
    Sound known a (g.step (.read i m fault)) := by
  simp only [step]
  split
  · rename_i b hreq
    apply h.stepMember
    · intro r hr
      cases fault with
      | some e => cases hr
      | none =>
          cases hr
          refine ⟨b, hreq, g.store, h.present, rfl, ?_⟩
          rw [h.address i]
          exact UInt64.le_refl _
    · intro answer hanswer
      cases hanswer
  · exact h

theorem Sound.restart (h : Sound known a g) (i : ι) (settings : ConsumerSettings)
    (circuit : Circuit.Config) : Sound known a (g.step (.restart i settings circuit)) :=
  h.update_member (.quiet .starting rfl) ⟨rfl, rfl, rfl, rfl⟩

/-- What becomes of a batch leaves a group sound. The member that handed it over has nothing left
of what it read, so that only the others bind what has to be known. -/
theorem Sound.stepStore (h : Sound known a g) (htell : GuardsTell known a g.store) {i : ι}
    {ops : List BatchOp} (hreq : (g.member i).consumer.request = some (.putBatch ops)) (m : Moment)
    (fate : Fate) {known' : List Records} (hothers : ∀ j, j ≠ i → ∀ s ∈ known, s ∈ known')
    (hnew : (g.store.submit ops fate).1 ∈ known') : Sound known' a (g.stepStore i m ops fate) := by
  obtain ⟨p, after, hphase, -⟩ := committing_of_request hreq
  have hkeeps := ((g.member i).consumer.step_turns m (.wrote (g.store.submit ops fate).2)).keeps
  rcases Store.submit_cases g.store ops fate with ⟨hwrites, hs⟩ | ⟨hwrites, hstore, e, hanswer⟩
  · -- the batch is written
    obtain ⟨p', after', hw⟩ := h.writes htell hreq hs
    have hp : p' = p := by
      have hphase' := hw.phase.symm.trans hphase
      rw [ConsumerPhase.committing.injEq] at hphase'
      exact hphase'.1
    have haddr := hw.address h
    have hle := hw.standing_le
    have hbetween := hw.between
    rw [haddr] at hle hbetween
    have hcommits : (g.stepStore i m ops fate).commits =
        g.commits ++ [g.commitOf i (g.store.submit ops fate).1] := by
      simp only [Group.stepStore, hwrites, if_true]
    refine h.update rfl hkeeps ?_ hothers (position_le_of_standing_le hle) hnew ?_
    · apply (h.stands i).wrote m hphase
      intro _
      rw [Group.stepStore, position, ← haddr, hw.advances.after, hp]
      exact UInt64.le_refl _
    · rw [hcommits]
      refine h.journal.append hw.proposes.ascending ?_ ?_ hbetween hle
      · simp only [commitOf, h.address i]
      · simp only [commitOf, h.address i, Group.stepStore]
  · -- it is refused
    have hcommits : (g.stepStore i m ops fate).commits = g.commits := by
      simp only [Group.stepStore, hwrites, Bool.false_eq_true, if_false]
    have hsame : (g.stepStore i m ops fate).store = g.store := hstore
    refine h.update rfl hkeeps ?_ hothers ?_ hnew ?_
    · apply (h.stands i).wrote m hphase
      intro hok
      rw [hanswer] at hok
      cases hok
    · rw [hsame]
      exact UInt64.le_refl _
    · rw [hsame, hcommits]
      exact h.journal

/-- A record written by somebody else, apart from the checkpoint. -/
theorem Sound.foreign (h : Sound known a g) {b : Address} (hb : b ≠ a) (action : Action)
    {known' : List Records} (hsub : ∀ s ∈ known, s ∈ known')
    (hnew : g.store.set b action.result ∈ known') :
    Sound known' a (g.step (.foreign b action)) := by
  have hstanding := standing_set_of_ne g.store hb action.result
  refine ⟨?_, h.address, h.keepsOff, hnew, h.journal.of_standing_eq hstanding⟩
  intro i
  have hposition : position (g.store.set b action.result) a = position g.store a := by
    rw [position, position, hstanding]
  exact (h.stands i).mono hsub (hposition ▸ UInt64.le_refl _)

/-! ## Runs -/

theorem mem_past_step {e : Event ι} {rs : Records} (h : rs ∈ g.past) : rs ∈ (g.step e).past := by
  unfold step
  split
  · split <;> exact h
  · split <;> exact h
  · split
    · exact List.mem_cons_of_mem _ h
    · exact h
  · exact h
  · exact List.mem_cons_of_mem _ h

theorem tagged_step (htag : ∀ s ∈ g.past, s.Tagged) (hpresent : g.store ∈ g.past) (e : Event ι) :
    ∀ s ∈ (g.step e).past, s.Tagged := by
  unfold step
  split
  · split <;> exact htag
  · split <;> exact htag
  · split
    · rename_i ops hreq
      intro s hs
      rcases List.mem_cons.1 hs with rfl | hs
      · exact Store.submit_tagged (htag _ hpresent) ops _
      · exact htag s hs
    · exact htag
  · exact htag
  · intro s hs
    rcases List.mem_cons.1 hs with rfl | hs
    · exact (htag _ hpresent).set _ _
    · exact htag s hs

/-- Every event leaves a group sound that knows the whole past. -/
theorem Sound.step (h : Sound g.past a g) (htag : ∀ s ∈ g.past, s.Tagged) (e : Event ι)
    (hforeign : ∀ b action, e = .foreign b action → b ≠ a) (htell : TagsTell g.past a) :
    Sound (g.step e).past a (g.step e) := by
  cases e with
  | signal i m s =>
      have hpast : (g.step (.signal i m s)).past = g.past := by
        simp only [Group.step]
        split <;> rfl
      rw [hpast]
      exact h.signal i m s
  | read i m fault =>
      have hpast : (g.step (.read i m fault)).past = g.past := by
        simp only [Group.step]
        split <;> rfl
      rw [hpast]
      exact h.read i m fault
  | write i m fate =>
      simp only [Group.step]
      split
      · rename_i ops hreq
        apply h.stepStore (htell.guardsTell htag h.present) hreq
        · exact fun _ _ _ hs => List.mem_cons_of_mem _ hs
        · exact List.mem_cons_self
      · exact h
  | restart i settings circuit => exact h.restart i settings circuit
  | foreign b action =>
      apply h.foreign (hforeign b action rfl)
      · exact fun _ hs => List.mem_cons_of_mem _ hs
      · exact List.mem_cons_self

/-- What a group that knows the whole past keeps up. -/
structure Inv (a : Address) (g : Group ι) : Prop where
  sound : Sound g.past a g
  tagged : ∀ s ∈ g.past, s.Tagged

theorem Inv.run {rs : Records} {start : ι → Consumer} (htag : rs.Tagged)
    (hfresh : ∀ i, (start i).phase = .starting) (haddress : ∀ i, (start i).checkpoint = a)
    (hoff : ∀ i, (start i).pipeline.KeepsOff a) (events : List (Event ι))
    (hforeign : ∀ b action, .foreign b action ∈ events → b ≠ a)
    (htell : TagsTell ((begin rs start).run events).past a) :
    Inv a ((begin rs start).run events) := by
  -- from the end: a beginning of the run has a shorter past, whose values the tags tell apart
  -- as well
  induction events using List.reverseRecOn with
  | nil =>
      refine ⟨Sound.begin hfresh haddress hoff, ?_⟩
      intro s hs
      rw [List.mem_singleton.1 hs]
      exact htag
  | append_singleton events e ih =>
      rw [run_append_singleton] at htell ⊢
      have htell' := htell.mono fun _ => mem_past_step (e := e)
      have hinv := ih (fun b action h => hforeign b action (List.mem_append_left _ h)) htell'
      refine ⟨hinv.sound.step hinv.tagged e ?_ htell', ?_⟩
      · rintro b action rfl
        exact hforeign b action (List.mem_append_right _ (List.mem_singleton_self _))
      · exact tagged_step hinv.tagged hinv.sound.present e

/-- No event takes the checkpoint back. -/
theorem Sound.standing_le (h : Sound known a g) (htell : GuardsTell known a g.store) (e : Event ι)
    (hforeign : ∀ b action, e = .foreign b action → b ≠ a) :
    standing g.store a ≤ standing (g.step e).store a := by
  cases g.step_effect e with
  | none hstore hcommits =>
      rw [hstore]
      exact standing_le_refl _ _
  | foreign he hstore hcommits =>
      rw [hstore, standing_set_of_ne _ (hforeign _ _ he)]
      exact standing_le_refl _ _
  | @written i ops hreq hs hcommits =>
      obtain ⟨p, after, hw⟩ := h.writes htell hreq hs
      have hle := hw.standing_le
      rwa [hw.address h] at hle

theorem standing_le_run {rs : Records} {start : ι → Consumer} (htag : rs.Tagged)
    (hfresh : ∀ i, (start i).phase = .starting) (haddress : ∀ i, (start i).checkpoint = a)
    (hoff : ∀ i, (start i).pipeline.KeepsOff a) (earlier later : List (Event ι))
    (hforeign : ∀ b action, .foreign b action ∈ earlier ++ later → b ≠ a)
    (htell : TagsTell ((begin rs start).run (earlier ++ later)).past a) :
    standing ((begin rs start).run earlier).store a ≤
      standing ((begin rs start).run (earlier ++ later)).store a := by
  -- from the end of the run: the last event is one step of a sound group
  induction later using List.reverseRecOn with
  | nil =>
      rw [List.append_nil]
      exact standing_le_refl _ _
  | append_singleton later e ih =>
      rw [← List.append_assoc] at hforeign htell ⊢
      rw [run_append_singleton] at htell ⊢
      have htell' := htell.mono fun _ => mem_past_step (e := e)
      have hforeign' : ∀ b action, .foreign b action ∈ earlier ++ later → b ≠ a :=
        fun b action h => hforeign b action (List.mem_append_left _ h)
      have hinv := Inv.run htag hfresh haddress hoff _ hforeign' htell'
      have hguards := htell'.guardsTell hinv.tagged hinv.sound.present
      refine le_standing_trans (ih hforeign' htell') (hinv.sound.standing_le hguards e ?_)
      rintro b action rfl
      exact hforeign b action (List.mem_append_right _ (List.mem_singleton_self _))

omit [DecidableEq ι] in
/-- A number is in at most one of the batches of an ascending journal. -/
theorem countP_le_one {commits : List (Commit ι)}
    (h : Ascending (commits.flatMap Commit.changes)) (seq : UInt64) :
    commits.countP (fun k => seq ∈ k.changes.map Change.seq) ≤ 1 := by
  induction commits with
  | nil => exact Nat.zero_le _
  | cons k rest ih =>
      rw [List.flatMap_cons, Ascending, List.pairwise_append] at h
      obtain ⟨-, hrest, hlt⟩ := h
      rw [List.countP_cons]
      split
      · -- then it is in none of the others
        rename_i hmem
        obtain ⟨x, hx, rfl⟩ := List.mem_map.1 (of_decide_eq_true hmem)
        have hzero : rest.countP (fun k => x.seq ∈ k.changes.map Change.seq) = 0 := by
          rw [List.countP_eq_zero]
          intro k' hk' hmem'
          obtain ⟨y, hy, heq⟩ := List.mem_map.1 (of_decide_eq_true hmem')
          have hxy := hlt x hx y (List.mem_flatMap.2 ⟨k', hk', hy⟩)
          rw [heq] at hxy
          exact UInt64.lt_irrefl _ hxy
        omega
      · exact ih hrest

omit [DecidableEq ι] in
/-- A change that is applied is in exactly one of the batches of an ascending journal. -/
theorem countP_eq_one {commits : List (Commit ι)}
    (h : Ascending (commits.flatMap Commit.changes)) {c : Change}
    (hc : c ∈ commits.flatMap Commit.changes) :
    commits.countP (fun k => c ∈ k.changes) = 1 := by
  apply Nat.le_antisymm
  · -- a change in two batches would be a number in two batches
    refine Nat.le_trans (List.countP_mono_left ?_) (countP_le_one h c.seq)
    intro k _ hk
    have hmem : c ∈ k.changes := of_decide_eq_true hk
    exact decide_eq_true (List.mem_map_of_mem hmem)
  · obtain ⟨k, hk, hmem⟩ := List.mem_flatMap.1 hc
    exact List.countP_pos_iff.2 ⟨k, hk, decide_eq_true hmem⟩

/-- Whatever the feeds hand out and however the store fails, no sequence number is applied twice,
the changes of a batch that is applied ascend and lie between the checkpoints around it, and the
checkpoint never goes back. -/
theorem applied_at_most_once (rs : Records) (start : ι → Consumer) (a : Address)
    (events : List (Event ι)) (htag : rs.Tagged) (hfresh : ∀ i, (start i).phase = .starting)
    (haddress : ∀ i, (start i).checkpoint = a) (hoff : ∀ i, (start i).pipeline.KeepsOff a)
    (hforeign : ∀ b action, .foreign b action ∈ events → b ≠ a)
    (htell : TagsTell ((begin rs start).run events).past a) :
    (∀ seq, ((begin rs start).run events).commits.countP
      (fun k => seq ∈ k.changes.map Change.seq) ≤ 1) ∧
    (∀ k ∈ ((begin rs start).run events).commits, Ascending k.changes ∧
      ∀ x ∈ k.changes, k.before < some x.seq ∧ some x.seq ≤ k.after) ∧
    ∀ earlier later, events = earlier ++ later →
      standing ((begin rs start).run earlier).store a ≤
        standing ((begin rs start).run events).store a := by
  have hjournal := (Inv.run htag hfresh haddress hoff events hforeign htell).sound.journal
  refine ⟨countP_le_one hjournal.ascending, ?_, ?_⟩
  · intro k hk
    refine ⟨?_, hjournal.bounds k hk⟩
    have hasc := hjournal.ascending
    rw [Ascending, List.pairwise_flatMap] at hasc
    exact hasc.1 k hk
  · rintro earlier later rfl
    exact standing_le_run htag hfresh haddress hoff earlier later hforeign htell

/-- A mirror of the people. -/
def peopleChain : List TriggerSpec := [{ kind := "mirror", bucket := some "people" }]

/-- A consumer that mirrors the people. -/
def people : Consumer :=
  .new ⟨"people", .subtree "dc=x", peopleChain⟩
    { consumer := "people", stages := [Mirror.trigger { bucket := "people" }] } {}

/-- Two consumers are given the same change, read the same records, and write one after the
other. -/
def twins : List (Event Bool) :=
  let m : Moment := { now := { nanos := 0 } }
  let change : Change := ⟨5, .add, "cn=ann,dc=x", [("cn", ["ann"])], []⟩
  let both (e : Bool → Event Bool) : List (Event Bool) := [e true, e false]
  both (fun i => .signal i m (.start false)) ++ both (fun i => .read i m none) ++
    both (fun i => .signal i m (.subscribed (.ok ()))) ++
    both (fun i => .signal i m (.item (.ok (some (.event change))))) ++
    both (fun i => .read i m none) ++ both (fun i => .read i m none) ++
    both (fun i => .write i m .decided) ++ [.read false m none]

set_option maxRecDepth 100000 in
theorem applied_at_most_once_twins :
    ((begin [] fun _ => people).run twins).commits.map Commit.after = [some 5] ∧
      ∀ seq, ((begin [] fun _ => people).run twins).commits.countP
        (fun k => seq ∈ k.changes.map Change.seq) ≤ 1 := by
  have hbuild : Registry.builtins.build "people" peopleChain = .ok people.pipeline := rfl
  refine ⟨by decide +kernel, ?_⟩
  refine (applied_at_most_once [] (fun _ => people) people.checkpoint twins
    ?_ ?_ ?_ ?_ ?_ ?_).1
  · exact Records.tagged_nil
  · exact fun _ => rfl
  · exact fun _ => rfl
  · exact fun _ => Registry.build_keepsOff hbuild (by decide)
  · intro b action h
    simp [twins] at h
  · apply Store.tagsTell_of_pairwise
    decide +kernel

end Group

end ChangeRelay
