import ChangeRelay.Proofs.Checkpoint.Resolve

/-!
# What a proposal knows

A proposal writes on the ground of reads that lie in the past, each from a store of its own. Every
phase says what was read so far; the guards of the batch carry it over to the store that the batch
meets, where the proposal then does what it would have done alone.
-/

namespace ChangeRelay.Checkpoint

open Store (Address Record Records Guard GuardsTell BatchOp Memory)

/-! ## Checkpoint records -/

theorem decodeWord_ofWord (n : UInt64) : (Json.Value.ofWord n).decodeWord = .ok n := by
  have hword : (Json.Value.int n.toNat).asWord? = some n := Json.Value.asWord?_ofWord n
  rw [Json.Value.ofWord, Json.Value.decodeWord, hword]

theorem decodeSeq_object (id position time : Json.Value) :
    decodeSeq (.object [("consumer_id", id), ("last_sequence_number", position),
      ("updated_at", time)]) = position.decodeWord := by
  simp [decodeSeq, Json.Value.parts, Json.Value.Parts.required, Json.Value.Parts.value?,
    Assoc.find?, bind, Except.bind]

/-- A checkpoint record holds the position that was written. -/
theorem decodeSeq_document (consumer : String) (seq : UInt64) (time : Int) :
    decodeSeq (document consumer seq time) = .ok seq := by
  rw [document, decodeSeq_object, decodeWord_ofWord]

/-- Where the checkpoint at an address stands, if there is one. -/
def standing (rs : Records) (a : Address) : Option UInt64 :=
  (rs.value a).bind fun v => (decodeSeq v).toOption

/-- What is read is the record that there is. -/
theorem record_of_decodeRecord {a : Address} {current : Option Record}
    {found : Option (UInt64 × Record)} (h : decodeRecord a current = .ok found) :
    current = found.map Prod.snd := by
  unfold decodeRecord at h
  split at h
  · cases h
    rfl
  · split at h
    · cases h
      rfl
    · cases h

theorem standing_of_decodeRecord {rs : Records} {a : Address} {found : Option (UInt64 × Record)}
    (h : decodeRecord a (Assoc.find? a rs) = .ok found) :
    standing rs a = found.map Prod.fst ∧ Assoc.find? a rs = found.map Prod.snd := by
  refine ⟨?_, record_of_decodeRecord h⟩
  unfold standing Records.value
  cases hr : Assoc.find? a rs with
  | none =>
      rw [hr] at h
      cases h
      rfl
  | some r =>
      simp only [hr, decodeRecord] at h
      split at h
      · rename_i seq hseq
        cases h
        simp [hseq, Except.toOption]
      · cases h

theorem exists_decodeRecord_of_standing {rs : Records} {a : Address} {seq : UInt64}
    (h : standing rs a = some seq) :
    ∃ r, decodeRecord a (Assoc.find? a rs) = .ok (some (seq, r)) := by
  obtain ⟨v, hvalue, hseq⟩ := Option.bind_eq_some_iff.1 h
  obtain ⟨r, hr, rfl⟩ := Option.map_eq_some_iff.1 hvalue
  refine ⟨r, ?_⟩
  rw [hr, decodeRecord]
  cases hdecode : decodeSeq r.value with
  | error e => simp [hdecode, Except.toOption] at hseq
  | ok seq' =>
      rw [hdecode] at hseq
      cases hseq
      rfl

theorem standing_of_put {rs : Records} {a : Address} {consumer : String} {seq : UInt64} {time : Int}
    (h : Assoc.find? a rs = some (.of (document consumer seq time))) :
    standing rs a = some seq := by
  have hvalue : rs.value a = some (document consumer seq time) := by
    rw [Records.value, h]
    rfl
  rw [standing, hvalue, Option.bind_some, decodeSeq_document, Except.toOption]

namespace Proposal

/-! ## Grounds -/

/-- A checkpoint record to go on from: it was there once, and stands before the range. -/
structure Checked (past : List Records) (p : Proposal) (cp : Option Record) : Prop where
  seen : ∃ rs ∈ past, Assoc.find? p.address rs = cp
  before : ∃ found, decodeRecord p.address cp = .ok found ∧ ∀ x ∈ found, x.1 < p.range.first

/-- Answers that the store gave, each at some point of the past. -/
def Seen (past : List Records) (read : Address → Option Record) (intents : List Intent) : Prop :=
  ∀ i ∈ intents, ∃ rs ∈ past, Assoc.find? (intentAddress i) rs = read (intentAddress i)

/-- What a phase rests on. -/
inductive Grounded (past : List Records) (p : Proposal) : Phase → Prop where
  | readCheckpoint : Grounded past p .readCheckpoint
  | readRecord {cp slots next rest} (read : Address → Option Record) (folded : List Intent)
      (hcp : Checked past p cp) (hseen : Seen past read folded)
      (hsplit : p.intents = folded ++ next :: rest) (hslots : slots = resolveFrom read [] folded)
      (hnext : touch next slots = none) : Grounded past p (.readRecord cp slots next rest)
  | write {ops} (read : Address → Option Record) (cp : Option Record)
      (hcp : Checked past p cp) (hseen : Seen past read p.intents)
      (hops : ops = batchOf read p.intents (p.checkpointOp cp)) : Grounded past p (.write ops)
  | done (result : Except StoreFault Outcome) : Grounded past p (.done result)

variable {past past' : List Records} {p : Proposal}

theorem Checked.mono {cp : Option Record} (h : Checked past p cp)
    (hsub : ∀ rs ∈ past, rs ∈ past') : Checked past' p cp := by
  obtain ⟨rs, hrs, hfind⟩ := h.seen
  exact ⟨⟨rs, hsub rs hrs, hfind⟩, h.before⟩

theorem Seen.mono {read : Address → Option Record} {intents : List Intent}
    (h : Seen past read intents) (hsub : ∀ rs ∈ past, rs ∈ past') : Seen past' read intents := by
  intro i hi
  obtain ⟨rs, hrs, hfind⟩ := h i hi
  exact ⟨rs, hsub rs hrs, hfind⟩

/-- What a phase rests on stays true as time goes on. -/
theorem Grounded.mono {phase : Phase} (h : Grounded past p phase)
    (hsub : ∀ rs ∈ past, rs ∈ past') : Grounded past' p phase := by
  cases h with
  | readCheckpoint => exact .readCheckpoint
  | readRecord read folded hcp hseen hsplit hslots hnext =>
      exact .readRecord read folded (hcp.mono hsub) (hseen.mono hsub) hsplit hslots hnext
  | write read cp hcp hseen hops => exact .write read cp (hcp.mono hsub) (hseen.mono hsub) hops
  | done result => exact .done result

/-- The reads of a proposal say nothing of the time that it will show. -/
theorem Grounded.at_time {phase : Phase} (h : Grounded past p phase) (t : Int)
    (hw : ∀ ops, phase ≠ .write ops) : Grounded past { p with time := t } phase := by
  cases h with
  | readCheckpoint => exact .readCheckpoint
  | readRecord read folded hcp hseen hsplit hslots hnext =>
      exact .readRecord read folded ⟨hcp.seen, hcp.before⟩ hseen hsplit hslots hnext
  | write read cp hcp hseen hops => exact absurd rfl (hw _)
  | done result => exact .done result

/-- What a phase rests on has nothing to do with how far its proposal has come. -/
theorem Grounded.at_phase {phase : Phase} (h : Grounded past p phase) (attempt : Nat)
    (q : Phase) : Grounded past { p with attempt, phase := q } phase := by
  cases h with
  | readCheckpoint => exact .readCheckpoint
  | readRecord read folded hcp hseen hsplit hslots hnext =>
      exact .readRecord read folded ⟨hcp.seen, hcp.before⟩ hseen hsplit hslots hnext
  | write read cp hcp hseen hops => exact .write read cp ⟨hcp.seen, hcp.before⟩ hseen hops
  | done result => exact .done result

/-! ## Reading -/

/-- A proposal changes only its phase when it takes an answer to a read. -/
theorem onRead_eq (p : Proposal) (answer : Except StoreFault (Option Record)) :
    p.onRead answer = { p with phase := (p.onRead answer).phase } := by
  unfold onRead continueWith finish
  split <;> repeat' split
  all_goals rfl

/-- A proposal changes only its phase and its attempt when it takes the answer to its batch. -/
theorem onWrite_eq (p : Proposal) (answer : Except StoreFault Unit) :
    p.onWrite answer =
      { p with attempt := (p.onWrite answer).attempt, phase := (p.onWrite answer).phase } := by
  unfold onWrite finish
  split <;> repeat' split
  all_goals rfl

theorem Grounded.continueWith {cp : Option Record} (read : Address → Option Record)
    (folded : List Intent) {rest : List Intent} (hcp : Checked past p cp)
    (hseen : Seen past read folded)
    (hsplit : p.intents = folded ++ rest) :
    Grounded past p (p.continueWith cp (resolveFrom read [] folded) rest).phase := by
  obtain ⟨taken, hrest, hslots, hin⟩ := absorb_prefix (resolveFrom read [] folded) rest
  -- what is taken in at once are records that were read for others
  have hseen' : Seen past read (folded ++ taken) := by
    intro i hi
    rcases List.mem_append.1 hi with hi | hi
    · exact hseen i hi
    · rcases mem_touched_resolveFrom.1 (hin i hi) with h | ⟨j, hj, heq⟩
      · simp [touched] at h
      · exact heq ▸ hseen j hj
  unfold Proposal.continueWith
  cases habs : absorb (resolveFrom read [] folded) rest with
  | mk slots left =>
      have hslots' : slots = resolveFrom read [] (folded ++ taken) := by
        rw [resolveFrom_append, ← hslots read, habs]
      rw [habs] at hrest
      cases left with
      | nil =>
          have hall : p.intents = folded ++ taken := by simpa [hrest] using hsplit
          refine .write read cp hcp (hall ▸ hseen') ?_
          rw [batchOf, resolve, hall, hslots']
      | cons i left =>
          refine .readRecord read (folded ++ taken) hcp hseen' ?_ hslots' (touch_absorb habs)
          rw [hsplit, hrest, List.append_assoc]

/-- A proposal that reads the record of its checkpoint goes on from it, or ends there. -/
theorem Grounded.onRead_checkpoint {rs : Records} (hphase : p.phase = .readCheckpoint)
    (hrs : rs ∈ past) :
    Grounded past p (p.onRead (.ok (Assoc.find? p.address rs))).phase := by
  have hgo : ∀ found, decodeRecord p.address (Assoc.find? p.address rs) = .ok found →
      (∀ x ∈ found, x.1 < p.range.first) →
      Grounded past p (p.continueWith (found.map Prod.snd) [] p.intents).phase := by
    intro found hfound hbefore
    have hcp : Checked past p (found.map Prod.snd) := by
      rw [← (standing_of_decodeRecord hfound).2]
      exact ⟨⟨rs, hrs, rfl⟩, found, hfound, hbefore⟩
    have hnone : Seen past (fun _ => none) [] := by simp [Seen]
    exact Grounded.continueWith (fun _ => none) [] hcp hnone rfl
  unfold Proposal.onRead
  simp only [hphase]
  split
  · exact .done _
  · rename_i hfound
    exact hgo none hfound (by simp)
  · rename_i seq record hfound
    split
    · exact .done _
    · rename_i hlt
      exact hgo (some (seq, record)) hfound (by simpa using hlt)

/-- A proposal that reads the record of an intent goes on with what it read. -/
theorem Grounded.onRead_record {rs : Records} {cp : Option Record} {slots : List Slot}
    {next : Intent} {rest : List Intent} (hphase : p.phase = .readRecord cp slots next rest)
    (h : Grounded past p (.readRecord cp slots next rest)) (hrs : rs ∈ past) :
    Grounded past p (p.onRead (.ok (Assoc.find? (intentAddress next) rs))).phase := by
  cases h with
  | readRecord read folded hcp hseen hsplit hslots hnext =>
      unfold Proposal.onRead
      simp only [hphase]
      -- the answers so far, and the one that was taken
      let read' : Address → Option Record := fun b =>
        if b = intentAddress next then Assoc.find? b rs else read b
      -- a record is read once, for the first intent that names it
      have hne : ∀ i ∈ folded, intentAddress i ≠ intentAddress next := by
        intro i hi heq
        have hmem : intentAddress i ∈ touched slots :=
          hslots ▸ mem_touched_resolveFrom.2 (.inr ⟨i, hi, rfl⟩)
        obtain ⟨s, hs, haddr⟩ := List.mem_map.1 hmem
        exact touch_eq_none.1 hnext s hs (haddr.trans heq)
      have hslots' : slots ++ [Slot.ofRead next (Assoc.find? (intentAddress next) rs)] =
          resolveFrom read' [] (folded ++ [next]) := by
        have hold : slots = resolveFrom read' [] folded := by
          rw [hslots]
          apply resolveFrom_congr
          intro i hi
          simp [read', hne i hi]
        rw [resolveFrom_append, ← hold]
        simp [resolveFrom, hnext, read']
      have hseen' : Seen past read' (folded ++ [next]) := by
        intro i hi
        rcases List.mem_append.1 hi with hi | hi
        · simpa [read', hne i hi] using hseen i hi
        · rw [List.mem_singleton] at hi
          exact ⟨rs, hrs, by simp [read', hi]⟩
      rw [hslots']
      refine Grounded.continueWith read' (folded ++ [next]) hcp hseen' ?_
      simp [hsplit]

/-- A proposal that takes a true answer rests on it. -/
theorem Grounded.onRead {rs : Records} {a : Address} (h : Grounded past p p.phase)
    (hrs : rs ∈ past) (hreq : p.request = some (.get a)) :
    Grounded past p (p.onRead (.ok (Assoc.find? a rs))).phase := by
  cases hphase : p.phase with
  | readCheckpoint =>
      have ha : a = p.address := by simpa [request, hphase, eq_comm] using hreq
      rw [ha]
      exact onRead_checkpoint hphase hrs
  | readRecord cp slots next rest =>
      have ha : a = intentAddress next := by simpa [request, hphase, eq_comm] using hreq
      rw [ha]
      exact onRead_record hphase (hphase ▸ h) hrs
  | write ops => simp [request, hphase] at hreq
  | done result => simp [request, hphase] at hreq

/-- A fault of the store ends a proposal, which then rests on nothing. -/
theorem Grounded.onRead_error {e : StoreFault} (h : Grounded past p p.phase) :
    Grounded past p (p.onRead (.error e)).phase := by
  cases hphase : p.phase with
  | readCheckpoint => simpa [Proposal.onRead, hphase, finish] using Grounded.done _
  | readRecord cp slots next rest => simpa [Proposal.onRead, hphase, finish] using Grounded.done _
  | write ops => simpa [Proposal.onRead, hphase] using hphase ▸ h
  | done result => simpa [Proposal.onRead, hphase] using hphase ▸ h

/-- Whatever the answer to its batch, a proposal rests on nothing it read before. -/
theorem Grounded.onWrite (past : List Records) (p : Proposal) (answer : Except StoreFault Unit) :
    Grounded past p (p.onWrite answer).phase := by
  unfold Proposal.onWrite
  split
  · exact .done _
  · split
    · exact .readCheckpoint
    · exact .done _
  · exact .done _

/-! ## Requests and results -/

theorem phase_of_request_put {ops : List BatchOp} (h : p.request = some (.putBatch ops)) :
    p.phase = .write ops := by
  unfold request at h
  split at h
  · simp at h
  · simp at h
  · rename_i hphase
    simp at h
    rw [hphase, h]
  · simp at h

theorem result?_of_request {q : Request} (h : p.request = some q) : p.result? = none := by
  unfold request at h
  unfold result?
  split at h <;> simp_all

theorem phase_ne_write_of_request_get {a : Address} (h : p.request = some (.get a))
    (ops : List BatchOp) : p.phase ≠ .write ops := by
  intro hphase
  simp [request, hphase] at h

theorem continueWith_result? (p : Proposal) (cp : Option Record) (slots : List Slot)
    (rest : List Intent) : (p.continueWith cp slots rest).result? = none := by
  unfold continueWith
  split <;> rfl

/-- An answer to a read never makes a proposal applied. -/
theorem onRead_result?_ne {a : Address} (h : p.request = some (.get a))
    (answer : Except StoreFault (Option Record)) :
    (p.onRead answer).result? ≠ some (.ok .applied) := by
  unfold onRead
  split
  · -- the record of the checkpoint
    split
    · simp [finish, result?]
    · simp [continueWith_result?]
    · split
      · simp [finish, result?]
      · simp [continueWith_result?]
  · simp [continueWith_result?]
  · simp [finish, result?]
  · simp [finish, result?]
  · rename_i hphase
    simp [request, hphase] at h
  · rename_i hphase
    simp [request, hphase] at h

/-- A fault of the store decides nothing. -/
theorem onRead_error_result?_ne (h : p.result? = none) (e : StoreFault) (outcome : Outcome) :
    (p.onRead (.error e)).result? ≠ some (.ok outcome) := by
  cases hphase : p.phase with
  | readCheckpoint => simp [onRead, hphase, finish, result?]
  | readRecord cp slots i rest => simp [onRead, hphase, finish, result?]
  | write ops => simp [onRead, result?, hphase]
  | done result => simp [result?, hphase] at h

/-- A batch that was not written does not make a proposal applied. -/
theorem onWrite_error_result?_ne (p : Proposal) (e : StoreFault) :
    (p.onWrite (.error e)).result? ≠ some (.ok .applied) := by
  unfold onWrite
  split
  · rename_i h
    cases h
  · split <;> simp [finish, result?]
  · simp [finish, result?]

/-- Only a read finds the checkpoint in the way. -/
theorem onWrite_result?_ne_conflict (p : Proposal) (answer : Except StoreFault Unit)
    (current : UInt64) : (p.onWrite answer).result? ≠ some (.ok (.conflict current)) := by
  unfold onWrite
  split
  · simp [finish, result?]
  · split <;> simp [finish, result?]
  · simp [finish, result?]

/-! ## Writing -/

/-- A checkpoint moved on by a proposal: from before its range to the end of it. -/
structure Advances (p : Proposal) (rs rs' : Records) : Prop where
  before : ∀ seq ∈ standing rs p.address, seq < p.range.first
  after : standing rs' p.address = some p.range.last

/-- A checkpoint that moves on gets greater. -/
theorem Advances.lt {rs rs' : Records} (h : p.Advances rs rs')
    (hrange : p.range.first ≤ p.range.last) : standing rs p.address < standing rs' p.address := by
  rw [h.after]
  cases hs : standing rs p.address with
  | none => exact Option.none_lt_some
  | some seq => exact Option.some_lt_some.2 (UInt64.lt_of_lt_of_le (h.before seq hs) hrange)

section Write

variable {rs rs' : Records} {ops : List BatchOp}

/-- A batch that goes through was made from the checkpoint that is there. -/
theorem Grounded.current (h : Grounded past p (.write ops))
    (hoff : ∀ i ∈ p.intents, intentAddress i ≠ p.address)
    (hs : Memory.stage rs none ops = .ok rs') (htell : GuardsTell past p.address rs) :
    Checked [rs] p (Assoc.find? p.address rs) ∧ ∃ read, Seen past read p.intents ∧
      ops = batchOf read p.intents (p.checkpointOp (Assoc.find? p.address rs)) := by
  cases h with
  | write read cp hcp hseen hops =>
      -- the guard of the checkpoint holds in the store that the batch meets
      obtain ⟨rs₀, h₀, hfind⟩ := hcp.seen
      rw [hops] at hs
      have hguard := (holds_of_stage hoff hs).1
      have hcur : Assoc.find? p.address rs = cp := by
        rw [← hfind]
        apply htell rs₀ h₀
        rw [hfind]
        exact hguard
      refine ⟨⟨⟨rs, List.mem_singleton_self rs, rfl⟩, hcur ▸ hcp.before⟩, read, hseen, ?_⟩
      rw [hcur]
      exact hops

/-- A batch that goes through leaves the checkpoint at the end of its range, whatever its intents
touch: the checkpoint is written last. -/
theorem Grounded.reaches (h : Grounded past p (.write ops))
    (hs : Memory.stage rs none ops = .ok rs') : standing rs' p.address = some p.range.last := by
  cases h with
  | write read cp hcp hseen hops =>
      rw [hops] at hs
      exact standing_of_put (Store.stage_find?_of_last hs)

/-- A batch that goes through moves the checkpoint on. -/
theorem Grounded.advances (h : Grounded past p (.write ops))
    (hoff : ∀ i ∈ p.intents, intentAddress i ≠ p.address)
    (hs : Memory.stage rs none ops = .ok rs') (htell : GuardsTell past p.address rs) :
    p.Advances rs rs' := by
  obtain ⟨hcp, -⟩ := h.current hoff hs htell
  obtain ⟨found, hfound, hbefore⟩ := hcp.before
  refine ⟨fun seq hseq => ?_, h.reaches hs⟩
  rw [(standing_of_decodeRecord hfound).1, Option.mem_def, Option.map_eq_some_iff] at hseq
  obtain ⟨x, hx, rfl⟩ := hseq
  exact hbefore x hx

/-- A batch that goes through was made from the data that is there. -/
theorem Grounded.ops_eq (h : Grounded past p (.write ops))
    (hoff : ∀ i ∈ p.intents, intentAddress i ≠ p.address)
    (hs : Memory.stage rs none ops = .ok rs') (htell : GuardsTell past p.address rs)
    (hdata : ∀ i ∈ p.intents, GuardsTell past (intentAddress i) rs) :
    ops = batchOf (fun a => Assoc.find? a rs) p.intents
      (p.checkpointOp (Assoc.find? p.address rs)) := by
  obtain ⟨_, read, hseen, hops⟩ := h.current hoff hs htell
  rw [hops] at hs
  have hguards := (holds_of_stage hoff hs).2
  rw [hops, batchOf, batchOf, resolve, resolve]
  congr 2
  apply resolveFrom_congr
  intro i hi
  obtain ⟨rs₀, h₀, hfind⟩ := hseen i hi
  rw [← hfind]
  refine (hdata i hi rs₀ h₀ ?_).symm
  rw [hfind]
  exact hguards i hi

/-- A batch that goes through does to the data what the intents do one by one. -/
theorem Grounded.value_eq (h : Grounded past p (.write ops))
    (hoff : ∀ i ∈ p.intents, intentAddress i ≠ p.address)
    (hs : Memory.stage rs none ops = .ok rs') (htell : GuardsTell past p.address rs)
    (hdata : ∀ i ∈ p.intents, GuardsTell past (intentAddress i) rs) {a : Address}
    (ha : a ≠ p.address) : rs'.value a = Data.applyAll rs.value p.intents a := by
  have hops := h.ops_eq hoff hs htell hdata
  rw [hops] at hs
  exact (value_of_stage hoff (fun _ _ => rfl) hs a).2 ha

/-- A batch that goes through does what its intents do one by one to what they only replace, even if
the records that it was made from are no longer there. -/
theorem Grounded.value_of_puts (h : Grounded past p (.write ops))
    (hoff : ∀ i ∈ p.intents, intentAddress i ≠ p.address)
    (hs : Memory.stage rs none ops = .ok rs') {a : Address} (ha : a ≠ p.address)
    (hputs : ∀ i ∈ p.intents, intentAddress i = a → i.kind = .put) :
    rs'.value a = Data.applyAll rs.value p.intents a := by
  cases h with
  | write read cp hcp hseen hops =>
      rw [hops] at hs
      by_cases hnamed : ∃ i ∈ p.intents, intentAddress i = a
      · rw [value_of_stage_of_named hoff hs hnamed]
        exact Data.applyAll_of_puts hputs hnamed
      · have hno : ∀ i ∈ p.intents, intentAddress i ≠ a := fun i hi heq => hnamed ⟨i, hi, heq⟩
        rw [value_of_stage_of_ne hs ha hno, Data.applyAll_of_ne hno]

end Write

/-! ## Running -/

section Run

variable {σ : Type u} {get : σ → Address → Except StoreFault (Option Record)}
  {put : σ → List BatchOp → σ × Except StoreFault Unit} {s : σ}

theorem run_readCheckpoint (h : p.phase = .readCheckpoint) :
    p.run get put s = (p.onRead (get s p.address)).run get put s := by
  rw [run]
  split <;> simp_all

theorem run_readRecord {cp : Option Record} {slots : List Slot} {i : Intent} {rest : List Intent}
    (h : p.phase = .readRecord cp slots i rest) :
    p.run get put s = (p.onRead (get s (intentAddress i))).run get put s := by
  rw [run]
  split <;> simp_all

theorem run_write {ops : List BatchOp} (h : p.phase = .write ops) :
    p.run get put s = (p.onWrite (put s ops).2).run get put (put s ops).1 := by
  rw [run]
  split <;> simp_all

theorem run_done {result : Except StoreFault Outcome} (h : p.phase = .done result) :
    p.run get put s = (s, result) := by
  rw [run]
  split <;> simp_all

/-- Where every read is answered, a proposal resolves its intents against the answers. -/
theorem run_continueWith {read : Address → Option Record} (hget : ∀ a, get s a = .ok (read a))
    (cp : Option Record) (slots : List Slot) (rest : List Intent) :
    (p.continueWith cp slots rest).run get put s =
      run get put s { p with
        phase := .write ((resolveFrom read slots rest).map Slot.op ++ [p.checkpointOp cp]) } := by
  -- on the number of intents that are left: every read takes in at least one of them
  induction hn : rest.length using Nat.strongRecOn generalizing slots rest with
  | ind n ih =>
      rw [resolveFrom_absorb]
      have hle := length_absorb_le slots rest
      unfold continueWith
      cases habs : absorb slots rest with
      | mk slots' left =>
          cases left with
          | nil => rfl
          | cons i left =>
              rw [habs, List.length_cons] at hle
              have htouch := touch_absorb habs
              simp only [resolveFrom, htouch]
              rw [← ih left.length (by omega) _ left rfl, run_readRecord rfl, hget]
              rfl

/-- A checkpoint before the range lets a proposal through to its batch. -/
theorem run_checked {read : Address → Option Record} (hget : ∀ a, get s a = .ok (read a))
    (h : p.phase = .readCheckpoint) {found : Option (UInt64 × Record)}
    (hfound : decodeRecord p.address (read p.address) = .ok found)
    (hbefore : ∀ x ∈ found, x.1 < p.range.first) :
    p.run get put s =
      run get put s { p with
        phase := .write (batchOf read p.intents (p.checkpointOp (read p.address))) } := by
  have hread : p.onRead (.ok (read p.address)) =
      p.continueWith (read p.address) [] p.intents := by
    unfold onRead
    simp only [h, hfound]
    rw [record_of_decodeRecord hfound]
    cases found with
    | none => rfl
    | some x =>
        have hlt := hbefore x rfl
        simp only [Option.map_some]
        rw [if_neg (UInt64.not_le.2 hlt)]
  rw [run_readCheckpoint h, hget, hread, run_continueWith hget]
  rfl

end Run

/-! ## Alone with the store -/

/-- A proposal run against records that nobody else uses meanwhile. -/
def alone (rs : Records) (p : Proposal) : Records × Except StoreFault Outcome :=
  p.run (fun rs a => .ok (Assoc.find? a rs)) (fun rs ops => rs.submit ops .decided) rs

/-- Alone with a checkpoint before its range, a proposal is applied. -/
theorem alone_applied {rs rs' : Records} (h : p.phase = .readCheckpoint)
    (hcp : Checked [rs] p (Assoc.find? p.address rs))
    (hs : Memory.stage rs none
      (batchOf (fun a => Assoc.find? a rs) p.intents (p.checkpointOp (Assoc.find? p.address rs))) =
        .ok rs') : p.alone rs = (rs', .ok .applied) := by
  obtain ⟨found, hfound, hbefore⟩ := hcp.before
  rw [alone, run_checked (fun _ => rfl) h hfound hbefore, run_write rfl]
  simp only [Records.submit, hs]
  exact run_done rfl

end Proposal

end ChangeRelay.Checkpoint
