import ChangeRelay.Batch
import ChangeRelay.Store.Record

/-!
# Checkpoints and proposals

A consumer's checkpoint is a record of the destination itself, so it changes together with the
data it describes. A proposal reads the checkpoint, folds its intents into one guarded operation
per record, and writes them with the new checkpoint as one batch; a guard that fails sends it back
to the start.

A proposal is a machine that asks for one access to the store at a time, so that any number of
them can be interleaved.
-/

namespace ChangeRelay.Checkpoint

open Store (Address Record Guard Action BatchOp)

/-- Where checkpoints are kept unless configured otherwise. -/
def defaultBucket : String := "replicator_checkpoints"

/-- Attempts at a proposal. -/
def maxAttempts : Nat := 5

/-- The position a checkpoint record holds. -/
def decodeSeq (v : Json.Value) : Json.Decoded UInt64 := do
  let p ← v.parts "CheckpointDoc" ["last_sequence_number"]
  p.required 0 Json.Value.decodeWord

/-- The value of a checkpoint record; `time` is when it is written. -/
def document (consumer : String) (seq : UInt64) (time : Int) : Json.Value :=
  .object [("consumer_id", .string consumer), ("last_sequence_number", .ofWord seq),
    ("updated_at", .int time)]

/-- Reads a position out of what the checkpoint's address holds. -/
def decodeRecord (a : Address) : Option Record → Except StoreFault (Option (UInt64 × Record))
  | none => .ok none
  | some r =>
    match decodeSeq r.value with
    | .ok seq => .ok (some (seq, r))
    | .error e => .error (.corrupt a.bucket a.key e.message)

/-- What will become of one record: the guard it was read under, and its value. -/
structure Slot where
  address : Address
  guard : Guard
  value : Option Json.Value
deriving DecidableEq

/-- The address an intent writes. -/
def intentAddress (i : Intent) : Address := ⟨i.bucket, i.key⟩

@[simp] theorem intentAddress_put (bucket key : String) (value : Json.Value) :
    intentAddress (.put bucket key value) = ⟨bucket, key⟩ := rfl

@[simp] theorem intentAddress_delete (bucket key : String) :
    intentAddress (.delete bucket key) = ⟨bucket, key⟩ := rfl

@[simp] theorem intentAddress_merge (bucket key : String) (patch : Json.Value) :
    intentAddress (.merge bucket key patch) = ⟨bucket, key⟩ := rfl

/-- The slot of an intent whose record was just read. -/
def Slot.ofRead (i : Intent) (current : Option Record) : Slot :=
  ⟨intentAddress i, .ofCurrent current, i.apply (current.map Record.value)⟩

/-- Folds an intent into the slot of its record; none if there is no slot yet. -/
def touch (i : Intent) : List Slot → Option (List Slot)
  | [] => none
  | s :: rest =>
    if s.address = intentAddress i then some ({ s with value := i.apply s.value } :: rest)
    else (touch i rest).map (s :: ·)

/-- Folds intents into the slots up to the first whose record was not read. -/
def absorb (slots : List Slot) : List Intent → List Slot × List Intent
  | [] => (slots, [])
  | i :: rest =>
    match touch i slots with
    | some slots => absorb slots rest
    | none => (slots, i :: rest)

/-- The operation a slot stands for. -/
def Slot.op (s : Slot) : BatchOp :=
  { address := s.address
    action := match s.value with
      | some v => .put v
      | none => .delete
    guard := s.guard }

/-- All intents folded against the records that `read` gives, in the order of first touch. -/
def resolveFrom (read : Address → Option Record) (slots : List Slot) : List Intent → List Slot
  | [] => slots
  | i :: rest =>
    match touch i slots with
    | some slots => resolveFrom read slots rest
    | none => resolveFrom read (slots ++ [Slot.ofRead i (read (intentAddress i))]) rest

/-- The operations of intents against given records. -/
def resolve (read : Address → Option Record) (intents : List Intent) : List BatchOp :=
  (resolveFrom read [] intents).map Slot.op

/-- How a proposal ends. -/
inductive Outcome where
  | applied
  /-- The checkpoint already stands at `current`, in or beyond the range; nothing was written. -/
  | conflict (current : UInt64)
deriving DecidableEq, Repr

/-- One access to the store. -/
inductive Request where
  | get (address : Address)
  | putBatch (ops : List BatchOp)
deriving DecidableEq

/-- What a proposal is about to do. -/
inductive Phase where
  | readCheckpoint
  /-- Reads the record of the first of the remaining intents. -/
  | readRecord (checkpoint : Option Record) (slots : List Slot) (next : Intent)
      (rest : List Intent)
  | write (ops : List BatchOp)
  | done (result : Except StoreFault Outcome)

/-- A proposal: apply intents and move a consumer's checkpoint to the end of a range, provided
that it stands before the range. -/
structure Proposal where
  bucket : String
  consumer : String
  range : SeqRange
  intents : List Intent
  /-- The time that the checkpoint record will show. -/
  time : Int := 0
  attempt : Nat := 1
  phase : Phase := .readCheckpoint

namespace Proposal

/-- The address of the checkpoint. -/
def address (p : Proposal) : Address := ⟨p.bucket, p.consumer⟩

/-- The operation that moves the checkpoint, guarded by the record that was read. -/
def checkpointOp (p : Proposal) (current : Option Record) : BatchOp :=
  { address := p.address
    action := .put (document p.consumer p.range.last p.time)
    guard := .ofCurrent current }

/-- Goes on with the intents that are left. -/
def continueWith (p : Proposal) (checkpoint : Option Record) (slots : List Slot)
    (rest : List Intent) : Proposal :=
  match absorb slots rest with
  | (slots, i :: rest) => { p with phase := .readRecord checkpoint slots i rest }
  | (slots, []) => { p with phase := .write (slots.map Slot.op ++ [p.checkpointOp checkpoint]) }

def finish (p : Proposal) (result : Except StoreFault Outcome) : Proposal :=
  { p with phase := .done result }

/-- The access that a proposal waits for. -/
def request (p : Proposal) : Option Request :=
  match p.phase with
  | .readCheckpoint => some (.get p.address)
  | .readRecord _ _ i _ => some (.get (intentAddress i))
  | .write ops => some (.putBatch ops)
  | .done _ => none

/-- Takes what was read. -/
def onRead (p : Proposal) (answer : Except StoreFault (Option Record)) : Proposal :=
  match p.phase, answer with
  | .readCheckpoint, .ok current =>
    match decodeRecord p.address current with
    | .error e => p.finish (.error e)
    | .ok none => p.continueWith none [] p.intents
    | .ok (some (seq, record)) =>
      if p.range.first ≤ seq then p.finish (.ok (.conflict seq))
      else p.continueWith (some record) [] p.intents
  | .readRecord checkpoint slots i rest, .ok current =>
    p.continueWith checkpoint (slots ++ [Slot.ofRead i current]) rest
  | .readCheckpoint, .error e | .readRecord _ _ _ _, .error e => p.finish (.error e)
  | .write _, _ | .done _, _ => p

/-- Takes the answer to the batch. A failed guard starts a further attempt, if there is one. -/
def onWrite (p : Proposal) (answer : Except StoreFault Unit) : Proposal :=
  match answer with
  | .ok () => p.finish (.ok .applied)
  | .error (.conflict bucket key) =>
    if p.attempt < maxAttempts then { p with attempt := p.attempt + 1, phase := .readCheckpoint }
    else p.finish (.error (.conflict bucket key))
  | .error e => p.finish (.error e)

/-- The result of a proposal that has ended. -/
def result? (p : Proposal) : Option (Except StoreFault Outcome) :=
  match p.phase with
  | .done r => some r
  | _ => none

/-- A bound on the accesses of this attempt that are still to come. -/
def Phase.cost (intents : Nat) : Phase → Nat
  | .readCheckpoint => intents + 2
  | .readRecord _ _ _ rest => rest.length + 2
  | .write _ => 1
  | .done _ => 0

/-- A bound on the accesses that are still to come. -/
def remaining (p : Proposal) : Nat :=
  (maxAttempts - p.attempt) * (p.intents.length + 3) + Phase.cost p.intents.length p.phase

theorem length_absorb_le (slots : List Slot) (intents : List Intent) :
    (absorb slots intents).2.length ≤ intents.length := by
  induction intents generalizing slots with
  | nil => simp [absorb]
  | cons i rest ih =>
    unfold absorb
    split
    · -- the intent was folded in
      exact Nat.le_succ_of_le (ih _)
    · -- it is the first left over
      simp

theorem remaining_finish_le (p : Proposal) (r : Except StoreFault Outcome) :
    (p.finish r).remaining ≤ (maxAttempts - p.attempt) * (p.intents.length + 3) := by
  simp [finish, remaining, Phase.cost]

theorem remaining_continueWith_le (p : Proposal) (c : Option Record) (slots : List Slot)
    (rest : List Intent) :
    (p.continueWith c slots rest).remaining ≤
      (maxAttempts - p.attempt) * (p.intents.length + 3) + (rest.length + 1) := by
  have h := length_absorb_le slots rest
  unfold continueWith
  split
  · rename_i hd
    simp only [hd, List.length_cons] at h
    simp only [remaining, Phase.cost]
    omega
  · simp only [remaining, Phase.cost]
    omega

theorem remaining_onRead_lt (p : Proposal) (answer : Except StoreFault (Option Record))
    (h : p.phase = .readCheckpoint ∨ ∃ c slots i rest, p.phase = .readRecord c slots i rest) :
    (p.onRead answer).remaining < p.remaining := by
  have hfin := p.remaining_finish_le
  have hcont := p.remaining_continueWith_le
  rcases h with h | ⟨c, slots, i, rest, h⟩
  · have hp : p.remaining =
        (maxAttempts - p.attempt) * (p.intents.length + 3) + (p.intents.length + 2) := by
      simp [remaining, Phase.cost, h]
    unfold onRead
    rw [h, hp]
    cases answer with
    | error e => have := hfin (.error e); simp only; omega
    | ok current =>
      simp only
      split
      · rename_i e _; have := hfin (.error e); omega
      · have := hcont none [] p.intents; omega
      · rename_i seq record _
        split
        · have := hfin (.ok (.conflict seq)); omega
        · have := hcont (some record) [] p.intents; omega
  · have hp : p.remaining =
        (maxAttempts - p.attempt) * (p.intents.length + 3) + (rest.length + 2) := by
      simp [remaining, Phase.cost, h]
    unfold onRead
    rw [h, hp]
    cases answer with
    | error e => have := hfin (.error e); simp only; omega
    | ok current => have := hcont c (slots ++ [Slot.ofRead i current]) rest; simp only; omega

theorem remaining_onWrite_lt (p : Proposal) (answer : Except StoreFault Unit) (ops : List BatchOp)
    (h : p.phase = .write ops) : (p.onWrite answer).remaining < p.remaining := by
  have hp : p.remaining = (maxAttempts - p.attempt) * (p.intents.length + 3) + 1 := by
    simp [remaining, Phase.cost, h]
  have hfin := p.remaining_finish_le
  unfold onWrite
  rw [hp]
  split
  · have := hfin (.ok .applied); omega
  · rename_i bucket key
    split
    · -- one attempt fewer is left
      rename_i ha
      simp only [remaining, Phase.cost]
      have : maxAttempts - p.attempt = (maxAttempts - (p.attempt + 1)) + 1 := by omega
      rw [this, Nat.add_mul]
      omega
    · have := hfin (.error (.conflict bucket key)); omega
  · rename_i e _; have := hfin (.error e); omega

/-- Runs a proposal against a store that nobody else uses meanwhile. -/
def run (get : σ → Address → Except StoreFault (Option Record))
    (put : σ → List BatchOp → σ × Except StoreFault Unit) (s : σ) (p : Proposal) :
    σ × Except StoreFault Outcome :=
  match _h : p.phase with
  | .done r => (s, r)
  | .write ops =>
    let (s, answer) := put s ops
    run get put s (p.onWrite answer)
  | .readCheckpoint => run get put s (p.onRead (get s p.address))
  | .readRecord _ _ i _ => run get put s (p.onRead (get s (intentAddress i)))
termination_by p.remaining
decreasing_by
  · exact remaining_onWrite_lt p _ ops _h
  · exact remaining_onRead_lt p _ (.inl _h)
  · exact remaining_onRead_lt p _ (.inr ⟨_, _, _, _, _h⟩)

end Proposal

end ChangeRelay.Checkpoint
