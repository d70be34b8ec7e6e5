import ChangeRelay.Store.Record

/-!
# Store in memory

An atomic store with switches for faults. A batch is staged on a copy of the records; the copy
takes their place only when every operation went through.
-/

namespace ChangeRelay.Store

/-- Records by address. -/
abbrev Records := List (Address × Record)

/-- The records with one of them set or removed. -/
def Records.set (rs : Records) (a : Address) : Option Record → Records
  | some r => Assoc.insert a r rs
  | none => Assoc.erase a rs

/-- The values of a bucket by key. -/
def Records.bucket (rs : Records) (name : String) : List (String × Json.Value) :=
  (rs.filter fun p => p.1.bucket = name).map fun p => (p.1.key, p.2.value)

theorem Records.find?_set (rs : Records) (a b : Address) (r : Option Record) :
    Assoc.find? b (rs.set a r) = if b = a then r else Assoc.find? b rs := by
  cases r with
  | none => simp [Records.set, Assoc.find?_erase]
  | some r => simp [Records.set, Assoc.find?_insert]

/-- A store in memory. -/
structure Memory where
  records : Records := []
  available : Bool := true
  /-- Batches still to be refused. -/
  failBatches : Nat := 0
  /-- Operations after which the next batch crashes; none if it does not. -/
  crashAfter : Option Nat := none
  /-- Milliseconds that a batch waits before it is staged. -/
  commitDelay : Nat := 0
  applied : Nat := 0
  rejected : Nat := 0

namespace Memory

/-- Reads a record. -/
def get (s : Memory) (a : Address) : Except StoreFault (Option Record) :=
  if s.available then .ok (Assoc.find? a s.records)
  else .error (.unavailable "get" "store offline")

/-- Stages operations in order. `crash` counts down to the crash, if one is armed. -/
def stage (rs : Records) (crash : Option Nat) : List BatchOp → Except StoreFault Records
  | [] => .ok rs
  | op :: ops =>
    if crash = some 0 then .error (.unavailable "put_batch" "simulated crash")
    else if !op.guard.holds ((Assoc.find? op.address rs).map Record.etag) then
      .error op.conflict
    else stage (rs.set op.address op.action.result) (crash.map (· - 1)) ops

/-- The first part of a batch, before its delay: an offline store and an injected failure refuse
it at once. -/
def enter (s : Memory) : Memory × Except StoreFault Unit :=
  if !s.available then (s, .error (.unavailable "put_batch" "store offline"))
  else if 0 < s.failBatches then
    ({ s with failBatches := s.failBatches - 1, rejected := s.rejected + 1 },
      .error (.unavailable "put_batch" "injected failure"))
  else (s, .ok ())

/-- The second part, after the delay: all operations or none. An armed crash is used up. -/
def apply (s : Memory) (ops : List BatchOp) : Memory × Except StoreFault Unit :=
  match stage s.records s.crashAfter ops with
  | .ok rs => ({ s with records := rs, crashAfter := none, applied := s.applied + 1 }, .ok ())
  | .error e => ({ s with crashAfter := none, rejected := s.rejected + 1 }, .error e)

/-- A batch without its delay. -/
def putBatch (s : Memory) (ops : List BatchOp) : Memory × Except StoreFault Unit :=
  match s.enter with
  | (s, .ok ()) => s.apply ops
  | (s, .error e) => (s, .error e)

end Memory

end ChangeRelay.Store
