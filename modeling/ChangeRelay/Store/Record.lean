import ChangeRelay.Digest.Sha256
import ChangeRelay.Fault
import ChangeRelay.Json.Printer

/-!
# Records, guards and batches

The destination keeps records under addresses. A record carries a tag computed from its value, and
an operation of a batch may demand that the tag of its record is what was read before.
-/

namespace ChangeRelay.Store

/-- Where a record is kept. -/
structure Address where
  bucket : String
  key : String
deriving DecidableEq, Repr

/-- Addresses are ordered by bucket, then by key. -/
instance : LT Address :=
  ⟨fun a b => a.bucket < b.bucket ∨ (a.bucket = b.bucket ∧ a.key < b.key)⟩

instance : DecidableLT Address := fun a b =>
  inferInstanceAs (Decidable (a.bucket < b.bucket ∨ (a.bucket = b.bucket ∧ a.key < b.key)))

/-- The version tag of a value: the hexadecimal SHA-256 of its canonical text. -/
def etag (v : Json.Value) : String := Sha256.hexDigest (Text.encodeUtf8 v.text)

/-- A stored value with its tag. -/
structure Record where
  value : Json.Value
  etag : String
deriving DecidableEq

/-- The record of a value. -/
def Record.of (v : Json.Value) : Record := ⟨v, Store.etag v⟩

/-- What must hold of a record for an operation to apply. -/
inductive Guard where
  /-- Nothing. -/
  | any
  /-- There is no record. -/
  | absent
  /-- There is one, with this tag. -/
  | tagged (etag : String)
deriving DecidableEq, Repr

namespace Guard

/-- The guard that demands what was read. -/
def ofCurrent : Option Record → Guard
  | some r => .tagged r.etag
  | none => .absent

/-- Whether the guard holds of a record with this tag, or of none. -/
def holds : Guard → Option String → Bool
  | .any, _ => true
  | .absent, current => current.isNone
  | .tagged expected, current => current = some expected

theorem holds_ofCurrent (r : Option Record) : (ofCurrent r).holds (r.map Record.etag) = true := by
  cases r <;> simp [ofCurrent, holds]

end Guard

/-- What an operation of a batch does. -/
inductive Action where
  | put (value : Json.Value)
  | delete
deriving DecidableEq

/-- The record that an action leaves. -/
def Action.result : Action → Option Record
  | .put v => some (.of v)
  | .delete => none

/-- One guarded operation of a batch. -/
structure BatchOp where
  address : Address
  action : Action
  guard : Guard := .any
deriving DecidableEq

/-- The fault of an operation whose guard does not hold. -/
def BatchOp.conflict (op : BatchOp) : StoreFault := .conflict op.address.bucket op.address.key

end ChangeRelay.Store
