import ChangeRelay.Json.Reader
import ChangeRelay.Store.Record

/-!
# Store in a database file

Rows keep the text of a value beside its tag, so a row can hold text that is no value. A batch is
one transaction. After it is closed every call fails, until the file is opened again; a private
database in memory is gone once closed.
-/

namespace ChangeRelay.Store

/-- A row of the database. -/
structure Row where
  text : String
  etag : String
deriving DecidableEq, Repr

/-- Rows by address. -/
abbrev Rows := List (Address × Row)

/-- The row of a value. -/
def Row.of (v : Json.Value) : Row := ⟨v.text, Store.etag v⟩

/-- The row that an action leaves. -/
def Action.row : Action → Option Row
  | .put v => some (.of v)
  | .delete => none

/-- The rows with one of them set or removed. -/
def Rows.set (rs : Rows) (a : Address) : Option Row → Rows
  | some r => Assoc.insert a r rs
  | none => Assoc.erase a rs

/-- A database. -/
structure File where
  rows : Rows := []
  closed : Bool := false

namespace File

/-- Refuses an operation on a closed database. -/
def guardOpen (s : File) (operation : String) (result : Except StoreFault α) :
    Except StoreFault α :=
  if s.closed then .error (.unavailable operation "attempted to use a closed pool") else result

/-- The record of a row. -/
def decodeRow (a : Address) (r : Row) : Except StoreFault Record :=
  match Json.Value.parse? r.text with
  | some v => .ok ⟨v, r.etag⟩
  | none => .error (.corrupt a.bucket a.key "not a JSON text")

/-- Reads a record. -/
def get (s : File) (a : Address) : Except StoreFault (Option Record) :=
  s.guardOpen "get" <|
    match Assoc.find? a s.rows with
    | none => .ok none
    | some r => (decodeRow a r).map some

/-- The number of records of a bucket. -/
def count (s : File) (bucket : String) : Except StoreFault Nat :=
  s.guardOpen "count" (.ok (s.rows.countP fun p => p.1.bucket = bucket))

/-- The operations of a transaction in order. -/
def stage (rs : Rows) : List BatchOp → Except StoreFault Rows
  | [] => .ok rs
  | op :: ops =>
    if op.guard.holds ((Assoc.find? op.address rs).map Row.etag) then
      stage (rs.set op.address op.action.row) ops
    else .error op.conflict

/-- A batch as one transaction. -/
def putBatch (s : File) (ops : List BatchOp) : File × Except StoreFault Unit :=
  match s.guardOpen "put_batch" (stage s.rows ops) with
  | .ok rs => ({ s with rows := rs }, .ok ())
  | .error e => (s, .error e)

/-- Puts raw text into a row; a new row gets the tag `e`. -/
def putText (s : File) (a : Address) (text : String) : File :=
  let tag := ((Assoc.find? a s.rows).map Row.etag).getD "e"
  { s with rows := Assoc.insert a ⟨text, tag⟩ s.rows }

/-- The values of a bucket by key; text that is no value is shown as a string. -/
def bucket (s : File) (name : String) : List (String × Json.Value) :=
  (s.rows.filter fun p => p.1.bucket = name).map fun p =>
    (p.1.key, (Json.Value.parse? p.2.text).getD (.string p.2.text))

end File

end ChangeRelay.Store
