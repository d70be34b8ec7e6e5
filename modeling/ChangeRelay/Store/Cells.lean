import ChangeRelay.Json.Reader
import ChangeRelay.Redis.Reply
import ChangeRelay.Store.Record

/-!
# Store in Redis hashes

A bucket is two hashes: one maps keys to the texts of their values, the other to their tags. A
batch is one script that checks all guards before it writes anything.
-/

namespace ChangeRelay.Store

/-- A field of a Redis hash. -/
structure Cell where
  hash : String
  field : String
deriving DecidableEq, Repr

/-- A store in hashes whose names start with a common text. -/
structure Cells where
  keyPrefix : String
deriving DecidableEq, Repr

namespace Cells

/-- The hash of a bucket's values. -/
def valueHash (s : Cells) (bucket : String) : String := s!"{s.keyPrefix}:{bucket}"

/-- The hash of a bucket's tags. -/
def etagHash (s : Cells) (bucket : String) : String := s!"{s.keyPrefix}:{bucket}:etag"

def valueCell (s : Cells) (a : Address) : Cell := ⟨s.valueHash a.bucket, a.key⟩

def etagCell (s : Cells) (a : Address) : Cell := ⟨s.etagHash a.bucket, a.key⟩

/-- The cells of a record. -/
def cells (s : Cells) (a : Address) : List Cell := [s.valueCell a, s.etagCell a]

/-- The command that reads a cell. -/
def readCell (c : Cell) : Redis.Command := Redis.command ["HGET", c.hash, c.field]

/-- The commands that read a record, in one transaction. -/
def fetchCommands (s : Cells) (a : Address) : List Redis.Command := (s.cells a).map readCell

/-- The record that the two replies hold. -/
def fetched (a : Address) (value etag : Redis.Reply) : Except StoreFault (Option Record) :=
  match value.optionalText?, etag.optionalText? with
  | some (some text), some (some etag) =>
    match Json.Value.parse? text with
    | some v => .ok (some ⟨v, etag⟩)
    | none => .error (.corrupt a.bucket a.key "not a JSON text")
  | some none, some none => .ok none
  | some _, some _ => .error (.corrupt a.bucket a.key "value and etag hashes out of sync")
  | _, _ => .error (.unavailable "get" "unexpected reply")

/-- How the script is told of a guard: its kind, and the tag it demands. -/
def guardArgs : Guard → String × String
  | .any => ("none", "")
  | .absent => ("absent", "")
  | .tagged etag => ("etag", etag)

/-- How the script is told of an action: its kind, the new text and the new tag. -/
def actionArgs : Action → String × String × String
  | .put v => ("put", v.text, etag v)
  | .delete => ("del", "", "")

/-- The hashes an operation names. -/
def opKeys (s : Cells) (op : BatchOp) : List String :=
  [s.valueHash op.address.bucket, s.etagHash op.address.bucket]

/-- The arguments of an operation. -/
def opArgs (op : BatchOp) : List String :=
  let (guard, expected) := guardArgs op.guard
  let (action, body, tag) := actionArgs op.action
  [op.address.key, action, guard, expected, body, tag]

/-- The call of the script, without the script's digest; an empty batch makes none. -/
def batchCommands (s : Cells) (ops : List BatchOp) : List Redis.Command :=
  if ops = [] then []
  else
    let keys := ops.flatMap s.opKeys
    [Redis.command (["EVALSHA", toString keys.length] ++ keys ++ ops.flatMap opArgs)]

/-- The operation number `n`, counted from one. -/
def opNumber? (ops : List BatchOp) (n : Int) : Option BatchOp :=
  if n < 1 then none else ops[n.toNat - 1]?

/-- What is said of a reply that is no list of integers. -/
def notIntegers : String := "reply is not a list of integers"

/-- What the script's reply says of a batch. -/
def batchResult (ops : List BatchOp) (reply : Redis.Reply) : Except StoreFault Unit :=
  if ops = [] then .ok () else
  match reply with
  | .array _ | .nil =>
    match (reply.items?).bind fun items => items.mapM Redis.Reply.int? with
    | some [1, _] => .ok ()
    | some [0, n] =>
      match opNumber? ops n with
      | some op => .error op.conflict
      | none => .error (.unavailable "put_batch" s!"bad script reply index {n}")
    | some ns =>
      .error (.unavailable "put_batch"
        ("unexpected script reply [" ++ String.intercalate ", " (ns.map toString) ++ "]"))
    | none => .error (.unavailable "put_batch" notIntegers)
  | _ => .error (.unavailable "put_batch" notIntegers)

end Cells

end ChangeRelay.Store
