import ChangeRelay.Store.Cells

/-!
# The batch script

What the server does with a call of the script: its keys come in pairs, the hash of the values and
the hash of the tags, and its arguments in sixes. All guards are looked at before anything is
written, and the server runs nothing else meanwhile.
-/

namespace ChangeRelay.Store

/-- The hashes of a server: what each of their fields holds. -/
abbrev Hashes := Cell → Option String

namespace Hashes

/-- The hashes with one field set or removed. -/
def set (h : Hashes) (c : Cell) (text : Option String) : Hashes :=
  fun d => if d = c then text else h d

/-- What a read of a cell is answered. -/
def reply (h : Hashes) (c : Cell) : Redis.Reply :=
  match h c with
  | some text => .bulk (Text.encodeUtf8 text)
  | none => .nil

theorem set_of_ne {h : Hashes} {c d : Cell} (hne : d ≠ c) (text : Option String) :
    h.set c text d = h d := if_neg hne

@[simp] theorem set_self (h : Hashes) (c : Cell) (text : Option String) : h.set c text c = text :=
  if_pos rfl

end Hashes

/-- One operation as the script reads it from its keys and arguments. -/
structure ScriptOp where
  valueHash : String
  etagHash : String
  field : String
  action : String
  guard : String
  expected : String
  body : String
  tag : String

namespace ScriptOp

/-- The operations of a call. -/
def read : List String → List String → List ScriptOp
  | valueHash :: etagHash :: keys,
    field :: action :: guard :: expected :: body :: tag :: args =>
    ⟨valueHash, etagHash, field, action, guard, expected, body, tag⟩ :: read keys args
  | _, _ => []

def valueCell (op : ScriptOp) : Cell := ⟨op.valueHash, op.field⟩

def etagCell (op : ScriptOp) : Cell := ⟨op.etagHash, op.field⟩

/-- Whether the guard of an operation holds. -/
def allowed (op : ScriptOp) (h : Hashes) : Bool :=
  if op.guard = "absent" then (h op.etagCell).isNone
  else if op.guard = "etag" then h op.etagCell = some op.expected
  else true

/-- What an operation writes. -/
def write (op : ScriptOp) (h : Hashes) : Hashes :=
  if op.action = "put" then (h.set op.valueCell (some op.body)).set op.etagCell (some op.tag)
  else (h.set op.valueCell none).set op.etagCell none

/-- A call of the script: nothing is written unless every guard holds; the first that does not is
named by its number, counted from one. -/
def run (ops : List ScriptOp) (h : Hashes) : Hashes × Redis.Reply :=
  match ops.findIdx? fun op => !op.allowed h with
  | some i => (h, .array [.int 0, .int (i + 1)])
  | none => (ops.foldl (fun h op => op.write h) h, .array [.int 1, .int 0])

end ScriptOp

namespace Cells

/-- A batch at a server that is reached. -/
def putBatch (s : Cells) (h : Hashes) (ops : List BatchOp) : Hashes × Except StoreFault Unit :=
  if ops = [] then (h, .ok ())
  else
    let (h, reply) := ScriptOp.run (ScriptOp.read (ops.flatMap s.opKeys) (ops.flatMap opArgs)) h
    (h, batchResult ops reply)

/-- A read at a server that is reached. -/
def get (s : Cells) (h : Hashes) (a : Address) : Except StoreFault (Option Record) :=
  fetched a (h.reply (s.valueCell a)) (h.reply (s.etagCell a))

end Cells

end ChangeRelay.Store
