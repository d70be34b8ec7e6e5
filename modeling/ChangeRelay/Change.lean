import ChangeRelay.Query
import ChangeRelay.Text.Decimal

/-!
# Changes

One entry of the source directory's change log: the attributes it sets, and the metadata that the
directory attached to it. The entry change notification control among the metadata carries the
change's number and kind; `Control.ofMetadata` is the one place that reads it.
-/

namespace ChangeRelay

/-- Kinds of change. -/
inductive Operation where
  | add
  | modify
  | delete
deriving DecidableEq, Repr

namespace Operation

/-- The kind of a `changeType` bit. Renames (8) are not relayed. -/
def ofChangeType? (n : UInt64) : Option Operation :=
  if n = 1 then some .add else if n = 2 then some .delete else if n = 4 then some .modify else none

def changeType : Operation → UInt64
  | .add => 1
  | .delete => 2
  | .modify => 4

def word : Operation → String
  | .add => "add"
  | .modify => "modify"
  | .delete => "delete"

/-- The words of operations, in the order in which they are listed. -/
def words : List (String × Operation) := [("add", .add), ("modify", .modify), ("delete", .delete)]

theorem ofChangeType?_changeType (op : Operation) : ofChangeType? op.changeType = some op := by
  cases op <;> rfl

end Operation

/-- Attribute names with their values, in the order of the names. -/
abbrev Attributes := List (String × List String)

namespace Attributes

def toValue (a : Attributes) : Json.Value :=
  .object (a.map fun p => (p.1, Json.Value.ofStrings p.2))

/-- Each field has to be a list of texts, also one whose name comes again. -/
def decode (v : Json.Value) : Json.Decoded Attributes := do
  let pairs ← (← v.decodeObject).mapM fun p => do
    return (p.1, ← Json.Value.decodeList Json.Value.decodeString p.2)
  return Assoc.ofList pairs

end Attributes

/-- Object identifier of the entry change notification control. -/
def entryChangeOid : String := "2.16.840.1.113730.3.4.7"

/-- The metadata of a change as a directory attaches it. -/
def entryMetadata (dn : String) (seq : UInt64) (op : Operation) : Json.Fields :=
  [("controls", .array [.object [
      ("type", .string entryChangeOid),
      ("value", .object [
        ("changeNumber", .ofWord seq), ("changeType", .ofWord op.changeType)])]]),
    ("dn", .string dn)]

/-- What the metadata of a change says about it. -/
structure Control where
  /-- Normal form of the changed entry's name. -/
  target : String
  seq : UInt64
  operation : Operation
deriving DecidableEq, Repr

namespace Control

/-- An integer, or a string that holds one. -/
def lenientWord? : Json.Value → Option UInt64
  | .int n => (Json.Value.int n).asWord?
  | .string s => Text.readWord? (Text.trim s)
  | _ => none

/-- Whether a control is the entry change notification. -/
def isEntryChange (control : Json.Value) : Bool :=
  control.get? "type" = some (.string entryChangeOid)

/-- Reads the entry change notification. Faults found once the number is known carry it. -/
def ofMetadata (metadata : Json.Fields) : Except FeedFault Control :=
  match (Assoc.find? "controls" metadata).bind Json.Value.asArray? with
  | none => .error (.malformed none "change carries no controls")
  | some controls =>
  match (controls.find? isEntryChange).bind (Json.Value.get? "value") with
  | none => .error (.malformed none "entry change notification control missing")
  | some notification =>
  match (notification.get? "changeNumber").bind lenientWord? with
  | none => .error (.malformed none "changeNumber missing or not an integer")
  | some seq =>
  match (notification.get? "changeType").bind lenientWord? with
  | none => .error (.malformed (some seq) "changeType missing")
  | some changeType =>
  match Operation.ofChangeType? changeType with
  | none => .error (.malformed (some seq) s!"unsupported changeType {changeType}")
  | some operation =>
  match (Assoc.find? "dn" metadata).bind Json.Value.asString? with
  | none => .error (.malformed (some seq) "dn missing")
  | some dn =>
  match Dn.normalize dn with
  | .error e => .error (.malformed (some seq) e.message)
  | .ok target =>
  if target = "" then .error (.malformed (some seq) "change targets the empty DN")
  else .ok { target, seq, operation }

end Control

/-- One change read from the source. -/
structure Change where
  seq : UInt64
  operation : Operation
  /-- Normal form of the changed entry's name. -/
  target : String
  /-- All attributes of an added entry; of a modified one those that change, without values where
  they are removed. -/
  attributes : Attributes
  metadata : Json.Fields
deriving DecidableEq

namespace Change

/-- A change from its attributes and metadata. -/
def ofMetadata (attributes : Attributes) (metadata : Json.Fields) : Except FeedFault Change :=
  (Control.ofMetadata metadata).map fun c =>
    { seq := c.seq, operation := c.operation, target := c.target, attributes, metadata }

/-- The source's time stamp, if it gave one. -/
def changeTime? (c : Change) : Option String :=
  (Assoc.find? "changetime" c.metadata).bind Json.Value.asString?

def toValue (c : Change) : Json.Value :=
  .object [("attributes", c.attributes.toValue), ("operation", .string c.operation.word),
    ("sequence_number", .ofWord c.seq), ("source_metadata", .object c.metadata),
    ("target_id", .string c.target)]

def decode (v : Json.Value) : Json.Decoded Change := do
  let p ← v.parts "Change"
    ["sequence_number", "operation", "target_id", "attributes", "source_metadata"]
  let seq ← p.required 0 Json.Value.decodeWord
  let operation ← p.required 1 (Json.Value.decodeWordOf "Operation" Operation.words)
  let target ← p.required 2 Json.Value.decodeString
  let attributes ← p.required 3 Attributes.decode
  let metadata ← p.required 4 Json.Value.decodeObject
  return { seq, operation, target, attributes, metadata }

end Change

end ChangeRelay
