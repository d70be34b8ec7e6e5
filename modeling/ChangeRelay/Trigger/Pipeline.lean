import ChangeRelay.Change
import ChangeRelay.Intent

/-!
# Trigger chains

A trigger maps a change to intents, or refuses it with a reason. A stream runs a chain of triggers
over each change; the chain is built from specifications by a registry of trigger kinds.
-/

namespace ChangeRelay

/-- A configured trigger. -/
structure Trigger where
  name : String
  /-- The intents for a change that a consumer handles, or the reason to refuse it. -/
  transform : String → Change → Except String (List Intent)

/-- What a stream's definition says about one trigger. -/
structure TriggerSpec where
  kind : String
  /-- The bucket it writes; its kind if not given. -/
  bucket : Option String := none
  options : Json.Fields := []
deriving DecidableEq

namespace TriggerSpec

/-- The bucket the trigger writes. -/
def target (s : TriggerSpec) : String := s.bucket.getD s.kind

/-- Decodes the options, of which there may be one. -/
def decodeOption (s : TriggerSpec) (name : String) (decode : Json.Value → Json.Decoded α) :
    Except String (Option α) :=
  match Json.Value.decodeOnly name decode s.options with
  | .ok a => .ok a
  | .error e => .error s!"invalid options for trigger '{s.kind}': {e.message}"

def toValue (s : TriggerSpec) : Json.Value :=
  .object [("bucket", (s.bucket.map Json.Value.string).getD .null), ("kind", .string s.kind),
    ("options", .object s.options)]

def decode (v : Json.Value) : Json.Decoded TriggerSpec := do
  let p ← v.parts "TriggerSpec" ["kind", "bucket", "options"]
  let kind ← p.required 0 Json.Value.decodeString
  let bucket ← p.optional 1 none (Json.Value.decodeOptional Json.Value.decodeString)
  let options ← p.optional 2 [] Json.Value.decodeObject
  return { kind, bucket, options }

end TriggerSpec

/-- The triggers of one stream, in order. -/
structure Pipeline where
  consumer : String
  stages : List Trigger

namespace Pipeline

/-- The intents of the stages from number `index` on. -/
def applyFrom (consumer : String) (change : Change) :
    Nat → List Trigger → Except StreamFault (List Intent)
  | _, [] => .ok []
  | index, stage :: rest =>
    match stage.transform consumer change with
    | .error reason => .error (.trigger s!"{index}:{stage.name}" reason)
    | .ok intents =>
      match applyFrom consumer change (index + 1) rest with
      | .error e => .error e
      | .ok more => .ok (intents ++ more)

/-- The intents of all stages for a change, or the fault of the first that refuses it. -/
def apply (p : Pipeline) (change : Change) : Except StreamFault (List Intent) :=
  applyFrom p.consumer change 0 p.stages

end Pipeline

/-- Trigger kinds by name, each with what makes a trigger of a specification. -/
abbrev Registry := List (String × (TriggerSpec → Except String Trigger))

namespace Registry

/-- One trigger of a stream's chain. -/
def buildStage (r : Registry) (consumer : String) (spec : TriggerSpec) :
    Except StreamFault Trigger :=
  match Assoc.find? spec.kind r with
  | none => .error (.config s!"stream '{consumer}': unknown trigger '{spec.kind}'")
  | some make =>
    match make spec with
    | .ok t => .ok t
    | .error e => .error (.config s!"stream '{consumer}': {e}")

/-- The triggers of a chain in order, or the fault of the first that cannot be made. -/
def buildStages (r : Registry) (consumer : String) :
    List TriggerSpec → Except StreamFault (List Trigger)
  | [] => .ok []
  | spec :: rest => do
    let stage ← r.buildStage consumer spec
    let stages ← r.buildStages consumer rest
    return stage :: stages

/-- The fault of a stream without triggers. -/
def emptyChain (consumer : String) : StreamFault :=
  .config s!"stream '{consumer}' has an empty trigger chain"

/-- The chain of a stream. -/
def build (r : Registry) (consumer : String) (chain : List TriggerSpec) :
    Except StreamFault Pipeline :=
  if chain = [] then .error (emptyChain consumer)
  else (r.buildStages consumer chain).map fun stages => { consumer, stages }

end Registry

end ChangeRelay
