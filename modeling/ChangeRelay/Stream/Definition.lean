import ChangeRelay.Query
import ChangeRelay.Text.Blank
import ChangeRelay.Trigger.Pipeline

/-!
# Stream definitions

What a stream is made of: the name under which it keeps its checkpoint, what it subscribes to, and
its trigger chain. A definition is checked before its stream is started.
-/

namespace ChangeRelay

/-- The definition of a stream. -/
structure StreamDefinition where
  /-- The name of the consumer, which is the key of its checkpoint. -/
  consumer : String
  query : Query
  chain : List TriggerSpec
deriving DecidableEq

namespace StreamDefinition

/-- The fault of a consumer without a name. -/
def unnamed : StreamFault := .config "stream consumer_id must not be empty"

/-- The fault of a name that is taken. -/
def duplicate (consumer : String) : StreamFault :=
  .config s!"duplicate stream consumer_id '{consumer}'"

/-- Checks a definition: a name, a valid query, and triggers that keep off the checkpoints. -/
def validate (d : StreamDefinition) (checkpoints : String) : Except StreamFault Unit :=
  if Text.isBlankText d.consumer then .error unnamed
  else
    match d.query.validate with
    | .error e => .error e.toStream
    | .ok () =>
      if d.chain = [] then .error (Registry.emptyChain d.consumer)
      else
        match d.chain.find? fun s => s.target = checkpoints with
        | some s => .error (.config (s!"stream '{d.consumer}': trigger '{s.kind}' writes to the " ++
            s!"checkpoint bucket '{checkpoints}'"))
        | none => .ok ()

/-- The pipeline of a definition that was checked. -/
def prepare (d : StreamDefinition) (registry : Registry) (checkpoints : String) :
    Except StreamFault Pipeline :=
  match d.validate checkpoints with
  | .error e => .error e
  | .ok () => registry.build d.consumer d.chain

def toValue (d : StreamDefinition) : Json.Value :=
  .object [("consumer_id", .string d.consumer), ("source_query", d.query.toValue),
    ("trigger_chain", .array (d.chain.map TriggerSpec.toValue))]

def decode (v : Json.Value) : Json.Decoded StreamDefinition := do
  let p ← v.parts "StreamDefinition" ["consumer_id", "source_query", "trigger_chain"]
  let consumer ← p.required 0 Json.Value.decodeString
  let query ← p.required 1 Query.decode
  let chain ← p.required 2 (Json.Value.decodeList TriggerSpec.decode)
  return { consumer, query, chain }

end StreamDefinition

end ChangeRelay
