import ChangeRelay.Json.Decode

/-!
# Write intents

What a trigger wants done to one record of the destination. Intents are data: nothing is written
until a whole batch of them is committed.
-/

namespace ChangeRelay

/-- What an intent does to its record. -/
inductive IntentKind where
  /-- Replaces it. -/
  | put
  /-- Removes it. -/
  | delete
  /-- Folds the fields of a patch into it. -/
  | merge
deriving DecidableEq, Repr

def IntentKind.words : List (String × IntentKind) :=
  [("put", .put), ("delete", .delete), ("merge", .merge)]

def IntentKind.word : IntentKind → String
  | .put => "put"
  | .delete => "delete"
  | .merge => "merge"

/-- A change to one record of the destination. -/
structure Intent where
  bucket : String
  key : String
  /-- The new value or the patch; a deletion ignores it. -/
  value : Json.Value
  kind : IntentKind
deriving DecidableEq

/-- Folds one field of a patch into an object: null removes it. -/
def mergeField (fields : Json.Fields) (p : String × Json.Value) : Json.Fields :=
  if p.2.isNull then Assoc.erase p.1 fields else Assoc.insert p.1 p.2 fields

/-- The fields of an object; none of them if there is no value or it is no object. -/
def objectFields : Option Json.Value → Json.Fields
  | some (.object fields) => fields
  | _ => []

/-- A patch applied to what a record holds. An object is folded in field by field; any other
patch takes the place of the value. -/
def applyMerge (current : Option Json.Value) (patch : Json.Value) : Json.Value :=
  match patch with
  | .object fields => .object (fields.foldl mergeField (objectFields current))
  | v => v

namespace Intent

def put (bucket key : String) (value : Json.Value) : Intent := ⟨bucket, key, value, .put⟩

def delete (bucket key : String) : Intent := ⟨bucket, key, .null, .delete⟩

def merge (bucket key : String) (patch : Json.Value) : Intent := ⟨bucket, key, patch, .merge⟩

/-- What the record holds afterwards. -/
def apply (i : Intent) (current : Option Json.Value) : Option Json.Value :=
  match i.kind with
  | .put => some i.value
  | .delete => none
  | .merge => some (applyMerge current i.value)

@[simp] theorem apply_put (bucket key : String) (value : Json.Value)
    (current : Option Json.Value) : (put bucket key value).apply current = some value := rfl

@[simp] theorem apply_delete (bucket key : String) (current : Option Json.Value) :
    (delete bucket key).apply current = none := rfl

@[simp] theorem apply_merge (bucket key : String) (patch : Json.Value)
    (current : Option Json.Value) :
    (merge bucket key patch).apply current = some (applyMerge current patch) := rfl

def toValue (i : Intent) : Json.Value :=
  .object [("bucket", .string i.bucket), ("key", .string i.key), ("op", .string i.kind.word),
    ("value", i.value)]

def decode (v : Json.Value) : Json.Decoded Intent := do
  let p ← v.parts "Intent" ["bucket", "key", "value", "op"]
  let bucket ← p.required 0 Json.Value.decodeString
  let key ← p.required 1 Json.Value.decodeString
  let value ← p.required 2 pure
  let kind ← p.required 3 (Json.Value.decodeWordOf "IntentKind" IntentKind.words)
  return { bucket, key, value, kind }

end Intent

end ChangeRelay
