import ChangeRelay.Trigger.Pipeline

/-!
# The mirror

Keeps one record per directory entry, under the entry's name: an object with the entry's
attributes, their names lowercased and, if an allowlist is given, only those on it.
-/

namespace ChangeRelay

/-- A mirror of the directory in a bucket. -/
structure Mirror where
  bucket : String
  /-- Attributes to keep, lowercased; all of them if none is named. -/
  allow : List String := []
deriving DecidableEq, Repr

namespace Mirror

def ofSpec (spec : TriggerSpec) : Except String Mirror :=
  (spec.decodeOption "attributes" (Json.Value.decodeList Json.Value.decodeString)).map
    fun names => { bucket := spec.target, allow := (names.getD []).map Text.lowercase }

/-- Whether an attribute is kept. -/
def keeps (m : Mirror) (name : String) : Bool := m.allow = [] || m.allow.contains name

/-- The attributes to keep, with lowercased names, in the order of the change. -/
def kept (m : Mirror) (attributes : Attributes) : Attributes :=
  (attributes.map fun p => (Text.lowercase p.1, p.2)).filter fun p => m.keeps p.1

/-- The object of an added entry: attributes without values are left out. -/
def entry (m : Mirror) (attributes : Attributes) : Json.Value :=
  .ofFields (((m.kept attributes).filter fun p => p.2 ≠ []).map fun p =>
    (p.1, .ofStrings p.2))

/-- The patch of a modified entry: attributes without values are removed. -/
def patch (m : Mirror) (attributes : Attributes) : Json.Fields :=
  Assoc.ofList ((m.kept attributes).map fun p =>
    (p.1, if p.2 = [] then .null else .ofStrings p.2))

def transform (m : Mirror) (c : Change) : Except String (List Intent) :=
  if c.target = "" then .error "change targets the root DSE"
  else match c.operation with
    | .add =>
      if c.attributes = [] then .error s!"add of '{c.target}' carries no attributes"
      else .ok [.put m.bucket c.target (m.entry c.attributes)]
    | .modify =>
      let patch := m.patch c.attributes
      .ok (if patch = [] then [] else [.merge m.bucket c.target (.object patch)])
    | .delete => .ok [.delete m.bucket c.target]

def trigger (m : Mirror) : Trigger := ⟨"mirror", fun _ c => m.transform c⟩

end Mirror

end ChangeRelay
