import ChangeRelay.Trigger.Pipeline

/-!
# The changelog

Keeps one record per change, under the change's number padded to the width of the largest one, so
that the order of the keys is the order of the changes.
-/

namespace ChangeRelay

/-- A log of changes in a bucket. -/
structure Changelog where
  bucket : String
  /-- What every key starts with. -/
  keyPrefix : String := ""
deriving DecidableEq, Repr

namespace Changelog

def ofSpec (spec : TriggerSpec) : Except String Changelog :=
  (spec.decodeOption "key_prefix" Json.Value.decodeString).map
    fun p => { bucket := spec.target, keyPrefix := p.getD "" }

/-- Decimal digits of the largest sequence number. -/
def keyWidth : Nat := 20

/-- The key of a change. -/
def key (l : Changelog) (seq : UInt64) : String :=
  l.keyPrefix ++ String.ofList (Text.paddedDigits keyWidth seq.toNat)

/-- What is kept of a change; a deletion has no attributes to keep. -/
def entry (c : Change) : Json.Value :=
  .ofFields ([("changenumber", .ofWord c.seq), ("changetype", .string c.operation.word),
      ("targetdn", .string c.target)] ++
    (if c.operation = .delete then [] else [("changes", c.attributes.toValue)]) ++
    (match c.changeTime? with
      | some t => [("changetime", .string t)]
      | none => []))

def transform (l : Changelog) (c : Change) : Except String (List Intent) :=
  .ok [.put l.bucket (l.key c.seq) (entry c)]

def trigger (l : Changelog) : Trigger := ⟨"changelog", fun _ c => l.transform c⟩

end Changelog

end ChangeRelay
