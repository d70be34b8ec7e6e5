import ChangeRelay.Json.Printer
import ChangeRelay.Text.Quoted

/-!
# Decoding typed data from JSON values

A structure is an object with its fields by name, or an array with them in order. What does not
fit is a `Mismatch`, whose message names what was found and what was expected.
-/

namespace ChangeRelay.Json

/-- Why a value does not decode. -/
inductive Mismatch where
  /-- A value of the wrong kind. -/
  | type (found : Value) (expected : String)
  /-- An integer out of range. -/
  | range (found : Int) (expected : String)
  /-- An array of the wrong length. -/
  | length (found : Nat) (expected : String)
  | missing (field : String)
  | unknown (field : String) (expected : List String)
  /-- A word that names none of the alternatives. -/
  | variant (found : String) (expected : List String)
deriving DecidableEq

/-- A value as messages name it. -/
def Value.describe : Value → String
  | .null => "null"
  | .bool b => s!"boolean `{b}`"
  | .int n => s!"integer `{n}`"
  | .double x => s!"floating point `{String.ofList (doubleText x)}`"
  | .string s => s!"string {Text.quoted s}"
  | .array _ => "sequence"
  | .object _ => "map"

/-- Alternatives as messages list them. -/
def alternatives (names : List String) : String :=
  match names with
  | [a] => s!"`{a}`"
  | [a, b] => s!"`{a}` or `{b}`"
  | names => "one of " ++ String.intercalate ", " (names.map fun n => s!"`{n}`")

def Mismatch.message : Mismatch → String
  | .type v e => s!"invalid type: {v.describe}, expected {e}"
  | .range n e => s!"invalid value: integer `{n}`, expected {e}"
  | .length n e => s!"invalid length {n}, expected {e}"
  | .missing f => s!"missing field `{f}`"
  | .unknown f es => s!"unknown field `{f}`, expected {alternatives es}"
  | .variant v es => s!"unknown variant `{v}`, expected {alternatives es}"

/-- Data decoded from a value. -/
abbrev Decoded := Except Mismatch

namespace Value

def decodeString : Value → Decoded String
  | .string s => .ok s
  | v => .error (.type v "a string")

def decodeWord : Value → Decoded UInt64
  | .int n =>
    match (Value.int n).asWord? with
    | some w => .ok w
    | none => .error (.range n "u64")
  | v => .error (.type v "u64")

def decodeList (decode : Value → Decoded α) : Value → Decoded (List α)
  | .array items => items.mapM decode
  | v => .error (.type v "a sequence")

def decodeObject : Value → Decoded Fields
  | .object fields => .ok fields
  | v => .error (.type v "a map")

/-- A value that may be null. -/
def decodeOptional (decode : Value → Decoded α) : Value → Decoded (Option α)
  | .null => .ok none
  | v => (decode v).map some

/-- One of some words, written as a string or as an object that maps it to null. -/
def decodeWordOf (typeName : String) (options : List (String × α)) : Value → Decoded α
  | .string s =>
    match Assoc.find? s options with
    | some a => .ok a
    | none => .error (.variant s (Assoc.keys options))
  | .object [(s, v)] =>
    match Assoc.find? s options, v with
    | none, _ => .error (.variant s (Assoc.keys options))
    | some a, .null => .ok a
    | some _, v => .error (.type v "unit variant")
  | v => .error (.type v s!"enum {typeName}")

/-- The values of a structure's fields, in the order of `names`. -/
structure Parts where
  typeName : String
  names : List String
  /-- A value per name, where one was given. -/
  values : List (Option Value)
  /-- The length of the array it was given as, if it was one. -/
  listed : Option Nat

/-- Splits a value into the fields of a structure. Other fields of an object are ignored. -/
def parts (typeName : String) (names : List String) : Value → Decoded Parts
  | .object fields => .ok ⟨typeName, names, names.map (Assoc.find? · fields), none⟩
  | .array items =>
    if names.length < items.length then
      .error (.length items.length "fewer elements in array")
    else
      .ok ⟨typeName, names,
        items.map some ++ List.replicate (names.length - items.length) none, some items.length⟩
  | v => .error (.type v s!"struct {typeName}")

/-- How many fields there are, in words. -/
def Parts.elements (p : Parts) : String :=
  match p.names.length with
  | 1 => s!"struct {p.typeName} with 1 element"
  | n => s!"struct {p.typeName} with {n} elements"

/-- Field number `i`. -/
def Parts.value? (p : Parts) (i : Nat) : Option Value := (p.values[i]?).join

/-- A field that has to be there. -/
def Parts.required (p : Parts) (i : Nat) (decode : Value → Decoded α) : Decoded α :=
  match p.value? i, p.listed with
  | some v, _ => decode v
  | none, some n => .error (.length n p.elements)
  | none, none => .error (.missing (p.names.getD i ""))

/-- A field that has a default. -/
def Parts.optional (p : Parts) (i : Nat) (default : α) (decode : Value → Decoded α) : Decoded α :=
  match p.value? i with
  | some v => decode v
  | none => .ok default

/-- The one field that an object may have; any other name is refused where it stands. -/
def decodeOnly (name : String) (decode : Value → Decoded α) (fields : Fields) :
    Decoded (Option α) :=
  fields.foldlM (fun _ p =>
    if p.1 = name then (decode p.2).map some else .error (.unknown p.1 [name])) none

end Value

end ChangeRelay.Json
