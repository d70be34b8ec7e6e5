import ChangeRelay.Json.Reader
import ChangeRelay.Yaml.Node

/-!
# Meanings of YAML scalars

What a plain scalar stands for where no type is expected: null, a truth value, a number, or else
its text. Quoted scalars are texts. Where a type is expected, a reader for that type looks at the
text itself.
-/

namespace ChangeRelay.Yaml

/-- What a scalar stands for. -/
inductive Meaning where
  | null
  | bool (b : Bool)
  | int (n : Int)
  /-- An integer beyond 64 bits. -/
  | huge
  | double (x : Double)
  | text (s : String)

/-- The words for null. -/
def isNull (cs : List Char) : Bool :=
  ["null", "Null", "NULL", "~"].any fun w => w.toList = cs

/-- The words for truth values. -/
def readBool? (text : String) : Option Bool :=
  if ["true", "True", "TRUE"].contains text then some true
  else if ["false", "False", "FALSE"].contains text then some false
  else none

/-- The value of digits to a base, of which there has to be one. -/
def readBase? (base : Nat) (cs : List Char) : Option Nat :=
  if cs = [] then none
  else cs.foldlM (fun n c => do
    let d ← Text.hexValue? c
    if d < base then some (n * base + d) else none) 0

/-- The bases that a marker behind a leading zero chooses. -/
def base? : List Char → Option (Nat × List Char)
  | '0' :: 'x' :: rest => some (16, rest)
  | '0' :: 'o' :: rest => some (8, rest)
  | '0' :: 'b' :: rest => some (2, rest)
  | _ => none

def isDigit (c : Char) : Bool := '0' ≤ c && c ≤ '9'

/-- Digits with a leading zero are no number. -/
def isZeroPadded (cs : List Char) : Bool :=
  1 < cs.length && cs.head? = some '0' && cs.all isDigit

/-- A magnitude in any base. -/
def readMagnitude? (cs : List Char) : Option Nat :=
  match base? cs with
  | some (base, ds) => readBase? base ds
  | none => if isZeroPadded cs then none else readBase? 10 cs

/-- An integer without a minus sign. -/
def readUnsigned? : List Char → Option Nat
  | '+' :: cs => readMagnitude? cs
  | cs => readMagnitude? cs

/-- An integer with a minus sign, by its magnitude. -/
def readNegative? : List Char → Option Nat
  | '-' :: cs => readMagnitude? cs
  | _ => none

/-- An integer that fits an unsigned word. -/
def readWord? (cs : List Char) : Option Nat :=
  (readUnsigned? cs).bind fun n => if n < wordLimit then some n else none

/-- The meaning of an integer. -/
def readInt? (cs : List Char) : Option Meaning :=
  match readUnsigned? cs, readNegative? cs with
  | some n, _ =>
    if n < wordLimit then some (.int n) else if n < pow2 128 then some .huge else none
  | none, some n =>
    if n ≤ pow2 63 then some (.int (-(n : Int))) else if n ≤ pow2 127 then some .huge else none
  | none, none => none

/-- The digits before and after a point, of which there has to be one, and what follows. -/
def decimalParts? (cs : List Char) : Option (List Char × List Char × List Char) :=
  let whole := cs.takeWhile isDigit
  let (fraction, rest) := match cs.dropWhile isDigit with
    | '.' :: rest => (rest.takeWhile isDigit, rest.dropWhile isDigit)
    | rest => ([], rest)
  if whole = [] && fraction = [] then none else some (whole, fraction, rest)

/-- A finite number without a sign. -/
def readDecimal? (neg : Bool) (cs : List Char) : Option Double := do
  let (whole, fraction, rest) ← decimalParts? cs
  let exponent ← match rest with
    | [] => some 0
    | c :: rest =>
      if c = 'e' || c = 'E' then
        (Json.Reader.readExponent? rest).bind fun p => if p.2 = [] then some p.1 else none
      else none
  let x := Double.ofDecimal neg (Json.Reader.digitsValue (whole ++ fraction))
    (exponent - fraction.length)
  if x.isFinite then some x else none

/-- A number, which may be infinite or none at all. -/
def readDouble? (cs : List Char) : Option Double :=
  let isOneOf (ws : List String) (cs : List Char) : Bool := ws.any fun w => w.toList = cs
  let infinities := [".inf", ".Inf", ".INF"]
  if isOneOf [".nan", ".NaN", ".NAN"] cs then some .nan
  else
    match cs with
    | '+' :: rest =>
      if isOneOf infinities rest then some (.infinity false) else readDecimal? false rest
    | '-' :: rest =>
      if isOneOf infinities rest then some (.infinity true) else readDecimal? true rest
    | cs => if isOneOf infinities cs then some (.infinity false) else readDecimal? false cs

/-- The digits of a number behind its sign. -/
def withoutSign : List Char → List Char
  | '-' :: cs | '+' :: cs => cs
  | cs => cs

/-- The meaning of a scalar. -/
def meaning (plain : Bool) (text : String) : Meaning :=
  let cs := text.toList
  if !plain then .text text
  else if cs = [] || isNull cs then .null
  else
    match readBool? text, readInt? cs with
    | some b, _ => .bool b
    | none, some m => m
    | none, none =>
      if isZeroPadded (withoutSign cs) then .text text
      else
        match readDouble? cs with
        | some x => .double x
        | none => .text text

namespace Node

mutual

/-- The JSON value of a node. Keys are taken by their text, the last of a name counts, and a number
that is not finite is null; none if an integer is too large or a key is no scalar. -/
def toJson? : Node → Option Json.Value
  | .scalar plain text =>
    match meaning plain text with
    | .null => some .null
    | .bool b => some (.bool b)
    | .int n => some (.int n)
    | .huge => none
    | .double x => some (if x.isFinite then .double x else .null)
    | .text s => some (.string s)
  | .sequence items => (toJsonItems? items).map .array
  | .mapping pairs => (toJsonFields? [] pairs).map .object

def toJsonItems? : List Node → Option (List Json.Value)
  | [] => some []
  | n :: rest => do return (← toJson? n) :: (← toJsonItems? rest)

def toJsonFields? (acc : Json.Fields) : List (Node × Node) → Option Json.Fields
  | [] => some acc
  | (.scalar _ key, v) :: rest => do toJsonFields? (Assoc.insert key (← toJson? v) acc) rest
  | _ :: _ => none

end

end Node

/-! ## Reading typed data -/

namespace Node

/-- A text: any scalar, as it is written. -/
def asText? : Node → Option String
  | .scalar _ text => some text
  | _ => none

/-- A text that may be missing or null. -/
def asOptionalText? : Node → Option (Option String)
  | .scalar true "" => some none
  | .scalar plain text => some (if plain && isNull text.toList then none else some text)
  | _ => none

def asBool? : Node → Option Bool
  | .scalar true text => readBool? text
  | _ => none

/-- A word below a limit. -/
def asWordBelow? (limit : Nat) : Node → Option Nat
  | .scalar true text => (readWord? text.toList).bind fun n => if n < limit then some n else none
  | _ => none

def asDouble? : Node → Option Double
  | .scalar true text => readDouble? text.toList
  | _ => none

/-- The items of a list; nothing at all is an empty one. -/
def asItems? : Node → Option (List Node)
  | .sequence items => some items
  | .scalar true "" => some []
  | _ => none

/-- The pairs of a mapping; nothing at all is an empty one. -/
def asPairs? : Node → Option (List (Node × Node))
  | .mapping pairs => some pairs
  | .scalar true "" => some []
  | _ => none

/-- The fields of a structure by name. Fields of other names do not count, and no name may be
repeated that does. -/
def asFields? (names : List String) (n : Node) : Option (List (String × Node)) := do
  let pairs ← n.asPairs?
  let named ← pairs.mapM fun (p : Node × Node) => (p.1.asText?).map fun k => (k, p.2)
  let known := named.filter fun p => names.contains p.1
  if names.all fun k => known.countP (fun p => p.1 = k) ≤ 1 then some known else none

/-- A field that has to be there. -/
def required? (fields : List (String × Node)) (name : String) (read : Node → Option α) :
    Option α :=
  (fields.lookup name).bind read

/-- A field that has a default. -/
def optional? (fields : List (String × Node)) (name : String) (default : α)
    (read : Node → Option α) : Option α :=
  match fields.lookup name with
  | some n => read n
  | none => some default

end Node

end ChangeRelay.Yaml
