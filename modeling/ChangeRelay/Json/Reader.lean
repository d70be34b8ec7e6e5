import ChangeRelay.Json.Printer
import ChangeRelay.Text.Decimal

/-!
# Reading JSON text

A number without fraction and exponent that fits a 64-bit word, signed if it has a minus sign, is
an integer; every other one is a double. Containers nest at most 127 deep. The fields of an object
are read in the order of the text, with their repetitions; of a value as such only the last field
of a name counts.
-/

namespace ChangeRelay.Json.Reader

open Text (hexValue?)

/-- Blanks between the tokens of a JSON text. -/
def isSpace (c : Char) : Bool := c = ' ' || c = '\n' || c = '\t' || c = '\r'

def skipSpaces (cs : List Char) : List Char := cs.dropWhile isSpace

/-- The code unit of four hexadecimal digits. -/
def unit? (a b c d : Char) : Option Nat := do
  return (((← hexValue? a) * 16 + (← hexValue? b)) * 16 + (← hexValue? c)) * 16 + (← hexValue? d)

def isHighSurrogate (n : Nat) : Bool := 0xD800 ≤ n && n < 0xDC00

def isLowSurrogate (n : Nat) : Bool := 0xDC00 ≤ n && n < 0xE000

/-- The character of an escape of one letter. -/
def escape? (c : Char) : Option Char :=
  match c with
  | '"' => some '"'
  | '\\' => some '\\'
  | '/' => some '/'
  | 'b' => some (Char.ofNat 8)
  | 'f' => some (Char.ofNat 12)
  | 'n' => some '\n'
  | 'r' => some '\r'
  | 't' => some '\t'
  | _ => none

/-- Reads a string after its opening quote; `acc` holds what was read, the last first. -/
def readString (acc : List Char) : List Char → Option (String × List Char)
  | [] => none
  | '"' :: rest => some (String.ofList acc.reverse, rest)
  | '\\' :: 'u' :: a :: b :: c :: d :: '\\' :: 'u' :: e :: f :: g :: h :: rest =>
    match unit? a b c d with
    | none => none
    | some hi =>
      if isHighSurrogate hi then
        match unit? e f g h with
        | none => none
        | some lo =>
          if isLowSurrogate lo then
            readString (Char.ofNat (0x10000 + (hi - 0xD800) * 0x400 + (lo - 0xDC00)) :: acc) rest
          else none
      else if isLowSurrogate hi then none
      else readString (Char.ofNat hi :: acc) ('\\' :: 'u' :: e :: f :: g :: h :: rest)
  | '\\' :: 'u' :: a :: b :: c :: d :: rest =>
    match unit? a b c d with
    | none => none
    | some n =>
      if isHighSurrogate n || isLowSurrogate n then none
      else readString (Char.ofNat n :: acc) rest
  | '\\' :: c :: rest =>
    match escape? c with
    | none => none
    | some e => readString (e :: acc) rest
  | c :: rest => if c.toNat < 32 || c = '\\' then none else readString (c :: acc) rest
termination_by cs => cs.length

/-- The digits at the front, and the rest. -/
def splitDigits (cs : List Char) : List Char × List Char :=
  (cs.takeWhile Char.isDigit, cs.dropWhile Char.isDigit)

/-- The value of a run of digits. -/
def digitsValue (ds : List Char) : Nat :=
  ds.foldl (fun n d => n * 10 + (d.toNat - '0'.toNat)) 0

/-- A number by its parts: sign, integer digits, fraction digits and exponent, if written. -/
def numberOf? (neg : Bool) (whole : List Char) (fraction : Option (List Char))
    (exponent : Option Int) : Option Value :=
  let n := digitsValue whole
  let isInt := fraction.isNone && exponent.isNone &&
    (if neg then n ≠ 0 && n ≤ pow2 63 else n < wordLimit)
  if isInt then some (.int (if neg then -(n : Int) else n))
  else
    let ds := fraction.getD []
    let x := Double.ofDecimal neg (digitsValue (whole ++ ds)) (exponent.getD 0 - ds.length)
    if x.isFinite then some (.double x) else none

/-- Reads an exponent after its `e`. -/
def readExponent? (cs : List Char) : Option (Int × List Char) :=
  let (neg, cs) := match cs with
    | '-' :: r => (true, r)
    | '+' :: r => (false, r)
    | r => (false, r)
  match splitDigits cs with
  | ([], _) => none
  | (ds, rest) =>
    let n : Int := digitsValue ds
    some (if neg then -n else n, rest)

/-- Reads a number after its minus sign, if it has one. -/
def readNumber? (neg : Bool) (cs : List Char) : Option (Value × List Char) := do
  let (whole, rest) := splitDigits cs
  if whole = [] || (whole.length ≠ 1 && whole.head? = some '0') then none
  let (fraction, rest) ← match rest with
    | '.' :: r =>
      match splitDigits r with
      | ([], _) => none
      | (ds, r) => some (some ds, r)
    | r => some (none, r)
  let (exponent, rest) ← match rest with
    | 'e' :: r => (readExponent? r).map fun p => (some p.1, p.2)
    | 'E' :: r => (readExponent? r).map fun p => (some p.1, p.2)
    | r => some (none, r)
  let v ← numberOf? neg whole fraction exponent
  return (v, rest)

mutual

/-- Reads one value; `depth` bounds how deep containers nest, `fuel` the number of calls. -/
def readValue (fuel depth : Nat) (cs : List Char) : Option (Value × List Char) :=
  match fuel with
  | 0 => none
  | fuel + 1 =>
    match skipSpaces cs with
    | 'n' :: 'u' :: 'l' :: 'l' :: rest => some (.null, rest)
    | 't' :: 'r' :: 'u' :: 'e' :: rest => some (.bool true, rest)
    | 'f' :: 'a' :: 'l' :: 's' :: 'e' :: rest => some (.bool false, rest)
    | '"' :: rest => (readString [] rest).map fun p => (.string p.1, p.2)
    | '-' :: rest => readNumber? true rest
    | '[' :: rest =>
      match depth with
      | 0 => none
      | depth + 1 =>
        match skipSpaces rest with
        | ']' :: rest => some (.array [], rest)
        | rest => readItems fuel depth [] rest
    | c :: rest =>
      if c = openBrace then
        match depth with
        | 0 => none
        | depth + 1 =>
          match skipSpaces rest with
          | '"' :: rest => readFields fuel depth [] rest
          | d :: rest => if d = closeBrace then some (.object [], rest) else none
          | [] => none
      else if c.isDigit then readNumber? false (c :: rest)
      else none
    | [] => none
termination_by structural fuel

/-- Reads the items of an array up to its bracket; `acc` holds those read, the last first. -/
def readItems (fuel depth : Nat) (acc : List Value) (cs : List Char) :
    Option (Value × List Char) :=
  match fuel with
  | 0 => none
  | fuel + 1 =>
    match readValue fuel depth cs with
    | none => none
    | some (v, rest) =>
      match skipSpaces rest with
      | ',' :: rest => readItems fuel depth (v :: acc) rest
      | ']' :: rest => some (.array (v :: acc).reverse, rest)
      | _ => none
termination_by structural fuel

/-- Reads the fields of an object after the quote of the next name; `acc` holds those read, the
last first. -/
def readFields (fuel depth : Nat) (acc : Fields) (cs : List Char) :
    Option (Value × List Char) :=
  match fuel with
  | 0 => none
  | fuel + 1 =>
    match readString [] cs with
    | none => none
    | some (k, rest) =>
      match skipSpaces rest with
      | ':' :: rest =>
        match readValue fuel depth rest with
        | none => none
        | some (v, rest) =>
          let acc := (k, v) :: acc
          match skipSpaces rest with
          | ',' :: rest =>
            match skipSpaces rest with
            | '"' :: rest => readFields fuel depth acc rest
            | _ => none
          | c :: rest => if c = closeBrace then some (.object acc.reverse, rest) else none
          | [] => none
      | _ => none
termination_by structural fuel

end

end ChangeRelay.Json.Reader

namespace ChangeRelay.Json

/-- How deep containers may nest. -/
def maxDepth : Nat := 127

/-- The value that a text writes out, field by field; none if it is not exactly one JSON value. -/
def Value.read? (s : String) : Option Value :=
  let cs := s.toList
  match Reader.readValue (2 * cs.length + 2) maxDepth cs with
  | some (v, rest) => if (Reader.skipSpaces rest).isEmpty then some v else none
  | none => none

/-- The value a text denotes. -/
def Value.parse? (s : String) : Option Value := (Value.read? s).map canonical

end ChangeRelay.Json
