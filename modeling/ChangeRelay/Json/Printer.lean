import ChangeRelay.Json.Value
import ChangeRelay.Number.Shortest

/-!
# Canonical JSON text

One text per value: no blanks, fields in the order of their names, and only quotes, backslashes
and control characters escaped.
-/

namespace ChangeRelay.Json

/-- Doubles are written positionally from `1e-5` up to `1e16` and keep a point. -/
def doubleStyle : Decimal.Style := ⟨some (-5, 16), true⟩

/-- A character inside a JSON string. -/
def escapedChar (c : Char) : List Char :=
  if c = '"' then ['\\', '"']
  else if c = '\\' then ['\\', '\\']
  else if c = '\n' then ['\\', 'n']
  else if c = '\r' then ['\\', 'r']
  else if c = '\t' then ['\\', 't']
  else if c.toNat = 8 then ['\\', 'b']
  else if c.toNat = 12 then ['\\', 'f']
  else if c.toNat < 32 then
    ['\\', 'u', '0', '0', Nat.digitChar (c.toNat / 16), Nat.digitChar (c.toNat % 16)]
  else [c]

def stringText (s : String) : List Char :=
  '"' :: s.toList.flatMap escapedChar ++ ['"']

def intText (n : Int) : List Char :=
  if n < 0 then '-' :: Nat.toDigits 10 n.natAbs else Nat.toDigits 10 n.natAbs

def doubleText (x : Double) : List Char :=
  if x.isFinite then x.render doubleStyle else "null".toList

/-- The character that opens an object, and the one that closes it. -/
def openBrace : Char := Char.ofNat 0x7B

def closeBrace : Char := Char.ofNat 0x7D

namespace Value

mutual

/-- The canonical text of a value, as characters. -/
def textChars : Value → List Char
  | .null => "null".toList
  | .bool true => "true".toList
  | .bool false => "false".toList
  | .int n => intText n
  | .double x => doubleText x
  | .string s => stringText s
  | .array [] => ['[', ']']
  | .array (v :: vs) => '[' :: textChars v ++ itemsText vs
  | .object [] => [openBrace, closeBrace]
  | .object ((k, v) :: fs) => openBrace :: stringText k ++ ':' :: textChars v ++ fieldsText fs

/-- The items after the first, and the closing bracket. -/
def itemsText : List Value → List Char
  | [] => [']']
  | v :: vs => ',' :: textChars v ++ itemsText vs

/-- The fields after the first, and the closing brace. -/
def fieldsText : List (String × Value) → List Char
  | [] => [closeBrace]
  | (k, v) :: fs => ',' :: stringText k ++ ':' :: textChars v ++ fieldsText fs

end

/-- The canonical text of a value. -/
def text (v : Value) : String := String.ofList v.textChars

end Value

end ChangeRelay.Json
