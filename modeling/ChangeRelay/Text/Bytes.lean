import ChangeRelay.Text.Decimal
import ChangeRelay.Text.Quoted

/-!
# Octets, UTF-8 and hexadecimal

`decodeUtf8` accepts exactly the well-formed UTF-8 sequences and otherwise says where the first
ill-formed one starts and how long it is.
-/

namespace ChangeRelay

/-- A sequence of octets. -/
abbrev Bytes := List UInt8

namespace Text

/-- The UTF-8 encoding of a text. -/
def encodeUtf8 (s : String) : Bytes := s.toList.flatMap String.utf8EncodeChar

/-- The first ill-formed sequence of an octet string. -/
structure Utf8Fault where
  /-- Offset at which it starts. -/
  index : Nat
  /-- Its length; none if the text ends inside it. -/
  length : Option Nat
deriving DecidableEq, Repr

def Utf8Fault.message (f : Utf8Fault) : String :=
  match f.length with
  | some n => s!"invalid utf-8 sequence of {n} bytes from index {f.index}"
  | none => s!"incomplete utf-8 byte sequence from index {f.index}"

/-- An octet that continues a sequence. -/
def isTail (b : UInt8) : Bool := 0x80 ≤ b && b ≤ 0xBF

/-- The six payload bits of a continuation octet. -/
def tailBits (b : UInt8) : Nat := b.toNat % 64

/-- Whether `b` may follow the leading octet `a` of a sequence of three. -/
def secondOfThree (a b : UInt8) : Bool :=
  if a = 0xE0 then 0xA0 ≤ b && b ≤ 0xBF
  else if a = 0xED then 0x80 ≤ b && b ≤ 0x9F
  else isTail b

/-- Whether `b` may follow the leading octet `a` of a sequence of four. -/
def secondOfFour (a b : UInt8) : Bool :=
  if a = 0xF0 then 0x90 ≤ b && b ≤ 0xBF
  else if a = 0xF4 then 0x80 ≤ b && b ≤ 0x8F
  else isTail b

/-- Decodes octets that start at offset `index` of a longer text. -/
def decodeUtf8From (index : Nat) (bytes : Bytes) : Except Utf8Fault (List Char) :=
  match bytes with
  | [] => .ok []
  | a :: rest =>
    if a < 0x80 then do
      return Char.ofNat a.toNat :: (← decodeUtf8From (index + 1) rest)
    else if 0xC2 ≤ a && a ≤ 0xDF then
      match rest with
      | [] => .error ⟨index, none⟩
      | b :: rest =>
        if !isTail b then .error ⟨index, some 1⟩ else do
        return Char.ofNat ((a.toNat - 0xC0) * 64 + tailBits b) ::
          (← decodeUtf8From (index + 2) rest)
    else if 0xE0 ≤ a && a ≤ 0xEF then
      match rest with
      | [] => .error ⟨index, none⟩
      | b :: rest =>
        if !secondOfThree a b then .error ⟨index, some 1⟩ else
        match rest with
        | [] => .error ⟨index, none⟩
        | c :: rest =>
          if !isTail c then .error ⟨index, some 2⟩ else do
          return Char.ofNat (((a.toNat - 0xE0) * 64 + tailBits b) * 64 + tailBits c) ::
            (← decodeUtf8From (index + 3) rest)
    else if 0xF0 ≤ a && a ≤ 0xF4 then
      match rest with
      | [] => .error ⟨index, none⟩
      | b :: rest =>
        if !secondOfFour a b then .error ⟨index, some 1⟩ else
        match rest with
        | [] => .error ⟨index, none⟩
        | c :: rest =>
          if !isTail c then .error ⟨index, some 2⟩ else
          match rest with
          | [] => .error ⟨index, none⟩
          | d :: rest =>
            if !isTail d then .error ⟨index, some 3⟩ else do
            return Char.ofNat
                ((((a.toNat - 0xF0) * 64 + tailBits b) * 64 + tailBits c) * 64 + tailBits d) ::
              (← decodeUtf8From (index + 4) rest)
    else .error ⟨index, some 1⟩
termination_by structural bytes

/-- The text that octets encode. -/
def decodeUtf8 (bytes : Bytes) : Except Utf8Fault String :=
  (decodeUtf8From 0 bytes).map String.ofList

/-- Two lowercase hexadecimal digits per octet. -/
def hex (bytes : Bytes) : String :=
  String.ofList <| bytes.flatMap fun b =>
    [Nat.digitChar (b.toNat / 16), Nat.digitChar (b.toNat % 16)]

/-- Reads pairs of hexadecimal digits. -/
def ofHexChars? : List Char → Option Bytes
  | [] => some []
  | [_] => none
  | a :: b :: rest => do
    let hi ← hexValue? a
    let lo ← hexValue? b
    return UInt8.ofNat (hi * 16 + lo) :: (← ofHexChars? rest)

/-- The octets written in hexadecimal. -/
def ofHex? (s : String) : Option Bytes := ofHexChars? s.toList

end Text

end ChangeRelay
