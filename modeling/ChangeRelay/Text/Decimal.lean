import ChangeRelay.Number.Power

/-!
# Digits, and decimal numerals of 64-bit words

Reading is exact: an optional plus sign, at least one ASCII digit, and a value that fits.
-/

namespace ChangeRelay.Text

/-- The value of an ASCII digit. -/
def digitValue? (c : Char) : Option Nat :=
  if '0' ≤ c ∧ c ≤ '9' then some (c.toNat - '0'.toNat) else none

/-- The value of a hexadecimal digit. -/
def hexValue? (c : Char) : Option Nat :=
  if '0' ≤ c ∧ c ≤ '9' then some (c.toNat - '0'.toNat)
  else if 'a' ≤ c ∧ c ≤ 'f' then some (c.toNat - 'a'.toNat + 10)
  else if 'A' ≤ c ∧ c ≤ 'F' then some (c.toNat - 'A'.toNat + 10)
  else none

/-- The value of a run of digits read after `acc`; none if another character occurs. -/
def readDigits? (acc : Nat) : List Char → Option Nat
  | [] => some acc
  | c :: rest => (digitValue? c).bind fun d => readDigits? (acc * 10 + d) rest

/-- The value of a nonempty run of digits. -/
def readNat? : List Char → Option Nat
  | [] => none
  | c :: rest => readDigits? 0 (c :: rest)

/-- A numeral with an optional plus sign. -/
def readUnsigned? : List Char → Option Nat
  | '+' :: rest => readNat? rest
  | cs => readNat? cs

/-- The word with this value, if there is one. -/
def wordOfNat? (n : Nat) : Option UInt64 :=
  if n < wordLimit then some (UInt64.ofNat n) else none

/-- A numeral of a 64-bit word. -/
def readWord? (s : String) : Option UInt64 :=
  (readUnsigned? s.toList).bind wordOfNat?

/-- The digits of a number, padded with zeros on the left to at least `width`. -/
def paddedDigits (width n : Nat) : List Char :=
  let ds := Nat.toDigits 10 n
  List.replicate (width - ds.length) '0' ++ ds

end ChangeRelay.Text
