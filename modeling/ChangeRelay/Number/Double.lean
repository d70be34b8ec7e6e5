import ChangeRelay.Number.Power

/-!
# Binary floating point of 64 bits

A `Double` is its bit pattern. Every operation reads its operands as exact numbers `± m · 2 ^ q`,
works with those, and rounds the exact result once, to the nearest pattern and to the even one of
two equally near.
-/

namespace ChangeRelay

/-- An IEEE 754 double, by its bits. -/
structure Double where
  bits : UInt64
deriving DecidableEq

/-- What a bit pattern stands for; a finite one for `± m · 2 ^ q`. -/
inductive Double.Reading where
  | nan
  | infinite (neg : Bool)
  | finite (neg : Bool) (m : Nat) (q : Int)
deriving DecidableEq, Repr

namespace Double

/-- The sign bit. -/
def isNegative (x : Double) : Bool := pow2 63 ≤ x.bits.toNat

/-- The eleven exponent bits. -/
def exponentBits (x : Double) : Nat := x.bits.toNat / pow2 52 % pow2 11

/-- The fifty-two fraction bits. -/
def fractionBits (x : Double) : Nat := x.bits.toNat % pow2 52

/-- The number a pattern stands for. -/
def reading (x : Double) : Reading :=
  let e := x.exponentBits
  let f := x.fractionBits
  if e = 2047 then
    if f = 0 then .infinite x.isNegative else .nan
  else if e = 0 then .finite x.isNegative f (-1074)
  else .finite x.isNegative (f + pow2 52) ((e : Int) - 1075)

def isFinite (x : Double) : Bool := x.exponentBits ≠ 2047

def isNaN (x : Double) : Bool := x.exponentBits = 2047 && x.fractionBits ≠ 0

/-- The pattern with this sign and these lower sixty-three bits. -/
def ofMagnitudeBits (neg : Bool) (n : Nat) : Double :=
  ⟨UInt64.ofNat ((if neg then pow2 63 else 0) + n)⟩

/-- Magnitude bits of infinity: everything from here up is out of range. -/
def infinityBits : Nat := 2047 * pow2 52

def infinity (neg : Bool) : Double := ofMagnitudeBits neg infinityBits

def nan : Double := ⟨0x7FF8000000000000⟩

def zero (neg : Bool) : Double := ofMagnitudeBits neg 0

/-- The integer nearest to `num / den`, the even one of two. -/
def roundDiv (num den : Nat) : Nat :=
  let t := num / den
  let r := num % den
  if 2 * r < den then t
  else if den < 2 * r then t + 1
  else if t % 2 = 0 then t else t + 1

/-- `num / den = ratio.1 / ratio.2 · 2 ^ q`, both parts integers. -/
def scaleBy (num den : Nat) (q : Int) : Nat × Nat :=
  if q < 0 then (num * pow2 (-q).toNat, den) else (num, den * pow2 q.toNat)

/-- The exponent `e` with `2 ^ e ≤ num / den < 2 ^ (e + 1)`, for positive `num` and `den`. -/
def binaryExponent (num den : Nat) : Int :=
  let e : Int := (num.log2 : Int) - (den.log2 : Int)
  let s := scaleBy num den e
  if s.1 < s.2 then e - 1 else e

/-- The double nearest to `± num / den`, for a positive `den`. -/
def ofRatio (neg : Bool) (num den : Nat) : Double :=
  if num = 0 then zero neg else
  let e := binaryExponent num den - 52
  let q := if e < -1074 then -1074 else e
  let s := scaleBy num den q
  let n := (q + 1074).toNat * pow2 52 + roundDiv s.1 s.2
  ofMagnitudeBits neg (if n < infinityBits then n else infinityBits)

/-- The double nearest to `± m · 2 ^ q`. -/
def ofScaled (neg : Bool) (m : Nat) (q : Int) : Double :=
  if q < 0 then ofRatio neg m (pow2 (-q).toNat) else ofRatio neg (m * pow2 q.toNat) 1

def ofNat (n : Nat) : Double := ofRatio false n 1

def one : Double := ofNat 1

def neg (x : Double) : Double :=
  ofMagnitudeBits (!x.isNegative) (x.bits.toNat % pow2 63)

/-- The double nearest to `± digits · 10 ^ exponent`; beyond the range, infinity or zero. -/
def ofDecimal (neg : Bool) (digits : Nat) (exponent : Int) : Double :=
  if digits = 0 then zero neg else
  let magnitude : Int := (digits.log2 : Int) / 4 + exponent
  if 400 < magnitude then infinity neg
  else if (digits.log2 : Int) + exponent < -400 then zero neg
  else if exponent < 0 then ofRatio neg digits (pow10 (-exponent).toNat)
  else ofRatio neg (digits * pow10 exponent.toNat) 1

def mul (x y : Double) : Double :=
  match x.reading, y.reading with
  | .finite s m q, .finite t n r => ofScaled (s != t) (m * n) (q + r)
  | .infinite s, .infinite t => infinity (s != t)
  | .infinite s, .finite t n _ => if n = 0 then nan else infinity (s != t)
  | .finite s m _, .infinite t => if m = 0 then nan else infinity (s != t)
  | _, _ => nan

def div (x y : Double) : Double :=
  match x.reading, y.reading with
  | .finite s m q, .finite t n r =>
    if n = 0 then if m = 0 then nan else infinity (s != t)
    else
      let p := q - r
      if p < 0 then ofRatio (s != t) m (n * pow2 (-p).toNat)
      else ofRatio (s != t) (m * pow2 p.toNat) n
  | .infinite s, .finite t _ _ => infinity (s != t)
  | .finite s _ _, .infinite t => zero (s != t)
  | _, _ => nan

/-- A signed multiple of `2 ^ q`. -/
def signed (neg : Bool) (m : Nat) : Int := if neg then -(m : Int) else m

def add (x y : Double) : Double :=
  match x.reading, y.reading with
  | .finite s m q, .finite t n r =>
    let p := if q ≤ r then q else r
    let sum := signed s (m * pow2 (q - p).toNat) + signed t (n * pow2 (r - p).toNat)
    if sum = 0 then zero (s && t) else ofScaled (sum < 0) sum.natAbs p
  | .infinite s, .infinite t => if s = t then infinity s else nan
  | .infinite s, .finite _ _ _ => infinity s
  | .finite _ _ _, .infinite t => infinity t
  | _, _ => nan

/-- The order of two numbers; none if one of them is not a number. -/
def compare? (x y : Double) : Option Ordering :=
  match x.reading, y.reading with
  | .nan, _ | _, .nan => none
  | .infinite s, .infinite t => some (if s = t then .eq else if s then .lt else .gt)
  | .infinite s, .finite _ _ _ => some (if s then .lt else .gt)
  | .finite _ _ _, .infinite t => some (if t then .gt else .lt)
  | .finite s m q, .finite t n r =>
    let p := if q ≤ r then q else r
    let a := signed s (m * pow2 (q - p).toNat)
    let b := signed t (n * pow2 (r - p).toNat)
    some (if a < b then .lt else if a = b then .eq else .gt)

/-- `x ≤ y`; false if either is not a number. -/
def le (x y : Double) : Bool :=
  match compare? x y with
  | some .lt | some .eq => true
  | _ => false

/-- `x < y`; false if either is not a number. -/
def lt (x y : Double) : Bool := compare? x y = some .lt

/-- The integer nearest to a finite number's magnitude times `unit`, the even one of two. -/
def roundTimes (x : Double) (unit : Nat) : Nat :=
  match x.reading with
  | .finite _ m q =>
    if q < 0 then roundDiv (m * unit) (pow2 (-q).toNat) else m * unit * pow2 q.toNat
  | _ => 0

/-- Multiplies `acc` by `x ^ n`, squaring from the lowest bit of `n` up. -/
def powerTimes (acc x : Double) (n : Nat) : Double :=
  let acc := if n % 2 = 1 then acc.mul x else acc
  if _h : n / 2 = 0 then acc else powerTimes acc (x.mul x) (n / 2)
termination_by n

/-- `x ^ n` by repeated squaring, each product rounded. -/
def power (x : Double) (n : Nat) : Double := powerTimes one x n

end Double

end ChangeRelay
