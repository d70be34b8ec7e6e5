import ChangeRelay.Number.Double

/-!
# Shortest decimals

The decimal of a double is the one with the fewest digits among those that round to it, and of
these the nearest. Styles say how such a decimal is laid out.
-/

namespace ChangeRelay

/-- A positive decimal `digits · 10 ^ exponent`. -/
structure Decimal where
  digits : Nat
  exponent : Int
deriving DecidableEq, Repr

namespace Decimal

/-- The numbers that round to `m · 2 ^ q`, as fractions of one denominator; the ends belong to
the interval if `closed`. -/
structure Interval where
  low : Nat
  value : Nat
  high : Nat
  den : Nat
  closed : Bool

/-- The rounding interval of a positive finite double. The gap below a power of two is half the
gap above it. -/
def Interval.around (m : Nat) (q : Int) : Interval :=
  let halfGapBelow := if m = pow2 52 ∧ -1074 < q then 1 else 2
  let (num, den) := if q < 0 then (m, pow2 (-q).toNat) else (m * pow2 q.toNat, 1)
  let unit := if q < 0 then 1 else pow2 q.toNat
  { low := 4 * num - halfGapBelow * unit
    value := 4 * num
    high := 4 * num + 2 * unit
    den := 4 * den
    closed := m % 2 = 0 }

/-- Whether `n · 10 ^ p` lies in the interval. -/
def Interval.contains (i : Interval) (n : Nat) (p : Int) : Bool :=
  let a := if p < 0 then n else n * pow10 p.toNat
  let s := if p < 0 then pow10 (-p).toNat else 1
  let x := a * i.den
  if i.closed then i.low * s ≤ x && x ≤ i.high * s else i.low * s < x && x < i.high * s

/-- The greatest `n` with `n · 10 ^ p` at most the value, and whether the value is nearer to
`n + 1` than to `n`, with the even one of two preferred. -/
def Interval.gridBelow (i : Interval) (p : Int) : Nat × Bool :=
  let num := if p < 0 then i.value * pow10 (-p).toNat else i.value
  let den := if p < 0 then i.den else i.den * pow10 p.toNat
  let n := num / den
  let r := num % den
  (n, den < 2 * r || (den = 2 * r && n % 2 = 1))

/-- A decimal of the grid `10 ^ p` in the interval, the nearer of two. -/
def Interval.onGrid? (i : Interval) (p : Int) : Option Nat :=
  let (n, up) := i.gridBelow p
  let below := i.contains n p && n ≠ 0
  let above := i.contains (n + 1) p
  if below && above then some (if up then n + 1 else n)
  else if below then some n
  else if above then some (n + 1)
  else none

/-- The number of decimal digits of a positive number. -/
def digitCount (n : Nat) : Nat := (Nat.toDigits 10 n).length

/-- The exponent `e` with `10 ^ e ≤ value < 10 ^ (e + 1)`. -/
def Interval.magnitude (i : Interval) : Int :=
  let num := i.value
  if i.den ≤ num then ((digitCount (num / i.den) : Nat) : Int) - 1
  else
    let guess := digitCount (i.den / num)
    if num * pow10 (guess - 1) < i.den then -(guess : Int) else -((guess : Int) - 1)

/-- Drops zeros at the end of the digits; `fuel` bounds their number. -/
def stripZeros : Nat → Nat → Int → Decimal
  | 0, n, e => ⟨n, e⟩
  | fuel + 1, n, e => if n ≠ 0 ∧ n % 10 = 0 then stripZeros fuel (n / 10) (e + 1) else ⟨n, e⟩

/-- Tries grids from `10 ^ p` down, each ten times finer. -/
def Interval.search (i : Interval) : Nat → Int → Decimal
  | 0, p => ⟨(i.gridBelow p).1, p⟩
  | fuel + 1, p =>
    match i.onGrid? p with
    | some n => stripZeros 400 n p
    | none => i.search fuel (p - 1)

/-- The shortest decimal of `m · 2 ^ q`, for positive `m`. -/
def shortest (m : Nat) (q : Int) : Decimal :=
  let i := Interval.around m q
  i.search 20 i.magnitude

/-- How a decimal is laid out. -/
structure Style where
  /-- Powers of ten from which on and below which digits are written positionally; none for
  always. -/
  positional : Option (Int × Int)
  /-- Whether an integral number keeps `.0`. -/
  pointZero : Bool
deriving DecidableEq

/-- The digits with a point after `point` of them, zeros filled in on either side. -/
def layoutPositional (style : Style) (ds : List Char) (point : Int) : List Char :=
  if point ≤ 0 then ['0', '.'] ++ List.replicate (-point).toNat '0' ++ ds
  else
    let n := point.toNat
    if ds.length ≤ n then
      ds ++ List.replicate (n - ds.length) '0' ++ (if style.pointZero then ['.', '0'] else [])
    else ds.take n ++ ['.'] ++ ds.drop n

/-- One digit, a point and the rest, and a signed power of ten. -/
def layoutScientific (ds : List Char) (power : Int) : List Char :=
  let mantissa := match ds with
    | [] => []
    | [d] => [d]
    | d :: rest => d :: '.' :: rest
  mantissa ++ ['e', if power < 0 then '-' else '+'] ++ Nat.toDigits 10 power.natAbs

/-- A decimal in a style. -/
def layout (style : Style) (d : Decimal) : List Char :=
  let ds := Nat.toDigits 10 d.digits
  let power : Int := d.exponent + ds.length - 1
  match style.positional with
  | none => layoutPositional style ds (power + 1)
  | some (first, last) =>
    if first ≤ power ∧ power < last then layoutPositional style ds (power + 1)
    else layoutScientific ds power

end Decimal

/-- The text of a double in a style. -/
def Double.render (style : Decimal.Style) (x : Double) : List Char :=
  match x.reading with
  | .nan => "NaN".toList
  | .infinite neg => (if neg then ['-'] else []) ++ "inf".toList
  | .finite neg m q =>
    (if neg then ['-'] else []) ++
      if m = 0 then '0' :: (if style.pointZero then ['.', '0'] else [])
      else (Decimal.shortest m q).layout style

end ChangeRelay
