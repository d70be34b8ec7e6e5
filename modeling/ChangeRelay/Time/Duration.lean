import ChangeRelay.Number.Double

/-!
# Durations

Spans of time in whole nanoseconds.
-/

namespace ChangeRelay

/-- A span of time. -/
structure Duration where
  nanos : Nat
deriving DecidableEq, Repr

namespace Duration

def perSecond : Nat := 1000000000

def perMilli : Nat := 1000000

def ofSeconds (n : Nat) : Duration := ⟨n * perSecond⟩

def ofMillis (n : Nat) : Duration := ⟨n * perMilli⟩

/-- Whole milliseconds. -/
def millis (d : Duration) : Nat := d.nanos / perMilli

/-- Seconds as a double: the whole seconds, plus the rest divided by a billion. -/
def seconds (d : Duration) : Double :=
  (Double.ofNat (d.nanos / perSecond)).add
    ((Double.ofNat (d.nanos % perSecond)).div (Double.ofNat perSecond))

/-- The span of a number of seconds, rounded to the nearest nanosecond. -/
def ofSecondsDouble (x : Double) : Duration := ⟨x.roundTimes perSecond⟩

/-- The shorter of two spans. -/
def shorter (a b : Duration) : Duration := if a.nanos ≤ b.nanos then a else b

/-- The decimal places of a fraction of a unit, without zeros at the end. -/
def fractionDigits (width rest : Nat) : List Char :=
  let ds := Nat.toDigits 10 rest
  let padded := List.replicate (width - ds.length) '0' ++ ds
  (padded.reverse.dropWhile (· = '0')).reverse

/-- A span in its largest unit from seconds down, with the decimal places that it needs. -/
def text (d : Duration) : String :=
  let n := d.nanos
  let inUnit (per width : Nat) (unit : String) : String :=
    let fraction := fractionDigits width (n % per)
    toString (n / per) ++ String.ofList (if fraction = [] then [] else '.' :: fraction) ++ unit
  if perSecond ≤ n then inUnit perSecond 9 "s"
  else if perMilli ≤ n then inUnit perMilli 6 "ms"
  else if 1000 ≤ n then inUnit 1000 3 "µs"
  else inUnit 1 0 "ns"

end Duration

end ChangeRelay
