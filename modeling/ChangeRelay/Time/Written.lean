import ChangeRelay.Text.Blank
import ChangeRelay.Text.Quoted
import ChangeRelay.Time.Duration

/-!
# Durations as people write them

A duration is written as spans, such as `1h 30m` or `2.5s`: a number, maybe with a decimal
fraction, and a unit. White space may stand between the parts and inside a number, and it ends a
unit. Reading is exact: a value that is no whole number of nanoseconds is refused.
-/

namespace ChangeRelay

namespace Duration

/-- Units of time. -/
inductive TimeUnit where
  | nano | micro | milli | second | minute | hour | day | week | month | year
deriving DecidableEq, Repr

namespace TimeUnit

/-- The spellings of the units. -/
def spellings : List (TimeUnit × List String) :=
  [(.nano, ["nanos", "nsec", "ns"]),
    (.micro, ["usec", "us", "µs"]),
    (.milli, ["millis", "msec", "ms"]),
    (.second, ["seconds", "second", "secs", "sec", "s"]),
    (.minute, ["minutes", "minute", "min", "mins", "m"]),
    (.hour, ["hours", "hour", "hr", "hrs", "h"]),
    (.day, ["days", "day", "d"]),
    (.week, ["weeks", "week", "wk", "wks", "w"]),
    (.month, ["months", "month", "M"]),
    (.year, ["years", "year", "yr", "yrs", "y"])]

def ofText? (text : String) : Option TimeUnit :=
  (spellings.find? fun p => p.2.contains text).map Prod.fst

/-- The length of a unit in nanoseconds. A month is a twelfth of a year of 365.25 days, rounded to
30.44 days. -/
def nanos : TimeUnit → Nat
  | .nano => 1
  | .micro => 1000
  | .milli => perMilli
  | .second => perSecond
  | .minute => 60 * perSecond
  | .hour => 3600 * perSecond
  | .day => 86400 * perSecond
  | .week => 604800 * perSecond
  | .month => 2630016 * perSecond
  | .year => 31557600 * perSecond

/-- The grain of a unit: long units count in whole seconds, short ones in nanoseconds. -/
def wholeGrain : TimeUnit → Nat
  | .nano | .micro | .milli => 1
  | _ => perSecond

/-- The grain of a unit's fractions. -/
def fractionGrain : TimeUnit → Nat
  | .nano | .micro | .milli | .second | .minute => 1
  | _ => perSecond

end TimeUnit

/-- Why a text is no duration; places are in octets. -/
inductive WrittenFault where
  | empty
  | numberExpected (place : Nat)
  | invalidCharacter (place : Nat)
  | unitMissing (number : Nat)
  | unknownUnit (unit : String)
  | notRepresentable
deriving DecidableEq, Repr

def WrittenFault.message : WrittenFault → String
  | .empty => "value was empty"
  | .numberExpected n => s!"expected number at {n}"
  | .invalidCharacter n => s!"invalid character at {n}"
  | .unitMissing n => s!"time unit needed, for example {n}sec or {n}ms"
  | .unknownUnit u =>
    "unknown time unit " ++ Text.quoted u ++
      ", supported units: ns, us/µs, ms, sec, min, hours, " ++
      "days, weeks, months, years (and few variations)"
  | .notRepresentable =>
    "number is too large or cannot be represented without a lack of precision " ++
      "(values below 1ns are not supported)"

/-- A value that has to fit a word. -/
def wordOr (n : Nat) : Except WrittenFault Nat :=
  if n < wordLimit then .ok n else .error .notRepresentable

/-- A decimal fraction. -/
structure Fraction where
  numerator : Nat
  denominator : Nat
deriving DecidableEq, Repr

/-- Adds whole grains to a total: nanoseconds below a second, and whole seconds, each fit a word. -/
def plus (total : Duration) (count grain : Nat) : Except WrittenFault Duration := do
  let _ ← wordOr (if grain = 1 then total.nanos % perSecond + count else count)
  let sum := total.nanos + count * grain
  let _ ← wordOr (sum / perSecond)
  return ⟨sum⟩

/-- The fraction of a unit in whole grains. -/
def fractionCount (f : Fraction) (unit : TimeUnit) : Except WrittenFault Nat :=
  if unit = .nano then .error .notRepresentable
  else do
    let scaled ← wordOr (f.numerator * (unit.nanos / unit.fractionGrain))
    if scaled % f.denominator = 0 then .ok (scaled / f.denominator)
    else .error .notRepresentable

/-- Adds a span to a total. -/
def addSpan (total : Duration) (number : Nat) (fraction : Option Fraction) (unit : String) :
    Except WrittenFault Duration :=
  if unit = "" then .error (.unitMissing number) else
  match TimeUnit.ofText? unit with
  | none => .error (.unknownUnit unit)
  | some u => do
    let whole ← wordOr (number * (u.nanos / u.wholeGrain))
    let total ← total.plus whole u.wholeGrain
    match fraction with
    | none => return total
    | some f => total.plus (← fractionCount f u) u.fractionGrain

/-- Where a reader is within a span. -/
inductive SpanPart where
  /-- Before a number; `place` is where the blank space before it begins. -/
  | before (place : Nat)
  | number (n : Nat)
  /-- Behind the point; `place` is where the fraction was last known to go on. -/
  | fraction (n : Nat) (read : Fraction) (place : Nat)
  | unit (n : Nat) (fraction : Option Fraction) (letters : List Char)

/-- The spans read so far, if any, and the one being read. -/
structure WrittenReader where
  total : Option Duration := none
  part : SpanPart := .before 0

namespace WrittenReader

def isDigit (c : Char) : Bool := '0' ≤ c && c ≤ '9'

def digit (c : Char) : Nat := c.toNat - 48

def isLetter (c : Char) : Bool := ('a' ≤ c && c ≤ 'z') || ('A' ≤ c && c ≤ 'Z') || c = 'µ'

/-- Ends the span that is being read. -/
def close (r : WrittenReader) (n : Nat) (fraction : Option Fraction) (letters : List Char)
    (next : SpanPart) : Except WrittenFault WrittenReader := do
  let total ← addSpan (r.total.getD ⟨0⟩) n fraction (String.ofList letters.reverse)
  return { total := some total, part := next }

/-- A fraction has to have a digit. -/
def checkFraction (f : Fraction) (place : Nat) : Except WrittenFault Fraction :=
  if f.denominator = 1 then .error (.invalidCharacter place) else .ok f

/-- Reads one character, which stands at `place`. -/
def step (r : WrittenReader) (place : Nat) (c : Char) : Except WrittenFault WrittenReader :=
  let next := place + c.utf8Size
  let goOn (part : SpanPart) : Except WrittenFault WrittenReader := .ok { r with part }
  match r.part with
  | .before start =>
    if isDigit c then goOn (.number (digit c))
    else if Text.isBlank c then .ok r
    else .error (.numberExpected start)
  | .number n =>
    if isDigit c then do
      let n ← wordOr (10 * n + digit c)
      goOn (.number n)
    else if Text.isBlank c then .ok r
    else if isLetter c then goOn (.unit n none [c])
    else if c = '.' then goOn (.fraction n ⟨0, 1⟩ place)
    else .error (.invalidCharacter place)
  | .fraction n f mark =>
    if isDigit c then do
      let denominator ← wordOr (10 * f.denominator)
      let numerator ← wordOr (10 * f.numerator + digit c)
      goOn (.fraction n ⟨numerator, denominator⟩ next)
    else if Text.isBlank c then goOn (.fraction n f next)
    else if isLetter c then do
      let f ← checkFraction f mark
      goOn (.unit n (some f) [c])
    else .error (.invalidCharacter mark)
  | .unit n f letters =>
    if isDigit c then r.close n f letters (.number (digit c))
    else if Text.isBlank c then r.close n f letters (.before next)
    else if isLetter c then goOn (.unit n f (c :: letters))
    else .error (.invalidCharacter place)

/-- The total at the end of the text. -/
def finish (r : WrittenReader) : Except WrittenFault Duration :=
  match r.part with
  | .before _ =>
    match r.total with
    | some total => .ok total
    | none => .error .empty
  | .number n => .error (.unitMissing n)
  | .fraction n f mark => do
    let _ ← checkFraction f mark
    .error (.unitMissing n)
  | .unit n f letters => do
    let total ← addSpan (r.total.getD ⟨0⟩) n f (String.ofList letters.reverse)
    return total

/-- Reads the characters from `place` on. -/
def run (r : WrittenReader) (place : Nat) : List Char → Except WrittenFault Duration
  | [] => r.finish
  | c :: cs => do
    let r ← r.step place c
    run r (place + c.utf8Size) cs

end WrittenReader

/-- Reads a duration. -/
def read (text : String) : Except WrittenFault Duration :=
  if text = "0" then .ok ⟨0⟩ else ({} : WrittenReader).run 0 text.toList

/-- A count with its unit, left out if it is zero. -/
def item (count : Nat) (unit : String) : List String :=
  if count = 0 then [] else [toString count ++ unit]

/-- A count with its unit, which takes an s from two on. -/
def itemPlural (count : Nat) (unit : String) : List String :=
  item count (if 1 < count then unit ++ "s" else unit)

/-- Writes a duration in its largest units. -/
def written (d : Duration) : String :=
  let secs := d.nanos / perSecond
  let nanos := d.nanos % perSecond
  let inYear := secs % 31557600
  let inMonth := inYear % 2630016
  let inDay := inMonth % 86400
  let items := itemPlural (secs / 31557600) "year" ++ itemPlural (inYear / 2630016) "month" ++
    itemPlural (inMonth / 86400) "day" ++ item (inDay / 3600) "h" ++ item (inDay % 3600 / 60) "m" ++
    item (inDay % 60) "s" ++ item (nanos / 1000000) "ms" ++ item (nanos / 1000 % 1000) "us" ++
    item (nanos % 1000) "ns"
  if items = [] then "0s" else String.intercalate " " items

end Duration

end ChangeRelay
