import ChangeRelay.Text.Decimal
import ChangeRelay.Time.Duration

/-!
# Instants

Points in time, written as a date and a time of day in the proleptic Gregorian calendar
(RFC 3339).
-/

namespace ChangeRelay

/-- A point in time, in nanoseconds from the beginning of 1970. -/
structure Instant where
  nanos : Int
  /-- Whether it lies in a leap second, which has the count of the second before it. -/
  leap : Bool := false
deriving DecidableEq, Repr

/-- A day of the calendar. -/
structure Date where
  year : Int
  month : Nat
  day : Nat
deriving DecidableEq, Repr

namespace Date

def isLeap (year : Int) : Bool := year % 4 = 0 && (year % 100 ≠ 0 || year % 400 = 0)

def daysInMonth (year : Int) (month : Nat) : Nat :=
  if month = 2 then (if isLeap year then 29 else 28)
  else if month = 4 || month = 6 || month = 9 || month = 11 then 30
  else 31

/-- Days before a year, counted from the year 0. -/
def daysBeforeYear (year : Int) : Int :=
  let y := year - 1
  365 * year + y / 4 - y / 100 + y / 400 + 1

/-- Days before a month of a year. -/
def daysBeforeMonth (year : Int) (month : Nat) : Nat :=
  ((List.range month).drop 1).foldl (fun n m => n + daysInMonth year m) 0

/-- The number of the first day of 1970. -/
def epoch : Int := daysBeforeYear 1970

/-- Days from the beginning of 1970. -/
def toDays (d : Date) : Int :=
  daysBeforeYear d.year + daysBeforeMonth d.year d.month + (d.day - 1 : Nat) - epoch

/-- The month and day of a year, given how many days of it went by; the month is at least
`month`. -/
def inYear (year : Int) (days month : Nat) : Nat → Date
  | 0 => ⟨year, month, days + 1⟩
  | fuel + 1 =>
    if days < daysInMonth year month then ⟨year, month, days + 1⟩
    else inYear year (days - daysInMonth year month) (month + 1) fuel

/-- The day a number of days after the beginning of 1970. A year is first estimated by its mean
length, which is at most one off. -/
def ofDays (days : Int) : Date :=
  let n := days + epoch
  let guess := n * 400 / 146097
  let year :=
    if n < daysBeforeYear guess then guess - 1
    else if daysBeforeYear (guess + 1) ≤ n then guess + 1
    else guess
  inYear year (n - daysBeforeYear year).toNat 1 11

end Date

namespace Instant

def secondsPerDay : Nat := 86400

/-- Adds a span. -/
def later (t : Instant) (d : Duration) : Instant := { nanos := t.nanos + d.nanos }

/-- Decimal digits of a fraction of a second: none, three, six or nine, as few as will do. -/
def fraction (nanos : Nat) : List Char :=
  if nanos = 0 then []
  else if nanos % 1000000 = 0 then '.' :: Text.paddedDigits 3 (nanos / 1000000)
  else if nanos % 1000 = 0 then '.' :: Text.paddedDigits 6 (nanos / 1000)
  else '.' :: Text.paddedDigits 9 nanos

/-- The year in at least four digits. -/
def yearDigits (year : Int) : List Char :=
  if year < 0 then '-' :: Text.paddedDigits 4 year.natAbs
  else if 9999 < year then '+' :: Text.paddedDigits 4 year.natAbs
  else Text.paddedDigits 4 year.natAbs

/-- Date and time in universal time, followed by the mark of the zone. -/
def text (t : Instant) (zone : String) : String :=
  let secs := t.nanos / Duration.perSecond
  let date := Date.ofDays (secs / secondsPerDay)
  let ofDay := (secs % secondsPerDay).toNat
  let two := Text.paddedDigits 2
  let second := ofDay % 60 + if t.leap then 1 else 0
  String.ofList (yearDigits date.year ++ ['-'] ++ two date.month ++ ['-'] ++
    two date.day ++ ['T'] ++
    two (ofDay / 3600) ++ [':'] ++ two (ofDay % 3600 / 60) ++ [':'] ++ two second ++
    fraction (t.nanos % Duration.perSecond).toNat) ++ zone

/-- Reads a number of exactly `width` digits. -/
def digits? (width : Nat) (cs : List Char) : Option (Nat × List Char) :=
  let ds := cs.take width
  if ds.length = width then (Text.readNat? ds).map fun n => (n, cs.drop width) else none

/-- Reads one of some characters. -/
def mark? (marks : List Char) : List Char → Option (List Char)
  | c :: rest => if marks.contains c then some rest else none
  | [] => none

/-- A fraction in nanoseconds; digits beyond the ninth do not count. -/
def fraction? (cs : List Char) : Option (Nat × List Char) :=
  match cs with
  | '.' :: rest =>
    let ds := rest.takeWhile fun c => '0' ≤ c && c ≤ '9'
    if ds = [] then none
    else (Text.readNat? ((ds ++ List.replicate 9 '0').take 9)).map fun n => (n, rest.drop ds.length)
  | cs => some (0, cs)

/-- The sign that is no hyphen. -/
def minusSign : Char := Char.ofNat 0x2212

/-- The offset of a zone from universal time, in minutes. -/
def zone? (cs : List Char) : Option Int :=
  match cs with
  | ['Z'] | ['z'] => some 0
  | sign :: rest =>
    if sign = '+' || sign = '-' || sign = minusSign then do
      let (hours, rest) ← digits? 2 rest
      let rest ← mark? [':'] rest
      let (minutes, rest) ← digits? 2 rest
      if rest = [] && hours < 24 && minutes < 60 then
        let n : Int := hours * 60 + minutes
        some (if sign = '+' then n else -n)
      else none
    else none
  | [] => none

/-- Reads a date and time with its zone. Any minute may have a leap second. -/
def ofText? (text : String) : Option Instant := do
  let (year, cs) ← digits? 4 text.toList
  let (month, cs) ← digits? 2 (← mark? ['-'] cs)
  let (day, cs) ← digits? 2 (← mark? ['-'] cs)
  let (hour, cs) ← digits? 2 (← mark? ['T', 't', ' '] cs)
  let (minute, cs) ← digits? 2 (← mark? [':'] cs)
  let (second, cs) ← digits? 2 (← mark? [':'] cs)
  let (nanos, cs) ← fraction? cs
  let offset ← zone? cs
  if 1 ≤ month && month ≤ 12 && 1 ≤ day && day ≤ Date.daysInMonth year month &&
      hour < 24 && minute < 60 && second ≤ 60 then
    let days := Date.toDays ⟨year, month, day⟩
    let leap := second = 60
    let time := hour * 3600 + minute * 60 + if leap then 59 else second
    let secs : Int := days * secondsPerDay + time - offset * 60
    some { nanos := secs * Duration.perSecond + nanos, leap }
  else none

end Instant

end ChangeRelay
