/-
The proleptic Gregorian calendar.  Days are counted from 1970-01-01.  A year is
taken to begin in March, so that the leap day comes last and the 400-year cycle
of 146097 days splits evenly.
-/

namespace SeriesWire

structure Date where
  year : Int
  month : Nat
  day : Nat
  deriving DecidableEq, Repr

namespace Date

/-- Days from the March that begins the cycle of year 0 to 1970-01-01. -/
def epochShift : Int := 719468

def ofDays (days : Int) : Date :=
  let shifted := days + epochShift
  let cycle := shifted / 146097
  let dayOfCycle := (shifted % 146097).toNat
  let yearOfCycle :=
    (dayOfCycle - dayOfCycle / 1460 + dayOfCycle / 36524 - dayOfCycle / 146096) / 365
  let dayOfYear := dayOfCycle - (365 * yearOfCycle + yearOfCycle / 4 - yearOfCycle / 100)
  let marchMonth := (5 * dayOfYear + 2) / 153
  let month := if marchMonth < 10 then marchMonth + 3 else marchMonth - 9
  { year := cycle * 400 + yearOfCycle + if month ≤ 2 then 1 else 0
    month
    day := dayOfYear - (153 * marchMonth + 2) / 5 + 1 }

def toDays (d : Date) : Int :=
  let marchYear := if d.month ≤ 2 then d.year - 1 else d.year
  let cycle := marchYear / 400
  let yearOfCycle := (marchYear % 400).toNat
  let marchMonth := if d.month ≤ 2 then d.month + 9 else d.month - 3
  let dayOfYear := (153 * marchMonth + 2) / 5 + (d.day - 1)
  let dayOfCycle := 365 * yearOfCycle + yearOfCycle / 4 - yearOfCycle / 100 + dayOfYear
  cycle * 146097 + dayOfCycle - epochShift

end Date

def zeroPadded (width n : Nat) : String :=
  let digits := (Nat.repr n).toList
  String.ofList (List.replicate (width - digits.length) '0' ++ digits)

/-- A year has at least four digits; one above 9999 carries a plus sign. -/
def yearText (year : Int) : String :=
  if 9999 < year then "+" ++ Nat.repr year.toNat
  else if year < 0 then "-" ++ zeroPadded 4 year.natAbs
  else zeroPadded 4 year.toNat

def Date.text (d : Date) : String :=
  s!"{yearText d.year}-{zeroPadded 2 d.month}-{zeroPadded 2 d.day}"

structure Instant where
  micros : Int
  deriving DecidableEq, Repr

namespace Instant

def microsPerDay : Int := 86400000000

/-- First and last day of the calendar. -/
def firstDay : Date := ⟨-262143, 1, 1⟩

def lastDay : Date := ⟨262142, 12, 31⟩

def ofMicros? (micros : Int) : Option Instant :=
  if firstDay.toDays * microsPerDay ≤ micros ∧ micros < (lastDay.toDays + 1) * microsPerDay then
    some ⟨micros⟩
  else
    none

def date (t : Instant) : Date := Date.ofDays (t.micros / microsPerDay)

/-- Microseconds since midnight. -/
def timeOfDay (t : Instant) : Nat := (t.micros % microsPerDay).toNat

/-- Date and time of day, the seconds with `places` fraction digits, at most
six. -/
def text (places : Nat) (t : Instant) : String :=
  let micros := t.timeOfDay
  let seconds := micros / 1000000
  let clock := s!"{zeroPadded 2 (seconds / 3600)}:{zeroPadded 2 (seconds / 60 % 60)}:"
  let fraction := zeroPadded places (micros % 1000000 / Nat.pow 10 (6 - places))
  t.date.text ++ "T" ++ clock ++ zeroPadded 2 (seconds % 60) ++ "." ++ fraction ++ "Z"

end Instant
end SeriesWire
