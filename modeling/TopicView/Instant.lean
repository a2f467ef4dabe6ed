import TopicView.Text.Numeral

/-!
# Instants

Timestamps as dates and times of the proleptic Gregorian calendar, in universal time.
-/

namespace TopicView

open Numeral (padded)

/-- A date and a time of day to the millisecond. -/
structure Instant where
  year : Int
  month : Nat
  day : Nat
  hour : Nat
  minute : Nat
  second : Nat
  milli : Nat
  deriving DecidableEq, Repr

namespace Instant

/-! ## Calendar -/

/-- Years begin in March here, so that the leap day is the last day of its year; a cycle of 400
years has 146097 days.  `n` counts days from 1 March of year zero. -/
def civil (n : Int) : Int × Nat × Nat :=
  let cycle := n / 146097
  let dayOfCycle := (n % 146097).toNat
  let yearOfCycle :=
    (dayOfCycle - dayOfCycle / 1460 + dayOfCycle / 36524 - dayOfCycle / 146096) / 365
  let dayOfYear := dayOfCycle - (365 * yearOfCycle + yearOfCycle / 4 - yearOfCycle / 100)
  let monthFromMarch := (5 * dayOfYear + 2) / 153
  let day := dayOfYear - (153 * monthFromMarch + 2) / 5 + 1
  let month := if monthFromMarch < 10 then monthFromMarch + 3 else monthFromMarch - 9
  (cycle * 400 + yearOfCycle + (if month ≤ 2 then 1 else 0), month, day)

/-- Days from 1 March of year zero to the epoch. -/
def epochDay : Int := 719468

def ofMillis (ms : Int) : Instant :=
  let (year, month, day) := civil (ms / 86400000 + epochDay)
  let rest := (ms % 86400000).toNat
  ⟨year, month, day, rest / 3600000, rest / 60000 % 60, rest / 1000 % 60, rest % 1000⟩

/-- Years that a timestamp may fall into. -/
def firstYear : Int := -262143

def lastYear : Int := 262142

def ofTimestamp? (ms : Int64) : Option Instant :=
  let instant := ofMillis ms.toInt
  if firstYear ≤ instant.year ∧ instant.year ≤ lastYear then some instant else none

/-! ## Text -/

/-- Years of other than four digits carry a sign. -/
def yearText (year : Int) : List Char :=
  if 0 ≤ year ∧ year ≤ 9999 then padded 4 year.toNat
  else (if year < 0 then '-' else '+') :: padded 4 year.natAbs

def date (i : Instant) : List Char :=
  yearText i.year ++ '-' :: padded 2 i.month ++ '-' :: padded 2 i.day

def clock (i : Instant) : List Char :=
  padded 2 i.hour ++ ':' :: padded 2 i.minute ++ ':' :: padded 2 i.second

def fraction (i : Instant) : List Char := '.' :: padded 3 i.milli

/-- The form of interchange, with a fraction only where it is not zero. -/
def exchangeText (i : Instant) : String :=
  String.ofList (i.date ++ 'T' :: i.clock ++ (if i.milli = 0 then [] else i.fraction) ++ ['Z'])

/-- The form of tables. -/
def tableText (i : Instant) : String :=
  String.ofList (i.date ++ ' ' :: i.clock ++ i.fraction)

end Instant
end TopicView
