namespace TableView

structure Date where
  year : Int
  month : Nat
  day : Nat
deriving DecidableEq,Repr

namespace Date

def isLeap (year : Int) : Bool := year % 4 = 0 && (year % 100 ≠ 0 || year % 400 = 0)

def daysBefore : Nat → Nat
  | 1 => 0
  | 2 => 31
  | 3 => 59
  | 4 => 90
  | 5 => 120
  | 6 => 151
  | 7 => 181
  | 8 => 212
  | 9 => 243
  | 10 => 273
  | 11 => 304
  | _ => 334

def leapDay (year : Int) : Nat := if isLeap year then 1 else 0

def daysBeforeMonth (year : Int) (month : Nat) : Nat :=
  daysBefore month + if 2 < month then leapDay year else 0

def yearLength (year : Int) : Nat := 365 + leapDay year

def monthLength (year : Int) (month : Nat) : Nat :=
  (if month = 12 then yearLength year else daysBeforeMonth year (month + 1)) -
    daysBeforeMonth year month

def firstYear : Int := -262143
def lastYear : Int := 262142

def Valid (d : Date) : Prop :=
  firstYear ≤ d.year ∧ d.year ≤ lastYear ∧ 1 ≤ d.month ∧ d.month ≤ 12 ∧ 1 ≤ d.day ∧
    d.day ≤ monthLength d.year d.month

instance (d : Date) : Decidable d.Valid := by unfold Valid; infer_instance

def of? (year : Int) (month day : Nat) : Option Date :=
  if Valid ⟨year,month,day⟩ then some ⟨year,month,day⟩ else none

def ordinal (d : Date) : Nat := daysBeforeMonth d.year d.month + d.day

def daysBeforeYear (year : Int) : Int :=
  let y := year - 1
  365 * y + y / 4 - y / 100 + y / 400

def epochDay : Int := 719162

def toDays (d : Date) : Int := daysBeforeYear d.year + d.ordinal - 1 - epochDay

def monthOf (year : Int) (ordinal : Nat) : Nat :=
  ((List.range 13).filter (fun m => 1 ≤ m && daysBeforeMonth year m < ordinal)).length

def ofOrdinal? (year : Int) (ordinal : Nat) : Option Date :=
  if 1 ≤ ordinal && ordinal ≤ yearLength year then
    let month := monthOf year ordinal
    of? year month (ordinal - daysBeforeMonth year month)
  else none

-- The year in which a day lies that is counted from the first day of the year one: whole spans
-- of four hundred years, of a hundred, of four and of one are taken out in turn.
def yearOf (days : Int) : Int :=
  let r := days % 146097
  let centuries := min 3 (r / 36524)
  let r := r - centuries * 36524
  let fours := r / 1461
  let years := min 3 (r % 1461 / 365)
  400 * (days / 146097) + 100 * centuries + 4 * fours + years + 1

def ofDays? (days : Int) : Option Date :=
  let year := yearOf (days + epochDay)
  ofOrdinal? year (days + epochDay - daysBeforeYear year + 1).toNat

-- Days from Monday to a day of the week; the first of January 1970 was a Thursday.
def weekday (d : Date) : Nat := ((d.toDays + 3) % 7).toNat

def daysSince (weekday start : Nat) : Nat := (weekday + 7 - start) % 7

def weekOfYear (start : Nat) (d : Date) : Nat :=
  (d.ordinal + 6 - daysSince d.weekday start) / 7

def quarter (d : Date) : Nat := (d.month + 2) / 3

-- A year of whole weeks has a fifty-third one when it begins with a Thursday, or with a
-- Wednesday if it is a leap year.
def weeksInYear (year : Int) : Nat :=
  let first := ((daysBeforeYear year - epochDay + 3) % 7).toNat
  if first = 3 || (first = 2 && isLeap year) then 53 else 52

def isoWeek (d : Date) : Int × Nat :=
  let week := (d.ordinal + 9 - d.weekday) / 7
  if week = 0 then (d.year - 1,weeksInYear (d.year - 1))
  else if weeksInYear d.year < week then (d.year + 1,1)
  else (d.year,week)

def ofIsoWeek? (year : Int) (week weekday : Nat) : Option Date :=
  if 1 ≤ week && week ≤ weeksInYear year then
    let fourth := daysBeforeYear year - epochDay + 3
    let monday := fourth - (fourth + 3) % 7
    ofDays? (monday + 7 * (week - 1) + weekday)
  else none

end Date

end TableView
