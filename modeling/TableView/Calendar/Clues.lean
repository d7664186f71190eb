import TableView.Calendar.Date
import TableView.Number.Binary64

namespace TableView

-- A piece that is told twice has to be told alike, and pieces beyond those that determine the date
-- have to be true of it.
structure Clues where
  year : Option Int := none
  century : Option Int := none
  yearOfCentury : Option Int := none
  isoYear : Option Int := none
  isoYearOfCentury : Option Int := none
  quarter : Option Nat := none
  month : Option Nat := none
  weekFromSunday : Option Nat := none
  weekFromMonday : Option Nat := none
  isoWeek : Option Nat := none
  weekday : Option Nat := none
  ordinal : Option Nat := none
  day : Option Nat := none
  halfDay : Option Nat := none
  hourOfHalf : Option Nat := none
  minute : Option Nat := none
  second : Option Nat := none
  nanosecond : Option Nat := none
  timestamp : Option Int := none
  offset : Option Int := none
deriving DecidableEq,Repr

inductive ClueFault where
  | missing
  | impossible
deriving DecidableEq,Repr

namespace Clues

def agree [DecidableEq α] (known : Option α) (told : α) : Option (Option α) :=
  if known.all (· = told) then some (some told) else none

def inInt32 (v : Int) : Bool := -2 ^ 31 ≤ v && v < 2 ^ 31

def inInt64 (v : Int) : Bool := -2 ^ 63 ≤ v && v < 2 ^ 63

def tellYear (v : Int) (c : Clues) : Option Clues :=
  if inInt32 v then (agree c.year v).map (fun y => { c with year := y }) else none

def tellIsoYear (v : Int) (c : Clues) : Option Clues :=
  if inInt32 v then (agree c.isoYear v).map (fun y => { c with isoYear := y }) else none

def tellCentury (v : Nat) (c : Clues) : Option Clues :=
  (agree c.century v).map (fun y => { c with century := y })

def tellYearOfCentury (v : Nat) (c : Clues) : Option Clues :=
  (agree c.yearOfCentury v).map (fun y => { c with yearOfCentury := y })

def tellIsoYearOfCentury (v : Nat) (c : Clues) : Option Clues :=
  (agree c.isoYearOfCentury v).map (fun y => { c with isoYearOfCentury := y })

def tellQuarter (v : Nat) (c : Clues) : Option Clues :=
  if 1 ≤ v && v ≤ 4 then (agree c.quarter v).map (fun q => { c with quarter := q }) else none

def tellMonth (v : Nat) (c : Clues) : Option Clues :=
  if 1 ≤ v && v ≤ 12 then (agree c.month v).map (fun m => { c with month := m }) else none

def tellDay (v : Nat) (c : Clues) : Option Clues :=
  if 1 ≤ v && v ≤ 31 then (agree c.day v).map (fun d => { c with day := d }) else none

def tellWeekFromSunday (v : Nat) (c : Clues) : Option Clues :=
  if v ≤ 53 then (agree c.weekFromSunday v).map (fun w => { c with weekFromSunday := w }) else none

def tellWeekFromMonday (v : Nat) (c : Clues) : Option Clues :=
  if v ≤ 53 then (agree c.weekFromMonday v).map (fun w => { c with weekFromMonday := w }) else none

def tellIsoWeek (v : Nat) (c : Clues) : Option Clues :=
  if 1 ≤ v && v ≤ 53 then (agree c.isoWeek v).map (fun w => { c with isoWeek := w }) else none

def tellWeekday (v : Nat) (c : Clues) : Option Clues :=
  if v ≤ 6 then (agree c.weekday v).map (fun w => { c with weekday := w }) else none

def tellOrdinal (v : Nat) (c : Clues) : Option Clues :=
  if 1 ≤ v && v ≤ 366 then (agree c.ordinal v).map (fun o => { c with ordinal := o }) else none

def tellHalfDay (v : Nat) (c : Clues) : Option Clues :=
  (agree c.halfDay v).map (fun h => { c with halfDay := h })

def tellHourOfHalf (v : Nat) (c : Clues) : Option Clues :=
  if 1 ≤ v && v ≤ 12 then
    (agree c.hourOfHalf (v % 12)).map (fun h => { c with hourOfHalf := h })
  else none

def tellHour (v : Nat) (c : Clues) : Option Clues :=
  if v ≤ 23 then do
    let half ← agree c.halfDay (v / 12)
    let hour ← agree c.hourOfHalf (v % 12)
    some { c with halfDay := half,hourOfHalf := hour }
  else none

def tellMinute (v : Nat) (c : Clues) : Option Clues :=
  if v ≤ 59 then (agree c.minute v).map (fun m => { c with minute := m }) else none

-- Sixty stands for a leap second.
def tellSecond (v : Nat) (c : Clues) : Option Clues :=
  if v ≤ 60 then (agree c.second v).map (fun s => { c with second := s }) else none

def tellNanosecond (v : Nat) (c : Clues) : Option Clues :=
  if v < 10 ^ 9 then (agree c.nanosecond v).map (fun n => { c with nanosecond := n }) else none

def tellTimestamp (v : Int) (c : Clues) : Option Clues :=
  if inInt64 v then (agree c.timestamp v).map (fun t => { c with timestamp := t }) else none

def tellOffset (v : Int) (c : Clues) : Option Clues :=
  (agree c.offset v).map (fun o => { c with offset := o })

-- A year from the year itself, its century and its place in the century. Two digits alone stand
-- for a year from 1970 to 2069.
def resolveYear : Option Int → Option Int → Option Int → Except ClueFault (Option Int)
  | y,none,none => .ok y
  | some y,q,r =>
    if 0 ≤ y && q.all (· = y / 100) && r.all (· = y % 100) then .ok (some y)
    else .error .impossible
  | none,some q,some r =>
    if inInt32 (q * 100 + r) then .ok (some (q * 100 + r)) else .error .impossible
  | none,none,some r => .ok (some (if r < 70 then r + 2000 else r + 1900))
  | none,some _,none => .error .missing

def agreesYear (century yearOfCentury : Option Int) (year : Int) : Bool :=
  if 0 ≤ year then century.all (· = year / 100) && yearOfCentury.all (· = year % 100)
  else century.isNone && yearOfCentury.isNone

def agreesDay (c : Clues) (d : Date) : Bool :=
  c.year.all (· = d.year) && agreesYear c.century c.yearOfCentury d.year &&
    c.month.all (· = d.month) && c.day.all (· = d.day)

def agreesIsoWeek (c : Clues) (d : Date) : Bool :=
  let (year,week) := d.isoWeek
  c.isoYear.all (· = year) && agreesYear none c.isoYearOfCentury year &&
    c.isoWeek.all (· = week) && c.weekday.all (· = d.weekday)

def sunday : Nat := 6
def monday : Nat := 0

def agreesOrdinal (c : Clues) (d : Date) : Bool :=
  c.ordinal.all (· = d.ordinal) && c.weekFromSunday.all (· = d.weekOfYear sunday) &&
    c.weekFromMonday.all (· = d.weekOfYear monday)

def orImpossible (o : Option α) : Except ClueFault α :=
  match o with
  | some a => .ok a
  | none => .error .impossible

def ofWeek (year : Int) (week weekday start : Nat) : Option Date :=
  let first := ((Date.daysBeforeYear year - Date.epochDay + 3) % 7).toNat
  let ordinal : Int := 1 + Date.daysSince start first + ((week : Int) - 1) * 7 +
    Date.daysSince weekday start
  if 0 < ordinal then Date.ofOrdinal? year ordinal.toNat else none

def candidate (c : Clues) (year isoYear : Option Int) : Except ClueFault (Bool × Date) := do
  match year,c.month,c.day with
  | some y,some m,some d =>
    let date ← orImpossible (Date.of? y m d)
    return (c.agreesIsoWeek date && c.agreesOrdinal date,date)
  | _,_,_ =>
    let full (date : Date) : Bool × Date :=
      (c.agreesDay date && c.agreesIsoWeek date && c.agreesOrdinal date,date)
    match year,c.ordinal with
    | some y,some o => return full (← orImpossible (Date.ofOrdinal? y o))
    | _,_ =>
      match year,c.weekFromSunday,c.weekday with
      | some y,some w,some d => return full (← orImpossible (ofWeek y w d sunday))
      | _,_,_ =>
        match year,c.weekFromMonday,c.weekday with
        | some y,some w,some d => return full (← orImpossible (ofWeek y w d monday))
        | _,_,_ =>
          match isoYear,c.isoWeek,c.weekday with
          | some y,some w,some d =>
            let date ← orImpossible (Date.ofIsoWeek? y w d)
            return (c.agreesDay date && c.agreesOrdinal date,date)
          | _,_,_ => throw .missing

def toDate (c : Clues) : Except ClueFault Date := do
  let year ← resolveYear c.year c.century c.yearOfCentury
  let isoYear ← resolveYear c.isoYear none c.isoYearOfCentury
  let (agrees,date) ← candidate c year isoYear
  if agrees && c.quarter.all (· = date.quarter) then .ok date else .error .impossible

structure TimeOfDay where
  seconds : Nat
  leap : Bool
deriving DecidableEq,Repr

-- Hour and minute are needed. Parts of a second count for nothing, but need the second.
def toTime (c : Clues) : Except ClueFault TimeOfDay :=
  match c.halfDay,c.hourOfHalf,c.minute with
  | some half,some hour,some minute =>
    if c.second.isNone && c.nanosecond.isSome then .error .missing
    else
      let second := c.second.getD 0
      .ok ⟨(half * 12 + hour) * 3600 + minute * 60 + min second 59,second = 60⟩
  | _,_,_ => .error .missing

def secondsPerDay : Int := 86400

-- Seconds of local time since the start of 1970. A leap second counts as the one before it.
def localSeconds (d : Date) (t : TimeOfDay) : Int := d.toDays * secondsPerDay + t.seconds

def withSeconds (c : Clues) (seconds : Int) : Option Clues := do
  let date ← Date.ofDays? (seconds / secondsPerDay)
  let time := (seconds % secondsPerDay).toNat
  let c ← if c.second = some 60 then some c else c.tellSecond (time % 60)
  let c ← c.tellYear date.year
  let c ← c.tellOrdinal date.ordinal
  let c ← c.tellHour (time / 3600)
  c.tellMinute (time / 60 % 60)

-- A leap second is the last second of a minute; a count of seconds may give the one behind it.
def leapShift (c : Clues) (seconds : Int) : Option Int :=
  if c.second = some 60 then
    if seconds % 60 = 59 then some seconds
    else if seconds % 60 = 0 then some (seconds - 1)
    else none
  else some seconds

def toLocal (c : Clues) (offset : Int) : Except ClueFault Int :=
  match c.toDate,c.toTime,c.timestamp with
  | .ok d,.ok t,given =>
    let here := localSeconds d t
    if given.all (fun g => g = here - offset || (t.leap && g = here - offset + 1)) then .ok here
    else .error .impossible
  | .error .impossible,_,some _ => .error .impossible
  | _,.error .impossible,some _ => .error .impossible
  | _,_,some given => do
    let shifted ← orImpossible (if inInt64 (given + offset) then some (given + offset) else none)
    let _ ← orImpossible (Date.ofDays? (shifted / secondsPerDay))
    let seconds ← orImpossible (c.leapShift shifted)
    let c ← orImpossible (c.withSeconds seconds)
    return localSeconds (← c.toDate) (← c.toTime)
  | .error e,_,none => .error e
  | _,.error e,none => .error e

def toInstant (c : Clues) : Option Int :=
  match c.offset,c.timestamp with
  | none,none => none
  | offset,_ =>
    let offset := offset.getD 0
    match c.toLocal offset with
    | .error _ => none
    | .ok here =>
      if -secondsPerDay < offset && offset < secondsPerDay then
        (Date.ofDays? ((here - offset) / secondsPerDay)).map (fun _ => here - offset)
      else none

end Clues

end TableView
