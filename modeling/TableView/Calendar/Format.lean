import TableView.Calendar.Scan

namespace TableView.Calendar

inductive Numeral where
  | year
  | century
  | yearOfCentury
  | isoYear
  | isoYearOfCentury
  | quarter
  | month
  | day
  | weekFromSunday
  | weekFromMonday
  | isoWeek
  | weekdayFromSunday
  | weekdayFromMonday
  | ordinal
  | hour
  | hourOfHalf
  | minute
  | second
  | nanosecond
  | timestamp
deriving DecidableEq,Repr

inductive Item where
  | literal (text : List Char)
  | blanks
  | numeral (n : Numeral)
  | shortMonth
  | longMonth
  | shortWeekday
  | longWeekday
  | halfDay
  | fraction
  | pointFraction (digits : Nat)
  | bareFraction (digits : Nat)
  | zoneName
  | offset
  | looseOffset
  | instant
deriving DecidableEq,Repr

namespace Item

def sign (c : Char) : Item := literal [c]

def dateParts (divider : Char) (a b c : Numeral) : List Item :=
  [numeral a,sign divider,numeral b,sign divider,numeral c]

def clock : List Item := dateParts ':' .hour .minute .second

def ofLetter? : Char → Option (List Item)
  | 'A' => some [longWeekday]
  | 'B' => some [longMonth]
  | 'C' => some [numeral .century]
  | 'D' => some (dateParts '/' .month .day .yearOfCentury)
  | 'F' => some (dateParts '-' .year .month .day)
  | 'G' => some [numeral .isoYear]
  | 'H' => some [numeral .hour]
  | 'I' => some [numeral .hourOfHalf]
  | 'M' => some [numeral .minute]
  | 'P' => some [halfDay]
  | 'R' => some [numeral .hour,sign ':',numeral .minute]
  | 'S' => some [numeral .second]
  | 'T' => some clock
  | 'U' => some [numeral .weekFromSunday]
  | 'V' => some [numeral .isoWeek]
  | 'W' => some [numeral .weekFromMonday]
  | 'X' => some clock
  | 'Y' => some [numeral .year]
  | 'Z' => some [zoneName]
  | 'a' => some [shortWeekday]
  | 'b' => some [shortMonth]
  | 'c' => some ([shortWeekday,blanks,shortMonth,blanks,numeral .day,blanks] ++ clock ++
      [blanks,numeral .year])
  | 'd' => some [numeral .day]
  | 'e' => some [numeral .day]
  | 'f' => some [numeral .nanosecond]
  | 'g' => some [numeral .isoYearOfCentury]
  | 'h' => some [shortMonth]
  | 'j' => some [numeral .ordinal]
  | 'k' => some [numeral .hour]
  | 'l' => some [numeral .hourOfHalf]
  | 'm' => some [numeral .month]
  | 'n' => some [blanks]
  | 'p' => some [halfDay]
  | 'q' => some [numeral .quarter]
  | 'r' => some (dateParts ':' .hourOfHalf .minute .second ++ [blanks,halfDay])
  | 's' => some [numeral .timestamp]
  | 't' => some [blanks]
  | 'u' => some [numeral .weekdayFromMonday]
  | 'v' => some [numeral .day,sign '-',shortMonth,sign '-',numeral .year]
  | 'w' => some [numeral .weekdayFromSunday]
  | 'x' => some (dateParts '/' .month .day .yearOfCentury)
  | 'y' => some [numeral .yearOfCentury]
  | 'z' => some [offset]
  | '+' => some [instant]
  | '%' => some [sign '%']
  | _ => none

-- A sign in front of the letter asks for other padding, which only single numbers have.
def padded? (c : Char) : Option (List Item) :=
  match ofLetter? c with
  | some [numeral n] => some [numeral n]
  | _ => none

def isPadding (c : Char) : Bool := c = '-' || c = '0' || c = '_'

def fractionDigits? (c : Char) : Option Nat :=
  if c = '3' then some 3 else if c = '6' then some 6 else if c = '9' then some 9 else none

def ofSpecifier? : List Char → Option (List Item × List Char)
  | '#' :: 'z' :: rest => some ([looseOffset],rest)
  | ':' :: ':' :: ':' :: 'z' :: rest => some ([offset],rest)
  | ':' :: ':' :: 'z' :: rest => some ([offset],rest)
  | ':' :: 'z' :: rest => some ([offset],rest)
  | '.' :: 'f' :: rest => some ([fraction],rest)
  | '.' :: d :: 'f' :: rest => (fractionDigits? d).map (fun n => ([pointFraction n],rest))
  | c :: d :: rest =>
    if isPadding c then (padded? d).map (fun items => (items,rest))
    else if d = 'f' && (fractionDigits? c).isSome then
      (fractionDigits? c).map (fun n => ([bareFraction n],rest))
    else (ofLetter? c).map (fun items => (items,d :: rest))
  | [c] => (ofLetter? c).map (fun items => (items,[]))
  | [] => none

end Item

abbrev Format := List Item

namespace Format

def read : Nat → List Char → Option Format
  | 0,_ => none
  | _,[] => some []
  | fuel + 1,c :: rest =>
    if c = '%' then
      (Item.ofSpecifier? rest).bind (fun (items,rest) => (read fuel rest).map (items ++ ·))
    else if Text.isBlank c then (read fuel rest).map (Item.blanks :: ·)
    else (read fuel rest).map (Item.sign c :: ·)

def ofChars? (text : List Char) : Option Format := read (text.length + 1) text

end Format

namespace Numeral

def tell (v : Nat) (c : Clues) : Numeral → Option Clues
  | year => c.tellYear v
  | century => c.tellCentury v
  | yearOfCentury => c.tellYearOfCentury v
  | isoYear => c.tellIsoYear v
  | isoYearOfCentury => c.tellIsoYearOfCentury v
  | quarter => c.tellQuarter v
  | month => c.tellMonth v
  | day => c.tellDay v
  | weekFromSunday => c.tellWeekFromSunday v
  | weekFromMonday => c.tellWeekFromMonday v
  | isoWeek => c.tellIsoWeek v
  | weekdayFromSunday => if v ≤ 6 then c.tellWeekday ((v + 6) % 7) else none
  | weekdayFromMonday => if 1 ≤ v then c.tellWeekday (v - 1) else none
  | ordinal => c.tellOrdinal v
  | hour => c.tellHour v
  | hourOfHalf => c.tellHourOfHalf v
  | minute => c.tellMinute v
  | second => c.tellSecond v
  | nanosecond => c.tellNanosecond v
  | timestamp => c.tellTimestamp v

def width : Numeral → Option Nat
  | year | isoYear => some 4
  | quarter | weekdayFromSunday | weekdayFromMonday => some 1
  | ordinal => some 3
  | nanosecond => some 9
  | timestamp => none
  | _ => some 2

def scan (c : Clues) (text : List Char) : Numeral → Option (Clues × List Char)
  | year => do
    let (v,rest) ← Scan.signedNumber 4 text
    (c.tellYear v).map (fun c => (c,rest))
  | isoYear => do
    let (v,rest) ← Scan.signedNumber 4 text
    (c.tellIsoYear v).map (fun c => (c,rest))
  | n => do
    let (v,rest) ← Scan.number n.width text
    (n.tell v c).map (fun c => (c,rest))

end Numeral

namespace Item

def told (scan : Option (α × List Char)) (tell : α → Option Clues) :
    Option (Clues × List Char) := do
  let (v,rest) ← scan
  (tell v).map (fun c => (c,rest))

def behindPoint (c : Clues) (text : List Char) (scan : Scan Nat) : Option (Clues × List Char) :=
  match text with
  | '.' :: rest => told (scan rest) (fun v => c.tellNanosecond v)
  | _ => some (c,text)

-- The instant in its parts: numbers of any width, blanks between them, and an offset that may
-- also be three letters.
def dateItems : List Numeral := [.year,.month,.day]

def clockItems : List Numeral := [.hour,.minute,.second]

def numerals (divider : Char) : List Numeral → Clues → List Char → Option (Clues × List Char)
  | [],c,text => some (c,text)
  | [n],c,text => n.scan c (Text.Chars.trimStart text)
  | n :: rest,c,text => do
    let (c,text) ← n.scan c (Text.Chars.trimStart text)
    let (_,text) ← Scan.sign divider (Text.Chars.trimStart text)
    numerals divider rest c text

def isDateEnd (c : Char) : Bool := c = 't' || c = 'T' || c = ' '

def looseInstant (c : Clues) (text : List Char) : Option (Clues × List Char) := do
  let (c,text) ← numerals '-' dateItems c text
  let text ← match text with
    | d :: rest => if isDateEnd d then some rest else none
    | [] => none
  let (c,text) ← numerals ':' clockItems c text
  let (c,text) ← behindPoint c text Scan.fraction
  let text := Text.Chars.trimStart text
  match Scan.word ['u','t','c'] text with
  | some (_,rest) => (c.tellOffset 0).map (fun c => (c,rest))
  | none => told (Scan.offset .loose true false text) (fun v => c.tellOffset v)

def scan (c : Clues) (text : List Char) : Item → Option (Clues × List Char)
  | literal w => if w.isPrefixOf text then some (c,text.drop w.length) else none
  | blanks => some (c,Text.Chars.trimStart text)
  | numeral n => n.scan c (Text.Chars.trimStart text)
  | shortMonth => told (Scan.shortName Scan.monthNames text) (fun m => c.tellMonth (m + 1))
  | longMonth => told (Scan.longName Scan.monthNames text) (fun m => c.tellMonth (m + 1))
  | shortWeekday => told (Scan.shortName Scan.weekdayNames text) (fun d => c.tellWeekday d)
  | longWeekday => told (Scan.longName Scan.weekdayNames text) (fun d => c.tellWeekday d)
  | halfDay => told (Scan.halfDay text) (fun h => c.tellHalfDay h)
  | fraction => behindPoint c text Scan.fraction
  | pointFraction n => behindPoint c text (Scan.fixedFraction n)
  | bareFraction n => told (Scan.fixedFraction n text) (fun v => c.tellNanosecond v)
  | zoneName => some (c,text.dropWhile (fun d => !Text.isBlank d))
  | offset =>
    told (Scan.offset .loose false false (Text.Chars.trimStart text)) (fun v => c.tellOffset v)
  | looseOffset =>
    told (Scan.offset .loose true true (Text.Chars.trimStart text)) (fun v => c.tellOffset v)
  | instant => looseInstant c text

end Item

namespace Format

def clues (c : Clues) (text : List Char) : Format → Option Clues
  | [] => if text.isEmpty then some c else none
  | item :: rest => do
    let (c,text) ← item.scan c text
    clues c text rest

-- Seconds since the start of 1970. Without an offset the time is universal time, and a date
-- without a time is its midnight.
def seconds? (c : Clues) : Option Int :=
  match c.toInstant with
  | some s => some s
  | none =>
    match c.toLocal 0 with
    | .ok s => some s
    | .error _ =>
      match c.toDate with
      | .ok d => some (d.toDays * Clues.secondsPerDay)
      | .error _ => none

def parse? (format text : List Char) : Option Int := do
  let items ← ofChars? format
  let c ← clues {} text items
  seconds? c

end Format

end TableView.Calendar
