import TableView.Calendar.Clues
import TableView.Text.Blank

namespace TableView.Calendar

abbrev Scan (α : Type) := List Char → Option (α × List Char)

namespace Scan

def digitValue (c : Char) : Nat := c.toNat - 48

def digits : Option Nat → List Char → List Char × List Char
  | some 0,text => ([],text)
  | _,[] => ([],[])
  | limit,c :: rest =>
    if c.isDigit then
      let (front,rest) := digits (limit.map (· - 1)) rest
      (c :: front,rest)
    else ([],c :: rest)

def valueOf (digits : List Char) : Nat := digits.foldl (fun v c => v * 10 + digitValue c) 0

def number (limit : Option Nat) : Scan Nat := fun text =>
  let (front,rest) := digits limit text
  if front.isEmpty || 2 ^ 63 ≤ valueOf front then none else some (valueOf front,rest)

def fixedNumber (n : Nat) : Scan Nat := fun text =>
  let (front,rest) := digits (some n) text
  if front.length = n then some (valueOf front,rest) else none

-- With a sign any number of digits is taken, otherwise only so many.
def signedNumber (limit : Nat) : Scan Int
  | '-' :: rest => (number none rest).map (fun (v,rest) => (-(v : Int),rest))
  | '+' :: rest => (number none rest).map (fun (v,rest) => ((v : Int),rest))
  | text => (number (some limit) text).map (fun (v,rest) => ((v : Int),rest))

-- The nanoseconds of a decimal fraction; digits behind the ninth count for nothing.
def fraction : Scan Nat := fun text =>
  let (front,rest) := digits (some 9) text
  if front.isEmpty then none
  else some (valueOf front * 10 ^ (9 - front.length),rest.dropWhile Char.isDigit)

def fixedFraction (n : Nat) : Scan Nat := fun text =>
  (fixedNumber n text).map (fun (v,rest) => (v * 10 ^ (9 - n),rest))

def sign (c : Char) : Scan Unit
  | d :: rest => if d = c then some ((),rest) else none
  | [] => none

def word (w : List Char) : Scan Unit := fun text =>
  if (text.take w.length).map Char.toLower = w then some ((),text.drop w.length) else none

def oneOf : List (List Char) → Nat → Scan Nat
  | [],_,_ => none
  | w :: rest,n,text =>
    match word w text with
    | some (_,after) => some (n,after)
    | none => oneOf rest (n + 1) text

def monthNames : List String := ["january","february","march","april","may","june","july",
  "august","september","october","november","december"]

def weekdayNames : List String := ["monday","tuesday","wednesday","thursday","friday","saturday",
  "sunday"]

def shortName (names : List String) : Scan Nat :=
  oneOf (names.map (fun n => n.toList.take 3)) 0

def longName (names : List String) : Scan Nat := fun text => do
  let (n,rest) ← shortName names text
  match word ((names.getD n "").toList.drop 3) rest with
  | some (_,after) => some (n,after)
  | none => some (n,rest)

def halfDay : Scan Nat := oneOf [['a','m'],['p','m']] 0

def colonOrBlank (c : Char) : Bool := c = ':' || Text.isBlank c

inductive Divider where
  | loose
  | colon

def Divider.skip : Divider → List Char → Option (List Char)
  | loose,text => some (text.dropWhile colonOrBlank)
  | colon,':' :: text => some text
  | colon,_ => none

def offsetSign : Scan Bool
  | '+' :: rest => some (false,rest)
  | '-' :: rest => some (true,rest)
  | '−' :: rest => some (true,rest)
  | _ => none

def minutes (optional : Bool) : Scan Nat := fun text =>
  if optional && text.isEmpty then some (0,[])
  else
    match fixedNumber 2 text with
    | some (m,rest) => if m < 60 then some (m,rest) else none
    | none => none

def offset (divider : Divider) (zulu minutesOptional : Bool) : Scan Int := fun text =>
  match zulu,text with
  | true,'Z' :: rest => some (0,rest)
  | true,'z' :: rest => some (0,rest)
  | _,_ => do
    let (negative,rest) ← offsetSign text
    let (hours,rest) ← fixedNumber 2 rest
    let rest ← divider.skip rest
    let (minutes,rest) ← minutes minutesOptional rest
    let seconds : Int := hours * 3600 + minutes * 60
    some (if negative then -seconds else seconds,rest)

end Scan

def offsetLimit : Int := 86340

namespace Instant

def isDateEnd (c : Char) : Bool := c = 't' || c = 'T' || c = ' '

def dateEnd : Scan Unit
  | c :: rest => if isDateEnd c then some ((),rest) else none
  | [] => none

-- Parts of a second count for nothing, but have to be digits.
def partOfSecond : Scan Unit
  | '.' :: rest => (Scan.fraction rest).map (fun (_,rest) => ((),rest))
  | text => some ((),text)

def seconds? (text : List Char) : Option Int := do
  let (year,text) ← Scan.fixedNumber 4 text
  let (_,text) ← Scan.sign '-' text
  let (month,text) ← Scan.fixedNumber 2 text
  let (_,text) ← Scan.sign '-' text
  let (day,text) ← Scan.fixedNumber 2 text
  let (_,text) ← dateEnd text
  let (hour,text) ← Scan.fixedNumber 2 text
  let (_,text) ← Scan.sign ':' text
  let (minute,text) ← Scan.fixedNumber 2 text
  let (_,text) ← Scan.sign ':' text
  let (second,text) ← Scan.fixedNumber 2 text
  let (_,text) ← partOfSecond text
  let (offset,text) ← Scan.offset .colon true false text
  let date ← Date.of? year month day
  if 23 < hour || 59 < minute || 60 < second || !text.isEmpty then none
  else if offset < -offsetLimit || offsetLimit < offset then none
  else
    let time := hour * 3600 + minute * 60 + min second 59
    some (date.toDays * Clues.secondsPerDay + time - offset)

end Instant

end TableView.Calendar
