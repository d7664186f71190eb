import TableView.Calendar.Scan
import TableView.Json.Basic

namespace TableView.Toml

abbrev Scan (α : Type) := List Char → Option (α × List Char)

namespace Scan

def isBlank (c : Char) : Bool := c = ' ' || c = '\t'

def skipBlank (s : List Char) : List Char := s.dropWhile isBlank

def isPlain (c : Char) : Bool := c = '\t' || (0x20 ≤ c.toNat && c.toNat ≠ 0x7F)

def lineBreak : List Char → Option (List Char)
  | '\n' :: rest => some rest
  | '\r' :: '\n' :: rest => some rest
  | _ => none

def comment : List Char → List Char
  | '#' :: rest => rest.dropWhile isPlain
  | s => s

def skipLines : Nat → List Char → List Char
  | 0,s => s
  | fuel + 1,s =>
    let s := comment (skipBlank s)
    match lineBreak s with
    | some rest => skipLines fuel rest
    | none => s

def skipAll (s : List Char) : List Char := skipLines (s.length + 1) s

def hexValue? (c : Char) : Option Nat :=
  if c.isDigit then some (c.toNat - 48)
  else if 'a' ≤ c && c ≤ 'f' then some (c.toNat - 87)
  else if 'A' ≤ c && c ≤ 'F' then some (c.toNat - 55)
  else none

def codePoint (digits : Nat) : Scan Char := fun s => do
  let values ← (s.take digits).mapM hexValue?
  let n := values.foldl (fun v d => v * 16 + d) 0
  if values.length = digits && n.isValidChar then some (Char.ofNat n,s.drop digits) else none

def escape : Scan Char
  | 'b' :: rest => some ('\x08',rest)
  | 't' :: rest => some ('\t',rest)
  | 'n' :: rest => some ('\n',rest)
  | 'f' :: rest => some ('\x0c',rest)
  | 'r' :: rest => some ('\r',rest)
  | '"' :: rest => some ('"',rest)
  | '\\' :: rest => some ('\\',rest)
  | 'u' :: rest => codePoint 4 rest
  | 'U' :: rest => codePoint 8 rest
  | _ => none

def basicBody : Nat → List Char → Scan String
  | 0,_,_ => none
  | fuel + 1,read,s =>
    match s with
    | [] => none
    | '"' :: rest => some (String.ofList read.reverse,rest)
    | '\\' :: rest => do
      let (c,rest) ← escape rest
      basicBody fuel (c :: read) rest
    | c :: rest => if isPlain c then basicBody fuel (c :: read) rest else none

def literalBody : List Char → Scan String
  | _,[] => none
  | read,'\'' :: rest => some (String.ofList read.reverse,rest)
  | read,c :: rest => if isPlain c then literalBody (c :: read) rest else none

-- Three quotes end a string of several lines; one or two more before them belong to it.
def closing (quote : Char) (read s : List Char) : Option (String × List Char) :=
  let quotes := s.takeWhile (· = quote)
  if quotes.length < 3 then none
  else
    let inner := min (quotes.length - 3) 2
    some (String.ofList ((quotes.take inner) ++ read).reverse,s.drop (inner + 3))

-- A backslash at the end of a line takes the line break and the blanks behind it along.
def continued (s : List Char) : Option (List Char) :=
  (lineBreak (skipBlank s)).map (fun rest =>
    rest.dropWhile (fun c => isBlank c || c = '\n' || c = '\r'))

def longBasicBody : Nat → List Char → Scan String
  | 0,_,_ => none
  | fuel + 1,read,s =>
    match closing '"' read s with
    | some result => some result
    | none =>
      match s with
      | [] => none
      | '\\' :: rest =>
        match continued rest with
        | some rest => longBasicBody fuel read rest
        | none => do
          let (c,rest) ← escape rest
          longBasicBody fuel (c :: read) rest
      | c :: rest =>
        match lineBreak s with
        | some rest => longBasicBody fuel ('\n' :: read) rest
        | none => if isPlain c then longBasicBody fuel (c :: read) rest else none

def longLiteralBody : Nat → List Char → Scan String
  | 0,_,_ => none
  | fuel + 1,read,s =>
    match closing '\'' read s with
    | some result => some result
    | none =>
      match s with
      | [] => none
      | c :: rest =>
        match lineBreak s with
        | some rest => longLiteralBody fuel ('\n' :: read) rest
        | none => if isPlain c then longLiteralBody fuel (c :: read) rest else none

def dropLineBreak (s : List Char) : List Char := (lineBreak s).getD s

def shortString : Scan String
  | '"' :: rest => basicBody (rest.length + 1) [] rest
  | '\'' :: rest => literalBody [] rest
  | _ => none

def string : Scan String
  | '"' :: '"' :: '"' :: rest => longBasicBody (rest.length + 1) [] (dropLineBreak rest)
  | '\'' :: '\'' :: '\'' :: rest => longLiteralBody (rest.length + 1) [] (dropLineBreak rest)
  | s => shortString s

def digitsOf (value? : Char → Option Nat) (read : List Nat) : List Char → List Nat × List Char
  | [] => (read,[])
  | '_' :: c :: rest =>
    match read,value? c with
    | _ :: _,some d => digitsOf value? (d :: read) rest
    | _,_ => (read,'_' :: c :: rest)
  | c :: rest =>
    match value? c with
    | some d => digitsOf value? (d :: read) rest
    | none => (read,c :: rest)

def below (base : Nat) (c : Char) : Option Nat := (hexValue? c).filter (· < base)

def valueOf (base : Nat) (digits : List Nat) : Nat :=
  digits.reverse.foldl (fun v d => v * base + d) 0

def digits (base : Nat) : Scan (List Nat) := fun s =>
  let (read,rest) := digitsOf (below base) [] s
  if read.isEmpty then none else some (read,rest)

def wholeDigits : Scan (List Nat) := fun s =>
  match s with
  | '0' :: rest => some ([0],rest)
  | _ => digits 10 s

def optionalSign : List Char → Bool × List Char
  | '+' :: rest => (false,rest)
  | '-' :: rest => (true,rest)
  | s => (false,s)

def inInt64 (i : Int) : Option Json := if Text.Numeral.InInt64 i then some (.ofInt i) else none

def based (base : Nat) (s : List Char) : Option (Json × List Char) := do
  let (ds,rest) ← digits base s
  let v ← inInt64 (valueOf base ds)
  some (v,rest)

def integer : Scan Json
  | '0' :: 'x' :: rest => based 16 rest
  | '0' :: 'o' :: rest => based 8 rest
  | '0' :: 'b' :: rest => based 2 rest
  | s => do
    let (negative,rest) := optionalSign s
    let (ds,rest) ← wholeDigits rest
    let v : Int := valueOf 10 ds
    let v ← inInt64 (if negative then -v else v)
    some (v,rest)

-- What stands for any floating-point number, and for any date.
def someReal : Json := .number (.real .zero)

def someDate : Json := .object [("date",.null)]

def exponent : Scan Int
  | 'e' :: rest | 'E' :: rest => do
    let (negative,rest) := optionalSign rest
    let (ds,rest) ← digits 10 rest
    let v : Int := valueOf 10 ds
    some (if negative then -v else v,rest)
  | _ => none

def wordOf (w : List Char) (s : List Char) : Option (List Char) :=
  if w.isPrefixOf s then some (s.drop w.length) else none

def realOf (ds : List Nat) (power : Int) (rest : List Char) : Option (Json × List Char) :=
  (Number.Binary64.ofDecimal? false (valueOf 10 ds) power).map (fun _ => (someReal,rest))

-- A fraction, an exponent or both have to follow the whole part.
def real : Scan Json := fun s =>
  let (_,s) := optionalSign s
  match (wordOf ['i','n','f'] s).or (wordOf ['n','a','n'] s) with
  | some rest => some (someReal,rest)
  | none => do
    let (whole,rest) ← wholeDigits s
    match rest with
    | '.' :: rest => do
      let (part,rest) ← digits 10 rest
      match exponent rest with
      | some (e,rest) => realOf (part ++ whole) (e - part.length) rest
      | none => realOf (part ++ whole) (-(part.length : Int)) rest
    | _ => do
      let (e,rest) ← exponent rest
      realOf whole e rest

def twoDigits (least greatest : Nat) : Scan Nat := fun s => do
  let (n,rest) ← Calendar.Scan.fixedNumber 2 s
  if least ≤ n && n ≤ greatest then some (n,rest) else none

def sign (c : Char) : Scan Unit
  | d :: rest => if c = d then some ((),rest) else none
  | [] => none

def secondFraction : Scan Unit
  | '.' :: rest =>
    let after := rest.dropWhile Char.isDigit
    if after.length < rest.length then some ((),after) else none
  | s => some ((),s)

def clock : Scan Unit := fun s => do
  let (_,s) ← twoDigits 0 23 s
  let (_,s) ← sign ':' s
  let (_,s) ← twoDigits 0 59 s
  let (_,s) ← sign ':' s
  let (_,s) ← twoDigits 0 60 s
  secondFraction s

def offset : Scan Unit
  | 'Z' :: rest | 'z' :: rest => some ((),rest)
  | '+' :: rest | '-' :: rest => do
    let (_,s) ← twoDigits 0 23 rest
    let (_,s) ← sign ':' s
    let (_,s) ← twoDigits 0 59 s
    some ((),s)
  | _ => none

def day : Scan Unit := fun s => do
  let (year,s) ← Calendar.Scan.fixedNumber 4 s
  let (_,s) ← sign '-' s
  let (month,s) ← twoDigits 1 12 s
  let (_,s) ← sign '-' s
  let (day,s) ← twoDigits 1 31 s
  if day ≤ Date.monthLength year month then some ((),s) else none

def behindDay : List Char → List Char
  | c :: rest =>
    if c = 'T' || c = 't' || c = ' ' then
      match clock rest with
      | some (_,after) =>
        match offset after with
        | some (_,after) => after
        | none => after
      | none => c :: rest
    else c :: rest
  | [] => []

def dateTime : Scan Json := fun s =>
  match day s with
  | some (_,rest) => some (someDate,behindDay rest)
  | none => (clock s).map (fun (_,rest) => (someDate,rest))

def number : Scan Json := fun s =>
  match dateTime s with
  | some result => some result
  | none =>
    match real s with
    | some result => some result
    | none => integer s

def bool : Scan Json := fun s =>
  match wordOf ['t','r','u','e'] s with
  | some rest => some (.bool true,rest)
  | none => (wordOf ['f','a','l','s','e'] s).map (fun rest => (.bool false,rest))

def single : Scan Json := fun s =>
  match s with
  | [] => none
  | '"' :: _ | '\'' :: _ => (string s).map (fun (t,rest) => (.string t,rest))
  | 't' :: _ | 'f' :: _ => bool s
  | _ => number s

end Scan

end TableView.Toml
