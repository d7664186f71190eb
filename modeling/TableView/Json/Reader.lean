import TableView.Json.Scan

namespace TableView.Json

open Scan (skipBlank)

def depthLimit : Nat := 128

def nextItem (first : Bool) (s : List Char) : Except Fault (Option (List Char)) :=
  let s := skipBlank s
  match s with
  | [] => .error (.next .endInList [])
  | c :: rest =>
    if c = ']' then .ok none
    else if c = ',' && !first then
      let s := skipBlank rest
      match s with
      | [] => .error (.next .endInValue [])
      | ']' :: _ => .error (.next .trailingComma s)
      | _ => .ok (some s)
    else if first then .ok (some s)
    else .error (.next .expectedListCommaOrEnd s)

def nextName (first : Bool) (s : List Char) : Except Fault (Option (String × List Char)) :=
  let s := skipBlank s
  match s with
  | [] => .error (.next .endInObject [])
  | c :: rest =>
    if c = '\x7d' then .ok none
    else if c = ',' && !first then
      let s := skipBlank rest
      match s with
      | [] => .error (.next .endInValue [])
      | '"' :: rest => (Scan.stringBody rest).map some
      | '\x7d' :: _ => .error (.next .trailingComma s)
      | _ => .error (.next .keyNotString s)
    else if !first then .error (.next .expectedObjectCommaOrEnd s)
    else if c = '"' then (Scan.stringBody rest).map some
    else .error (.next .keyNotString s)

def colon (s : List Char) : Except Fault (List Char) :=
  let s := skipBlank s
  match s with
  | [] => .error (.next .endInObject [])
  | ':' :: rest => .ok rest
  | _ => .error (.next .expectedColon s)

def closeWith (close : Char) (s : List Char) : List Char :=
  match skipBlank s with
  | c :: rest => if c = close then rest else c :: rest
  | [] => []

mutual

def value : Nat → Nat → List Char → Except Fault (Json × List Char)
  | 0,_,s => .error (.here .endInValue s)
  | fuel + 1,depth,s =>
    let s := skipBlank s
    match s with
    | [] => .error (.next .endInValue [])
    | 'n' :: rest => (Scan.word ['u','l','l'] rest).map (fun rest => (.null,rest))
    | 't' :: rest => (Scan.word ['r','u','e'] rest).map (fun rest => (.bool true,rest))
    | 'f' :: rest => (Scan.word ['a','l','s','e'] rest).map (fun rest => (.bool false,rest))
    | '"' :: rest => (Scan.stringBody rest).map (fun (t,rest) => (.string t,rest))
    | '[' :: rest =>
      if depth ≤ 1 then .error (.next .tooDeep s)
      else (items fuel (depth - 1) true rest).map (fun (items,rest) => (.array items,rest))
    | '\x7b' :: rest =>
      if depth ≤ 1 then .error (.next .tooDeep s)
      else (members fuel (depth - 1) true rest).map (fun (ms,rest) => (.object ms,rest))
    | c :: _ =>
      if Scan.startsNumber c then (Scan.number s).map (fun (n,rest) => (.number n,rest))
      else .error (.next .expectedValue s)

def items : Nat → Nat → Bool → List Char → Except Fault (List Json × List Char)
  | 0,_,_,s => .error (.here .endInList s)
  | fuel + 1,depth,first,s => do
    match ← nextItem first s with
    | none => .ok ([],closeWith ']' s)
    | some s =>
      let (item,s) ← value fuel depth s
      let (rest,s) ← items fuel depth false s
      .ok (item :: rest,s)

def members : Nat → Nat → Bool → List Char →
    Except Fault (List (String × Json) × List Char)
  | 0,_,_,s => .error (.here .endInObject s)
  | fuel + 1,depth,first,s => do
    match ← nextName first s with
    | none => .ok ([],closeWith '\x7d' s)
    | some (name,s) =>
      let s ← colon s
      let (item,s) ← value fuel depth s
      let (rest,s) ← members fuel depth false s
      .ok ((name,item) :: rest,s)

end

-- A value at a given remaining depth; every character can start at most two steps.
def valueAt (depth : Nat) (s : List Char) : Except Fault (Json × List Char) :=
  value (2 * s.length + 2) depth s

namespace Skip

def string : List Char → Except Fault (List Char)
  | [] => .error (.here .endInString [])
  | '"' :: rest => .ok rest
  | ['\\'] => .error (.here .endInString [])
  | '\\' :: c :: rest =>
    if c = 'u' then
      match _h : Scan.hexFour rest with
      | .error f => .error f
      | .ok (_,rest) => string rest
    else if (Scan.simpleEscape? c).isSome then string rest
    else .error (.next .badEscape (c :: rest))
  | c :: rest =>
    if c.toNat < 32 then .error (.here .controlCharacter (c :: rest)) else string rest
termination_by s => s.length
decreasing_by
  · have shorter := Scan.hexFour_shrinks _h
    simp only [List.length_cons]; omega
  · simp only [List.length_cons]; omega
  · exact Nat.lt_succ_self _

def exponent (s : List Char) : Except Fault (List Char) :=
  let (_,s) := Scan.exponentSign s
  match s with
  | [] => .error (.here .badNumber [])
  | c :: rest =>
    if Text.Numeral.isDigit c then .ok (Scan.dropDigits rest) else .error (.next .badNumber s)

def afterFraction (s : List Char) : Except Fault (List Char) :=
  match s with
  | c :: rest => if Scan.isExponentMark c then exponent rest else .ok s
  | [] => .ok s

def afterInteger (s : List Char) : Except Fault (List Char) :=
  match s with
  | '.' :: rest =>
    if Scan.startsWithDigit rest then afterFraction (Scan.dropDigits rest)
    else .error (.next .badNumber rest)
  | _ => afterFraction s

def unsigned (s : List Char) : Except Fault (List Char) :=
  match s with
  | [] => .error (.here .badNumber [])
  | '0' :: rest =>
    if Scan.startsWithDigit rest then .error (.next .badNumber rest) else afterInteger rest
  | c :: rest =>
    if Text.Numeral.isDigit c then afterInteger (Scan.dropDigits rest)
    else .error (.next .badNumber s)

inductive Bracket where
  | list
  | object

-- The text behind an item, at the next item, or none when the value is complete. An item may
-- be followed by a comma, and no item by the end of the bracket only.
inductive After where
  | item (bracket : Bracket) (outer : List Bracket) (s : List Char)
  | done (s : List Char)

def Bracket.unended : Bracket → Cause
  | .list => .endInList
  | .object => .endInObject

def Bracket.closing : Bracket → Char
  | .list => ']'
  | .object => '\x7d'

def Bracket.expected : Bracket → Cause
  | .list => .expectedListCommaOrEnd
  | .object => .expectedObjectCommaOrEnd

def close (comma : Bool) (bracket : Bracket) (outer : List Bracket) (s : List Char) :
    Except Fault After :=
  let s := skipBlank s
  match s with
  | [] => .error (.next bracket.unended [])
  | c :: rest =>
    if c = ',' && comma then .ok (.item bracket outer rest)
    else if c = bracket.closing then
      match outer with
      | [] => .ok (.done rest)
      | b :: outer => close true b outer rest
    else if comma then .error (.next bracket.expected s)
    else .ok (.item bracket outer s)

def name (s : List Char) : Except Fault (List Char) :=
  let s := skipBlank s
  match s with
  | [] => .error (.next .endInObject [])
  | '"' :: rest => (string rest).bind colon
  | _ => .error (.next .keyNotString s)

def opening (s : List Char) : Except Fault (Option Bracket × List Char) :=
  let s := skipBlank s
  match s with
  | [] => .error (.next .endInValue [])
  | 'n' :: rest => (Scan.word ['u','l','l'] rest).map (fun rest => (none,rest))
  | 't' :: rest => (Scan.word ['r','u','e'] rest).map (fun rest => (none,rest))
  | 'f' :: rest => (Scan.word ['a','l','s','e'] rest).map (fun rest => (none,rest))
  | '-' :: rest => (unsigned rest).map (fun rest => (none,rest))
  | '"' :: rest => (string rest).map (fun rest => (none,rest))
  | '[' :: rest => .ok (some .list,rest)
  | '\x7b' :: rest => .ok (some .object,rest)
  | c :: _ =>
    if Text.Numeral.isDigit c then (unsigned s).map (fun rest => (none,rest))
    else .error (.next .expectedValue s)

def value : Nat → List Bracket → List Char → Except Fault (List Char)
  | 0,_,s => .error (.here .endInValue s)
  | fuel + 1,outer,s => do
    let (opened,s) ← opening s
    let after ← match opened,outer with
      | some b,_ => close false b outer s
      | none,[] => .ok (.done s)
      | none,b :: outer => close true b outer s
    match after with
    | .done s => .ok s
    | .item .list outer s => value fuel (.list :: outer) s
    | .item .object outer s =>
      let s ← name s
      value fuel (.object :: outer) s

end Skip

-- Unlike a value that is read, one that is passed over may nest as deep as it likes, and its
-- numbers and escapes are checked for form only.
def skipValue (s : List Char) : Except Fault (List Char) := Skip.value (s.length + 1) [] s

end TableView.Json
