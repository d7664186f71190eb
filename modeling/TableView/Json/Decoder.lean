import TableView.Json.Reader

namespace TableView.Json

open Scan (skipBlank)

-- A value is read in two ways: straight from text, where the first thing wrong in the order of the
-- text is reported with its place, and from a value that is already at hand, where mismatches have
-- no place.
structure Decoder (α : Type) where
  ofText : Nat → List Char → Except Fault (α × List Char)
  ofValue : Json → Except Mismatch α

namespace Decoder

def map (f : α → β) (d : Decoder α) : Decoder β where
  ofText depth s := (d.ofText depth s).map (fun (a,rest) => (f a,rest))
  ofValue v := (d.ofValue v).map f

def placeAt (m : Mismatch) (rest : List Char) : Fault := .here (.mismatch m) rest

-- What is found in place of the expected kind; a compound value is not read.
def wrongType (expected : String) (s : List Char) : Fault :=
  let finish (found : Found) (rest : List Char) := placeAt (.wrongType found expected) rest
  let literal (rest : Except Fault (List Char)) (found : Found) := match rest with
    | .ok rest => finish found rest
    | .error f => f
  match s with
  | [] => .next .expectedValue []
  | 'n' :: rest => literal (Scan.word ['u','l','l'] rest) .null
  | 't' :: rest => literal (Scan.word ['r','u','e'] rest) (.bool true)
  | 'f' :: rest => literal (Scan.word ['a','l','s','e'] rest) (.bool false)
  | '[' :: _ => finish .sequence s
  | '\x7b' :: _ => finish .map s
  | '"' :: rest =>
    match Scan.stringBody rest with
    | .ok (t,rest) => finish (.string t) rest
    | .error f => f
  | c :: _ =>
    if Scan.startsNumber c then
      match Scan.number s with
      | .ok (n,rest) => finish (.ofNumber n) rest
      | .error f => f
    else .next .expectedValue s

def begin (read : Char → List Char → List Char → Except Fault (α × List Char)) (s : List Char) :
    Except Fault (α × List Char) :=
  let s := skipBlank s
  match s with
  | [] => .error (.next .endInValue [])
  | c :: rest => read c rest s

def any : Decoder Json where
  ofText := valueAt
  ofValue := .ok

def text : Decoder String where
  ofText _ := begin (fun c rest s =>
    if c = '"' then Scan.stringBody rest else .error (wrongType "a string" s))
  ofValue
    | .string s => .ok s
    | v => .error (.wrongType (.of v) "a string")

def flag : Decoder Bool where
  ofText _ := begin (fun c rest s =>
    if c = 't' then (Scan.word ['r','u','e'] rest).map (fun rest => (true,rest))
    else if c = 'f' then (Scan.word ['a','l','s','e'] rest).map (fun rest => (false,rest))
    else .error (wrongType "a boolean" s))
  ofValue
    | .bool b => .ok b
    | v => .error (.wrongType (.of v) "a boolean")

def naturalOf (kind : String) (n : Number) : Except Mismatch Nat :=
  match n with
  | .integer i => if 0 ≤ i then .ok i.toNat else .error (.wrongValue (.integer i) kind)
  | .real x => .error (.wrongType (.real x) kind)

def natural (kind : String) : Decoder Nat where
  ofText _ := begin (fun c _ s =>
    if Scan.startsNumber c then
      match Scan.number s with
      | .error f => .error f
      | .ok (n,rest) =>
        match naturalOf kind n with
        | .ok size => .ok (size,rest)
        | .error m => .error (placeAt m rest)
    else .error (wrongType kind s))
  ofValue
    | .number n => naturalOf kind n
    | v => .error (.wrongType (.of v) kind)

def size : Decoder Nat := natural "usize"

def duration : Decoder Nat := natural "u64"

def optional (d : Decoder α) : Decoder (Option α) where
  ofText depth s :=
    match skipBlank s with
    | 'n' :: rest => (Scan.word ['u','l','l'] rest).map (fun rest => (none,rest))
    | s => (d.ofText depth s).map (fun (a,rest) => (some a,rest))
  ofValue
    | .null => .ok none
    | v => (d.ofValue v).map some

-- A mismatch found in an object gets its place where the object is left: behind the closing
-- brace if that comes next.
def leaveObject (f : Fault) : Fault :=
  match f with
  | .unplaced m rest => placeAt m (closeWith '\x7d' rest)
  | placed => placed

def leaveList (f : Fault) : Fault :=
  match f with
  | .unplaced m rest =>
    match skipBlank rest with
    | ']' :: rest => placeAt m rest
    | ',' :: rest => placeAt m (skipBlank rest)
    | rest => placeAt m rest
  | placed => placed

def endList (s : List Char) : Except Fault (List Char) :=
  let s := skipBlank s
  match s with
  | [] => .error (.next .endInList [])
  | ']' :: rest => .ok rest
  | ',' :: rest =>
    let s := skipBlank rest
    match s with
    | ']' :: _ => .error (.next .trailingComma s)
    | _ => .error (.next .trailingCharacters s)
  | _ => .error (.next .trailingCharacters s)

def itemsOfText (d : Decoder α) (depth : Nat) :
    Nat → Bool → List Char → Except Fault (List α × List Char)
  | 0,_,s => .error (.here .endInList s)
  | fuel + 1,first,s => do
    match ← nextItem first s with
    | none => .ok ([],closeWith ']' s)
    | some s =>
      let (item,s) ← d.ofText depth s
      let (rest,s) ← itemsOfText d depth fuel false s
      .ok (item :: rest,s)

def itemsOfValues (d : Decoder α) : List Json → Except Mismatch (List α)
  | [] => .ok []
  | v :: rest => do
    let item ← d.ofValue v
    let items ← itemsOfValues d rest
    .ok (item :: items)

def list (d : Decoder α) : Decoder (List α) where
  ofText depth := begin (fun c rest s =>
    if c = '[' then
      if depth ≤ 1 then .error (.next .tooDeep s)
      else (itemsOfText d (depth - 1) (rest.length + 1) true rest).mapError leaveList
    else .error (wrongType "a sequence" s))
  ofValue
    | .array items => itemsOfValues d items
    | v => .error (.wrongType (.of v) "a sequence")

def scalarOf (what : String) : Json → Except Mismatch String
  | .string s => .ok s
  | .null => .ok ""
  | .number n => .ok n.text
  | .bool b => .ok (if b then "true" else "false")
  | .array _ | .object _ => .error (.notScalar what)

def scalar (what : String) : Decoder String where
  ofText depth s := do
    let (v,rest) ← valueAt depth s
    match scalarOf what v with
    | .ok t => .ok (t,rest)
    | .error m => .error (.unplaced m rest)
  ofValue := scalarOf what

def choose (choices : List (String × α)) (name : String) : Except Mismatch α :=
  match OrderedMap.find? choices name with
  | some a => .ok a
  | none => .error (.unknownVariant name (choices.map (·.1)))

def variantName (choices : List (String × α)) (s : List Char) : Except Fault (α × List Char) :=
  begin (fun c rest s =>
    if c = '"' then do
      let (name,rest) ← Scan.stringBody rest
      match choose choices name with
      | .ok a => .ok (a,rest)
      | .error m => .error (placeAt m rest)
    else .error (wrongType "variant identifier" s)) s

-- A choice without content: its name, or an object that gives the name a null.
def variantOfText (choices : List (String × α)) (depth : Nat) (s : List Char) :
    Except Fault (α × List Char) :=
  begin (fun c rest s =>
    if c = '"' then variantName choices s
    else if c = '\x7b' then
      if depth ≤ 1 then .error (.next .tooDeep s)
      else do
        let (a,rest) ← variantName choices rest
        let rest ← colon rest
        let rest ← match skipBlank rest with
          | [] => .error (.next .endInValue [])
          | 'n' :: rest => Scan.word ['u','l','l'] rest
          | rest => .error (wrongType "unit" rest)
        match skipBlank rest with
        | [] => .error (.here .endInObject [])
        | '\x7d' :: rest => .ok (a,rest)
        | rest => .error (.here .expectedValue rest)
    else .error (.next .expectedValue s)) s

def variantOfValue (choices : List (String × α)) : Json → Except Mismatch α
  | .string name => choose choices name
  | .object [(name,content)] => do
    let a ← choose choices name
    match content with
    | .null => .ok a
    | v => .error (.wrongType (.of v) "unit")
  | .object _ => .error (.wrongValue .map "map with a single key")
  | v => .error (.wrongType (.of v) "string or map")

def variant (choices : List (String × α)) : Decoder α :=
  ⟨variantOfText choices,variantOfValue choices⟩

structure Field (α : Type) where
  name : String
  required : Bool
  setter : Decoder (α → α)

def field (name : String) (d : Decoder β) (set : β → α → α) : Field α := ⟨name,false,d.map set⟩

def requiredField (name : String) (d : Decoder β) (set : β → α → α) : Field α :=
  ⟨name,true,d.map set⟩

def Field.find? (fields : List (Field α)) (name : String) : Option (Field α) :=
  fields.find? (fun f => f.name == name)

def missing? (fields : List (Field α)) (seen : List String) : Option String :=
  (fields.find? (fun f => f.required && !seen.contains f.name)).map (·.name)

def membersOfText (fields : List (Field α)) (depth : Nat) :
    Nat → Bool → List String → α → List Char → Except Fault (α × List Char)
  | 0,_,_,_,s => .error (.here .endInObject s)
  | fuel + 1,first,seen,record,s => do
    match ← nextName first s with
    | none =>
      match missing? fields seen with
      | some name => .error (.unplaced (.missingField name) s)
      | none => .ok (record,closeWith '\x7d' s)
    | some (name,s) =>
      match Field.find? fields name with
      | none =>
        let s ← colon s
        let s ← skipValue s
        membersOfText fields depth fuel false seen record s
      | some f =>
        if seen.contains name then .error (.unplaced (.duplicateField name) s)
        else
          let s ← colon s
          let (set,s) ← f.setter.ofText depth s
          membersOfText fields depth fuel false (name :: seen) (set record) s

def elements (n : Nat) : String :=
  Text.Numeral.natText n ++ (if n = 1 then " element" else " elements")

def positionsOfText (what : String) (total depth : Nat) :
    List (Field α) → Nat → α → List Char → Except Fault (α × List Char)
  | [],_,record,s => .ok (record,s)
  | f :: fields,taken,record,s => do
    match ← nextItem (taken = 0) s with
    | none =>
      if f.required then .error (.unplaced (.wrongLength taken s!"{what} with {elements total}") s)
      else absent fields (taken + 1) s record
    | some s =>
      let (set,s) ← f.setter.ofText depth s
      positionsOfText what total depth fields (taken + 1) (set record) s
where
  absent : List (Field α) → Nat → List Char → α → Except Fault (α × List Char)
    | [],_,s,record => .ok (record,s)
    | f :: fields,taken,s,record =>
      if f.required then .error (.unplaced (.wrongLength taken s!"{what} with {elements total}") s)
      else absent fields (taken + 1) s record

def recordOfText (what : String) (fields : List (Field α)) (start : α) (depth : Nat)
    (s : List Char) : Except Fault (α × List Char) :=
  begin (fun c rest s =>
    if c = '\x7b' then
      if depth ≤ 1 then .error (.next .tooDeep s)
      else (membersOfText fields (depth - 1) (rest.length + 1) true [] start rest).mapError
        leaveObject
    else if c = '[' then
      if depth ≤ 1 then .error (.next .tooDeep s)
      else do
        let (record,rest) ← (positionsOfText what fields.length (depth - 1) fields 0 start
          rest).mapError leaveList
        let rest ← endList rest
        .ok (record,rest)
    else .error (wrongType what s)) s

def membersOfValue (fields : List (Field α)) :
    List String → α → List (String × Json) → Except Mismatch α
  | seen,record,[] =>
    match missing? fields seen with
    | some name => .error (.missingField name)
    | none => .ok record
  | seen,record,(name,v) :: rest =>
    match Field.find? fields name with
    | none => membersOfValue fields seen record rest
    | some f =>
      if seen.contains name then .error (.duplicateField name)
      else do
        let set ← f.setter.ofValue v
        membersOfValue fields (name :: seen) (set record) rest

def positionsOfValue (what : String) (total given : Nat) :
    List (Field α) → Nat → α → List Json → Except Mismatch α
  | [],_,record,[] => .ok record
  | [],taken,_,_ :: _ => .error (.wrongLength given (elements taken ++ " in sequence"))
  | f :: fields,taken,record,[] =>
    if f.required then .error (.wrongLength taken s!"{what} with {elements total}")
    else positionsOfValue what total given fields (taken + 1) record []
  | f :: fields,taken,record,v :: rest => do
    let set ← f.setter.ofValue v
    positionsOfValue what total given fields (taken + 1) (set record) rest

def recordOfValue (what : String) (fields : List (Field α)) (start : α) :
    Json → Except Mismatch α
  | .object members => membersOfValue fields [] start members
  | .array items => positionsOfValue what fields.length items.length fields 0 start items
  | v => .error (.wrongType (.of v) what)

def record (what : String) (fields : List (Field α)) (start : α) : Decoder α :=
  ⟨recordOfText what fields start,recordOfValue what fields start⟩

def readChars (d : Decoder α) (s : List Char) : Except Fault α := do
  let (a,rest) ← d.ofText depthLimit s
  match skipBlank rest with
  | [] => .ok a
  | rest => .error (.next .trailingCharacters rest)

def read (d : Decoder α) (text : String) : Except ReadError α :=
  (d.readChars text.toList).mapError (fun f => f.report text.toList)

end Decoder

def parse (text : String) : Except ReadError Json := Decoder.any.read text

end TableView.Json
