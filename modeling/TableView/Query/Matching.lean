import TableView.Calendar.Scan
import TableView.Payload.Fields
import TableView.Query.Basic
import TableView.Text.LowerCase

namespace TableView

def rowIdName : String := "_row_id"

structure Entry where
  rowId : Nat
  fields : Fields
deriving DecidableEq,Repr

namespace Entry

def get? (e : Entry) (key : String) : Option FieldValue := e.fields.get? key

def textKey (property : String) : String := Payload.textMark ++ property

def dateKey (property : String) : String := Payload.dateMark ++ property

def dateValue? (e : Entry) (property : String) : Option FieldValue := e.get? (dateKey property)

def has (e : Entry) (property : String) : Bool :=
  (e.get? property).isSome || (e.get? (textKey property)).isSome ||
    (e.dateValue? property).isSome

def text? (e : Entry) (property : String) : Option String :=
  ((e.get? (textKey property)).or (e.get? property)).map FieldValue.asText

def seconds? (e : Entry) (property : String) : Option Int :=
  (e.dateValue? property).bind FieldValue.seconds?

-- The row identifier comes first; a field of its name is told again behind it.
def members (e : Entry) : List (String × Json) :=
  (rowIdName,.ofNat e.rowId) :: e.fields.toList.map (fun (key,v) => (key,v.toJson))

def toJson (e : Entry) : Json := .object e.members

def numbered (decoded : List Fields) : List Entry :=
  decoded.zipIdx.map (fun (fields,i) => ⟨i,fields⟩)

end Entry

namespace Constraint

def range? (value : String) : Option (Int × Int) :=
  let parts := (Text.Chars.splitOn '/' value.toList).map Text.Chars.trim
  match parts.filter (fun p => !p.isEmpty) with
  | [first,last] => do
    let first ← Calendar.Instant.seconds? first
    let last ← Calendar.Instant.seconds? last
    return (first,last)
  | _ => none

def lower (s : String) : List Char := Text.LowerCase.ofChars s.toList

-- Case counts only for equality.
def textMatches (text value : String) : Operator → Bool
  | .startsWith => (lower value).isPrefixOf (lower text)
  | .equals => text == value
  | .contains | .between => Text.Chars.occursIn (lower value) (lower text)

-- Whether an instant lies in a range; anything else than a range leaves the entry in.
def inRange (value : String) (seconds : Int) : Bool :=
  match range? value with
  | some (first,last) => first ≤ seconds && seconds ≤ last
  | none => true

-- A constraint on something that an entry does not tell holds.
def admits (c : Constraint) (property : String) (e : Entry) : Bool :=
  match c.kind with
  | .between =>
    match e.seconds? property with
    | some seconds => inRange c.value seconds
    | none => true
  | op =>
    match e.text? property with
    | some text => textMatches text c.value op
    | none => true

end Constraint

def Filter.admits (f : Filter) (e : Entry) : Bool :=
  f.constraints.all (fun c => c.admits f.property e)

def Query.admits (q : Query) (e : Entry) : Bool := q.filters.all (fun f => f.admits e)

namespace Entry

def textOrEmpty (e : Entry) (property : String) : String := (e.text? property).getD ""

-- The order by one column: entries that tell it first, of these the dated ones by their dates,
-- and then the others by their texts. Two entries that do not tell it are not ordered by it.
def compareOn (a b : Entry) (property : String) : Option Ordering :=
  match a.has property,b.has property with
  | false,false => none
  | true,false => some .lt
  | false,true => some .gt
  | true,true =>
    match a.seconds? property,b.seconds? property with
    | some x,some y => some (compare x y)
    | some _,none => some .lt
    | none,some _ => some .gt
    | none,none => some (compare (a.textOrEmpty property) (b.textOrEmpty property))

def compareBy (a b : Entry) (key : SortEntry) : Ordering :=
  match compareOn a b key.property with
  | none => .eq
  | some o => if key.descending then o.swap else o

def compareAll (a b : Entry) : List SortEntry → Ordering
  | [] => .eq
  | key :: rest => (compareBy a b key).then (compareAll a b rest)

end Entry

end TableView
