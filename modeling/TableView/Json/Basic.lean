import TableView.OrderedMap
import TableView.Number.Shortest

namespace TableView

-- An integer of 64 bits, signed or unsigned, or a double-precision number.
inductive Json.Number where
  | integer (i : Int)
  | real (x : Number.Binary64)
deriving DecidableEq,Inhabited,Repr

-- An object keeps its members in the order in which they were written, repetitions included.
inductive Json where
  | null
  | bool (b : Bool)
  | number (n : Json.Number)
  | string (s : String)
  | array (items : List Json)
  | object (members : List (String × Json))
deriving BEq,Inhabited,Repr

namespace Json

def ofNat (n : Nat) : Json := .number (.integer n)

def ofInt (i : Int) : Json := .number (.integer i)

mutual

def sorted : Json → Json
  | .array items => .array (sortedItems items)
  | .object members => .object (OrderedMap.ofList (sortedMembers members)).toList
  | other => other

def sortedItems : List Json → List Json
  | [] => []
  | item :: rest => sorted item :: sortedItems rest

def sortedMembers : List (String × Json) → List (String × Json)
  | [] => []
  | (name,value) :: rest => (name,sorted value) :: sortedMembers rest

end

def member? (value : Json) (name : String) : Option Json :=
  match value with
  | .object members => OrderedMap.find? members name
  | _ => none

def Number.InRange : Number → Prop
  | .integer i => -2 ^ 63 ≤ i ∧ i < 2 ^ 64
  | .real _ => True

def Number.write : Number → List Char
  | .integer i => Text.Numeral.ofInt i
  | .real x => TableView.Number.Shortest.write x

def Number.text (n : Number) : String := String.ofList n.write

def kind : Json → String
  | .null => "null"
  | .bool _ => "a boolean"
  | .number _ => "a number"
  | .string _ => "a string"
  | .array _ => "an array"
  | .object _ => "an object"

end Json

end TableView
