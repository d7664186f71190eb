import TableView.Entries.Normalize

namespace TableView

inductive Operator where
  | startsWith
  | equals
  | contains
  | between
deriving DecidableEq,Repr

namespace Operator

def all : List Operator := [startsWith,equals,contains,between]

def name : Operator → String
  | startsWith => "startsWith"
  | equals => "equals"
  | contains => "contains"
  | between => "between"

def ofName? (s : String) : Option Operator := all.find? (fun op => op.name == s)

end Operator

structure Constraint where
  operator : String
  value : String
deriving DecidableEq,Repr

namespace Constraint

def of (op : Operator) (value : String) : Constraint := ⟨op.name,value⟩

def standard : Constraint := of .contains ""

-- Unknown operators look for the value anywhere.
def kind (c : Constraint) : Operator := (Operator.ofName? c.operator).getD .contains

def isRecognized (c : Constraint) : Bool := (Operator.ofName? c.operator).isSome

end Constraint

structure Filter where
  property : String
  constraints : List Constraint
deriving DecidableEq,Repr

structure SortEntry where
  property : String
  descending : Bool
deriving DecidableEq,Repr

structure Query where
  filters : List Filter
  sort : List SortEntry
  offset : Nat
  limit : Option Nat
deriving DecidableEq,Repr

namespace Query

def standard : Query := ⟨[],[],0,none⟩

-- Adds a constraint to the first filter of its property, or to a new filter at the end.
def constrain (property : String) (c : Constraint) : List Filter → List Filter
  | [] => [⟨property,[c]⟩]
  | f :: rest =>
    if f.property = property then { f with constraints := f.constraints ++ [c] } :: rest
    else f :: constrain property c rest

def addConstraint (q : Query) (property : String) (c : Constraint) : Query :=
  { q with filters := constrain property c q.filters }

-- The ordinal of the first column with a name, for a property that is no ordinal of a column.
def resolveProperty (columns : List Column) (property : String) : String :=
  if columns.any (fun c => c.key == property) then property
  else
    match columns.find? (fun c => c.name == property) with
    | some c => c.key
    | none => property

def resolve (columns : List Column) (q : Query) : Query :=
  { q with
    filters := q.filters.map (fun f => { f with property := resolveProperty columns f.property })
    sort := q.sort.map (fun s => { s with property := resolveProperty columns s.property }) }

end Query

end TableView
