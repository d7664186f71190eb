import TableView.Query.Basic
import TableView.Text.LowerCase
import TableView.Text.Blank

namespace TableView

inductive ExpressionFault where
  | noOperator (expression : String)
  | emptyFilterColumn (expression : String)
  | badDirection (expression direction : String)
  | emptySortColumn (expression : String)
deriving DecidableEq,Repr

def ExpressionFault.message : ExpressionFault → String
  | noOperator e => "Invalid filter '" ++ e ++ "': expected COL:OP:VALUE"
  | emptyFilterColumn e => "Invalid filter '" ++ e ++ "': empty column"
  | badDirection e d =>
    "Invalid sort '" ++ e ++ "': direction must be asc or desc, got '" ++ d ++ "'"
  | emptySortColumn e => "Invalid sort '" ++ e ++ "': empty column"

namespace Constraint

def operatorOf? (name : List Char) : Option Operator :=
  Operator.ofName? (String.ofList (Text.Chars.trim name))

-- A value may hold colons: only a known operator is taken off its front.
def ofExpression (rest : List Char) : Constraint :=
  match Text.Chars.splitOnce ':' rest with
  | some (name,value) =>
    match operatorOf? name with
    | some op => .of op (String.ofList value)
    | none => .of .contains (String.ofList rest)
  | none => .of .contains (String.ofList rest)

end Constraint

namespace Query

-- A column, an operator and a value between colons; without an operator the value is contained.
def filterOf (expression : String) : Except ExpressionFault (String × Constraint) :=
  match Text.Chars.splitOnce ':' expression.toList with
  | none => .error (.noOperator expression)
  | some (column,rest) =>
    let property := Text.Chars.trim column
    if property.isEmpty then .error (.emptyFilterColumn expression)
    else .ok (String.ofList property,.ofExpression rest)

def sortColumn (expression : String) (column : List Char) (descending : Bool) :
    Except ExpressionFault SortEntry :=
  let property := Text.Chars.trim column
  if property.isEmpty then .error (.emptySortColumn expression)
  else .ok ⟨String.ofList property,descending⟩

def sortOf (expression : String) : Except ExpressionFault SortEntry :=
  match Text.Chars.splitLast ':' expression.toList with
  | none => sortColumn expression expression.toList false
  | some (column,direction) =>
    match String.ofList (Text.LowerCase.ofChars (Text.Chars.trim direction)) with
    | "asc" => sortColumn expression column false
    | "desc" => sortColumn expression column true
    | other => .error (.badDirection expression other)

def addFilters : List String → Query → Except ExpressionFault Query
  | [],q => .ok q
  | e :: rest,q => do
    let (property,c) ← filterOf e
    addFilters rest (q.addConstraint property c)

def ofExpressions (filters sorts : List String) (offset : Nat) (limit : Option Nat) :
    Except ExpressionFault Query := do
  let q ← addFilters filters ⟨[],[],offset,limit⟩
  let sort ← sorts.mapM sortOf
  return { q with sort := sort }

end Query

end TableView
