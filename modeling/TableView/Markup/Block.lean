namespace TableView

structure Cell where
  header : Bool
  content : String
deriving DecidableEq,Repr

abbrev Row := List Cell

structure Table where
  rows : List Row
deriving DecidableEq,Repr

inductive Block where
  | table (t : Table)
  | group (children : List Block)
  | text (s : String)
deriving Repr

namespace Row

def hasHeader (r : Row) : Bool := r.any (·.header)

end Row

def Table.width (t : Table) : Nat := t.rows.foldl (fun n r => max n r.length) 0

mutual

def Block.table? : Block → Option Table
  | .table t => some t
  | .group children => firstTable? children
  | .text _ => none

def firstTable? : List Block → Option Table
  | [] => none
  | b :: rest =>
    match b.table? with
    | some t => some t
    | none => firstTable? rest

end

end TableView
