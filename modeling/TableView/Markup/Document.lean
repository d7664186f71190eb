import TableView.Markup.Block
import TableView.Text.Blank

namespace TableView

namespace Cell

def ofChars : List Char → Cell
  | '=' :: content => ⟨true,String.ofList content⟩
  | content => ⟨false,String.ofList content⟩

end Cell

namespace Row

-- The contents of the cells of a row, where bars end cells and a tilde takes the next character
-- as it is. A bar at the end opens no further cell.
def contents (cell : List Char) (open_ : Bool) : List Char → List (List Char)
  | [] => if open_ then [cell.reverse] else []
  | '~' :: [] => [('~' :: cell).reverse]
  | '~' :: c :: rest => contents (c :: '~' :: cell) true rest
  | '|' :: rest => cell.reverse :: contents [] false rest
  | c :: rest => contents (c :: cell) true rest

def ofChars (line : List Char) : Row := (contents [] true line).map Cell.ofChars

end Row

-- Any line but a row and the marks of groups is a text; blank lines only separate tables.
inductive Line where
  | opening
  | closing
  | row (r : Row)
  | text (s : List Char)
  | blank
deriving DecidableEq,Repr

namespace Line

def openingMark : List Char := ['(','(','(']

def closingMark : List Char := [')',')',')']

def ofTrimmed (line : List Char) : Line :=
  if line = openingMark then opening
  else if line = closingMark then closing
  else
    match line with
    | [] => blank
    | '|' :: rest => row (Row.ofChars rest)
    | _ => text line

def ofChars (line : List Char) : Line := ofTrimmed (Text.Chars.trim line)

end Line

-- A document of which some lines have been read: the rows of the last table, the blocks of the
-- innermost open group and those of the groups around it, all in reverse.
structure Outline where
  rows : List Row
  blocks : List Block
  around : List (List Block)

namespace Outline

def start : Outline := ⟨[],[],[]⟩

def endTable (o : Outline) : Outline :=
  if o.rows.isEmpty then o
  else { o with rows := [],blocks := .table ⟨o.rows.reverse⟩ :: o.blocks }

def addText (s : List Char) (o : Outline) : Outline :=
  { o with blocks := .text (String.ofList s) :: o.blocks }

def openGroup (o : Outline) : Outline := { o with blocks := [],around := o.blocks :: o.around }

-- A closing mark without an open group is a text.
def closeGroup (o : Outline) : Outline :=
  match o.around with
  | [] => o.addText Line.closingMark
  | outer :: around => { o with blocks := .group o.blocks.reverse :: outer,around := around }

def add (o : Outline) : Line → Outline
  | .opening => o.endTable.openGroup
  | .closing => o.endTable.closeGroup
  | .row r => { o with rows := r :: o.rows }
  | .text s => o.endTable.addText s
  | .blank => o.endTable

-- Groups that are still open end with the document.
def closeAll (inner : List Block) : List (List Block) → List Block
  | [] => inner.reverse
  | outer :: around => closeAll (.group inner.reverse :: outer) around

def finish (o : Outline) : List Block := closeAll o.endTable.blocks o.endTable.around

end Outline

namespace Document

def lines (cs : List Char) : List Line := (Text.Chars.lines cs).map Line.ofChars

def blocksOf (lines : List Line) : List Block := (lines.foldl Outline.add .start).finish

def parse (s : String) : List Block := blocksOf (lines s.toList)

end Document

end TableView
