import TableView.Calendar.Format
import TableView.Markup.Inline
import TableView.OrderedMap
import TableView.Pattern.Reader
import TableView.Text.Numeral

namespace TableView

structure CellValue where
  display : String
  text : String
  date : Option Int
deriving DecidableEq,Repr

def CellValue.blank : CellValue := ⟨"","",none⟩

abbrev RowEntry := OrderedMap Nat CellValue

-- A column goes by its ordinal; its name is for display.
structure Column where
  ordinal : Nat
  name : String
deriving DecidableEq,Repr

def Column.key (c : Column) : String := Text.Numeral.natText c.ordinal

structure ParsedTable where
  columns : List Column
  entries : List RowEntry
deriving DecidableEq,Repr

namespace ParsedTable

def empty : ParsedTable := ⟨[],[]⟩

def isEmpty (t : ParsedTable) : Bool := t.columns.isEmpty && t.entries.isEmpty

def columnNames (t : ParsedTable) : List String := t.columns.map (·.name)

end ParsedTable

-- What becomes of a first row with header cells; to ignore the header is to keep the row.
inductive HeaderPolicy where
  | remove
  | keep
  | ignore
deriving DecidableEq,Repr

namespace HeaderPolicy

def standard : HeaderPolicy := remove

def all : List HeaderPolicy := [remove,keep,ignore]

def name : HeaderPolicy → String
  | remove => "remove"
  | keep => "keep"
  | ignore => "ignore"

end HeaderPolicy

namespace Pattern

-- The items of a list that a pattern separates: pieces without the blanks around them. Blank
-- pieces are no items.
def itemChars (p : Pattern) (text : List Char) : List (List Char) :=
  ((p.split text).map Text.Chars.trim).filter (fun item => !item.isEmpty)

def items (p : Pattern) (text : String) : List String :=
  (p.itemChars text.toList).map String.ofList

end Pattern

abbrev DateFormats := List String

def DateFormats.seconds? (formats : DateFormats) (text : String) : Option Int :=
  let text := Text.Chars.trim text.toList
  if text.isEmpty then none
  else formats.findSome? (fun f => Calendar.Format.parse? f.toList text)

structure NormalizeOptions where
  headerPolicy : HeaderPolicy
  dateFormats : DateFormats
  header : List String
deriving DecidableEq,Repr

namespace Cell

def value (formats : DateFormats) (c : Cell) : CellValue :=
  ⟨c.richText,c.plainText,formats.seconds? c.plainText⟩

end Cell

namespace Row

def entry (formats : DateFormats) (r : Row) : RowEntry :=
  OrderedMap.ofList (r.zipIdx.map (fun (c,i) => (i,c.value formats)))

end Row

namespace Table

def hasHeader (t : Table) : Bool := t.rows.head?.any Row.hasHeader

def headerName? (t : Table) (i : Nat) : Option String :=
  t.rows.head?.bind (fun r => r[i]?.bind (fun c => if c.header then some c.plainText else none))

def columnName (t : Table) (header : List String) (i : Nat) : String :=
  header[i]?.getD ((t.headerName? i).getD (Text.Numeral.natText i))

def columns (t : Table) (header : List String) : List Column :=
  (List.range t.width).map (fun i => ⟨i,t.columnName header i⟩)

def bodyRows (t : Table) (policy : HeaderPolicy) : List Row :=
  if t.hasHeader && policy = .remove then t.rows.drop 1 else t.rows

def normalize (options : NormalizeOptions) (t : Table) : ParsedTable :=
  ⟨t.columns options.header,
    (t.bodyRows options.headerPolicy).map (Row.entry options.dateFormats)⟩

end Table

def normalizeDocument (options : NormalizeOptions) (blocks : List Block) : ParsedTable :=
  match firstTable? blocks with
  | some t => t.normalize options
  | none => .empty

end TableView
