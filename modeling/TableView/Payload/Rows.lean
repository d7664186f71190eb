import TableView.Entries.Normalize
import TableView.Payload.Codec

namespace TableView.Payload

def textMark : String := "text."

def dateMark : String := "date."

def cellMembers (ordinal : Nat) (cell : CellValue) : List (String × Json) :=
  let key := Text.Numeral.natText ordinal
  let shown := [(key,Json.string cell.display),(textMark ++ key,Json.string cell.text)]
  match cell.date with
  | some date => shown ++ [(dateMark ++ key,Json.ofInt date)]
  | none => shown

def rowMembers (entry : RowEntry) : OrderedMap String Json :=
  OrderedMap.ofList (entry.toList.flatMap (fun (ordinal,cell) => cellMembers ordinal cell))

def rowJson (entry : RowEntry) : Json := .object (rowMembers entry).toList

def encodeRows (format : Compression.Format) (entries : List RowEntry) : String :=
  encode format (.array (entries.map rowJson))

def encodeColumns (format : Compression.Format) (columns : List Column) : String :=
  encode format (.array (columns.map (fun c => .string c.name)))

-- What a cell shows stands under the ordinal of its column, its text and its date under the same
-- ordinal behind a mark.
inductive Slot where
  | display
  | text
  | date
deriving DecidableEq,Repr

def ordinalOf (key : List Char) : Except PayloadFault Nat :=
  match Text.Numeral.toOrdinal? key with
  | some n => .ok n
  | none => .error (.shape (.unexpectedKey (String.ofList key)))

def slotOf (key : String) : Except PayloadFault (Nat × Slot) :=
  match Text.Chars.dropStart? textMark.toList key.toList with
  | some rest => (ordinalOf rest).map (fun n => (n,.text))
  | none =>
    match Text.Chars.dropStart? dateMark.toList key.toList with
    | some rest => (ordinalOf rest).map (fun n => (n,.date))
    | none => (ordinalOf key.toList).map (fun n => (n,.display))

def timestampOf (key : String) : Json → Except PayloadFault Int
  | .number (.integer i) =>
    if Text.Numeral.InInt64 i then .ok i else .error (.shape (.notTimestamp key))
  | _ => .error (.shape (.notTimestamp key))

def fill (key : String) (value : Json) (cell : CellValue) : Slot → Except PayloadFault CellValue
  | .display => (scalarText value).map (fun s => { cell with display := s })
  | .text => (scalarText value).map (fun s => { cell with text := s })
  | .date => (timestampOf key value).map (fun t => { cell with date := some t })

def addMember (entry : RowEntry) (key : String) (value : Json) : Except PayloadFault RowEntry := do
  let (ordinal,slot) ← slotOf key
  let cell ← fill key value ((entry.get? ordinal).getD .blank) slot
  return entry.insert ordinal cell

def addMembers : List (String × Json) → RowEntry → Except PayloadFault RowEntry
  | [],entry => .ok entry
  | (key,value) :: rest,entry => do
    let entry ← addMember entry key value
    addMembers rest entry

def rowOf (value : Json) : Except PayloadFault RowEntry := do
  let members ← expectObject value
  addMembers members .empty

def decodeRows (payload : String) : Except PayloadFault (List RowEntry) := do
  let items ← decodeList payload
  items.mapM rowOf

def columnsOf (names : List String) : List Column := names.zipIdx.map (fun (name,i) => ⟨i,name⟩)

def decodeColumns (payload : String) : Except PayloadFault (List Column) := do
  let items ← decodeList payload
  let names ← items.mapM scalarText
  return columnsOf names

end TableView.Payload
