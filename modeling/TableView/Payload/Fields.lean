import TableView.Payload.Rows

namespace TableView

-- A text that is the canonical spelling of a number is that number.
inductive FieldValue where
  | number (n : Json.Number)
  | text (s : String)
deriving DecidableEq,Repr

namespace FieldValue

def ofString (s : String) : FieldValue :=
  match Json.Scan.number? s.toList with
  | some n => if n.text = s then number n else text s
  | none => text s

def asText : FieldValue → String
  | number n => n.text
  | text s => s

def clamp (i : Int) : Int := max (-2 ^ 63) (min i (2 ^ 63 - 1))

-- Integers beyond 64 bits go to the nearest one within them.
def seconds? : FieldValue → Option Int
  | number (.integer i) => some (clamp i)
  | number (.real x) => x.toInt?.map clamp
  | text s => Text.Numeral.toInt64? (Text.Chars.trim s.toList)

def toJson : FieldValue → Json
  | number n => .number n
  | text s => .string s

def ofJson : Json → Except PayloadFault (Option FieldValue)
  | .null => .ok none
  | .bool b => .ok (some (text (Payload.boolText b)))
  | .number n => .ok (some (number n))
  | .string s => .ok (some (ofString s))
  | other => .error (.shape (.notScalar other.kind))

end FieldValue

abbrev Fields := OrderedMap String FieldValue

namespace Payload

def addField (fields : Fields) (key : String) (value : Json) : Except PayloadFault Fields := do
  match ← FieldValue.ofJson value with
  | some v => return fields.insert key v
  | none => return fields

def addFields : List (String × Json) → Fields → Except PayloadFault Fields
  | [],fields => .ok fields
  | (key,value) :: rest,fields => do
    let fields ← addField fields key value
    addFields rest fields

def fieldsOf (value : Json) : Except PayloadFault Fields := do
  let members ← expectObject value
  addFields members .empty

def decodeEntries (payload : String) : Except PayloadFault (List Fields) := do
  let items ← decodeList payload
  items.mapM fieldsOf

end Payload

end TableView
