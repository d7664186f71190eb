import TableView.Json.Basic
import TableView.Text.Category
import TableView.Text.Utf8

namespace TableView.Json

inductive Found where
  | null
  | bool (b : Bool)
  | integer (i : Int)
  | real (x : TableView.Number.Binary64)
  | string (s : String)
  | sequence
  | map
deriving Repr

def Found.ofNumber : Number → Found
  | .integer i => .integer i
  | .real x => .real x

def Found.of : Json → Found
  | .null => .null
  | .bool b => .bool b
  | .number n => .ofNumber n
  | .string s => .string s
  | .array _ => .sequence
  | .object _ => .map

def tick (s : String) : String := "`" ++ s ++ "`"

def Found.message : Found → String
  | .null => "null"
  | .bool b => "boolean " ++ tick (String.ofList (if b then "true".toList else "false".toList))
  | .integer i => "integer " ++ tick (Text.Numeral.intText i)
  | .real x => "floating point " ++ tick (String.ofList (TableView.Number.Shortest.write x))
  | .string s => "string " ++ Text.Quoted.quote s
  | .sequence => "sequence"
  | .map => "map"

inductive Mismatch where
  | wrongType (found : Found) (expected : String)
  | wrongValue (found : Found) (expected : String)
  | wrongLength (length : Nat) (expected : String)
  | unknownVariant (name : String) (known : List String)
  | missingField (name : String)
  | duplicateField (name : String)
  | notScalar (what : String)
deriving Repr

def oneOf : List String → String
  | [] => "nothing"
  | [a] => tick a
  | [a,b] => tick a ++ " or " ++ tick b
  | names => "one of " ++ String.intercalate ", " (names.map tick)

def Mismatch.message : Mismatch → String
  | .wrongType found expected => s!"invalid type: {found.message}, expected {expected}"
  | .wrongValue found expected => s!"invalid value: {found.message}, expected {expected}"
  | .wrongLength length expected =>
    s!"invalid length {Text.Numeral.natText length}, expected {expected}"
  | .unknownVariant name known => s!"unknown variant {tick name}, expected {oneOf known}"
  | .missingField name => s!"missing field {tick name}"
  | .duplicateField name => s!"duplicate field {tick name}"
  | .notScalar what => s!"{what} must be a string, number or boolean"

inductive Cause where
  | endInValue
  | endInList
  | endInObject
  | endInString
  | expectedColon
  | expectedListCommaOrEnd
  | expectedObjectCommaOrEnd
  | expectedWord
  | expectedValue
  | badEscape
  | badNumber
  | numberOutOfRange
  | controlCharacter
  | keyNotString
  | endOfHexEscape
  | loneSurrogate
  | trailingComma
  | trailingCharacters
  | tooDeep
  | mismatch (m : Mismatch)
deriving Repr

def Cause.message : Cause → String
  | .endInValue => "EOF while parsing a value"
  | .endInList => "EOF while parsing a list"
  | .endInObject => "EOF while parsing an object"
  | .endInString => "EOF while parsing a string"
  | .expectedColon => "expected " ++ tick ":"
  | .expectedListCommaOrEnd => "expected " ++ tick "," ++ " or " ++ tick "]"
  | .expectedObjectCommaOrEnd => "expected " ++ tick "," ++ " or " ++ tick "\x7d"
  | .expectedWord => "expected ident"
  | .expectedValue => "expected value"
  | .badEscape => "invalid escape"
  | .badNumber => "invalid number"
  | .numberOutOfRange => "number out of range"
  | .controlCharacter => "control character (\\u0000-\\u001F) found while parsing a string"
  | .keyNotString => "key must be a string"
  | .endOfHexEscape => "unexpected end of hex escape"
  | .loneSurrogate => "lone leading surrogate in hex escape"
  | .trailingComma => "trailing comma"
  | .trailingCharacters => "trailing characters"
  | .tooDeep => "recursion limit exceeded"
  | .mismatch m => m.message

-- A fault met while reading. Its place is the number of bytes not yet read; a mismatch that a
-- compound value finds in itself gets its place only when that value is left, and until then
-- carries the text that was unread when it arose.
inductive Fault where
  | placed (cause : Cause) (unread : Nat)
  | unplaced (m : Mismatch) (rest : List Char)

def Fault.here (cause : Cause) (rest : List Char) : Fault := .placed cause (Text.Utf8.length rest)

def Fault.next (cause : Cause) (rest : List Char) : Fault :=
  .placed cause (Text.Utf8.length rest - 1)

-- Lines are counted from one; columns count bytes, and a column is the number of bytes of its line
-- up to and including the fault.
def positionAt (line column : Nat) : List Char → Nat → Nat × Nat
  | [],_ => (line,column)
  | c :: rest,bytes =>
    if bytes = 0 then (line,column)
    else if c = '\n' then positionAt (line + 1) 0 rest (bytes - 1)
    else positionAt line (column + min bytes (Text.Utf8.width c)) rest
      (bytes - Text.Utf8.width c)

structure ReadError where
  cause : Cause
  position : Option (Nat × Nat)
deriving Repr

def ReadError.message (e : ReadError) : String :=
  match e.position with
  | none => e.cause.message
  | some (line,column) =>
    s!"{e.cause.message} at line {Text.Numeral.natText line} column {Text.Numeral.natText column}"

def Fault.report (text : List Char) : Fault → ReadError
  | .placed cause unread =>
    ⟨cause,some (positionAt 1 0 text (Text.Utf8.length text - unread))⟩
  | .unplaced m _ => ⟨.mismatch m,none⟩

end TableView.Json
