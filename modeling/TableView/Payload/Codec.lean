import TableView.Fault
import TableView.Json.Decoder
import TableView.Json.Writer

namespace TableView.Payload

def encodeText (format : Compression.Format) (text : String) : String :=
  Base64.encode (Compression.compress format (Text.Utf8.ofString text))

def encode (format : Compression.Format) (value : Json) : String :=
  encodeText format value.compact

def decodeBytes (payload : String) : Except PayloadFault (List UInt8) :=
  (Base64.decode (Text.Utf8.encode (Text.Chars.trim payload.toList))).mapError .base64

def decodeText (payload : String) : Except PayloadFault String := do
  let bytes ← decodeBytes payload
  let plain ← (Compression.decompress bytes).mapError .compression
  (Text.Utf8.toString? plain).mapError .utf8

-- The value in a payload, with the members of objects in order; a blank payload has none.
def decode (payload : String) : Except PayloadFault (Option Json) := do
  let text ← decodeText payload
  if Text.allBlank text then return none
  let value ← (Json.parse text).mapError .json
  return some value.sorted

def expectArray : Option Json → Except PayloadFault (List Json)
  | none => .ok []
  | some (.array items) => .ok items
  | some other => .error (.shape (.notArray other.kind))

def decodeList (payload : String) : Except PayloadFault (List Json) := do
  expectArray (← decode payload)

def expectObject : Json → Except PayloadFault (List (String × Json))
  | .object members => .ok members
  | other => .error (.shape (.notObject other.kind))

def boolText (b : Bool) : String := if b then "true" else "false"

def scalarText : Json → Except PayloadFault String
  | .string s => .ok s
  | .number n => .ok n.text
  | .bool b => .ok (boolText b)
  | .null => .ok ""
  | other => .error (.shape (.notScalar other.kind))

end TableView.Payload
