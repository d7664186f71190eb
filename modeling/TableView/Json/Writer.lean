import TableView.Json.Basic
import TableView.Text.Category

namespace TableView.Json

def escapeControl (n : Nat) : List Char :=
  ['\\','u','0','0',Text.Quoted.hexDigit (n / 16),Text.Quoted.hexDigit (n % 16)]

def escapeChar (c : Char) : List Char :=
  if c = '"' then ['\\','"']
  else if c = '\\' then ['\\','\\']
  else if c.toNat = 8 then ['\\','b']
  else if c.toNat = 9 then ['\\','t']
  else if c.toNat = 10 then ['\\','n']
  else if c.toNat = 12 then ['\\','f']
  else if c.toNat = 13 then ['\\','r']
  else if c.toNat < 32 then escapeControl c.toNat
  else [c]

def writeString (s : String) : List Char := '"' :: s.toList.flatMap escapeChar ++ ['"']

def writeBool (b : Bool) : List Char := if b then ['t','r','u','e'] else ['f','a','l','s','e']

mutual

def write : Json → List Char
  | .null => ['n','u','l','l']
  | .bool b => writeBool b
  | .number n => n.write
  | .string s => writeString s
  | .array [] => ['[',']']
  | .array (item :: rest) => '[' :: write item ++ writeItems rest
  | .object [] => ['\x7b','\x7d']
  | .object ((name,value) :: rest) =>
    '\x7b' :: writeString name ++ ':' :: write value ++ writeMembers rest

def writeItems : List Json → List Char
  | [] => [']']
  | item :: rest => ',' :: write item ++ writeItems rest

def writeMembers : List (String × Json) → List Char
  | [] => ['\x7d']
  | (name,value) :: rest =>
    ',' :: writeString name ++ ':' :: write value ++ writeMembers rest

end

def newline (depth : Nat) : List Char := '\n' :: List.replicate (2 * depth) ' '

mutual

def writePretty (depth : Nat) : Json → List Char
  | .array [] => ['[',']']
  | .array (item :: rest) =>
    '[' :: newline (depth + 1) ++ writePretty (depth + 1) item ++ writePrettyItems depth rest
  | .object [] => ['\x7b','\x7d']
  | .object ((name,value) :: rest) =>
    '\x7b' :: newline (depth + 1) ++ writeString name ++ [':',' '] ++
      writePretty (depth + 1) value ++ writePrettyMembers depth rest
  | .null => ['n','u','l','l']
  | .bool b => writeBool b
  | .number n => n.write
  | .string s => writeString s

def writePrettyItems (depth : Nat) : List Json → List Char
  | [] => newline depth ++ [']']
  | item :: rest =>
    ',' :: newline (depth + 1) ++ writePretty (depth + 1) item ++ writePrettyItems depth rest

def writePrettyMembers (depth : Nat) : List (String × Json) → List Char
  | [] => newline depth ++ ['\x7d']
  | (name,value) :: rest =>
    ',' :: newline (depth + 1) ++ writeString name ++ [':',' '] ++
      writePretty (depth + 1) value ++ writePrettyMembers depth rest

end

def compact (value : Json) : String := String.ofList value.write

def pretty (value : Json) : String := String.ofList (value.writePretty 0)

end TableView.Json
