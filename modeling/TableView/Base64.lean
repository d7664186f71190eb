import TableView.Text.Numeral

namespace TableView.Base64

def symbol (n : Nat) : UInt8 :=
  if n < 26 then (65 + n).toUInt8
  else if n < 52 then (71 + n).toUInt8
  else if n < 62 then (n - 4).toUInt8
  else if n = 62 then 45
  else 95

def value? (b : UInt8) : Option Nat :=
  let n := b.toNat
  if 65 ≤ n ∧ n ≤ 90 then some (n - 65)
  else if 97 ≤ n ∧ n ≤ 122 then some (n - 71)
  else if 48 ≤ n ∧ n ≤ 57 then some (n + 4)
  else if n = 45 then some 62
  else if n = 95 then some 63
  else none

def pad : UInt8 := 61

def encodeBytes : List UInt8 → List UInt8
  | [] => []
  | [a] =>
    let n := a.toNat * 16
    [symbol (n / 64),symbol (n % 64)]
  | [a,b] =>
    let n := (a.toNat * 256 + b.toNat) * 4
    [symbol (n / 4096),symbol (n / 64 % 64),symbol (n % 64)]
  | a :: b :: c :: rest =>
    let n := (a.toNat * 256 + b.toNat) * 256 + c.toNat
    symbol (n / 262144) :: symbol (n / 4096 % 64) :: symbol (n / 64 % 64) :: symbol (n % 64) ::
      encodeBytes rest

def encode (bytes : List UInt8) : String :=
  String.ofList ((encodeBytes bytes).map (fun b => Char.ofNat b.toNat))

inductive Fault where
  | symbol (byte : UInt8) (offset : Nat)
  | length (n : Nat)
  | lastSymbol (byte : UInt8) (offset : Nat)
deriving DecidableEq,Repr

def Fault.message : Fault → String
  | .symbol byte offset =>
    s!"Invalid symbol {Text.Numeral.natText byte.toNat}, offset {Text.Numeral.natText offset}."
  | .length n => s!"Invalid input length: {Text.Numeral.natText n}"
  | .lastSymbol byte offset =>
    s!"Invalid last symbol {Text.Numeral.natText byte.toNat}, offset {Text.Numeral.natText offset}."

def valueAt (b : UInt8) (offset : Nat) : Except Fault Nat :=
  match value? b with
  | some v => .ok v
  | none => .error (.symbol b offset)

-- The symbols of the last group: padding only behind two symbols, and nothing but padding
-- behind padding. The symbols before the padding are returned with their bits.
def lastSymbols (start : Nat) (padding : Option Nat) (index : Nat) (read : List (UInt8 × Nat)) :
    List UInt8 → Except Fault (List (UInt8 × Nat))
  | [] => .ok read
  | b :: rest =>
    if b = pad then
      if index < 2 then .error (.symbol b (start + index))
      else lastSymbols start (padding.or (some index)) (index + 1) read rest
    else
      match padding with
      | some first => .error (.symbol pad (start + first))
      | none => do
        let v ← valueAt b (start + index)
        lastSymbols start none (index + 1) (read ++ [(b,v)]) rest

def lastGroup (start : Nat) (symbols : List UInt8) : Except Fault (List UInt8) := do
  let read ← lastSymbols start none 0 [] symbols
  match read with
  | [] => if symbols.isEmpty then .ok [] else .error (.length start)
  | [_] => .error (.length (start + 1))
  | [(_,a),(s,b)] =>
    if b % 16 = 0 then .ok [(a * 4 + b / 16).toUInt8] else .error (.lastSymbol s (start + 1))
  | [(_,a),(_,b),(s,c)] =>
    let n := (a * 64 + b) * 64 + c
    if c % 4 = 0 then .ok [(n / 1024).toUInt8,(n / 4 % 256).toUInt8]
    else .error (.lastSymbol s (start + 2))
  | (_,a) :: (_,b) :: (_,c) :: (_,d) :: _ =>
    let n := ((a * 64 + b) * 64 + c) * 64 + d
    .ok [(n / 65536).toUInt8,(n / 256 % 256).toUInt8,(n % 256).toUInt8]

def groups (start : Nat) : List UInt8 → Except Fault (List UInt8)
  | a :: b :: c :: d :: e :: rest => do
    let a ← valueAt a start
    let b ← valueAt b (start + 1)
    let c ← valueAt c (start + 2)
    let d ← valueAt d (start + 3)
    let n := ((a * 64 + b) * 64 + c) * 64 + d
    let more ← groups (start + 4) (e :: rest)
    .ok ((n / 65536).toUInt8 :: (n / 256 % 256).toUInt8 :: (n % 256).toUInt8 :: more)
  | symbols => lastGroup start symbols
termination_by symbols => symbols.length

-- A single byte behind full groups is checked before everything else.
def strayByte (bytes : List UInt8) : Option Fault :=
  match bytes.getLast? with
  | some b =>
    if bytes.length % 4 = 1 && b ≠ pad && (value? b).isNone then
      some (.symbol b (bytes.length - 1))
    else none
  | none => none

def decode (bytes : List UInt8) : Except Fault (List UInt8) :=
  match strayByte bytes with
  | some fault => .error fault
  | none => groups 0 bytes

end TableView.Base64
