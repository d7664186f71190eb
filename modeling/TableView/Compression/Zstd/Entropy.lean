import TableView.Compression.Bits

namespace TableView.Compression.Zstd

-- Streams are written backwards: the last byte holds a marker bit above the bits to be read first.
def backwardBits (bytes : List UInt8) : Option (List Bool) :=
  match bytes.reverse with
  | [] => none
  | last :: front =>
    match (Bits.highFirst last).dropWhile (· == false) with
    | [] => none
    | _ :: bits => some (bits ++ Bits.ofBytesHigh front)

structure State where
  symbol : Nat
  bits : Nat
  base : Nat
deriving Inhabited,Repr

structure StateTable where
  accuracy : Nat
  states : Array State
deriving Inhabited,Repr

namespace StateTable

-- Shares of the symbols; a share of -1 is a single state with all bits to read.
abbrev Shares := List Int

def zeroRun : Nat → List Bool → Option (Nat × List Bool)
  | 0,_ => none
  | fuel + 1,bits => do
    let (n,bits) ← Bits.takeLow 2 bits
    if n = 3 then
      let (more,bits) ← zeroRun fuel bits
      some (n + more,bits)
    else some (n,bits)

-- One share: numbers below a threshold take one bit less than the others.
def shareOf (remaining : Nat) (bits : List Bool) : Option (Int × List Bool) := do
  let width := (remaining + 1).log2 + 1
  let threshold := 2 ^ width - 1 - (remaining + 1)
  let (low,rest) ← Bits.takeLow (width - 1) bits
  if low < threshold then some (Int.ofNat low - 1,rest)
  else
    let (v,rest) ← Bits.takeLow width bits
    let v := if 2 ^ (width - 1) ≤ v then v - threshold else v
    some (Int.ofNat v - 1,rest)

def shares : Nat → Nat → List Bool → Option (Shares × List Bool)
  | _,0,bits => some ([],bits)
  | 0,_,_ => none
  | fuel + 1,remaining,bits => do
    let (share,bits) ← shareOf remaining bits
    if remaining < share.natAbs then none
    else
      let (zeros,bits) ← if share = 0 then zeroRun bits.length bits else some (0,bits)
      let (rest,bits) ← shares fuel (remaining - share.natAbs) bits
      some (share :: (List.replicate zeros 0 ++ rest),bits)

-- Symbols that have a single state, from the end of the table downwards.
def singles (s : Shares) : List Nat :=
  (s.zipIdx.filter (fun (share,_) => share = -1)).map (·.2)

def spread (s : Shares) : List Nat :=
  s.zipIdx.flatMap (fun (share,symbol) => List.replicate share.toNat symbol)

def places (size bound : Nat) : Nat → Nat → List Nat
  | 0,_ => []
  | n + 1,position =>
    let next := (position + size / 2 + size / 8 + 3) % size
    if position < bound then position :: places size bound n next
    else places size bound n next

def symbolsAt (accuracy : Nat) (s : Shares) : Array Nat :=
  let size := 2 ^ accuracy
  let rare := singles s
  let bound := size - rare.length
  let table := rare.zipIdx.foldl
    (fun (t : Array Nat) (symbol,i) => t.setIfInBounds (size - 1 - i) symbol)
    (Array.replicate size 0)
  ((places size bound size 0).zip (spread s)).foldl
    (fun t (place,symbol) => t.setIfInBounds place symbol) table

def build (accuracy : Nat) (s : Shares) : StateTable :=
  let first : Array Nat := (s.map (fun share => if share = -1 then 1 else share.toNat)).toArray
  let step := fun (acc : Array Nat × Array State) (symbol : Nat) =>
    let (counts,states) := acc
    let n := counts.getD symbol 1
    let bits := accuracy - n.log2
    (counts.setIfInBounds symbol (n + 1),states.push ⟨symbol,bits,n * 2 ^ bits - 2 ^ accuracy⟩)
  ⟨accuracy,((symbolsAt accuracy s).foldl step (first,#[])).2⟩

def constant (symbol : Nat) : StateTable := ⟨0,#[⟨symbol,0,0⟩]⟩

def read (greatestAccuracy symbolLimit : Nat) (bytes : List UInt8) :
    Option (StateTable × List UInt8) := do
  let bits := Bits.ofBytesLow bytes
  let (low,rest) ← Bits.takeLow 4 bits
  let accuracy := low + 5
  if greatestAccuracy < accuracy then none
  else
    let (s,rest) ← shares (symbolLimit + 1) (2 ^ accuracy) rest
    if symbolLimit < s.length then none
    else some (build accuracy s,bytes.drop ((bits.length - rest.length + 7) / 8))

def state? (t : StateTable) (n : Nat) : Option State := t.states[n]?

end StateTable

-- Bits of a backward stream, with zeros in place of those behind the end.
def takePadded (n : Nat) (bits : List Bool) : Nat × List Bool :=
  match Bits.takeHigh n (bits.take n ++ List.replicate (n - bits.length) false) with
  | some (v,_) => (v,bits.drop n)
  | none => (0,[])

structure ByteCode where
  longest : Nat
  entries : Array (UInt8 × Nat)
deriving Inhabited,Repr

namespace ByteCode

-- The weight of the last byte makes the sum of all shares a power of two.
def completeWeights (weights : List Nat) : Option (Nat × List Nat) :=
  let total := (weights.map (fun w => if w = 0 then 0 else 2 ^ (w - 1))).foldr (· + ·) 0
  if total = 0 then none
  else
    let longest := total.log2 + 1
    let left := 2 ^ longest - total
    if left = 2 ^ left.log2 then some (longest,weights ++ [left.log2 + 1]) else none

def entriesOf (longest weight : Nat) (weights : List Nat) : List (UInt8 × Nat) :=
  (weights.zipIdx.filter (fun (w,_) => w = weight)).flatMap (fun (_,symbol) =>
    List.replicate (2 ^ (weight - 1)) (symbol.toUInt8,longest + 1 - weight))

def ofWeights (weights : List Nat) : Option ByteCode := do
  let (longest,weights) ← completeWeights weights
  if 11 < longest || 256 < weights.length || weights.any (fun w => longest < w) then none
  else
    some ⟨longest,((List.range longest).flatMap
      (fun i => entriesOf longest (i + 1) weights)).toArray⟩

def weightsFrom (table : StateTable) : Nat → Nat → Nat → List Bool → List Nat → Option (List Nat)
  | 0,_,_,_,_ => none
  | fuel + 1,current,other,bits,read => do
    let s ← table.state? current
    if bits.length < s.bits then
      let last ← table.state? other
      some (last.symbol :: s.symbol :: read).reverse
    else
      let (v,bits) := takePadded s.bits bits
      weightsFrom table fuel other (s.base + v) bits (s.symbol :: read)

def codedWeights (bytes : List UInt8) : Option (List Nat) := do
  let (table,rest) ← StateTable.read 6 255 bytes
  let bits ← backwardBits rest
  let (first,bits) ← Bits.takeHigh table.accuracy bits
  let (second,bits) ← Bits.takeHigh table.accuracy bits
  weightsFrom table 256 first second bits []

def directWeights (n : Nat) (bytes : List UInt8) : List Nat :=
  (bytes.flatMap (fun b => [b.toNat / 16,b.toNat % 16])).take n

def read (bytes : List UInt8) : Option (ByteCode × List UInt8) := do
  let (head,rest) ← match bytes with
    | [] => none
    | b :: rest => some (b.toNat,rest)
  if head < 128 then
    let (body,rest) ← Bits.takeBytes head rest
    let weights ← codedWeights body
    let code ← ofWeights weights
    some (code,rest)
  else
    let (body,rest) ← Bits.takeBytes ((head - 126) / 2) rest
    let code ← ofWeights (directWeights (head - 127) body)
    some (code,rest)

def decode (code : ByteCode) : Nat → List Bool → Option (List UInt8)
  | 0,bits => if bits.isEmpty then some [] else none
  | n + 1,bits => do
    let (index,_) := takePadded code.longest bits
    let (b,width) ← code.entries[index]?
    if bits.length < width then none
    else
      let rest ← decode code n (bits.drop width)
      some (b :: rest)

def decodeStream (code : ByteCode) (n : Nat) (bytes : List UInt8) : Option (List UInt8) :=
  (backwardBits bytes).bind (decode code n)

end ByteCode

end TableView.Compression.Zstd
