import TableView.Compression.Bits

namespace TableView.Compression.Lzma

-- How the context of a literal is made of the byte before and the place, and how many bits of
-- the place choose among the other contexts.
structure Properties where
  previousBits : Nat
  placeBits : Nat
  matchBits : Nat
deriving Inhabited,Repr

def Properties.ofByte? (n : Nat) : Option Properties :=
  let p : Properties := ⟨n % 9,n / 9 % 5,n / 45⟩
  if 225 ≤ n || 4 < p.previousBits + p.placeBits then none else some p

def isMatch : Nat := 0
def isRep : Nat := 192
def isRepFirst : Nat := 204
def isRepSecond : Nat := 216
def isRepThird : Nat := 228
def isRepLong : Nat := 240
def distanceSlot : Nat := 432
def distanceLow : Nat := 688
def distanceAlign : Nat := 816
def matchLength : Nat := 832
def repLength : Nat := 1346
def literal : Nat := 1860

def contexts (p : Properties) : Nat := literal + 768 * 2 ^ (p.previousBits + p.placeBits)

structure State where
  range : Nat
  code : Nat
  input : List UInt8
  probabilities : Array UInt16
  output : Array UInt8
  base : Nat
  phase : Nat
  rep0 : Nat
  rep1 : Nat
  rep2 : Nat
  rep3 : Nat
deriving Inhabited

def normalize (s : State) : Option State :=
  if s.range < 2 ^ 24 then
    match s.input with
    | [] => none
    | b :: rest =>
      some { s with range := s.range * 256,code := s.code * 256 + b.toNat,input := rest }
  else some s

def bit (context : Nat) (s : State) : Option (Nat × State) := do
  let s ← normalize s
  let p := s.probabilities.getD context 1024
  let bound := s.range / 2048 * p.toNat
  if s.code < bound then
    some (0,{ s with
      range := bound
      probabilities := s.probabilities.setIfInBounds context (p + (2048 - p) / 32) })
  else
    some (1,{ s with
      range := s.range - bound
      code := s.code - bound
      probabilities := s.probabilities.setIfInBounds context (p - p / 32) })

def direct : Nat → Nat → State → Option (Nat × State)
  | 0,v,s => some (v,s)
  | n + 1,v,s => do
    let s ← normalize s
    let half := s.range / 2
    if s.code < half then direct n (2 * v) { s with range := half }
    else direct n (2 * v + 1) { s with range := half,code := s.code - half }

-- A number by its bits, the high one first; every beginning has a context of its own.
def tree (context : Nat) : Nat → Nat → State → Option (Nat × State)
  | 0,path,s => some (path,s)
  | n + 1,path,s => do
    let (b,s) ← bit (context + path) s
    tree context n (2 * path + b) s

def number (context bits : Nat) (s : State) : Option (Nat × State) :=
  (tree context bits 1 s).map (fun (path,s) => (path - 2 ^ bits,s))

def reverseTree (context : Nat) : Nat → Nat → Nat → State → Option (Nat × State)
  | 0,_,_,s => some (0,s)
  | n + 1,path,weight,s => do
    let (b,s) ← bit (context + path) s
    let (rest,s) ← reverseTree context n (2 * path + b) (2 * weight) s
    some (b * weight + rest,s)

def length (context place : Nat) (s : State) : Option (Nat × State) := do
  let (b,s) ← bit context s
  if b = 0 then
    let (n,s) ← number (context + 2 + place * 8) 3 s
    some (n + 2,s)
  else
    let (b,s) ← bit (context + 1) s
    if b = 0 then
      let (n,s) ← number (context + 130 + place * 8) 3 s
      some (n + 10,s)
    else
      let (n,s) ← number (context + 258) 8 s
      some (n + 18,s)

def distance (length : Nat) (s : State) : Option (Nat × State) := do
  let (slot,s) ← number (distanceSlot + min (length - 2) 3 * 64) 6 s
  if slot < 4 then some (slot,s)
  else
    let more := slot / 2 - 1
    let high := (2 + slot % 2) * 2 ^ more
    if slot < 14 then
      let (low,s) ← reverseTree (distanceLow + high - slot) more 1 1 s
      some (high + low,s)
    else
      let (middle,s) ← direct (more - 4) 0 s
      let (low,s) ← reverseTree distanceAlign 4 1 1 s
      some (high + middle * 16 + low,s)

def byteBack (s : State) (distance : Nat) : UInt8 := s.output.getD (s.output.size - 1 - distance) 0

-- The bits of a literal under those of the byte that a copy would have given, until they part.
def matchedLiteral (context : Nat) : Nat → Nat → Nat → State → Option (Nat × State)
  | 0,_,path,s => some (path,s)
  | n + 1,expected,path,s => do
    let e := expected / 128 % 2
    let (b,s) ← bit (context + 256 * (1 + e) + path) s
    if b = e then matchedLiteral context n (2 * expected) (2 * path + b) s
    else tree context n (2 * path + b) s

def phaseAfterLiteral (phase : Nat) : Nat :=
  if phase < 4 then 0 else if phase < 10 then phase - 3 else phase - 6

def literalByte (p : Properties) (s : State) : Option State := do
  let place := s.output.size - s.base
  let previous := if place = 0 then 0 else (byteBack s 0).toNat
  let index := place % 2 ^ p.placeBits * 2 ^ p.previousBits + previous / 2 ^ (8 - p.previousBits)
  let context := literal + 768 * index
  let (path,s) ← if s.phase < 7 then tree context 8 1 s
    else matchedLiteral context 8 (byteBack s s.rep0).toNat 1 s
  some { s with
    output := s.output.push (path - 256).toUInt8,phase := phaseAfterLiteral s.phase }

def copyBack (distance : Nat) : Nat → Array UInt8 → Array UInt8
  | 0,out => out
  | n + 1,out => copyBack distance n (out.push (out.getD (out.size - distance) 0))

def copy (target n : Nat) (s : State) : Option State :=
  if s.output.size - s.base ≤ s.rep0 || target < s.output.size + n then none
  else some { s with output := copyBack (s.rep0 + 1) n s.output }

def repeated (target place : Nat) (s : State) : Option State := do
  let (b,s) ← bit (isRepFirst + s.phase) s
  if b = 0 then
    let (b,s) ← bit (isRepLong + s.phase * 16 + place) s
    if b = 0 then copy target 1 { s with phase := if s.phase < 7 then 9 else 11 }
    else longCopy s
  else
    let (b,s) ← bit (isRepSecond + s.phase) s
    if b = 0 then longCopy { s with rep0 := s.rep1,rep1 := s.rep0 }
    else
      let (b,s) ← bit (isRepThird + s.phase) s
      if b = 0 then longCopy { s with rep0 := s.rep2,rep1 := s.rep0,rep2 := s.rep1 }
      else longCopy { s with rep0 := s.rep3,rep1 := s.rep0,rep2 := s.rep1,rep3 := s.rep2 }
where
  longCopy (s : State) : Option State := do
    let (n,s) ← length repLength place s
    copy target n { s with phase := if s.phase < 7 then 8 else 11 }

def symbol (p : Properties) (target : Nat) (s : State) : Option State := do
  let place := (s.output.size - s.base) % 2 ^ p.matchBits
  let (b,s) ← bit (isMatch + s.phase * 16 + place) s
  if b = 0 then literalByte p s
  else
    let (b,s) ← bit (isRep + s.phase) s
    if b = 1 then repeated target place s
    else
      let (n,s) ← length matchLength place s
      let (d,s) ← distance n s
      copy target n { s with
        rep0 := d,rep1 := s.rep0,rep2 := s.rep1,rep3 := s.rep2
        phase := if s.phase < 7 then 7 else 10 }

def symbols (p : Properties) (target : Nat) : Nat → State → Option State
  | 0,s => some s
  | fuel + 1,s =>
    if target ≤ s.output.size then some s
    else do
      let s ← symbol p target s
      symbols p target fuel s

structure Stream where
  state : State
  properties : Option Properties
  needsDictionary : Bool

def Stream.start : Stream := ⟨{ (default : State) with base := 0 },none,true⟩

def resetState (p : Properties) (s : State) : State :=
  { s with
    probabilities := Array.replicate (contexts p) 1024
    phase := 0,rep0 := 0,rep1 := 0,rep2 := 0,rep3 := 0 }

def codedChunk (p : Properties) (size : Nat) (input : List UInt8) (s : State) :
    Option State := do
  let (code,rest) ← Bits.takeBytes 5 input
  let target := s.output.size + size
  let start := { s with
    range := 2 ^ 32 - 1
    code := (code.drop 1).foldl (fun v b => v * 256 + b.toNat) 0
    input := rest }
  let s ← symbols p target size start
  let s ← normalize s
  if s.code = 0 && s.input.isEmpty && s.output.size = target then some s else none

def takeBig (n : Nat) (bytes : List UInt8) : Option (Nat × List UInt8) :=
  (Bits.takeBytes n bytes).map (fun (front,rest) =>
    (front.foldl (fun v b => v * 256 + b.toNat) 0,rest))

def emptyDictionary (s : State) : State := { s with base := s.output.size }

def plainChunk (empties : Bool) (st : Stream) (bytes : List UInt8) :
    Option (Stream × List UInt8) := do
  let (size,rest) ← takeBig 2 bytes
  let (front,rest) ← Bits.takeBytes (size + 1) rest
  if st.needsDictionary && !empties then none
  else
    let s := if empties then emptyDictionary st.state else st.state
    some (⟨{ s with output := s.output ++ front.toArray },st.properties,false⟩,rest)

-- The first byte of a coded chunk tells what is reset: the state, the properties too, or the
-- dictionary as well.
def lzmaChunk (control : Nat) (st : Stream) (bytes : List UInt8) :
    Option (Stream × List UInt8) := do
  let (low,rest) ← takeBig 2 bytes
  let (packed,rest) ← takeBig 2 rest
  let reset := control / 32 % 4
  let (properties,rest) ← if 2 ≤ reset then
      (takeBig 1 rest).bind (fun (n,rest) => (Properties.ofByte? n).map (fun p => (p,rest)))
    else st.properties.map (fun p => (p,rest))
  let (front,rest) ← Bits.takeBytes (packed + 1) rest
  if st.needsDictionary && reset ≠ 3 then none
  else
    let s := if reset = 3 then emptyDictionary st.state else st.state
    let s := if 1 ≤ reset then resetState properties s else s
    let s ← codedChunk properties (control % 32 * 65536 + low + 1) front s
    some (⟨s,some properties,false⟩,rest)

def chunks : Nat → Stream → List UInt8 → Option (Array UInt8 × List UInt8)
  | 0,_,_ => none
  | fuel + 1,st,bytes =>
    match bytes with
    | [] => none
    | control :: rest =>
      let control := control.toNat
      if control = 0 then some (st.state.output,rest)
      else do
        let (st,rest) ← if 128 ≤ control then lzmaChunk control st rest
          else if control = 1 then plainChunk true st rest
          else if control = 2 then plainChunk false st rest
          else none
        chunks fuel st rest

def decode (bytes : List UInt8) : Option (List UInt8 × List UInt8) :=
  (chunks (bytes.length + 1) .start bytes).map (fun (out,rest) => (out.toList,rest))

def chunkLimit : Nat := 65536

def bigEndian2 (v : Nat) : List UInt8 := [(v / 256).toUInt8,v.toUInt8]

def plainChunks (control : UInt8) (bytes : List UInt8) : List UInt8 :=
  if _h : bytes.length = 0 then [0]
  else
    let front := bytes.take chunkLimit
    control :: bigEndian2 (front.length - 1) ++ front ++ plainChunks 2 (bytes.drop chunkLimit)
termination_by bytes.length
decreasing_by
  simp only [List.length_drop,chunkLimit]
  omega

def encode (bytes : List UInt8) : List UInt8 := plainChunks 1 bytes

end TableView.Compression.Lzma
