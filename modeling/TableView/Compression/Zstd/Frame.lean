import TableView.Compression.Zstd.Entropy
import TableView.Digest.Checksum

namespace TableView.Compression.Zstd

def literalLengthTable : Array (Nat × Nat) := #[(0,0),(1,0),(2,0),(3,0),(4,0),(5,0),(6,0),(7,0),
  (8,0),(9,0),(10,0),(11,0),(12,0),(13,0),(14,0),(15,0),(16,1),(18,1),(20,1),(22,1),(24,2),
  (28,2),(32,3),(40,3),(48,4),(64,6),(128,7),(256,8),(512,9),(1024,10),(2048,11),(4096,12),
  (8192,13),(16384,14),(32768,15),(65536,16)]

def matchLengthTable : Array (Nat × Nat) :=
  (Array.ofFn (fun i : Fin 32 => (i.val + 3,0))) ++ #[(35,1),(37,1),(39,1),(41,1),(43,2),(47,2),
  (51,3),(59,3),(67,4),(83,4),(99,5),(131,7),(259,8),(515,9),(1027,10),(2051,11),(4099,12),
  (8195,13),(16387,14),(32771,15),(65539,16)]

def defaultLiteralLengths : StateTable := .build 6
  [4,3,2,2,2,2,2,2,2,2,2,2,2,1,1,1,2,2,2,2,2,2,2,2,2,3,2,1,1,1,1,1,-1,-1,-1,-1]

def defaultMatchLengths : StateTable := .build 6
  [1,4,3,2,2,2,2,2,2,1,1,1,1,1,1,1,1,1,1,1,1,1,1,1,1,1,1,1,1,1,1,1,1,1,1,1,1,1,1,1,1,1,1,1,
    1,1,-1,-1,-1,-1,-1,-1,-1]

def defaultOffsets : StateTable := .build 5
  [1,1,1,1,1,1,2,2,2,1,1,1,1,1,1,1,1,1,1,1,1,1,1,1,-1,-1,-1,-1,-1]

structure Context where
  output : Array UInt8
  bytes : Option ByteCode
  literalLengths : Option StateTable
  offsets : Option StateTable
  matchLengths : Option StateTable
  recent : Nat × Nat × Nat

def Context.start (output : Array UInt8) : Context := ⟨output,none,none,none,none,(1,4,8)⟩

def blockLimit : Nat := 131072

structure LiteralsHeader where
  kind : Nat
  streams : Nat
  size : Nat
  packed : Nat

def literalsHeader (bytes : List UInt8) : Option (LiteralsHeader × List UInt8) := do
  let first ← bytes.head?
  let kind := first.toNat % 4
  let form := first.toNat / 4 % 4
  if kind < 2 then
    let (taken,shift) := if form = 1 then (2,16) else if form = 3 then (3,16) else (1,8)
    let (v,rest) ← Bits.takeLittle taken bytes
    some (⟨kind,1,v / shift,0⟩,rest)
  else
    let (taken,width) := if form < 2 then (3,10) else if form = 2 then (4,14) else (5,18)
    let (v,rest) ← Bits.takeLittle taken bytes
    some (⟨kind,if form = 0 then 1 else 4,v / 16 % 2 ^ width,v / 16 / 2 ^ width⟩,rest)

def fourStreams (code : ByteCode) (size : Nat) (bytes : List UInt8) : Option (List UInt8) := do
  let (n1,rest) ← Bits.takeLittle 2 bytes
  let (n2,rest) ← Bits.takeLittle 2 rest
  let (n3,rest) ← Bits.takeLittle 2 rest
  let part := (size + 3) / 4
  if size < 3 * part then none
  else
    let (s1,rest) ← Bits.takeBytes n1 rest
    let (s2,rest) ← Bits.takeBytes n2 rest
    let (s3,s4) ← Bits.takeBytes n3 rest
    let a ← code.decodeStream part s1
    let b ← code.decodeStream part s2
    let c ← code.decodeStream part s3
    let d ← code.decodeStream (size - 3 * part) s4
    some (a ++ b ++ c ++ d)

def codedLiterals (code : ByteCode) (h : LiteralsHeader) (body : List UInt8) :
    Option (List UInt8) :=
  if h.streams = 1 then code.decodeStream h.size body else fourStreams code h.size body

def literals (known : Option ByteCode) (bytes : List UInt8) :
    Option (List UInt8 × Option ByteCode × List UInt8) := do
  let (h,rest) ← literalsHeader bytes
  if blockLimit < h.size then none
  else if h.kind = 0 then
    let (out,rest) ← Bits.takeBytes h.size rest
    some (out,known,rest)
  else if h.kind = 1 then
    match rest with
    | [] => none
    | b :: rest => some (List.replicate h.size b,known,rest)
  else
    let (body,rest) ← Bits.takeBytes h.packed rest
    let (code,body) ← if h.kind = 2 then ByteCode.read body else known.map (fun c => (c,body))
    let out ← codedLiterals code h body
    some (out,some code,rest)

def sequenceCount (bytes : List UInt8) : Option (Nat × List UInt8) :=
  match bytes with
  | [] => none
  | b :: rest =>
    if b.toNat < 128 then some (b.toNat,rest)
    else if b.toNat < 255 then
      match rest with
      | [] => none
      | c :: rest => some ((b.toNat - 128) * 256 + c.toNat,rest)
    else (Bits.takeLittle 2 rest).map (fun (n,rest) => (n + 0x7F00,rest))

def tableOf (mode greatestAccuracy symbolLimit : Nat) (default : StateTable)
    (known : Option StateTable) (bytes : List UInt8) : Option (StateTable × List UInt8) :=
  match mode with
  | 0 => some (default,bytes)
  | 1 =>
    match bytes with
    | [] => none
    | b :: rest => if b.toNat < symbolLimit then some (.constant b.toNat,rest) else none
  | 2 => StateTable.read greatestAccuracy symbolLimit bytes
  | _ => known.map (fun t => (t,bytes))

structure Tables where
  literalLengths : StateTable
  offsets : StateTable
  matchLengths : StateTable

def tables (c : Context) (bytes : List UInt8) : Option (Tables × List UInt8) := do
  let (modes,rest) ← match bytes with
    | [] => none
    | b :: rest => some (b.toNat,rest)
  if modes % 4 ≠ 0 then none
  else
    let (ll,rest) ← tableOf (modes / 64) 9 36 defaultLiteralLengths c.literalLengths rest
    let (of,rest) ← tableOf (modes / 16 % 4) 8 32 defaultOffsets c.offsets rest
    let (ml,rest) ← tableOf (modes / 4 % 4) 9 53 defaultMatchLengths c.matchLengths rest
    some (⟨ll,of,ml⟩,rest)

-- An offset by its number: the first three stand for recent ones, which shift by one when no
-- literals come before the copy.
def offsetOf (recent : Nat × Nat × Nat) (value literals : Nat) :
    Option (Nat × (Nat × Nat × Nat)) :=
  let (a,b,c) := recent
  if 3 < value then some (value - 3,(value - 3,a,b))
  else
    match if literals = 0 then value + 1 else value with
    | 1 => some (a,recent)
    | 2 => some (b,(b,a,c))
    | 3 => some (c,(c,a,b))
    | _ => if a ≤ 1 then none else some (a - 1,(a - 1,a,b))

def copyBack (distance : Nat) : Nat → Array UInt8 → Array UInt8
  | 0,out => out
  | n + 1,out => copyBack distance n (out.push (out.getD (out.size - distance) 0))

structure SequenceState where
  literalLength : Nat
  offset : Nat
  matchLength : Nat
  bits : List Bool
  literals : List UInt8
  output : Array UInt8
  recent : Nat × Nat × Nat

def sequence (t : Tables) (s : SequenceState) : Option SequenceState := do
  let ll ← t.literalLengths.state? s.literalLength
  let of ← t.offsets.state? s.offset
  let ml ← t.matchLengths.state? s.matchLength
  let (extra,bits) ← Bits.takeHigh of.symbol s.bits
  let value := 2 ^ of.symbol + extra
  let (least,more) ← matchLengthTable[ml.symbol]?
  let (extra,bits) ← Bits.takeHigh more bits
  let length := least + extra
  let (least,more) ← literalLengthTable[ll.symbol]?
  let (extra,bits) ← Bits.takeHigh more bits
  let (front,literals) ← Bits.takeBytes (least + extra) s.literals
  let (distance,recent) ← offsetOf s.recent value (least + extra)
  let output := s.output ++ front.toArray
  if output.size < distance || distance = 0 then none
  else some { s with
    bits := bits,literals := literals,output := copyBack distance length output,recent := recent }

-- The states move on after every copy but the last.
def advance (t : Tables) (s : SequenceState) : Option SequenceState := do
  let ll ← t.literalLengths.state? s.literalLength
  let of ← t.offsets.state? s.offset
  let ml ← t.matchLengths.state? s.matchLength
  let (v,bits) ← Bits.takeHigh ll.bits s.bits
  let literalLength := ll.base + v
  let (v,bits) ← Bits.takeHigh ml.bits bits
  let matchLength := ml.base + v
  let (v,bits) ← Bits.takeHigh of.bits bits
  some { s with
    literalLength := literalLength,matchLength := matchLength,offset := of.base + v,bits := bits }

def sequences (t : Tables) : Nat → SequenceState → Option SequenceState
  | 0,s => some s
  | 1,s => sequence t s
  | n + 2,s => do
    let s ← sequence t s
    let s ← advance t s
    sequences t (n + 1) s

def codedBlock (c : Context) (bytes : List UInt8) : Option Context := do
  let (lits,code,rest) ← literals c.bytes bytes
  let (n,rest) ← sequenceCount rest
  if n = 0 then
    if rest.isEmpty then some { c with output := c.output ++ lits.toArray,bytes := code } else none
  else
    let (t,rest) ← tables c rest
    let bits ← backwardBits rest
    let (ll,bits) ← Bits.takeHigh t.literalLengths.accuracy bits
    let (of,bits) ← Bits.takeHigh t.offsets.accuracy bits
    let (ml,bits) ← Bits.takeHigh t.matchLengths.accuracy bits
    let s ← sequences t n ⟨ll,of,ml,bits,lits,c.output,c.recent⟩
    if !s.bits.isEmpty then none
    else some ⟨s.output ++ s.literals.toArray,code,some t.literalLengths,some t.offsets,
      some t.matchLengths,s.recent⟩

-- A block by its kind; the size is that of the output for repeated bytes.
def block (limit kind size : Nat) (c : Context) (bytes : List UInt8) :
    Option (Context × List UInt8) :=
  if limit < size then none
  else
    match kind with
    | 0 => do
      let (front,rest) ← Bits.takeBytes size bytes
      some ({ c with output := c.output ++ front.toArray },rest)
    | 1 =>
      match bytes with
      | [] => none
      | b :: rest => some ({ c with output := c.output ++ Array.replicate size b },rest)
    | 2 => do
      let (front,rest) ← Bits.takeBytes size bytes
      let d ← codedBlock c front
      if c.output.size + limit < d.output.size then none else some (d,rest)
    | _ => none

def blocks (limit : Nat) : Nat → Context → List UInt8 → Option (Array UInt8 × List UInt8)
  | 0,_,_ => none
  | fuel + 1,c,bytes => do
    let (header,rest) ← Bits.takeLittle 3 bytes
    let (c,rest) ← block limit (header / 2 % 4) (header / 8) c rest
    if header % 2 = 1 then some (c.output,rest) else blocks limit fuel c rest

structure FrameHeader where
  window : Nat
  size : Option Nat
  checked : Bool

def windowLimit : Nat := 2 ^ 27

def windowSize (descriptor : Nat) : Nat :=
  let base := 2 ^ (10 + descriptor / 8)
  base + base / 8 * (descriptor % 8)

def frameHeader (bytes : List UInt8) : Option (FrameHeader × List UInt8) := do
  let (descriptor,rest) ← Bits.takeLittle 1 bytes
  let single := descriptor / 32 % 2 = 1
  let (window,rest) ← if single then some (none,rest)
    else (Bits.takeLittle 1 rest).map (fun (w,rest) => (some (windowSize w),rest))
  let (dictionary,rest) ← Bits.takeLittle (#[0,1,2,4].getD (descriptor % 4) 0) rest
  let sizeBytes := match descriptor / 64 with
    | 0 => if single then 1 else 0
    | 1 => 2
    | 2 => 4
    | _ => 8
  let (size,rest) ← Bits.takeLittle sizeBytes rest
  let size := if sizeBytes = 2 then size + 256 else size
  let window := window.getD size
  if descriptor / 8 % 2 = 1 || dictionary ≠ 0 || windowLimit < window then none
  else some (⟨window,if sizeBytes = 0 then none else some size,descriptor / 4 % 2 = 1⟩,rest)

def magic : List UInt8 := [0x28,0xB5,0x2F,0xFD]

def frame (bytes : List UInt8) : Option (List UInt8 × List UInt8) := do
  let (h,rest) ← frameHeader bytes
  let (out,rest) ← blocks (min h.window blockLimit) (rest.length + 1) (.start #[]) rest
  let out := out.toList
  if h.size.any (· ≠ out.length) then none
  else if h.checked then
    let (check,rest) ← Bits.takeLittle 4 rest
    if check = (Digest.frameHash out).toNat % 2 ^ 32 then some (out,rest) else none
  else some (out,rest)

def frames : Nat → List UInt8 → Option (List UInt8)
  | _,[] => some []
  | 0,_ => none
  | fuel + 1,bytes => do
    let (start,rest) ← Bits.takeBytes 4 bytes
    if start = magic then
      let (out,rest) ← frame rest
      let more ← frames fuel rest
      some (out ++ more)
    else if start.drop 1 = [0x2A,0x4D,0x18] && (start.getD 0 0).toNat / 16 = 5 then
      let (n,rest) ← Bits.takeLittle 4 rest
      let (_,rest) ← Bits.takeBytes n rest
      frames fuel rest
    else none

def decode (bytes : List UInt8) : Option (List UInt8) := frames (bytes.length + 1) bytes

def rawBlock (last : Bool) (bytes : List UInt8) : List UInt8 :=
  Bits.littleEndian 3 (bytes.length * 8 + (if last then 1 else 0)) ++ bytes

def rawBlocks (bytes : List UInt8) : List UInt8 :=
  if bytes.length ≤ blockLimit then rawBlock true bytes
  else rawBlock false (bytes.take blockLimit) ++ rawBlocks (bytes.drop blockLimit)
termination_by bytes.length
decreasing_by simp only [List.length_drop,blockLimit] at *; omega

def encode (bytes : List UInt8) : List UInt8 := magic ++ [0,0x38] ++ rawBlocks bytes

end TableView.Compression.Zstd
