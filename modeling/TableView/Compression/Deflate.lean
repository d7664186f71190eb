import TableView.Compression.CodeTree

namespace TableView.Compression.Deflate

def lengthTable : Array (Nat × Nat) := #[(3,0),(4,0),(5,0),(6,0),(7,0),(8,0),(9,0),(10,0),
  (11,1),(13,1),(15,1),(17,1),(19,2),(23,2),(27,2),(31,2),(35,3),(43,3),(51,3),(59,3),
  (67,4),(83,4),(99,4),(115,4),(131,5),(163,5),(195,5),(227,5),(258,0)]

def distanceTable : Array (Nat × Nat) := #[(1,0),(2,0),(3,0),(4,0),(5,1),(7,1),(9,2),(13,2),
  (17,3),(25,3),(33,4),(49,4),(65,5),(97,5),(129,6),(193,6),(257,7),(385,7),(513,8),(769,8),
  (1025,9),(1537,9),(2049,10),(3073,10),(4097,11),(6145,11),(8193,12),(12289,12),(16385,13),
  (24577,13)]

def tableValue (table : Array (Nat × Nat)) (index : Nat) (bits : List Bool) :
    Option (Nat × List Bool) := do
  let (least,more) ← table[index]?
  let (extra,bits) ← Bits.takeLow more bits
  some (least + extra,bits)

def copyBack (distance : Nat) : Nat → Array UInt8 → Array UInt8
  | 0,out => out
  | n + 1,out => copyBack distance n (out.push (out.getD (out.size - distance) 0))

def coded (literals distances : CodeTree) :
    Nat → List Bool → Array UInt8 → Option (List Bool × Array UInt8)
  | 0,_,_ => none
  | fuel + 1,bits,out => do
    let (symbol,bits) ← literals.decode bits
    if symbol < 256 then coded literals distances fuel bits (out.push symbol.toUInt8)
    else if symbol = 256 then some (bits,out)
    else
      let (length,bits) ← tableValue lengthTable (symbol - 257) bits
      let (symbol,bits) ← distances.decode bits
      let (distance,bits) ← tableValue distanceTable symbol bits
      if out.size < distance then none
      else coded literals distances fuel bits (copyBack distance length out)

def takeBytes : Nat → List Bool → Array UInt8 → Option (List Bool × Array UInt8)
  | 0,bits,out => some (bits,out)
  | n + 1,bits,out => do
    let (v,bits) ← Bits.takeLow 8 bits
    takeBytes n bits (out.push v.toUInt8)

-- Stored bytes: their number, the same inverted, and the bytes from the next boundary on.
def stored (bits : List Bool) (out : Array UInt8) : Option (List Bool × Array UInt8) := do
  let (length,bits) ← Bits.takeLow 16 (Bits.align bits)
  let (check,bits) ← Bits.takeLow 16 bits
  if length + check = 65535 then takeBytes length bits out else none

def fixedLengths : List Nat :=
  List.replicate 144 8 ++ List.replicate 112 9 ++ List.replicate 24 7 ++ List.replicate 8 8

def fixedLiterals : CodeTree := CodeTree.canonical 9 fixedLengths

def fixedDistances : CodeTree := CodeTree.canonical 5 (List.replicate 32 5)

def lengthOrder : List Nat := [16,17,18,0,8,7,9,6,10,5,11,4,12,3,13,2,14,1,15]

def codeLengths : Nat → List Bool → Option (List Nat × List Bool)
  | 0,bits => some ([],bits)
  | n + 1,bits => do
    let (length,bits) ← Bits.takeLow 3 bits
    let (rest,bits) ← codeLengths n bits
    some (length :: rest,bits)

def wordLengths (tree : CodeTree) (total : Nat) :
    Nat → List Nat → List Bool → Option (List Nat × List Bool)
  | 0,read,bits => if read.length = total then some (read.reverse,bits) else none
  | fuel + 1,read,bits =>
    if total ≤ read.length then
      if read.length = total then some (read.reverse,bits) else none
    else do
      let (symbol,bits) ← tree.decode bits
      if symbol < 16 then wordLengths tree total fuel (symbol :: read) bits
      else if symbol = 16 then
        let previous ← read.head?
        let (n,bits) ← Bits.takeLow 2 bits
        wordLengths tree total fuel (List.replicate (n + 3) previous ++ read) bits
      else
        let (more,least) := if symbol = 17 then (3,3) else (7,11)
        let (n,bits) ← Bits.takeLow more bits
        wordLengths tree total fuel (List.replicate (n + least) 0 ++ read) bits

-- A code is complete, or has at most one word.
def usable (longest : Nat) (lengths : List Nat) : Option CodeTree :=
  let tree := CodeTree.canonical longest lengths
  let few := (lengths.filter (· ≠ 0)).length ≤ 1
  if CodeTree.fits longest lengths && (tree.isComplete || few) then some tree else none

def dynamicCodes (bits : List Bool) : Option (CodeTree × CodeTree × List Bool) := do
  let (literals,bits) ← Bits.takeLow 5 bits
  let (distances,bits) ← Bits.takeLow 5 bits
  let (lengths,bits) ← Bits.takeLow 4 bits
  if 29 < literals || 29 < distances then none
  else
    let (given,bits) ← codeLengths (lengths + 4) bits
    let ordered := lengthOrder.zip given
    let tree ← usable 7 ((List.range 19).map (fun i => (ordered.lookup i).getD 0))
    let total := literals + 257 + (distances + 1)
    let (words,bits) ← wordLengths tree total (total + 1) [] bits
    let literalTree ← usable 15 (words.take (literals + 257))
    let distanceTree ← usable 15 (words.drop (literals + 257))
    some (literalTree,distanceTree,bits)

def block (kind : Nat) (bits : List Bool) (out : Array UInt8) :
    Option (List Bool × Array UInt8) :=
  match kind with
  | 0 => stored bits out
  | 1 => coded fixedLiterals fixedDistances (bits.length + 1) bits out
  | 2 => do
    let (literals,distances,bits) ← dynamicCodes bits
    coded literals distances (bits.length + 1) bits out
  | _ => none

def blocks : Nat → List Bool → Array UInt8 → Option (List Bool × Array UInt8)
  | 0,_,_ => none
  | fuel + 1,bits,out => do
    let (last,bits) ← Bits.takeLow 1 bits
    let (kind,bits) ← Bits.takeLow 2 bits
    let (bits,out) ← block kind bits out
    if last = 1 then some (bits,out) else blocks fuel bits out

def decode (bits : List Bool) : Option (List UInt8 × List Bool) :=
  (blocks (bits.length + 1) bits #[]).map (fun (rest,out) => (out.toList,rest))

def storedBlock (last : Bool) (bytes : List UInt8) : List UInt8 :=
  (if last then 1 else 0) :: Bits.littleEndian 2 bytes.length ++
    Bits.littleEndian 2 (65535 - bytes.length) ++ bytes

def storedLimit : Nat := 65535

def encode (bytes : List UInt8) : List UInt8 :=
  if bytes.length ≤ storedLimit then storedBlock true bytes
  else storedBlock false (bytes.take storedLimit) ++ encode (bytes.drop storedLimit)
termination_by bytes.length
decreasing_by simp only [List.length_drop,storedLimit] at *; omega

end TableView.Compression.Deflate
