import TableView.Compression.Lzma
import TableView.Digest.Checksum
import TableView.Digest.Sha256

namespace TableView.Compression.Xz

def magic : List UInt8 := [0xFD,0x37,0x7A,0x58,0x5A,0x00]

def footerMagic : List UInt8 := [0x59,0x5A]

structure StreamFlags where
  check : Nat
deriving DecidableEq

def StreamFlags.bytes (f : StreamFlags) : List UInt8 := [0,f.check.toUInt8]

def StreamFlags.ofBytes? : List UInt8 → Option StreamFlags
  | [a,b] => if a = 0 && b.toNat < 16 then some ⟨b.toNat⟩ else none
  | _ => none

def checkSize (kind : Nat) : Nat :=
  if kind = 0 then 0 else 4 * 2 ^ ((kind - 1) / 3)

def checkBytes? (kind : Nat) (bytes : List UInt8) : Option (List UInt8) :=
  if kind = 0 then some []
  else if kind = 1 then some (Bits.littleEndian 4 (Digest.crc32 bytes).toNat)
  else if kind = 4 then some (Bits.littleEndian 8 (Digest.crc64 bytes).toNat)
  else if kind = 10 then some (Digest.sha256 bytes)
  else none

def takeChecked (n : Nat) (bytes : List UInt8) : Option (List UInt8 × List UInt8) := do
  let (front,rest) ← Bits.takeBytes n bytes
  let (check,rest) ← Bits.takeLittle 4 rest
  if check = (Digest.crc32 front).toNat then some (front,rest) else none

def withCheck (bytes : List UInt8) : List UInt8 :=
  bytes ++ Bits.littleEndian 4 (Digest.crc32 bytes).toNat

-- A number in groups of seven bits, the low one first; at most nine groups, none of them idle.
def takeSize : Nat → List UInt8 → Option (Nat × List UInt8)
  | 0,_ => none
  | _ + 1,[] => none
  | n + 1,b :: rest =>
    if b.toNat < 128 then
      if b = 0 && n < 8 then none else some (b.toNat,rest)
    else (takeSize n rest).map (fun (v,rest) => (b.toNat - 128 + 128 * v,rest))

def sizeGroups : Nat := 9

def writeSize (v : Nat) : List UInt8 :=
  if v < 128 then [v.toUInt8] else (v % 128 + 128).toUInt8 :: writeSize (v / 128)
termination_by v

def padding (n : Nat) : Nat := (4 - n % 4) % 4

def takeZeros (n : Nat) (bytes : List UInt8) : Option (List UInt8) := do
  let (front,rest) ← Bits.takeBytes n bytes
  if front.all (· = 0) then some rest else none

structure BlockHeader where
  packedSize : Option Nat
  plainSize : Option Nat
  deltas : List Nat

def takeOptionalSize (present : Bool) (bytes : List UInt8) :
    Option (Option Nat × List UInt8) :=
  if present then (takeSize sizeGroups bytes).map (fun (v,rest) => (some v,rest))
  else some (none,bytes)

-- The steps before the last one are differences; the last one is the chunks themselves.
def takeFilters : Nat → List UInt8 → Option (List Nat × List UInt8)
  | 0,bytes => do
    let (id,bytes) ← takeSize sizeGroups bytes
    let (n,bytes) ← takeSize sizeGroups bytes
    let (dictionary,bytes) ← Bits.takeLittle 1 bytes
    if id = 0x21 && n = 1 && dictionary ≤ 40 then some ([],bytes) else none
  | k + 1,bytes => do
    let (id,bytes) ← takeSize sizeGroups bytes
    let (n,bytes) ← takeSize sizeGroups bytes
    let (distance,bytes) ← Bits.takeLittle 1 bytes
    if id = 0x03 && n = 1 then
      (takeFilters k bytes).map (fun (ds,rest) => ((distance + 1) :: ds,rest))
    else none

def takeBlockHeader (bytes : List UInt8) : Option (BlockHeader × List UInt8) := do
  let (size,_) ← Bits.takeLittle 1 bytes
  let (front,rest) ← takeChecked (size * 4) bytes
  let (flags,fields) ← Bits.takeLittle 1 (front.drop 1)
  if flags / 4 % 16 ≠ 0 then none
  else
    let (packed,fields) ← takeOptionalSize (64 ≤ flags % 128) fields
    let (plain,fields) ← takeOptionalSize (128 ≤ flags) fields
    let (deltas,fields) ← takeFilters (flags % 4) fields
    if packed ≠ some 0 && fields.all (· = 0) then some (⟨packed,plain,deltas⟩,rest) else none

def undoDelta (distance : Nat) (bytes : List UInt8) : List UInt8 :=
  (bytes.foldl (fun (out : Array UInt8) b =>
    out.push (b + (if out.size < distance then 0 else out.getD (out.size - distance) 0)))
    #[]).toList

structure Sizes where
  unpadded : Nat
  plain : Nat
deriving DecidableEq

structure Block where
  content : List UInt8
  sizes : Sizes

def takeBlock (flags : StreamFlags) (bytes : List UInt8) : Option (Block × List UInt8) := do
  let (header,body) ← takeBlockHeader bytes
  let (chunks,rest) ← Lzma.decode body
  let content := header.deltas.reverse.foldl (fun b d => undoDelta d b) chunks
  let packed := body.length - rest.length
  if header.packedSize.getD packed ≠ packed ||
      header.plainSize.getD content.length ≠ content.length then none
  else
    let rest ← takeZeros (padding packed) rest
    let (check,rest) ← Bits.takeBytes (checkSize flags.check) rest
    if (checkBytes? flags.check content).getD check = check then
      let unpadded := bytes.length - body.length + packed + checkSize flags.check
      some (⟨content,⟨unpadded,content.length⟩⟩,rest)
    else none

def takeSizes : Nat → List UInt8 → Option (List Sizes × List UInt8)
  | 0,bytes => some ([],bytes)
  | n + 1,bytes => do
    let (unpadded,bytes) ← takeSize sizeGroups bytes
    let (plain,bytes) ← takeSize sizeGroups bytes
    let (rest,bytes) ← takeSizes n bytes
    some (⟨unpadded,plain⟩ :: rest,bytes)

def takeIndex (blocks : List Sizes) (bytes : List UInt8) : Option (Nat × List UInt8) := do
  let (_,fields) ← Bits.takeBytes 1 bytes
  let (n,fields) ← takeSize sizeGroups fields
  if n ≠ blocks.length then none
  else
    let (sizes,fields) ← takeSizes n fields
    let used := bytes.length - fields.length
    let _ ← takeZeros (padding used) fields
    let (_,rest) ← takeChecked (used + padding used) bytes
    if sizes = blocks then some (used + padding used + 4,rest) else none

def footer (flags : StreamFlags) (indexSize : Nat) (bytes : List UInt8) : Option Unit := do
  let (check,bytes) ← Bits.takeLittle 4 bytes
  let (fields,bytes) ← Bits.takeBytes 6 bytes
  let (size,own) ← Bits.takeLittle 4 fields
  if check = (Digest.crc32 fields).toNat && (size + 1) * 4 = indexSize &&
      own = flags.bytes && bytes = footerMagic then some () else none

def blocks : Nat → StreamFlags → List UInt8 → Option (List Block × List UInt8)
  | 0,_,_ => none
  | fuel + 1,flags,bytes =>
    match bytes with
    | [] => none
    | b :: _ =>
      if b = 0 then some ([],bytes)
      else do
        let (block,rest) ← takeBlock flags bytes
        let (more,rest) ← blocks fuel flags rest
        some (block :: more,rest)

def decode (bytes : List UInt8) : Option (List UInt8) := do
  let (start,rest) ← Bits.takeBytes 6 bytes
  if start ≠ magic then none
  else
    let (own,rest) ← takeChecked 2 rest
    let flags ← StreamFlags.ofBytes? own
    let (found,rest) ← blocks (rest.length + 1) flags rest
    let (indexSize,rest) ← takeIndex (found.map (·.sizes)) rest
    footer flags indexSize rest
    some (found.flatMap (·.content))

def blockHeader : List UInt8 := withCheck [2,0,0x21,1,22,0,0,0]

def zeros (n : Nat) : List UInt8 := List.replicate n 0

-- How much goes into one block, so that its sizes stay below sixty-three bits.
def blockLimit : Nat := 2 ^ 60

def pieces (bytes : List UInt8) : List (List UInt8) :=
  if _h : bytes.length = 0 then []
  else bytes.take blockLimit :: pieces (bytes.drop blockLimit)
termination_by bytes.length
decreasing_by
  simp only [List.length_drop,blockLimit]
  omega

def writeBlock (content : List UInt8) : List UInt8 :=
  let chunks := Lzma.encode content
  blockHeader ++ chunks ++ zeros (padding chunks.length)

def plainSizes (content : List UInt8) : Sizes :=
  ⟨blockHeader.length + (Lzma.encode content).length,content.length⟩

def Sizes.bytes (s : Sizes) : List UInt8 := writeSize s.unpadded ++ writeSize s.plain

def indexFields (sizes : List Sizes) : List UInt8 :=
  0 :: writeSize sizes.length ++ sizes.flatMap Sizes.bytes

def paddedIndex (sizes : List Sizes) : List UInt8 :=
  let fields := indexFields sizes
  fields ++ zeros (padding fields.length)

def footerFields (flags : StreamFlags) (indexSize : Nat) : List UInt8 :=
  Bits.littleEndian 4 (indexSize / 4 - 1) ++ flags.bytes

def encode (bytes : List UInt8) : List UInt8 :=
  let flags : StreamFlags := ⟨0⟩
  let contents := pieces bytes
  let index := withCheck (paddedIndex (contents.map plainSizes))
  let own := footerFields flags index.length
  magic ++ withCheck flags.bytes ++ contents.flatMap writeBlock ++ index ++
    Bits.littleEndian 4 (Digest.crc32 own).toNat ++ own ++ footerMagic

end TableView.Compression.Xz
