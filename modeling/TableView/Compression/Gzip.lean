import TableView.Compression.Deflate
import TableView.Digest.Checksum

namespace TableView.Compression.Gzip

def magic : List UInt8 := [0x1F,0x8B]

def dropText : List UInt8 → Option (List UInt8)
  | [] => none
  | b :: rest => if b = 0 then some rest else dropText rest

def flagSet (flags : UInt8) (i : Nat) : Bool := Bits.bit flags i

-- Passes over the optional parts that the flags announce, but not over the header's checksum.
def dropParts (flags : UInt8) (bytes : List UInt8) : Option (List UInt8) := do
  let bytes ← if flagSet flags 2 then do
      let (n,bytes) ← Bits.takeLittle 2 bytes
      let (_,bytes) ← Bits.takeBytes n bytes
      some bytes
    else some bytes
  let bytes ← if flagSet flags 3 then dropText bytes else some bytes
  if flagSet flags 4 then dropText bytes else some bytes

def dropHeader (bytes : List UInt8) : Option (List UInt8) := do
  let (start,rest) ← Bits.takeBytes 10 bytes
  let flags := start.getD 3 0
  if start.take 2 ≠ magic || start.getD 2 0 ≠ 8 || flags.toNat ≥ 32 then none
  else
    let rest ← dropParts flags rest
    if flagSet flags 1 then
      let header := bytes.take (bytes.length - rest.length)
      let (check,rest) ← Bits.takeLittle 2 rest
      if check = (Digest.crc32 header).toNat % 65536 then some rest else none
    else some rest

def decode (bytes : List UInt8) : Option (List UInt8) := do
  let body ← dropHeader bytes
  let (out,bits) ← Deflate.decode (Bits.ofBytesLow body)
  let bits := Bits.align bits
  let (check,bits) ← Bits.takeLow 32 bits
  let (length,_) ← Bits.takeLow 32 bits
  if check = (Digest.crc32 out).toNat && length = out.length % 2 ^ 32 then some out else none

def header : List UInt8 := magic ++ [8,0,0,0,0,0,0,255]

def encode (bytes : List UInt8) : List UInt8 :=
  header ++ Deflate.encode bytes ++ Bits.littleEndian 4 (Digest.crc32 bytes).toNat ++
    Bits.littleEndian 4 (bytes.length % 2 ^ 32)

end TableView.Compression.Gzip
