namespace TableView.Digest

def reflectedEntry (polynomial : UInt64) : Nat → UInt64 → UInt64
  | 0,r => r
  | n + 1,r =>
    reflectedEntry polynomial n (if r &&& 1 == 1 then (r >>> 1) ^^^ polynomial else r >>> 1)

def reflectedTable (polynomial : UInt64) : Array UInt64 :=
  Array.ofFn (fun i : Fin 256 => reflectedEntry polynomial 8 i.val.toUInt64)

def crc32Table : Array UInt64 := reflectedTable 0xEDB88320

def crc64Table : Array UInt64 := reflectedTable 0xC96C5795D7870F42

def reflectedStep (table : Array UInt64) (r : UInt64) (b : UInt8) : UInt64 :=
  table.getD ((r ^^^ b.toUInt64) &&& 0xFF).toNat 0 ^^^ (r >>> 8)

def crc32 (bytes : List UInt8) : UInt32 :=
  (bytes.foldl (reflectedStep crc32Table) 0xFFFFFFFF ^^^ 0xFFFFFFFF).toUInt32

def crc64 (bytes : List UInt8) : UInt64 :=
  bytes.foldl (reflectedStep crc64Table) 0xFFFFFFFFFFFFFFFF ^^^ 0xFFFFFFFFFFFFFFFF

def forwardEntry : Nat → UInt32 → UInt32
  | 0,r => r
  | n + 1,r =>
    forwardEntry n (if r &&& 0x80000000 != 0 then (r <<< 1) ^^^ 0x04C11DB7 else r <<< 1)

def forwardTable : Array UInt32 :=
  Array.ofFn (fun i : Fin 256 => forwardEntry 8 (i.val.toUInt32 <<< 24))

def forwardStep (r : UInt32) (b : UInt8) : UInt32 :=
  forwardTable.getD ((r >>> 24) ^^^ b.toUInt32).toNat 0 ^^^ (r <<< 8)

def blockCrc (bytes : List UInt8) : UInt32 :=
  bytes.foldl forwardStep 0xFFFFFFFF ^^^ 0xFFFFFFFF

def rotateLeft64 (x : UInt64) (n : UInt64) : UInt64 := (x <<< n) ||| (x >>> (64 - n))

def little (bytes : List UInt8) : Nat := bytes.foldr (fun b n => n * 256 + b.toNat) 0

namespace FrameHash

def prime1 : UInt64 := 0x9E3779B185EBCA87
def prime2 : UInt64 := 0xC2B2AE3D27D4EB4F
def prime3 : UInt64 := 0x165667B19E3779F9
def prime4 : UInt64 := 0x85EBCA77C2B2AE63
def prime5 : UInt64 := 0x27D4EB2F165667C5

def round (lane input : UInt64) : UInt64 := rotateLeft64 (lane + input * prime2) 31 * prime1

def merge (hash lane : UInt64) : UInt64 := (hash ^^^ round 0 lane) * prime1 + prime4

structure Lanes where
  a : UInt64
  b : UInt64
  c : UInt64
  d : UInt64

def word (bytes : List UInt8) : UInt64 := (little (bytes.take 8)).toUInt64

def stripes : Nat → Lanes → List UInt8 → Lanes × List UInt8
  | 0,lanes,bytes => (lanes,bytes)
  | n + 1,lanes,bytes =>
    stripes n ⟨round lanes.a (word bytes),round lanes.b (word (bytes.drop 8)),
      round lanes.c (word (bytes.drop 16)),round lanes.d (word (bytes.drop 24))⟩ (bytes.drop 32)

def Lanes.join (l : Lanes) : UInt64 :=
  let sum := rotateLeft64 l.a 1 + rotateLeft64 l.b 7 + rotateLeft64 l.c 12 + rotateLeft64 l.d 18
  merge (merge (merge (merge sum l.a) l.b) l.c) l.d

def eights : Nat → UInt64 → List UInt8 → UInt64 × List UInt8
  | 0,hash,bytes => (hash,bytes)
  | n + 1,hash,bytes =>
    eights n (rotateLeft64 (hash ^^^ round 0 (word bytes)) 27 * prime1 + prime4) (bytes.drop 8)

def fours (hash : UInt64) (bytes : List UInt8) : UInt64 × List UInt8 :=
  if bytes.length < 4 then (hash,bytes)
  else
    let w := (little (bytes.take 4)).toUInt64
    (rotateLeft64 (hash ^^^ (w * prime1)) 23 * prime2 + prime3,bytes.drop 4)

def ones (hash : UInt64) (bytes : List UInt8) : UInt64 :=
  bytes.foldl (fun h b => rotateLeft64 (h ^^^ (b.toUInt64 * prime5)) 11 * prime1) hash

def avalanche (h : UInt64) : UInt64 :=
  let h := (h ^^^ (h >>> 33)) * prime2
  let h := (h ^^^ (h >>> 29)) * prime3
  h ^^^ (h >>> 32)

end FrameHash

def frameHash (bytes : List UInt8) : UInt64 :=
  let n := bytes.length
  let start : FrameHash.Lanes :=
    ⟨FrameHash.prime1 + FrameHash.prime2,FrameHash.prime2,0,0 - FrameHash.prime1⟩
  let (lanes,rest) := FrameHash.stripes (n / 32) start bytes
  let hash := if 32 ≤ n then lanes.join else FrameHash.prime5
  let (hash,rest) := FrameHash.eights (rest.length / 8) (hash + n.toUInt64) rest
  let (hash,rest) := FrameHash.fours hash rest
  FrameHash.avalanche (FrameHash.ones hash rest)

end TableView.Digest
