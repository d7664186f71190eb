import TableView.Number.Binary64

namespace TableView.Compression.Bits

def bit (b : UInt8) (i : Nat) : Bool := b.toNat / 2 ^ i % 2 == 1

def lowFirst (b : UInt8) : List Bool :=
  [bit b 0,bit b 1,bit b 2,bit b 3,bit b 4,bit b 5,bit b 6,bit b 7]

def highFirst (b : UInt8) : List Bool :=
  [bit b 7,bit b 6,bit b 5,bit b 4,bit b 3,bit b 2,bit b 1,bit b 0]

def ofBytesLow (bytes : List UInt8) : List Bool := bytes.flatMap lowFirst

def ofBytesHigh (bytes : List UInt8) : List Bool := bytes.flatMap highFirst

def takeLow : Nat → List Bool → Option (Nat × List Bool)
  | 0,bits => some (0,bits)
  | _ + 1,[] => none
  | n + 1,b :: bits => (takeLow n bits).map (fun (v,rest) => (2 * v + b.toNat,rest))

def takeHighOnto : Nat → Nat → List Bool → Option (Nat × List Bool)
  | 0,v,bits => some (v,bits)
  | _ + 1,_,[] => none
  | n + 1,v,b :: bits => takeHighOnto n (2 * v + b.toNat) bits

def takeHigh (n : Nat) (bits : List Bool) : Option (Nat × List Bool) := takeHighOnto n 0 bits

-- A list of bits made from whole bytes is a multiple of eight long, and so is what has been read up
-- to a byte boundary; the bits before the next boundary are the remainder of the length.
def align (bits : List Bool) : List Bool := bits.drop (bits.length % 8)

def writeLow : Nat → Nat → List Bool
  | 0,_ => []
  | n + 1,v => (v % 2 == 1) :: writeLow n (v / 2)

def writeHigh (n v : Nat) : List Bool := (writeLow n v).reverse

def byteHigh (b7 b6 b5 b4 b3 b2 b1 b0 : Bool) : UInt8 :=
  (((((((b7.toNat * 2 + b6.toNat) * 2 + b5.toNat) * 2 + b4.toNat) * 2 + b3.toNat) * 2 +
    b2.toNat) * 2 + b1.toNat) * 2 + b0.toNat).toUInt8

def toBytesHigh : List Bool → List UInt8
  | [] => []
  | b7 :: b6 :: b5 :: b4 :: b3 :: b2 :: b1 :: b0 :: rest =>
    byteHigh b7 b6 b5 b4 b3 b2 b1 b0 :: toBytesHigh rest
  | bits =>
    [byteHigh (bits.getD 0 false) (bits.getD 1 false) (bits.getD 2 false) (bits.getD 3 false)
      (bits.getD 4 false) (bits.getD 5 false) (bits.getD 6 false) (bits.getD 7 false)]

def littleEndian : Nat → Nat → List UInt8
  | 0,_ => []
  | n + 1,v => v.toUInt8 :: littleEndian n (v / 256)

def takeLittle : Nat → List UInt8 → Option (Nat × List UInt8)
  | 0,bytes => some (0,bytes)
  | _ + 1,[] => none
  | n + 1,b :: bytes => (takeLittle n bytes).map (fun (v,rest) => (256 * v + b.toNat,rest))

def takeBytes (n : Nat) (bytes : List UInt8) : Option (List UInt8 × List UInt8) :=
  let front := bytes.take n
  if front.length = n then some (front,bytes.drop n) else none

end TableView.Compression.Bits
