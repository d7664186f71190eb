import TableView.Compression.CodeTree
import TableView.Digest.Checksum

namespace TableView.Compression.Shuffle

def distances : List Nat := [
  619,720,127,481,931,816,813,233,566,247,985,724,205,454,863,491,741,242,949,214,733,859,335,708,
  621,574,73,654,730,472,419,436,278,496,867,210,399,680,480,51,878,465,811,169,869,675,611,697,
  867,561,862,687,507,283,482,129,807,591,733,623,150,238,59,379,684,877,625,169,643,105,170,607,
  520,932,727,476,693,425,174,647,73,122,335,530,442,853,695,249,445,515,909,545,703,919,874,474,
  882,500,594,612,641,801,220,162,819,984,589,513,495,799,161,604,958,533,221,400,386,867,600,782,
  382,596,414,171,516,375,682,485,911,276,98,553,163,354,666,933,424,341,533,870,227,730,475,186,
  263,647,537,686,600,224,469,68,770,919,190,373,294,822,808,206,184,943,795,384,383,461,404,758,
  839,887,715,67,618,276,204,918,873,777,604,560,951,160,578,722,79,804,96,409,713,940,652,934,
  970,447,318,353,859,672,112,785,645,863,803,350,139,93,354,99,820,908,609,772,154,274,580,184,
  79,626,630,742,653,282,762,623,680,81,927,626,789,125,411,521,938,300,821,78,343,175,128,250,
  170,774,972,275,999,639,495,78,352,126,857,956,358,619,580,124,737,594,701,612,669,112,134,694,
  363,992,809,743,168,974,944,375,748,52,600,747,642,182,862,81,344,805,988,739,511,655,814,334,
  249,515,897,955,664,981,649,113,974,459,893,228,433,837,553,268,926,240,102,654,459,51,686,754,
  806,760,493,403,415,394,687,700,946,670,656,610,738,392,760,799,887,653,978,321,576,617,626,502,
  894,679,243,440,680,879,194,572,640,724,926,56,204,700,707,151,457,449,797,195,791,558,945,679,
  297,59,87,824,713,663,412,693,342,606,134,108,571,364,631,212,174,643,304,329,343,97,430,751,
  497,314,983,374,822,928,140,206,73,263,980,736,876,478,430,305,170,514,364,692,829,82,855,953,
  676,246,369,970,294,750,807,827,150,790,288,923,804,378,215,828,592,281,565,555,710,82,896,831,
  547,261,524,462,293,465,502,56,661,821,976,991,658,869,905,758,745,193,768,550,608,933,378,286,
  215,979,792,961,61,688,793,644,986,403,106,366,905,644,372,567,466,434,645,210,389,550,919,135,
  780,773,635,389,707,100,626,958,165,504,920,176,193,713,857,265,203,50,668,108,645,990,626,197,
  510,357,358,850,858,364,936,638]

-- Flips the byte that stands one before the end of every distance.
def flip : Nat → List Nat → List UInt8 → List UInt8
  | _,_,[] => []
  | left,following,b :: rest =>
    match left,following with
    | 0,[] => b :: flip (distances.headD 1 - 1) distances.tail rest
    | 0,d :: following => b :: flip (d - 1) following rest
    | left + 1,following =>
      (if left = 1 then b ^^^ 1 else b) :: flip left following rest

def apply (bytes : List UInt8) : List UInt8 := flip 0 distances bytes

end TableView.Compression.Shuffle

namespace TableView.Compression.Bzip2

def blockMagic : Nat := 0x314159265359

def endMagic : Nat := 0x177245385090

def magic : List UInt8 := [0x42,0x5A,0x68]

def setBitsFrom (index : Nat) : Nat → List Bool → Option (List Nat × List Bool)
  | 0,bits => some ([],bits)
  | _ + 1,[] => none
  | n + 1,b :: bits => (setBitsFrom (index + 1) n bits).map (fun (indices,rest) =>
      (if b then index :: indices else indices,rest))

def setBits (n : Nat) (bits : List Bool) : Option (List Nat × List Bool) := setBitsFrom 0 n bits

def rows : List Nat → List Bool → Option (List UInt8 × List Bool)
  | [],bits => some ([],bits)
  | row :: rest,bits => do
    let (columns,bits) ← setBits 16 bits
    let (more,bits) ← rows rest bits
    some (columns.map (fun c => (row * 16 + c).toUInt8) ++ more,bits)

def usedBytes (bits : List Bool) : Option (List UInt8 × List Bool) := do
  let (present,bits) ← setBits 16 bits
  rows present bits

def unary : List Bool → Option (Nat × List Bool)
  | [] => none
  | false :: bits => some (0,bits)
  | true :: bits => (unary bits).map (fun (n,rest) => (n + 1,rest))

def moveToFront (index : Nat) (recent : List α) : Option (α × List α) :=
  (recent[index]?).map (fun a => (a,a :: recent.eraseIdx index))

def selectors : Nat → List Nat → List Bool → Option (List Nat × List Bool)
  | 0,_,bits => some ([],bits)
  | n + 1,recent,bits => do
    let (index,bits) ← unary bits
    let (code,recent) ← moveToFront index recent
    let (rest,bits) ← selectors n recent bits
    some (code :: rest,bits)

def isWordLength (n : Nat) : Bool := 1 ≤ n && n ≤ 20

def wordLength : Nat → List Bool → Option (Nat × List Bool)
  | length,false :: bits => if isWordLength length then some (length,bits) else none
  | length,true :: down :: bits =>
    if isWordLength length then wordLength (if down then length - 1 else length + 1) bits
    else none
  | _,_ => none

def wordLengths : Nat → Nat → List Bool → Option (List Nat × List Bool)
  | 0,_,bits => some ([],bits)
  | n + 1,length,bits => do
    let (length,bits) ← wordLength length bits
    let (rest,bits) ← wordLengths n length bits
    some (length :: rest,bits)

def codes (symbols : Nat) : Nat → List Bool → Option (List CodeTree × List Bool)
  | 0,bits => some ([],bits)
  | n + 1,bits => do
    let (first,bits) ← Bits.takeHigh 5 bits
    let (lengths,bits) ← wordLengths symbols first bits
    let (rest,bits) ← codes symbols n bits
    some (CodeTree.canonical 20 lengths :: rest,bits)

def groupSize : Nat := 50

-- What is known while the symbols of a block are read: runs of the front byte are counted in
-- a numeration with the digits one and two.
structure Column where
  recent : List UInt8
  run : Nat
  weight : Nat
  bytes : Array UInt8

def Column.flush (c : Column) : Column :=
  match c.recent with
  | [] => c
  | b :: _ => ⟨c.recent,0,1,c.bytes ++ Array.replicate c.run b⟩

def Column.symbol (c : Column) (symbol : Nat) : Option Column :=
  if symbol < 2 then some { c with run := c.run + c.weight * (symbol + 1),weight := 2 * c.weight }
  else
    let c := c.flush
    (moveToFront (symbol - 1) c.recent).map (fun (b,recent) =>
      { c with recent := recent,bytes := c.bytes.push b })

def column (codes : Array CodeTree) (endSymbol limit : Nat) :
    Nat → Nat → List Nat → List Bool → Column → Option (Array UInt8 × List Bool)
  | 0,_,_,_,_ => none
  | fuel + 1,left,selected,bits,c => do
    let (left,selected) := if left = 0 then (groupSize,selected.drop 1) else (left,selected)
    let index ← selected.head?
    let code ← codes[index]?
    let (symbol,bits) ← code.decode bits
    if symbol = endSymbol then
      let c := c.flush
      if limit < c.bytes.size then none else some (c.bytes,bits)
    else
      let c ← c.symbol symbol
      if limit < c.bytes.size + c.run then none
      else column codes endSymbol limit fuel (left - 1) selected bits c

def successors (column : Array UInt8) : Array Nat :=
  ((List.range column.size).mergeSort
    (fun i j => column.getD i 0 ≤ column.getD j 0)).toArray

def follow (column : Array UInt8) (next : Array Nat) : Nat → Nat → List UInt8
  | 0,_ => []
  | n + 1,row => column.getD row 0 :: follow column next n (next.getD row 0)

def unsort (column : Array UInt8) (row : Nat) : Option (List UInt8) :=
  if column.size ≤ row then none
  else
    let next := successors column
    some (follow column next column.size (next.getD row 0))

-- Four equal bytes are followed by the number of further ones.
def expand (same : Nat) (last : Option UInt8) : List UInt8 → List UInt8
  | [] => []
  | b :: rest =>
    if same = 4 then
      match last with
      | some c => List.replicate b.toNat c ++ expand 0 none rest
      | none => b :: expand 1 (some b) rest
    else if last = some b then b :: expand (same + 1) last rest
    else b :: expand 1 (some b) rest

def block (limit : Nat) (bits : List Bool) : Option (List UInt8 × Nat × List Bool) := do
  let (check,bits) ← Bits.takeHigh 32 bits
  let (shuffled,bits) ← Bits.takeHigh 1 bits
  let (row,bits) ← Bits.takeHigh 24 bits
  let (used,bits) ← usedBytes bits
  let (groups,bits) ← Bits.takeHigh 3 bits
  let (count,bits) ← Bits.takeHigh 15 bits
  if used.isEmpty || groups < 2 || 6 < groups || count = 0 then none
  else
    let (selected,bits) ← selectors count (List.range groups) bits
    let (codes,bits) ← codes (used.length + 2) groups bits
    let (last,bits) ← column codes.toArray (used.length + 1) limit (groupSize * count + 1) groupSize
      selected bits ⟨used,0,1,#[]⟩
    let text ← unsort last row
    let text := if shuffled = 1 then Shuffle.apply text else text
    let out := expand 0 none text
    if check = (Digest.blockCrc out).toNat then some (out,check,bits) else none

def combine (all check : Nat) : Nat := (all * 2 % 2 ^ 32 + all / 2 ^ 31) ^^^ check

def blocks (limit : Nat) : Nat → Nat → List Bool → Option (List (List UInt8))
  | 0,_,_ => none
  | fuel + 1,all,bits => do
    let (start,bits) ← Bits.takeHigh 48 bits
    if start = blockMagic then
      let (out,check,bits) ← block limit bits
      let more ← blocks limit fuel (combine all check) bits
      some (out :: more)
    else if start = endMagic then
      let (check,_) ← Bits.takeHigh 32 bits
      if check = all then some [] else none
    else none

-- What follows the stream is not looked at.
def decode (bytes : List UInt8) : Option (List UInt8) := do
  let (start,rest) ← Bits.takeBytes 3 bytes
  let (level,rest) ← Bits.takeLittle 1 rest
  if start = magic && 49 ≤ level && level ≤ 57 then
    let parts ← blocks ((level - 48) * 100000) (bytes.length + 1) 0 (Bits.ofBytesHigh rest)
    some parts.flatten
  else none

def oneOfSixteen (index : Nat) : List Bool := (List.range 16).map (· == index)

def threeWords : List Bool := Bits.writeHigh 5 2 ++ [false,false,false]

-- The writer makes blocks of one byte each. Such a block has one rotation, so nothing has to be
-- sorted, and every part of it but the byte and its checksum is the same.
def byteBlock (b : UInt8) : List Bool :=
  Bits.writeHigh 48 blockMagic ++ Bits.writeHigh 32 (Digest.blockCrc [b]).toNat ++ [false] ++
    Bits.writeHigh 24 0 ++ oneOfSixteen (b.toNat / 16) ++ oneOfSixteen (b.toNat % 16) ++
    Bits.writeHigh 3 2 ++ Bits.writeHigh 15 1 ++ [false] ++ threeWords ++ threeWords ++
    [false,false] ++ [true,false]

def combined (bytes : List UInt8) : Nat :=
  bytes.foldl (fun all b => combine all (Digest.blockCrc [b]).toNat) 0

def encode (bytes : List UInt8) : List UInt8 :=
  magic ++ [57] ++ Bits.toBytesHigh (bytes.flatMap byteBlock ++ Bits.writeHigh 48 endMagic ++
    Bits.writeHigh 32 (combined bytes))

end TableView.Compression.Bzip2
