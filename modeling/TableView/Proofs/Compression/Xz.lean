import TableView.Compression.Xz
import TableView.Proofs.Compression.Bits

namespace TableView.Compression

namespace Lzma

open Text.Utf8 (toNat_toUInt8)

theorem takeBig_bigEndian2 {v : Nat} (small : v < 65536) (rest : List UInt8) :
    takeBig 2 (bigEndian2 v ++ rest) = some (v,rest) := by
  have high : (v / 256).toUInt8.toNat = v / 256 := toNat_toUInt8 (by omega)
  have low : v.toUInt8.toNat = v % 256 := rfl
  have value : (0 * 256 + v / 256) * 256 + v % 256 = v := by omega
  have taken := Bits.takeBytes_append (show (bigEndian2 v).length = 2 from rfl) rest
  rw [takeBig,taken]
  simp only [Option.map_some,bigEndian2,List.foldl_cons,List.foldl_nil,high,low,value]

theorem plainChunk_append (empties : Bool) (st : Stream) (front rest : List UInt8)
    (some_ : front ≠ []) (short : front.length ≤ chunkLimit)
    (ready : empties = true ∨ st.needsDictionary = false) :
    ∃ next, plainChunk empties st (bigEndian2 (front.length - 1) ++ (front ++ rest)) =
        some (next,rest) ∧
      next.state.output = st.state.output ++ front.toArray ∧ next.needsDictionary = false := by
  have positive := List.length_pos_iff.mpr some_
  have small : front.length - 1 < 65536 := by simp only [chunkLimit] at short; omega
  have length : front.length = front.length - 1 + 1 := by omega
  have allowed : (st.needsDictionary && !empties) = false := by
    rcases ready with rfl | known
    · simp
    · simp [known]
  rw [plainChunk,takeBig_bigEndian2 small]
  simp only [Option.bind_eq_bind,Option.bind_some]
  rw [Bits.takeBytes_append length]
  simp only [Option.bind_some,allowed]
  refine ⟨_,rfl,?_,rfl⟩
  cases empties <;> rfl

theorem chunks_plainChunks (fuel : Nat) (control : UInt8) (st : Stream) (bytes rest : List UInt8)
    (enough : bytes.length < fuel)
    (ready : control = 1 ∨ control = 2 ∧ st.needsDictionary = false) :
    chunks fuel st (plainChunks control bytes ++ rest) =
      some (st.state.output ++ bytes.toArray,rest) := by
  induction fuel generalizing control st bytes with
  | zero => cases Nat.not_lt_zero _ enough
  | succ fuel ih =>
    rw [plainChunks]
    split
    · rename_i empty
      have none := List.length_eq_zero_iff.mp empty
      subst none
      simp [chunks]
    · rename_i full
      have front : bytes.take chunkLimit ≠ [] := by
        intro empty
        have length := congrArg List.length empty
        simp only [List.length_take,chunkLimit,List.length_nil] at length
        omega
      have short : (bytes.take chunkLimit).length ≤ chunkLimit := List.length_take_le ..
      have less : (bytes.drop chunkLimit).length < fuel := by
        rw [List.length_drop]; simp only [chunkLimit]; omega
      have step (empties : Bool) (ready : empties = true ∨ st.needsDictionary = false) :
          (plainChunk empties st (bigEndian2 ((bytes.take chunkLimit).length - 1) ++
            (bytes.take chunkLimit ++ (plainChunks 2 (bytes.drop chunkLimit) ++ rest)))).bind
              (fun read => chunks fuel read.1 read.2) =
            some (st.state.output ++ bytes.toArray,rest) := by
        obtain ⟨next,read,output,known⟩ := plainChunk_append empties st _
          (plainChunks 2 (bytes.drop chunkLimit) ++ rest) front short ready
        rw [read,Option.bind_some]
        rw [ih 2 next _ less (Or.inr ⟨rfl,known⟩),output]
        simp
      simp only [List.cons_append,List.append_assoc]
      rcases ready with rfl | ⟨rfl,known⟩
      · exact step true (Or.inl rfl)
      · exact step false (Or.inr known)

theorem plainChunks_length (control : UInt8) (bytes : List UInt8) :
    bytes.length < (plainChunks control bytes).length := by
  induction control,bytes using plainChunks.induct with
  | case1 control bytes empty =>
    rw [plainChunks,dif_pos empty,empty]
    exact Nat.one_pos
  | case2 control bytes full ih =>
    rw [plainChunks,dif_neg full]
    rw [List.length_drop] at ih
    simp only [List.length_append,List.length_cons,List.length_take]
    omega

theorem plainChunks_length_le (control : UInt8) (bytes : List UInt8) :
    (plainChunks control bytes).length ≤ 4 * bytes.length + 1 := by
  induction control,bytes using plainChunks.induct with
  | case1 control bytes empty =>
    rw [plainChunks,dif_pos empty]
    simp
  | case2 control bytes full ih =>
    rw [plainChunks,dif_neg full]
    rw [List.length_drop] at ih
    simp only [List.length_append,List.length_cons,List.length_take,bigEndian2,List.length_nil,
      chunkLimit] at ih ⊢
    omega

theorem decode_encode (bytes rest : List UInt8) :
    decode (encode bytes ++ rest) = some (bytes,rest) := by
  have length := plainChunks_length 1 bytes
  have empty : Stream.start.state.output = #[] := rfl
  rw [decode,encode,chunks_plainChunks _ 1 .start bytes rest _ (Or.inl rfl)]
  · simp [empty]
  · rw [List.length_append]; omega

end Lzma

namespace Xz

open Text.Utf8 (toNat_toUInt8)

theorem crc_small (bytes : List UInt8) : (Digest.crc32 bytes).toNat < 256 ^ 4 :=
  (Digest.crc32 bytes).toNat_lt

theorem takeChecked_withCheck {n : Nat} {bytes : List UInt8} (length : bytes.length = n)
    (rest : List UInt8) : takeChecked n (withCheck bytes ++ rest) = some (bytes,rest) := by
  rw [takeChecked,withCheck,List.append_assoc,Bits.takeBytes_append length]
  simp only [Option.bind_eq_bind,Option.bind_some,Bits.takeLittle_littleEndian (crc_small bytes),
    if_true]

theorem withCheck_length (bytes : List UInt8) : (withCheck bytes).length = bytes.length + 4 := by
  simp [withCheck]

theorem takeZeros_zeros (n : Nat) (rest : List UInt8) :
    takeZeros n (zeros n ++ rest) = some rest := by
  rw [takeZeros,Bits.takeBytes_append (by simp [zeros])]
  simp [zeros]

theorem takeSize_writeSize {n v : Nat} (small : v < 128 ^ (n + 1)) (busy : v ≠ 0 ∨ 8 ≤ n)
    (rest : List UInt8) : takeSize (n + 1) (writeSize v ++ rest) = some (v,rest) := by
  induction n generalizing v with
  | zero =>
    have value : v.toUInt8.toNat = v := toNat_toUInt8 (by omega)
    have nonzero : v.toUInt8 ≠ 0 := by
      intro zero
      have none : v.toUInt8.toNat = 0 := congrArg UInt8.toNat zero
      omega
    rw [writeSize,if_pos (by omega),List.cons_append,takeSize,value,if_pos (by omega)]
    simp [nonzero]
  | succ n ih =>
    rw [writeSize]
    split
    · rename_i single
      have value : v.toUInt8.toNat = v := toNat_toUInt8 (by omega)
      have allowed : ¬(v.toUInt8 = 0 ∧ n + 1 < 8) := by
        rintro ⟨zero,early⟩
        have none : v.toUInt8.toNat = 0 := congrArg UInt8.toNat zero
        omega
      rw [List.cons_append,takeSize,value,if_pos single]
      simp only [Bool.and_eq_true,decide_eq_true_eq,allowed,if_false,List.nil_append]
    · rename_i several
      have value : (v % 128 + 128).toUInt8.toNat = v % 128 + 128 := toNat_toUInt8 (by omega)
      have high : v / 128 < 128 ^ (n + 1) := Nat.div_lt_of_lt_mul (by rwa [←Nat.pow_succ'])
      have whole : v % 128 + 128 - 128 + 128 * (v / 128) = v := by omega
      rw [List.cons_append,takeSize,value,if_neg (by omega),ih high (by omega),Option.map_some]
      exact congrArg (fun w => some (w,rest)) whole

theorem takeSize_size {v : Nat} (small : v < 2 ^ 63) (rest : List UInt8) :
    takeSize sizeGroups (writeSize v ++ rest) = some (v,rest) :=
  takeSize_writeSize (by omega) (Or.inr (Nat.le_refl 8)) rest

theorem writeSize_length {n v : Nat} (small : v < 128 ^ (n + 1)) :
    (writeSize v).length ≤ n + 1 := by
  induction n generalizing v with
  | zero =>
    rw [writeSize,if_pos (by omega)]
    exact Nat.le_refl _
  | succ n ih =>
    have high : v / 128 < 128 ^ (n + 1) := Nat.div_lt_of_lt_mul (by rwa [←Nat.pow_succ'])
    rw [writeSize]
    split
    · simp
    · have shorter := ih high
      rw [List.length_cons]
      omega

theorem takeBlockHeader_blockHeader (rest : List UInt8) :
    takeBlockHeader (blockHeader ++ rest) = some (⟨none,none,[]⟩,rest) := by
  let fields : List UInt8 := [2,0,0x21,1,22,0,0,0]
  have size : Bits.takeLittle 1 (blockHeader ++ rest) =
      some (2,(blockHeader ++ rest).drop 1) := rfl
  have checked : takeChecked (2 * 4) (blockHeader ++ rest) = some (fields,rest) :=
    takeChecked_withCheck (show fields.length = 8 from rfl) rest
  rw [takeBlockHeader,size]
  simp only [Option.bind_eq_bind,Option.bind_some,checked]
  rfl

theorem takeBlock_writeBlock (content rest : List UInt8) :
    takeBlock ⟨0⟩ (writeBlock content ++ rest) = some (⟨content,plainSizes content⟩,rest) := by
  have none : Bits.takeBytes 0 rest = some ([],rest) := rfl
  have size : checkSize 0 = 0 := rfl
  have check : checkBytes? 0 content = some [] := rfl
  rw [writeBlock,List.append_assoc,List.append_assoc,takeBlock,takeBlockHeader_blockHeader]
  simp only [Option.bind_eq_bind,Option.bind_some,Lzma.decode_encode,List.length_append,
    Nat.add_sub_cancel_right,List.reverse_nil,List.foldl_nil,Option.getD_none,ne_eq,
    not_true_eq_false,decide_false,Bool.or_self,Bool.false_eq_true,if_false,takeZeros_zeros,size,
    none,check,Option.getD_some,if_true,Nat.add_zero,plainSizes]

-- A block starts with the size of its header and the index with a zero, which tells them apart.
theorem blocks_written (fuel : Nat) (contents : List (List UInt8)) (index : List UInt8)
    (enough : contents.length < fuel) :
    blocks fuel ⟨0⟩ (contents.flatMap writeBlock ++ 0 :: index) =
      some (contents.map (fun content => ⟨content,plainSizes content⟩),0 :: index) := by
  induction contents generalizing fuel with
  | nil =>
    obtain ⟨less,rfl⟩ : ∃ less, fuel = less + 1 := ⟨fuel - 1,by omega⟩
    rfl
  | cons content contents ih =>
    obtain ⟨less,rfl⟩ : ∃ less, fuel = less + 1 := ⟨fuel - 1,by omega⟩
    rw [List.length_cons] at enough
    have more := ih less (by omega)
    have block := takeBlock_writeBlock content (contents.flatMap writeBlock ++ 0 :: index)
    rw [List.flatMap_cons,List.append_assoc]
    have step (s : List UInt8) : blocks (less + 1) ⟨0⟩ (writeBlock content ++ s) =
        (takeBlock ⟨0⟩ (writeBlock content ++ s)).bind (fun found =>
          (blocks less ⟨0⟩ found.2).bind (fun more => some (found.1 :: more.1,more.2))) := rfl
    rw [step,block]
    simp only [Option.bind_some,more,List.map_cons]

def Small (sizes : List Sizes) : Prop := ∀ s ∈ sizes, s.unpadded < 2 ^ 63 ∧ s.plain < 2 ^ 63

theorem takeSizes_bytes {sizes : List Sizes} (small : Small sizes) (rest : List UInt8) :
    takeSizes sizes.length (sizes.flatMap Sizes.bytes ++ rest) = some (sizes,rest) := by
  induction sizes with
  | nil => rfl
  | cons s sizes ih =>
    obtain ⟨outer,inner⟩ := small s List.mem_cons_self
    have more := ih (fun t member => small t (List.mem_cons_of_mem _ member))
    rw [List.flatMap_cons,Sizes.bytes,List.append_assoc,List.append_assoc,List.length_cons,
      takeSizes,takeSize_size outer]
    simp only [Option.bind_eq_bind,Option.bind_some,takeSize_size inner,more]

theorem sizes_length {sizes : List Sizes} (small : Small sizes) :
    (sizes.flatMap Sizes.bytes).length ≤ 18 * sizes.length := by
  induction sizes with
  | nil => exact Nat.le_refl _
  | cons s sizes ih =>
    obtain ⟨outer,inner⟩ := small s List.mem_cons_self
    have more := ih (fun t member => small t (List.mem_cons_of_mem _ member))
    have first : (writeSize s.unpadded).length ≤ 8 + 1 := writeSize_length (by omega)
    have second : (writeSize s.plain).length ≤ 8 + 1 := writeSize_length (by omega)
    rw [List.flatMap_cons,Sizes.bytes]
    simp only [List.length_append,List.length_cons]
    omega

theorem paddedIndex_length (sizes : List Sizes) : (paddedIndex sizes).length =
    (indexFields sizes).length + padding (indexFields sizes).length := by
  simp [paddedIndex,zeros]

-- The index is made of whole groups of four bytes, and the footer can tell their number.
theorem index_groups {sizes : List Sizes} (small : Small sizes) (few : sizes.length < 256 ^ 3) :
    ∃ n, n < 256 ^ 4 ∧ (withCheck (paddedIndex sizes)).length = (n + 1) * 4 := by
  have number : (writeSize sizes.length).length ≤ 8 + 1 := writeSize_length (by omega)
  have records := sizes_length small
  have fields : (indexFields sizes).length ≤ 10 + 18 * sizes.length := by
    simp only [indexFields,List.length_append,List.length_cons]
    omega
  have length := paddedIndex_length sizes
  rw [padding] at length
  refine ⟨(paddedIndex sizes).length / 4,by omega,?_⟩
  rw [withCheck_length]
  omega

theorem takeIndex_paddedIndex {sizes : List Sizes} (small : Small sizes)
    (few : sizes.length < 256 ^ 3) (rest : List UInt8) :
    takeIndex sizes (withCheck (paddedIndex sizes) ++ rest) =
      some ((withCheck (paddedIndex sizes)).length,rest) := by
  let fields := indexFields sizes
  let check := Bits.littleEndian 4 (Digest.crc32 (paddedIndex sizes)).toNat
  let behind := zeros (padding fields.length) ++ (check ++ rest)
  have whole : withCheck (paddedIndex sizes) ++ rest =
      [0] ++ (writeSize sizes.length ++ (sizes.flatMap Sizes.bytes ++ behind)) := by
    simp [withCheck,paddedIndex,indexFields,behind,fields,check]
  have start : Bits.takeBytes 1 (withCheck (paddedIndex sizes) ++ rest) =
      some ([0],writeSize sizes.length ++ (sizes.flatMap Sizes.bytes ++ behind)) := by
    rw [whole]
    exact Bits.takeBytes_append (show [(0 : UInt8)].length = 1 from rfl) _
  have number := takeSize_size (show sizes.length < 2 ^ 63 by omega)
    (sizes.flatMap Sizes.bytes ++ behind)
  have records := takeSizes_bytes small behind
  have used : (withCheck (paddedIndex sizes) ++ rest).length - behind.length =
      fields.length := by
    simp only [whole,fields,indexFields,List.length_append,List.length_cons,List.length_nil]
    omega
  have checked := takeChecked_withCheck (paddedIndex_length sizes) rest
  rw [takeIndex,start]
  simp only [Option.bind_eq_bind,Option.bind_some,number,ne_eq,not_true_eq_false,if_false,records,
    used]
  rw [takeZeros_zeros,checked]
  simp only [Option.bind_some,if_true]
  rw [withCheck_length,paddedIndex_length]

theorem footer_footerFields {n indexSize : Nat} (small : n < 256 ^ 4)
    (groups : indexSize = (n + 1) * 4) :
    footer ⟨0⟩ indexSize
      (Bits.littleEndian 4 (Digest.crc32 (footerFields ⟨0⟩ indexSize)).toNat ++
        (footerFields ⟨0⟩ indexSize ++ footerMagic)) = some () := by
  have written : indexSize / 4 - 1 = n := by omega
  have length : (footerFields ⟨0⟩ indexSize).length = 6 := by
    simp [footerFields,StreamFlags.bytes]
  have size : Bits.takeLittle 4 (footerFields ⟨0⟩ indexSize) =
      some (n,StreamFlags.bytes ⟨0⟩) := by
    rw [footerFields,written]
    exact Bits.takeLittle_littleEndian small _
  rw [footer,Bits.takeLittle_littleEndian (crc_small _)]
  simp only [Option.bind_eq_bind,Option.bind_some]
  rw [Bits.takeBytes_append length]
  simp only [Option.bind_some,size]
  simp [groups]

theorem pieces_flatten (bytes : List UInt8) : (pieces bytes).flatten = bytes := by
  induction bytes using pieces.induct with
  | case1 bytes empty =>
    rw [pieces,dif_pos empty,List.length_eq_zero_iff.mp empty]
    rfl
  | case2 bytes full ih =>
    rw [pieces,dif_neg full,List.flatten_cons,ih,List.take_append_drop]

theorem pieces_short (bytes : List UInt8) : ∀ p ∈ pieces bytes, p.length ≤ blockLimit := by
  induction bytes using pieces.induct with
  | case1 bytes empty =>
    intro p member
    rw [pieces,dif_pos empty] at member
    cases member
  | case2 bytes full ih =>
    intro p member
    rw [pieces,dif_neg full] at member
    rcases List.mem_cons.mp member with rfl | later
    · exact List.length_take_le ..
    · exact ih p later

theorem pieces_few (bytes : List UInt8) :
    (pieces bytes).length ≤ bytes.length / blockLimit + 1 := by
  induction bytes using pieces.induct with
  | case1 bytes empty =>
    rw [pieces,dif_pos empty]
    exact Nat.zero_le _
  | case2 bytes full ih =>
    rw [pieces,dif_neg full,List.length_cons]
    by_cases whole : bytes.length < blockLimit
    · have none : bytes.drop blockLimit = [] := List.drop_of_length_le (Nat.le_of_lt whole)
      rw [none,pieces,dif_pos (show ([] : List UInt8).length = 0 from rfl)]
      exact Nat.le_add_left ..
    · have parts : bytes.length = bytes.length - blockLimit + blockLimit := by omega
      rw [List.length_drop] at ih
      rw [parts,Nat.add_div_right _ (show 0 < blockLimit by decide)]
      omega

theorem plainSizes_small {bytes : List UInt8} (slice : bytes.length < 2 ^ 63) :
    Small ((pieces bytes).map plainSizes) ∧ ((pieces bytes).map plainSizes).length < 256 ^ 3 := by
  constructor
  · intro s member
    obtain ⟨content,inPieces,rfl⟩ := List.mem_map.mp member
    have short := pieces_short bytes content inPieces
    have chunks := Lzma.plainChunks_length_le 1 content
    have header : blockHeader.length = 12 := by rw [blockHeader,withCheck_length]; rfl
    simp only [plainSizes,Lzma.encode,header]
    simp only [blockLimit] at short
    omega
  · have few := pieces_few bytes
    simp only [blockLimit] at few
    rw [List.length_map]
    omega

theorem flatMap_writeBlock_length (contents : List (List UInt8)) :
    contents.flatten.length + contents.length ≤ (contents.flatMap writeBlock).length := by
  induction contents with
  | nil => exact Nat.le_refl _
  | cons content contents ih =>
    have chunks : content.length < (Lzma.encode content).length :=
      Lzma.plainChunks_length 1 content
    simp only [List.flatten_cons,List.flatMap_cons,List.length_append,List.length_cons,writeBlock]
    omega

theorem encode_parts (bytes : List UInt8) :
    let index := withCheck (paddedIndex ((pieces bytes).map plainSizes))
    encode bytes = magic ++ (withCheck (StreamFlags.bytes ⟨0⟩) ++
      ((pieces bytes).flatMap writeBlock ++ (index ++
        (Bits.littleEndian 4 (Digest.crc32 (footerFields ⟨0⟩ index.length)).toNat ++
          (footerFields ⟨0⟩ index.length ++ footerMagic))))) := by
  simp only [encode,List.append_assoc]

theorem length_le_encode (bytes : List UInt8) : bytes.length ≤ (encode bytes).length := by
  have written := flatMap_writeBlock_length (pieces bytes)
  rw [pieces_flatten] at written
  rw [encode_parts]
  simp only [List.length_append]
  omega

theorem decode_encode {bytes : List UInt8} (slice : bytes.length < 2 ^ 63) :
    decode (encode bytes) = some bytes := by
  obtain ⟨small,few⟩ := plainSizes_small slice
  obtain ⟨n,bound,groups⟩ := index_groups small few
  have footed := footer_footerFields bound groups
  have indexed := takeIndex_paddedIndex small few
  have start (rest : List UInt8) : Bits.takeBytes 6 (magic ++ rest) = some (magic,rest) :=
    Bits.takeBytes_append (show magic.length = 6 from rfl) rest
  have own (rest : List UInt8) : takeChecked 2 (withCheck (StreamFlags.bytes ⟨0⟩) ++ rest) =
      some (StreamFlags.bytes ⟨0⟩,rest) :=
    takeChecked_withCheck (show (StreamFlags.bytes ⟨0⟩).length = 2 from rfl) rest
  have flags : StreamFlags.ofBytes? (StreamFlags.bytes ⟨0⟩) = some ⟨0⟩ := rfl
  have found (rest : List UInt8) :
      let s := (pieces bytes).flatMap writeBlock ++ (0 :: rest)
      blocks (s.length + 1) ⟨0⟩ s =
        some ((pieces bytes).map (fun content => ⟨content,plainSizes content⟩),0 :: rest) := by
    have length := flatMap_writeBlock_length (pieces bytes)
    refine blocks_written _ _ rest ?_
    rw [List.length_append]
    omega
  have whole : ((pieces bytes).map
      (fun content => (⟨content,plainSizes content⟩ : Block))).flatMap (·.content) = bytes := by
    rw [List.flatMap_map,List.flatMap_id',pieces_flatten]
  have zero (rest : List UInt8) : ∃ more,
      withCheck (paddedIndex ((pieces bytes).map plainSizes)) ++ rest = 0 :: more := ⟨_,rfl⟩
  rw [encode_parts,decode,start]
  simp only [Option.bind_eq_bind,Option.bind_some,ne_eq,not_true_eq_false,if_false,own,flags]
  obtain ⟨more,same⟩ := zero _
  rw [same,found,Option.bind_some,List.map_map]
  rw [←same]
  have sizes : (Block.sizes ∘ fun content => ⟨content,plainSizes content⟩) = plainSizes := rfl
  rw [sizes,indexed]
  simp only [Option.bind_some,footed,whole]

theorem magic_encode (bytes : List UInt8) : magic.isPrefixOf (encode bytes) = true := rfl

end Xz

end TableView.Compression
