import TableView.Compression.Zstd.Frame
import TableView.Proofs.Compression.Bits

namespace TableView.Compression.Zstd

theorem blocks_rawBlock (fuel : Nat) (last : Bool) (c : Context) (bytes rest : List UInt8)
    (short : bytes.length ≤ blockLimit) :
    blocks blockLimit (fuel + 1) c (rawBlock last bytes ++ rest) =
      if last then some (c.output ++ bytes.toArray,rest)
      else blocks blockLimit fuel { c with output := c.output ++ bytes.toArray } rest := by
  obtain ⟨flag,flagged⟩ : ∃ flag, flag = if last then 1 else 0 := ⟨_,rfl⟩
  have bit : flag ≤ 1 := by rw [flagged]; cases last <;> decide
  have limit : bytes.length ≤ 131072 := short
  have small : bytes.length * 8 + flag < 256 ^ 3 := by omega
  have kind : (bytes.length * 8 + flag) / 2 % 4 = 0 := by omega
  have size : (bytes.length * 8 + flag) / 8 = bytes.length := by omega
  have mark : (bytes.length * 8 + flag) % 2 = flag := by omega
  rw [blocks,rawBlock,←flagged,List.append_assoc,Bits.takeLittle_littleEndian small]
  simp only [Option.bind_eq_bind,Option.bind_some,kind,size,mark,block,
    if_neg (Nat.not_lt.mpr short),Bits.takeBytes_append rfl]
  subst flagged
  cases last <;> rfl

theorem blocks_rawBlocks (fuel : Nat) (c : Context) (bytes : List UInt8)
    (enough : bytes.length < fuel) :
    blocks blockLimit fuel c (rawBlocks bytes) = some (c.output ++ bytes.toArray,[]) := by
  induction fuel generalizing c bytes with
  | zero => cases Nat.not_lt_zero _ enough
  | succ fuel ih =>
    rw [rawBlocks]
    split
    · rename_i short
      have read := blocks_rawBlock fuel true c bytes [] short
      rwa [List.append_nil,if_pos rfl] at read
    · rename_i long
      have short : (bytes.take blockLimit).length ≤ blockLimit := List.length_take_le ..
      have less : (bytes.drop blockLimit).length < fuel := by
        rw [List.length_drop]; simp only [blockLimit] at long ⊢; omega
      rw [blocks_rawBlock fuel false c _ _ short,if_neg (by simp),ih _ _ less]
      simp

theorem rawBlocks_length (bytes : List UInt8) : bytes.length < (rawBlocks bytes).length := by
  induction bytes using rawBlocks.induct with
  | case1 bytes short =>
    rw [rawBlocks,if_pos short,rawBlock]
    simp
  | case2 bytes long ih =>
    rw [rawBlocks,if_neg long,List.length_append,rawBlock]
    rw [List.length_drop] at ih
    simp only [List.length_append,Bits.littleEndian_length,List.length_take]
    omega

theorem frameHeader_written (bytes : List UInt8) :
    frameHeader (0 :: 0x38 :: bytes) = some (⟨blockLimit,none,false⟩,bytes) := rfl

theorem frame_rawBlocks (bytes : List UInt8) :
    frame (0 :: 0x38 :: rawBlocks bytes) = some (bytes,[]) := by
  have enough := rawBlocks_length bytes
  rw [frame,frameHeader_written]
  simp only [Option.bind_eq_bind,Option.bind_some,Nat.min_self]
  rw [blocks_rawBlocks _ _ _ (by omega)]
  simp [Context.start]

theorem decode_encode (bytes : List UInt8) : decode (encode bytes) = some bytes := by
  have taken : Bits.takeBytes 4 (encode bytes) = some (magic,0 :: 0x38 :: rawBlocks bytes) :=
    Bits.takeBytes_append (show magic.length = 4 from rfl) _
  have nonempty : encode bytes ≠ [] := List.cons_ne_nil _ _
  rw [decode,frames,taken]
  · simp [frame_rawBlocks,frames]
  · exact nonempty

theorem magic_encode (bytes : List UInt8) : magic.isPrefixOf (encode bytes) = true := rfl

end TableView.Compression.Zstd
