import TableView.Compression.Gzip
import TableView.Proofs.Compression.Bits

namespace TableView.Compression

namespace Deflate

theorem takeBytes_ofBytesLow (bytes rest : List UInt8) (out : Array UInt8) :
    takeBytes bytes.length (Bits.ofBytesLow (bytes ++ rest)) out =
      some (Bits.ofBytesLow rest,out ++ bytes.toArray) := by
  induction bytes generalizing out with
  | nil => simp [takeBytes]
  | cons b bytes ih =>
    have byte : Bits.lowFirst b = Bits.writeLow 8 b.toNat := by
      rw [←Bits.lowFirst_toUInt8]
      exact congrArg Bits.lowFirst UInt8.ofNat_toNat.symm
    have value : b.toNat % 2 ^ 8 = b.toNat := Nat.mod_eq_of_lt b.toNat_lt
    have back : b.toNat.toUInt8 = b := UInt8.ofNat_toNat
    have front : Bits.ofBytesLow (b :: bytes ++ rest) =
        Bits.writeLow 8 b.toNat ++ Bits.ofBytesLow (bytes ++ rest) := by rw [←byte]; rfl
    rw [front,List.length_cons,takeBytes,Bits.takeLow_writeLow,value]
    simp only [Option.bind_eq_bind,Option.bind_some,back,ih]
    simp

-- The bits of a block kind are followed by a byte boundary.
theorem stored_storedBlock (bits : List Bool) (bytes rest : List UInt8) (out : Array UInt8)
    (five : bits.length = 5) (short : bytes.length ≤ storedLimit) :
    stored (bits ++ Bits.ofBytesLow (Bits.littleEndian 2 bytes.length ++
      Bits.littleEndian 2 (65535 - bytes.length) ++ bytes ++ rest)) out =
      some (Bits.ofBytesLow rest,out ++ bytes.toArray) := by
  have aligned (more : List UInt8) :
      Bits.align (bits ++ Bits.ofBytesLow more) = Bits.ofBytesLow more := by
    have boundary : (bits ++ Bits.ofBytesLow more).length % 8 = 5 := by
      rw [List.length_append,Bits.ofBytesLow_length,five]; omega
    rw [Bits.align,boundary,←five,List.drop_left]
  have size : bytes.length < 2 ^ (8 * 2) := Nat.lt_succ_of_le short
  have inverse : 65535 - bytes.length < 2 ^ (8 * 2) := by omega
  have sum : bytes.length + (65535 - bytes.length) = 65535 := Nat.add_sub_of_le short
  unfold stored
  rw [aligned,List.append_assoc,List.append_assoc]
  have first := Bits.takeLow_littleEndian size
    (Bits.littleEndian 2 (65535 - bytes.length) ++ (bytes ++ rest))
  have second := Bits.takeLow_littleEndian inverse (bytes ++ rest)
  rw [show 8 * 2 = 16 from rfl] at first second
  rw [first]
  simp only [Option.bind_eq_bind,Option.bind_some,second]
  rw [if_pos sum]
  exact takeBytes_ofBytesLow bytes rest out

theorem blocks_storedBlock (fuel : Nat) (last : Bool) (bytes rest : List UInt8)
    (out : Array UInt8) (short : bytes.length ≤ storedLimit) :
    blocks (fuel + 1) (Bits.ofBytesLow (storedBlock last bytes ++ rest)) out =
      if last then some (Bits.ofBytesLow rest,out ++ bytes.toArray)
      else blocks fuel (Bits.ofBytesLow rest) (out ++ bytes.toArray) := by
  have body := stored_storedBlock [false,false,false,false,false] bytes rest out rfl short
  cases last
  all_goals
    rw [blocks]
    simp only [storedBlock,List.cons_append,Bits.ofBytesLow,List.flatMap_cons] at body ⊢
    simp [Bits.lowFirst,Bits.bit,Bits.takeLow,block] at body ⊢
    simp only [body,Option.bind_some]

theorem storedBlock_length (last : Bool) (bytes : List UInt8) :
    (storedBlock last bytes).length = bytes.length + 5 := by
  simp [storedBlock]; omega

theorem blocks_encode (fuel : Nat) (bytes rest : List UInt8) (out : Array UInt8)
    (enough : bytes.length < fuel) :
    blocks fuel (Bits.ofBytesLow (encode bytes ++ rest)) out =
      some (Bits.ofBytesLow rest,out ++ bytes.toArray) := by
  induction fuel generalizing bytes out with
  | zero => cases Nat.not_lt_zero _ enough
  | succ fuel ih =>
    rw [encode]
    split
    · rename_i short
      rw [blocks_storedBlock fuel true bytes rest out short,if_pos rfl]
    · rename_i long
      have short : (bytes.take storedLimit).length ≤ storedLimit := List.length_take_le ..
      have less : (bytes.drop storedLimit).length < fuel := by
        rw [List.length_drop]; simp only [storedLimit] at long ⊢; omega
      rw [List.append_assoc,blocks_storedBlock fuel false _ _ out short,if_neg (by simp),
        ih _ _ less]
      simp

theorem encode_length (bytes : List UInt8) : bytes.length < (encode bytes).length := by
  induction bytes using encode.induct with
  | case1 bytes short =>
    rw [encode,if_pos short,storedBlock_length]; omega
  | case2 bytes long ih =>
    rw [encode,if_neg long,List.length_append,storedBlock_length]
    rw [List.length_drop] at ih
    rw [List.length_take]
    omega

theorem decode_encode (bytes rest : List UInt8) :
    decode (Bits.ofBytesLow (encode bytes ++ rest)) = some (bytes,Bits.ofBytesLow rest) := by
  have enough := encode_length bytes
  rw [decode,blocks_encode _ bytes rest #[]]
  · simp
  · rw [Bits.ofBytesLow_length,List.length_append]; omega

end Deflate

namespace Gzip

theorem dropHeader_header (bytes : List UInt8) : dropHeader (header ++ bytes) = some bytes := by
  have taken : Bits.takeBytes 10 (header ++ bytes) = some (header,bytes) :=
    Bits.takeBytes_append (show header.length = 10 from rfl) bytes
  rw [dropHeader,taken]
  rfl

theorem decode_encode (bytes : List UInt8) : decode (encode bytes) = some bytes := by
  have check : (Digest.crc32 bytes).toNat < 2 ^ (8 * 4) := (Digest.crc32 bytes).toNat_lt
  have size : bytes.length % 2 ^ 32 < 2 ^ (8 * 4) := Nat.mod_lt _ (by decide)
  have aligned (more : List UInt8) : Bits.align (Bits.ofBytesLow more) = Bits.ofBytesLow more := by
    rw [Bits.align,Bits.ofBytesLow_length,Nat.mul_mod_right,List.drop_zero]
  have first := Bits.takeLow_littleEndian check (Bits.littleEndian 4 (bytes.length % 2 ^ 32))
  have second := Bits.takeLow_littleEndian size []
  rw [List.append_nil] at second
  rw [decode,encode,List.append_assoc,List.append_assoc,dropHeader_header]
  simp only [Option.bind_eq_bind,Option.bind_some,Deflate.decode_encode,aligned]
  rw [first]
  simp only [Option.bind_some]
  rw [second]
  simp

theorem magic_encode (bytes : List UInt8) : magic.isPrefixOf (encode bytes) = true := rfl

end Gzip

end TableView.Compression
