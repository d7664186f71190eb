import TableView.Compression.Bzip2
import TableView.Proofs.Compression.Bits

namespace TableView.Compression.Bzip2

theorem setBitsFrom_append (index : Nat) (flags bits : List Bool) :
    setBitsFrom index flags.length (flags ++ bits) =
      some (((flags.zipIdx index).filter (·.1)).map (·.2),bits) := by
  induction flags generalizing index with
  | nil => rfl
  | cons b flags ih =>
    rw [List.length_cons,List.cons_append,setBitsFrom,ih]
    cases b <;> rfl

theorem setBits_oneOfSixteen {i : Nat} (sixteen : i < 16) (bits : List Bool) :
    setBits 16 (oneOfSixteen i ++ bits) = some ([i],bits) := by
  have all : ∀ i < 16, (((oneOfSixteen i).zipIdx 0).filter (·.1)).map (·.2) = [i] := by decide
  have length : (oneOfSixteen i).length = 16 := by simp [oneOfSixteen]
  have read := setBitsFrom_append 0 (oneOfSixteen i) bits
  rwa [length,all i sixteen] at read

theorem usedBytes_one (b : UInt8) (bits : List Bool) :
    usedBytes (oneOfSixteen (b.toNat / 16) ++ (oneOfSixteen (b.toNat % 16) ++ bits)) =
      some ([b],bits) := by
  have byte := b.toNat_lt
  have value : (b.toNat / 16 * 16 + b.toNat % 16).toUInt8 = b := by
    rw [Nat.div_add_mod']
    exact UInt8.ofNat_toNat
  rw [usedBytes,setBits_oneOfSixteen (by omega)]
  simp only [Option.bind_eq_bind,Option.bind_some,rows]
  rw [setBits_oneOfSixteen (Nat.mod_lt _ (by decide))]
  exact congrArg (fun v => some ([v],bits)) value

def runTree : CodeTree := .node (.node (.leaf 0) (.leaf 1)) (.node (.leaf 2) .empty)

theorem codes_threeWords (bits : List Bool) :
    codes 3 2 (threeWords ++ (threeWords ++ bits)) = some ([runTree,runTree],bits) := by
  have words (more : List Bool) :
      wordLengths 3 2 ([false,false,false] ++ more) = some ([2,2,2],more) := rfl
  have tree : CodeTree.canonical 20 [2,2,2] = runTree := rfl
  simp only [codes,threeWords,List.append_assoc,Bits.takeHigh_writeHigh (show 2 < 2 ^ 5 by decide),
    Option.bind_eq_bind,Option.bind_some,words,tree]

theorem column_one {limit : Nat} (positive : 1 ≤ limit) (fuel left : Nat) (b : UInt8)
    (bits : List Bool) :
    column [runTree,runTree].toArray 2 limit (fuel + 2) (left + 2) [0]
      (false :: false :: true :: false :: bits) ⟨[b],0,1,#[]⟩ = some (#[b],bits) := by
  have fits : ¬ limit < 1 := Nat.not_lt.mpr positive
  simp [column,runTree,CodeTree.decode,Column.symbol,Column.flush,fits]

theorem unsort_one (b : UInt8) : unsort #[b] 0 = some [b] := by
  simp [unsort,follow,successors]

-- What the checksum of one byte is does not matter, as long as both sides agree on it.
theorem block_one {limit : Nat} (positive : 1 ≤ limit) (b : UInt8) (bits : List Bool) :
    block limit ((byteBlock b).drop 48 ++ bits) =
      some ([b],(Digest.blockCrc [b]).toNat,bits) := by
  have check : (Digest.blockCrc [b]).toNat < 2 ^ 32 := (Digest.blockCrc [b]).toNat_lt
  have body : (byteBlock b).drop 48 ++ bits =
      Bits.writeHigh 32 (Digest.blockCrc [b]).toNat ++ (false :: (Bits.writeHigh 24 0 ++
        (oneOfSixteen (b.toNat / 16) ++ (oneOfSixteen (b.toNat % 16) ++ (Bits.writeHigh 3 2 ++
          (Bits.writeHigh 15 1 ++ (false :: (threeWords ++ (threeWords ++
            (false :: false :: true :: false :: bits)))))))))) := by
    simp [byteBlock,List.drop_left']
  have selected (more : List Bool) :
      selectors 1 (List.range 2) (false :: more) = some ([0],more) := rfl
  have shuffled (more : List Bool) : Bits.takeHigh 1 (false :: more) = some (0,more) := rfl
  rw [body,block,Bits.takeHigh_writeHigh check]
  simp only [Option.bind_eq_bind,Option.bind_some,shuffled]
  rw [Bits.takeHigh_writeHigh (by decide)]
  simp only [Option.bind_some,usedBytes_one]
  rw [Bits.takeHigh_writeHigh (by decide)]
  simp only [Option.bind_some]
  rw [Bits.takeHigh_writeHigh (by decide)]
  simp only [Option.bind_some,selected,List.length_singleton]
  rw [codes_threeWords]
  simp only [Option.bind_some]
  rw [show groupSize * 1 + 1 = 49 + 2 from rfl,show groupSize = 48 + 2 from rfl,
    column_one positive]
  simp [unsort_one,expand]

theorem blocks_byteBlock {limit : Nat} (positive : 1 ≤ limit) (fuel all : Nat) (b : UInt8)
    (bits : List Bool) :
    blocks limit (fuel + 1) all (byteBlock b ++ bits) =
      (blocks limit fuel (combine all (Digest.blockCrc [b]).toNat) bits).map ([b] :: ·) := by
  have start : byteBlock b ++ bits =
      Bits.writeHigh 48 blockMagic ++ ((byteBlock b).drop 48 ++ bits) := by
    simp [byteBlock,List.drop_left']
  rw [start,blocks,Bits.takeHigh_writeHigh (by decide)]
  simp only [Option.bind_eq_bind,Option.bind_some,block_one positive]
  rw [if_pos trivial]
  cases blocks limit fuel (combine all (Digest.blockCrc [b]).toNat) bits <;> rfl

theorem combine_limit {all check : Nat} (first : all < 2 ^ 32) (second : check < 2 ^ 32) :
    combine all check < 2 ^ 32 := by
  apply Nat.xor_lt_two_pow _ second
  omega

theorem blocks_encode {limit : Nat} (positive : 1 ≤ limit) (fuel all : Nat) (bytes : List UInt8)
    (rest : List Bool) (enough : bytes.length < fuel) (start : all < 2 ^ 32) :
    blocks limit fuel all (bytes.flatMap byteBlock ++ (Bits.writeHigh 48 endMagic ++
      (Bits.writeHigh 32
        (bytes.foldl (fun all b => combine all (Digest.blockCrc [b]).toNat) all) ++ rest))) =
      some (bytes.map (fun b => [b])) := by
  induction bytes generalizing fuel all with
  | nil =>
    obtain ⟨fuel,rfl⟩ : ∃ n, fuel = n + 1 := Nat.exists_eq_succ_of_ne_zero (by omega)
    rw [List.flatMap_nil,List.nil_append,blocks,Bits.takeHigh_writeHigh (by decide)]
    have other : endMagic ≠ blockMagic := by decide
    simp only [Option.bind_eq_bind,Option.bind_some,other,if_false,if_true,List.foldl_nil]
    rw [Bits.takeHigh_writeHigh start]
    simp
  | cons b bytes ih =>
    obtain ⟨fuel,rfl⟩ : ∃ n, fuel = n + 1 := Nat.exists_eq_succ_of_ne_zero (by omega)
    rw [List.flatMap_cons,List.append_assoc,blocks_byteBlock positive,List.foldl_cons,
      ih fuel _ (Nat.lt_of_succ_lt_succ enough)
        (combine_limit start (Digest.blockCrc [b]).toNat_lt)]
    rfl

theorem flatMap_byteBlock_length (bytes : List UInt8) :
    8 * bytes.length ≤ (bytes.flatMap byteBlock).length := by
  induction bytes with
  | nil => exact Nat.le_refl _
  | cons b bytes ih =>
    simp only [List.flatMap_cons,List.length_append,List.length_cons,byteBlock,
      Bits.writeHigh_length]
    omega

theorem ofBytesHigh_length (bytes : List UInt8) :
    (Bits.ofBytesHigh bytes).length = 8 * bytes.length := by
  induction bytes with
  | nil => rfl
  | cons b rest ih =>
    rw [Bits.ofBytesHigh,List.flatMap_cons,List.length_append]
    change 8 + (Bits.ofBytesHigh rest).length = _
    rw [ih,List.length_cons]
    omega

theorem decode_encode (bytes : List UInt8) : decode (encode bytes) = some bytes := by
  obtain ⟨n,filled⟩ := Bits.ofBytesHigh_toBytesHigh (bytes.flatMap byteBlock ++
    Bits.writeHigh 48 endMagic ++ Bits.writeHigh 32 (combined bytes))
  have taken : Bits.takeBytes 3 (encode bytes) = some (magic,57 :: (encode bytes).drop 4) :=
    Bits.takeBytes_append (show magic.length = 3 from rfl) _
  have level (more : List UInt8) : Bits.takeLittle 1 (57 :: more) = some (57,more) := rfl
  have body : (encode bytes).drop 4 = Bits.toBytesHigh (bytes.flatMap byteBlock ++
    Bits.writeHigh 48 endMagic ++ Bits.writeHigh 32 (combined bytes)) := rfl
  have enough : bytes.length < (encode bytes).length + 1 := by
    have bits := flatMap_byteBlock_length bytes
    have sizes := congrArg List.length filled
    rw [ofBytesHigh_length,←body,List.length_drop] at sizes
    simp only [List.length_append] at sizes
    omega
  rw [decode,taken]
  simp only [Option.bind_eq_bind,Option.bind_some,level]
  rw [body,filled,List.append_assoc,List.append_assoc,List.append_assoc,combined,
    blocks_encode (by decide) _ 0 bytes _ enough (by decide)]
  simp [←List.flatMap_def]

theorem magic_encode (bytes : List UInt8) : magic.isPrefixOf (encode bytes) = true := rfl

end TableView.Compression.Bzip2
