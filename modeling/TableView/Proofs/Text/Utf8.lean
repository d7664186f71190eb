import TableView.Text.Utf8

namespace TableView.Text.Utf8

theorem char_limit (c : Char) : c.toNat < 0x110000 := by
  rcases c.valid with low | ⟨_,high⟩
  · exact Nat.lt_trans low (by decide)
  · exact high

theorem char_gap (c : Char) : c.toNat < 0xD800 ∨ 0xE000 ≤ c.toNat := by
  rcases c.valid with low | ⟨high,_⟩
  · exact Or.inl low
  · exact Or.inr high

theorem toNat_toUInt8 {n : Nat} (small : n < 256) : n.toUInt8.toNat = n :=
  Nat.mod_eq_of_lt small

section Comparisons
variable {b : Nat} (small : b < 256)
include small

theorem toUInt8_le (bound : UInt8) : b.toUInt8 ≤ bound ↔ b ≤ bound.toNat := by
  rw [UInt8.le_iff_toNat_le,toNat_toUInt8 small]

theorem le_toUInt8 (bound : UInt8) : bound ≤ b.toUInt8 ↔ bound.toNat ≤ b := by
  rw [UInt8.le_iff_toNat_le,toNat_toUInt8 small]

theorem toUInt8_lt (bound : UInt8) : b.toUInt8 < bound ↔ b < bound.toNat := by
  rw [UInt8.lt_iff_toNat_lt,toNat_toUInt8 small]

theorem toUInt8_beq (value : UInt8) : (b.toUInt8 == value) = (b == value.toNat) := by
  rw [Bool.eq_iff_iff,beq_iff_eq,beq_iff_eq,←UInt8.toNat_inj,toNat_toUInt8 small]

end Comparisons

theorem isTail_iff {b : Nat} (small : b < 256) :
    isTail b.toUInt8 = true ↔ 128 ≤ b ∧ b < 192 := by
  simp only [isTail,Bool.and_eq_true,decide_eq_true_eq,le_toUInt8 small,toUInt8_le small]
  exact and_congr Iff.rfl Nat.lt_succ_iff.symm

theorem low_toUInt8 {b : Nat} (small : b < 256) : low b.toUInt8 = b % 64 := by
  rw [low,toNat_toUInt8 small]

variable {n : Nat} (rest : List UInt8)

theorem decodeFront_one (bound : n < 0x80) :
    decodeFront n.toUInt8 rest = .char (Char.ofNat n) rest := by
  have small : n < 256 := by omega
  rw [decodeFront,if_pos ((toUInt8_lt small 0x80).mpr bound),toNat_toUInt8 small]

theorem decodeFront_two (least : 0x80 ≤ n) (bound : n < 0x800) :
    decodeFront (0xC0 + n / 64).toUInt8 ((0x80 + n % 64).toUInt8 :: rest) =
      .char (Char.ofNat n) rest := by
  have first : 0xC0 + n / 64 < 256 := by omega
  have second : 0x80 + n % 64 < 256 := by omega
  have tail : isTail (0x80 + n % 64).toUInt8 = true := (isTail_iff second).mpr (by omega)
  have value : (0xC0 + n / 64) % 32 * 64 + (0x80 + n % 64) % 64 = n := by omega
  simp only [decodeFront,decodeTwo,toUInt8_lt first,le_toUInt8 first,toUInt8_le first,tail,
    toNat_toUInt8 first,low_toUInt8 second,value]
  rw [if_neg (by simp; omega),if_pos (by simp; omega),if_pos trivial]

theorem decodeFront_three (least : 0x800 ≤ n) (bound : n < 0x10000)
    (gap : n < 0xD800 ∨ 0xE000 ≤ n) :
    decodeFront (0xE0 + n / 4096).toUInt8
      ((0x80 + n / 64 % 64).toUInt8 :: (0x80 + n % 64).toUInt8 :: rest) =
      .char (Char.ofNat n) rest := by
  have first : 0xE0 + n / 4096 < 256 := by omega
  have second : 0x80 + n / 64 % 64 < 256 := by omega
  have third : 0x80 + n % 64 < 256 := by omega
  have allowed : secondOfThree (0xE0 + n / 4096).toUInt8 (0x80 + n / 64 % 64).toUInt8 = true := by
    simp only [secondOfThree,toUInt8_beq first,le_toUInt8 second,toUInt8_le second]
    split
    · simp_all; omega
    · split
      · simp_all; omega
      · exact (isTail_iff second).mpr (by omega)
  have tail : isTail (0x80 + n % 64).toUInt8 = true := (isTail_iff third).mpr (by omega)
  have value : (0xE0 + n / 4096) % 16 * 4096 + (0x80 + n / 64 % 64) % 64 * 64 +
      (0x80 + n % 64) % 64 = n := by omega
  simp only [decodeFront,decodeThree,toUInt8_lt first,le_toUInt8 first,toUInt8_le first,tail,
    allowed,toNat_toUInt8 first,low_toUInt8 second,low_toUInt8 third,value]
  rw [if_neg (by simp; omega),if_neg (by simp; omega),if_pos (by simp; omega)]
  rfl

theorem decodeFront_four (least : 0x10000 ≤ n) (bound : n < 0x110000) :
    decodeFront (0xF0 + n / 262144).toUInt8
      ((0x80 + n / 4096 % 64).toUInt8 :: (0x80 + n / 64 % 64).toUInt8 ::
        (0x80 + n % 64).toUInt8 :: rest) = .char (Char.ofNat n) rest := by
  have first : 0xF0 + n / 262144 < 256 := by omega
  have second : 0x80 + n / 4096 % 64 < 256 := by omega
  have third : 0x80 + n / 64 % 64 < 256 := by omega
  have fourth : 0x80 + n % 64 < 256 := by omega
  have allowed : secondOfFour (0xF0 + n / 262144).toUInt8 (0x80 + n / 4096 % 64).toUInt8 =
      true := by
    simp only [secondOfFour,toUInt8_beq first,le_toUInt8 second,toUInt8_le second]
    split
    · simp_all; omega
    · split
      · simp_all; omega
      · exact (isTail_iff second).mpr (by omega)
  have tail : isTail (0x80 + n / 64 % 64).toUInt8 = true := (isTail_iff third).mpr (by omega)
  have last : isTail (0x80 + n % 64).toUInt8 = true := (isTail_iff fourth).mpr (by omega)
  have value : (0xF0 + n / 262144) % 8 * 262144 + (0x80 + n / 4096 % 64) % 64 * 4096 +
      (0x80 + n / 64 % 64) % 64 * 64 + (0x80 + n % 64) % 64 = n := by omega
  simp only [decodeFront,decodeFour,toUInt8_lt first,le_toUInt8 first,toUInt8_le first,tail,last,
    allowed,toNat_toUInt8 first,low_toUInt8 second,low_toUInt8 third,low_toUInt8 fourth,value]
  rw [if_neg (by simp; omega),if_neg (by simp; omega),if_neg (by simp; omega),
    if_pos (by simp; omega)]
  rfl

theorem decodeFront_encodeChar (c : Char) (rest : List UInt8) :
    ∃ a tail, encodeChar c = a :: tail ∧ decodeFront a (tail ++ rest) = .char c rest := by
  have limit := char_limit c
  have gap := char_gap c
  have back : Char.ofNat c.toNat = c := Char.ofNat_toNat c
  unfold encodeChar
  generalize c.toNat = n at limit gap back
  subst back
  dsimp only
  split
  · rename_i one
    exact ⟨_,_,rfl,decodeFront_one rest one⟩
  · split
    · rename_i many two
      exact ⟨_,_,rfl,decodeFront_two rest (by omega) two⟩
    · split
      · rename_i many three
        exact ⟨_,_,rfl,decodeFront_three rest (by omega) three gap⟩
      · exact ⟨_,_,rfl,decodeFront_four rest (by omega) limit⟩

theorem decodeFrom_encode (position : Nat) (read cs : List Char) :
    decodeFrom position read (encode cs) = .ok (read.reverse ++ cs) := by
  induction cs generalizing position read with
  | nil => simp [encode,decodeFrom]
  | cons c cs ih =>
    obtain ⟨a,tail,bytes,front⟩ := decodeFront_encodeChar c (encode cs)
    have first : encode (c :: cs) = encodeChar c ++ encode cs := List.flatMap_cons
    rw [first,bytes,List.cons_append,decodeFrom]
    split
    · rename_i d after equal
      rw [front,Step.char.injEq] at equal
      obtain ⟨rfl,rfl⟩ := equal
      rw [ih]
      simp
    · rename_i taken equal
      rw [front] at equal
      cases equal

theorem decode_encode (cs : List Char) : decode (encode cs) = .ok cs := by
  rw [decode,decodeFrom_encode]
  rfl

theorem toString?_ofString (s : String) : toString? (ofString s) = .ok s := by
  rw [toString?,ofString,decode_encode]
  simp [Except.map]

theorem toUInt8_toNat (b : UInt8) : b.toNat.toUInt8 = b := UInt8.ofNat_toNat

theorem toNat_ofNat {n : Nat} (valid : n < 0xD800 ∨ 0xE000 ≤ n ∧ n < 0x110000) :
    (Char.ofNat n).toNat = n := by
  have proper : n.isValidChar := by
    rcases valid with low | ⟨least,bound⟩
    · exact Or.inl low
    · exact Or.inr ⟨by omega,bound⟩
  rw [Char.ofNat,dif_pos proper]
  rfl

theorem byte_eq {b : UInt8} {n : Nat} (same : n = b.toNat) : n.toUInt8 = b := by
  rw [same,toUInt8_toNat]

theorem encodeChar_decodeTwo {a b : UInt8} (first : 0xC2 ≤ a.toNat ∧ a.toNat ≤ 0xDF)
    (second : 0x80 ≤ b.toNat ∧ b.toNat ≤ 0xBF) :
    encodeChar (Char.ofNat (a.toNat % 32 * 64 + low b)) = [a,b] := by
  rw [low,encodeChar,toNat_ofNat (by omega)]
  rw [if_neg (by omega),if_pos (by omega),byte_eq (show _ = a.toNat by omega),
    byte_eq (show _ = b.toNat by omega)]

theorem encodeChar_decodeThree {a b c : UInt8} (first : 0xE0 ≤ a.toNat ∧ a.toNat ≤ 0xEF)
    (second : 0x80 ≤ b.toNat ∧ b.toNat ≤ 0xBF) (third : 0x80 ≤ c.toNat ∧ c.toNat ≤ 0xBF)
    (overlong : a.toNat = 0xE0 → 0xA0 ≤ b.toNat) (surrogate : a.toNat = 0xED → b.toNat ≤ 0x9F) :
    encodeChar (Char.ofNat (a.toNat % 16 * 4096 + low b * 64 + low c)) = [a,b,c] := by
  rw [low,low,encodeChar,toNat_ofNat (by omega)]
  rw [if_neg (by omega),if_neg (by omega),if_pos (by omega),
    byte_eq (show _ = a.toNat by omega),byte_eq (show _ = b.toNat by omega),
    byte_eq (show _ = c.toNat by omega)]

theorem encodeChar_decodeFour {a b c d : UInt8} (first : 0xF0 ≤ a.toNat ∧ a.toNat ≤ 0xF4)
    (second : 0x80 ≤ b.toNat ∧ b.toNat ≤ 0xBF) (third : 0x80 ≤ c.toNat ∧ c.toNat ≤ 0xBF)
    (fourth : 0x80 ≤ d.toNat ∧ d.toNat ≤ 0xBF)
    (overlong : a.toNat = 0xF0 → 0x90 ≤ b.toNat) (beyond : a.toNat = 0xF4 → b.toNat ≤ 0x8F) :
    encodeChar (Char.ofNat (a.toNat % 8 * 262144 + low b * 4096 + low c * 64 + low d)) =
      [a,b,c,d] := by
  rw [low,low,low,encodeChar,toNat_ofNat (by omega)]
  rw [if_neg (by omega),if_neg (by omega),if_neg (by omega),
    byte_eq (show _ = a.toNat by omega),byte_eq (show _ = b.toNat by omega),
    byte_eq (show _ = c.toNat by omega),byte_eq (show _ = d.toNat by omega)]

theorem byte_between {least b greatest : UInt8}
    (inside : (decide (least ≤ b) && decide (b ≤ greatest)) = true) :
    least.toNat ≤ b.toNat ∧ b.toNat ≤ greatest.toNat := by
  rw [Bool.and_eq_true,decide_eq_true_eq,decide_eq_true_eq] at inside
  exact ⟨UInt8.le_iff_toNat_le.mp inside.1,UInt8.le_iff_toNat_le.mp inside.2⟩

theorem byte_ne {a value : UInt8} (differ : ¬(a == value) = true) : a.toNat ≠ value.toNat :=
  fun same => differ (beq_iff_eq.mpr (UInt8.toNat_inj.mp same))

theorem isTail_range {b : UInt8} (tail : isTail b = true) : 0x80 ≤ b.toNat ∧ b.toNat ≤ 0xBF :=
  byte_between tail

theorem secondOfThree_range {a b : UInt8} (allowed : secondOfThree a b = true) :
    (0x80 ≤ b.toNat ∧ b.toNat ≤ 0xBF) ∧ (a.toNat = 0xE0 → 0xA0 ≤ b.toNat) ∧
      (a.toNat = 0xED → b.toNat ≤ 0x9F) := by
  rw [secondOfThree] at allowed
  split at allowed
  · rename_i first
    obtain rfl := beq_iff_eq.mp first
    have inside : 0xA0 ≤ b.toNat ∧ b.toNat ≤ 0xBF := byte_between allowed
    exact ⟨by omega,fun _ => inside.1,fun other => absurd other (by decide)⟩
  split at allowed
  · rename_i first
    obtain rfl := beq_iff_eq.mp first
    have inside : 0x80 ≤ b.toNat ∧ b.toNat ≤ 0x9F := byte_between allowed
    exact ⟨by omega,fun other => absurd other (by decide),fun _ => inside.2⟩
  · rename_i least surrogate
    exact ⟨isTail_range allowed,fun same => absurd same (byte_ne least),
      fun same => absurd same (byte_ne surrogate)⟩

theorem secondOfFour_range {a b : UInt8} (allowed : secondOfFour a b = true) :
    (0x80 ≤ b.toNat ∧ b.toNat ≤ 0xBF) ∧ (a.toNat = 0xF0 → 0x90 ≤ b.toNat) ∧
      (a.toNat = 0xF4 → b.toNat ≤ 0x8F) := by
  rw [secondOfFour] at allowed
  split at allowed
  · rename_i first
    obtain rfl := beq_iff_eq.mp first
    have inside : 0x90 ≤ b.toNat ∧ b.toNat ≤ 0xBF := byte_between allowed
    exact ⟨by omega,fun _ => inside.1,fun other => absurd other (by decide)⟩
  split at allowed
  · rename_i first
    obtain rfl := beq_iff_eq.mp first
    have inside : 0x80 ≤ b.toNat ∧ b.toNat ≤ 0x8F := byte_between allowed
    exact ⟨by omega,fun other => absurd other (by decide),fun _ => inside.2⟩
  · rename_i least greatest
    exact ⟨isTail_range allowed,fun same => absurd same (byte_ne least),
      fun same => absurd same (byte_ne greatest)⟩

theorem encodeChar_two {a : UInt8} (first : 0xC2 ≤ a.toNat ∧ a.toNat ≤ 0xDF)
    {rest after : List UInt8} {c : Char} (read : decodeTwo a rest = .char c after) :
    encodeChar c ++ after = a :: rest := by
  cases rest with
  | nil => cases read
  | cons b rest =>
    rw [decodeTwo] at read
    split at read
    · rename_i tail
      cases read
      rw [encodeChar_decodeTwo first (isTail_range tail)]
      rfl
    · cases read

theorem encodeChar_three {a : UInt8} (first : 0xE0 ≤ a.toNat ∧ a.toNat ≤ 0xEF)
    {rest after : List UInt8} {c : Char} (read : decodeThree a rest = .char c after) :
    encodeChar c ++ after = a :: rest := by
  unfold decodeThree at read
  split at read
  · cases read
  · split at read <;> cases read
  · split at read
    · cases read
    split at read
    · cases read
    · rename_i b d rest allowed tail
      cases read
      obtain ⟨second,overlong,surrogate⟩ := secondOfThree_range (by simpa using allowed)
      rw [encodeChar_decodeThree first second (isTail_range (by simpa using tail)) overlong
        surrogate]
      rfl

theorem encodeChar_four {a : UInt8} (first : 0xF0 ≤ a.toNat ∧ a.toNat ≤ 0xF4)
    {rest after : List UInt8} {c : Char} (read : decodeFour a rest = .char c after) :
    encodeChar c ++ after = a :: rest := by
  unfold decodeFour at read
  split at read
  · cases read
  · split at read <;> cases read
  · split at read
    · cases read
    split at read <;> cases read
  · split at read
    · cases read
    split at read
    · cases read
    split at read
    · cases read
    · rename_i b d e rest allowed tail last
      cases read
      obtain ⟨second,overlong,beyond⟩ := secondOfFour_range (by simpa using allowed)
      rw [encodeChar_decodeFour first second (isTail_range (by simpa using tail))
        (isTail_range (by simpa using last)) overlong beyond]
      rfl

theorem encodeChar_decodeFront {a : UInt8} {rest after : List UInt8} {c : Char}
    (read : decodeFront a rest = .char c after) : encodeChar c ++ after = a :: rest := by
  rw [decodeFront] at read
  split at read
  · rename_i ascii
    cases read
    have small : a.toNat < 0x80 := UInt8.lt_iff_toNat_lt.mp ascii
    rw [encodeChar,toNat_ofNat (by omega),if_pos small,toUInt8_toNat]
    rfl
  split at read
  · rename_i first
    exact encodeChar_two (byte_between first) read
  split at read
  · rename_i first
    exact encodeChar_three (byte_between first) read
  split at read
  · rename_i first
    exact encodeChar_four (byte_between first) read
  · cases read

theorem encode_decodeFrom {position : Nat} {read cs : List Char} {bytes : List UInt8}
    (decoded : decodeFrom position read bytes = .ok cs) :
    ∃ behind, cs = read.reverse ++ behind ∧ encode behind = bytes := by
  induction position,read,bytes using decodeFrom.induct with
  | case1 position read =>
    rw [decodeFrom] at decoded
    cases decoded
    exact ⟨[],(List.append_nil _).symm,rfl⟩
  | case2 position read a rest c after front shorter ih =>
    rw [decodeFrom] at decoded
    split at decoded
    · rename_i d later same
      rw [front,Step.char.injEq] at same
      obtain ⟨rfl,rfl⟩ := same
      obtain ⟨behind,rfl,bytes⟩ := ih decoded
      refine ⟨c :: behind,by simp,?_⟩
      have first : encode (c :: behind) = encodeChar c ++ encode behind := List.flatMap_cons
      rw [first,bytes]
      exact encodeChar_decodeFront front
    · cases decoded
  | case3 position read a rest taken broken =>
    rw [decodeFrom] at decoded
    split at decoded
    · rename_i same
      rw [broken] at same
      cases same
    · cases decoded

theorem toString?_iff {bytes : List UInt8} {s : String} :
    toString? bytes = .ok s ↔ ofString s = bytes := by
  constructor
  · intro read
    cases decoded : decode bytes with
    | error f =>
      rw [toString?,decoded] at read
      cases read
    | ok cs =>
      rw [toString?,decoded] at read
      obtain ⟨behind,rfl,encoded⟩ := encode_decodeFrom decoded
      cases read
      rw [ofString,String.toList_ofList]
      exact encoded
  · rintro rfl
    exact toString?_ofString s

theorem encode_injective : Function.Injective encode := by
  intro cs ds same
  have read := decode_encode cs
  rw [same,decode_encode] at read
  exact (Except.ok.inj read).symm

theorem ofString_injective : Function.Injective ofString :=
  fun _ _ same => String.toList_inj.mp (encode_injective same)

end TableView.Text.Utf8
