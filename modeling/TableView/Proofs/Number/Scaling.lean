import TableView.Proofs.Number.Rounding

namespace TableView.Number.Binary64

theorem mul?_le {x y b : Binary64} (valid : b.Valid) (within : x.size * y.size ≤ b.size) :
    ∃ z, x.mul? y = some z ∧ z.Valid ∧ z.size ≤ b.size := by
  refine ofRatio?_le _ valid (Nat.mul_pos x.ratio_positive y.ratio_positive) ?_
  push_cast
  rwa [mul_div_mul_comm,ratio_size,ratio_size]

theorem div?_le {x y b : Binary64} (valid : b.Valid) (divisor : 0 < y.ratio.1)
    (within : x.size / y.size ≤ b.size) :
    ∃ z, x.div? y = some z ∧ z.Valid ∧ z.size ≤ b.size := by
  refine ofRatio?_le _ valid (Nat.mul_pos x.ratio_positive divisor) ?_
  rw [←ratio_size x,←ratio_size y,div_div_div_eq] at within
  exact_mod_cast within

theorem div?_valid {x y z : Binary64} (divisor : 0 < y.ratio.1) (given : x.div? y = some z) :
    z.Valid := ofRatio?_valid (Nat.mul_pos x.ratio_positive divisor) given

theorem mul?_valid {x y z : Binary64} (given : x.mul? y = some z) : z.Valid :=
  ofRatio?_valid (Nat.mul_pos x.ratio_positive y.ratio_positive) given

theorem powerOfTen?_given {k : Nat} (small : k ≤ 308) :
    ∃ p, powerOfTen? k = some p ∧ p.ratio.2 ≤ p.ratio.1 := by
  have all : ∀ k ≤ 308, (powerOfTen? k).any (fun p => p.ratio.2 ≤ p.ratio.1) = true := by
    decide +kernel
  obtain ⟨p,given,whole⟩ := (Option.any_eq_true _ _).mp (all k small)
  exact ⟨p,given,of_decide_eq_true whole⟩

theorem powerOfTen?_size {k : Nat} {p : Binary64} (given : powerOfTen? k = some p) :
    0 < p.ratio.1 ∧ 1 ≤ p.size := by
  have small : k ≤ 308 := by
    by_contra large
    rw [powerOfTen?,if_neg large] at given
    cases given
  obtain ⟨q,same,whole⟩ := powerOfTen?_given small
  cases given.symm.trans same
  have positive := p.ratio_positive
  refine ⟨positive.trans_le whole,?_⟩
  rw [←ratio_size,one_le_div (by exact_mod_cast positive)]
  exact_mod_cast whole

theorem div_size_le {x p : Binary64} (above : 1 ≤ p.size) : x.size / p.size ≤ x.size :=
  div_le_self (mul_nonneg (Nat.cast_nonneg _) (two_zpow_pos _).le) above

theorem scaleByTen?_down {b : Binary64} (valid : b.Valid) {x : Binary64}
    (within : x.size ≤ b.size) {exponent : Int} (down : exponent < 0) :
    ∃ y, x.scaleByTen? exponent = some y := by
  induction x,exponent using scaleByTen?.induct with
  | case1 x exponent near =>
    obtain ⟨p,power,_⟩ := powerOfTen?_given near
    obtain ⟨positive,above⟩ := powerOfTen?_size power
    obtain ⟨y,given,_⟩ := div?_le valid positive ((div_size_le above).trans within)
    refine ⟨y,?_⟩
    rw [scaleByTen?,if_pos near,power,Option.bind_some,if_neg (by omega)]
    exact given
  | case2 x exponent far zero => exact ⟨x,by rw [scaleByTen?,if_neg far,if_pos zero]⟩
  | case3 x exponent far zero up => omega
  | case4 x exponent far zero notUp ih =>
    obtain ⟨p,power,_⟩ := powerOfTen?_given (Nat.le_refl 308)
    obtain ⟨positive,above⟩ := powerOfTen?_size power
    obtain ⟨y,given,_,bounded⟩ := div?_le valid positive ((div_size_le above).trans within)
    obtain ⟨z,rest⟩ := ih y bounded (by omega)
    refine ⟨z,?_⟩
    rw [scaleByTen?,if_neg far,if_neg zero,dif_neg notUp,power,Option.bind_some,given,
      Option.bind_some]
    exact rest

theorem scaleByTen?_valid {x y : Binary64} (valid : x.Valid) {exponent : Int}
    (given : x.scaleByTen? exponent = some y) : y.Valid := by
  induction x,exponent using scaleByTen?.induct generalizing y with
  | case1 x exponent near =>
    obtain ⟨p,power,_⟩ := powerOfTen?_given near
    rw [scaleByTen?,if_pos near,power,Option.bind_some] at given
    split at given
    · exact mul?_valid given
    · exact div?_valid (powerOfTen?_size power).1 given
  | case2 x exponent far zero =>
    rw [scaleByTen?,if_neg far,if_pos zero] at given
    cases given
    exact valid
  | case3 x exponent far zero up =>
    rw [scaleByTen?,if_neg far,if_neg zero,dif_pos up] at given
    cases given
  | case4 x exponent far zero down ih =>
    obtain ⟨p,power,_⟩ := powerOfTen?_given (Nat.le_refl 308)
    rw [scaleByTen?,if_neg far,if_neg zero,dif_neg down,power,Option.bind_some] at given
    obtain ⟨z,divided,rest⟩ := Option.bind_eq_some_iff.mp given
    exact ih z (div?_valid (powerOfTen?_size power).1 divided) rest

theorem ofDecimal?_valid {negative : Bool} {significand : Nat} {exponent : Int} {x : Binary64}
    (given : ofDecimal? negative significand exponent = some x) : x.Valid := by
  obtain ⟨y,scaled,rfl⟩ := Option.map_eq_some_iff.mp given
  obtain ⟨z,rounded,scaled⟩ := Option.bind_eq_some_iff.mp scaled
  have valid := scaleByTen?_valid (ofRatio?_valid Nat.one_pos rounded) scaled
  exact ⟨valid.mantissa,valid.least,valid.greatest⟩

def greatest : Binary64 := ⟨false,2 ^ 53 - 1,greatestExponent⟩

def greatestMiddle : Nat := (2 ^ 54 - 3) * 2 ^ (greatestExponent - 1).toNat

theorem greatest_valid : greatest.Valid := ⟨by decide,by decide,by decide⟩

def topSignificand (k : Nat) : Nat := min (10 ^ 17) (greatestMiddle / 10 ^ k)

-- No significand and no power of ten is rounded up so far that their product is out of range.
theorem topSignificand_scales {k : Nat} (small : k ≤ 308) :
    ∃ b p, ofNat? (topSignificand k) = some b ∧ powerOfTen? k = some p ∧
      (topSignificand k : ℚ) ≤ b.size ∧ b.size * p.size ≤ greatest.size := by
  have all : ∀ k ≤ 308, (ofNat? (topSignificand k)).any (fun b => (powerOfTen? k).any (fun p =>
      topSignificand k * b.ratio.2 ≤ b.ratio.1 ∧ b.ratio.1 * p.ratio.1 * greatest.ratio.2 ≤
        greatest.ratio.1 * (b.ratio.2 * p.ratio.2))) = true := by
    decide +kernel
  obtain ⟨b,rounded,rest⟩ := (Option.any_eq_true _ _).mp (all k small)
  obtain ⟨p,power,bounds⟩ := (Option.any_eq_true _ _).mp rest
  obtain ⟨reached,product⟩ := of_decide_eq_true bounds
  refine ⟨b,p,rounded,power,?_,?_⟩
  · rw [←ratio_size,le_div_iff₀ (by exact_mod_cast b.ratio_positive)]
    exact_mod_cast reached
  · have positive : 0 < b.ratio.2 * p.ratio.2 := Nat.mul_pos b.ratio_positive p.ratio_positive
    rw [←ratio_size b,←ratio_size p,←ratio_size greatest,←mul_div_mul_comm,
      div_le_div_iff₀ (by exact_mod_cast positive) (by exact_mod_cast greatest.ratio_positive)]
    exact_mod_cast product

theorem ofNat?_scaleByTen?_up {significand k : Nat} (small : k ≤ 308)
    (within : significand ≤ topSignificand k) :
    ∃ x y, ofNat? significand = some x ∧ x.scaleByTen? k = some y := by
  obtain ⟨b,p,rounded,power,reached,product⟩ := topSignificand_scales small
  have valid : b.Valid := ofRatio?_valid Nat.one_pos rounded
  have below : (significand : ℚ) ≤ b.size := le_trans (by exact_mod_cast within) reached
  obtain ⟨x,given,_,bounded⟩ := ofRatio?_le false valid Nat.one_pos (by simpa using below)
  have above := (powerOfTen?_size power).2
  have scaled : x.size * p.size ≤ greatest.size :=
    (mul_le_mul_of_nonneg_right bounded (zero_le_one.trans above)).trans product
  obtain ⟨y,multiplied,_⟩ := mul?_le greatest_valid scaled
  refine ⟨x,y,given,?_⟩
  rw [scaleByTen?,if_pos (by simpa using small),Int.natAbs_natCast,power,Option.bind_some,
    if_pos (Int.natCast_nonneg k)]
  exact multiplied

structure InRange (significand : Nat) (exponent : Int) : Prop where
  positive : 0 < significand
  digits : significand ≤ 10 ^ 17
  bounded : 0 ≤ exponent → (significand : ℚ) * 10 ^ exponent ≤ greatestMiddle

theorem InRange.topSignificand {significand k : Nat} (within : InRange significand k) :
    k ≤ 308 ∧ significand ≤ topSignificand k := by
  have bounded := within.bounded (Int.natCast_nonneg k)
  rw [zpow_natCast] at bounded
  have product : significand * 10 ^ k ≤ greatestMiddle := by exact_mod_cast bounded
  refine ⟨?_,Nat.le_min.mpr ⟨within.digits,(Nat.le_div_iff_mul_le (by positivity)).mpr product⟩⟩
  by_contra large
  have power := @Nat.pow_le_pow_right 10 (Nat.succ_pos 9) 309 k (Nat.not_le.mp large)
  have one : 10 ^ k ≤ significand * 10 ^ k := Nat.le_mul_of_pos_left _ within.positive
  have beyond : greatestMiddle < 10 ^ 309 := by decide +kernel
  omega

theorem ofDecimal?_given (negative : Bool) {significand : Nat} {exponent : Int}
    (within : InRange significand exponent) :
    ∃ x, ofDecimal? negative significand exponent = some x := by
  rcases Int.lt_or_le exponent 0 with down | up
  · have valid : Valid ⟨false,5 ^ 17,17⟩ := ⟨by decide,by decide,by decide⟩
    have reached : (significand : ℚ) ≤ size ⟨false,5 ^ 17,17⟩ := by
      have digits : (significand : ℚ) ≤ 10 ^ 17 := by exact_mod_cast within.digits
      refine digits.trans ?_
      norm_num [size]
    obtain ⟨x,rounded,_,bounded⟩ := ofRatio?_le false valid Nat.one_pos (by simpa using reached)
    obtain ⟨y,scaled⟩ := scaleByTen?_down valid bounded down
    exact ⟨_,by rw [ofDecimal?,ofNat?,rounded,Option.bind_some,scaled]; rfl⟩
  · obtain ⟨k,rfl⟩ := Int.eq_ofNat_of_zero_le up
    obtain ⟨small,top⟩ := within.topSignificand
    obtain ⟨x,y,rounded,scaled⟩ := ofNat?_scaleByTen?_up small top
    exact ⟨_,by rw [ofDecimal?,rounded,Option.bind_some,scaled]; rfl⟩

end TableView.Number.Binary64
