import Mathlib.Tactic.Linarith
import Mathlib.Tactic.Positivity
import Mathlib.Tactic.FieldSimp
import Mathlib.Tactic.Ring
import Mathlib.Algebra.Order.Field.Power
import Mathlib.Data.Rat.Cast.Order
import TableView.Number.Binary64

namespace TableView.Number

theorem zpow_toNat (b : ℚ) (e : ℤ) : b ^ e = b ^ e.toNat / b ^ (-e).toNat := by
  rcases Int.le_total 0 e with up | down
  · obtain ⟨n,rfl⟩ := Int.eq_ofNat_of_zero_le up
    simp
  · obtain ⟨n,negated⟩ := Int.eq_ofNat_of_zero_le (Int.neg_nonneg_of_nonpos down)
    obtain rfl : e = -(n : ℤ) := by omega
    simp

namespace Binary64

structure Valid (x : Binary64) : Prop where
  mantissa : x.mantissa < 2 ^ 53
  least : leastExponent ≤ x.exponent
  greatest : x.exponent ≤ greatestExponent

def size (x : Binary64) : ℚ := x.mantissa * 2 ^ x.exponent

theorem ratio_size (x : Binary64) : (x.ratio.1 : ℚ) / x.ratio.2 = x.size := by
  rw [size,zpow_toNat]
  simp only [ratio]
  push_cast
  ring

theorem ratio_positive (x : Binary64) : 0 < x.ratio.2 := Nat.two_pow_pos _

theorem two_zpow_pos (e : ℤ) : (0 : ℚ) < 2 ^ e := zpow_pos (by norm_num) e

theorem log2_bounds {n : Nat} (positive : 0 < n) :
    (2 : ℚ) ^ (n.log2 : ℤ) ≤ n ∧ (n : ℚ) < 2 ^ (n.log2 + 1 : ℤ) := by
  have low := Nat.log2_self_le (Nat.ne_of_gt positive)
  have high := Nat.lt_log2_self (n := n)
  constructor
  · rw [zpow_natCast]
    exact_mod_cast low
  · have cast : ((2 : ℚ) ^ (n.log2 + 1 : ℤ)) = ((2 ^ (n.log2 + 1) : ℕ) : ℚ) := by
      rw [Nat.cast_pow]
      exact_mod_cast zpow_natCast (2 : ℚ) (n.log2 + 1)
    rw [cast]
    exact_mod_cast high

theorem log2Ratio_bounds {num den : Nat} (above : 0 < num) (below : 0 < den) :
    (2 : ℚ) ^ log2Ratio num den ≤ num / den ∧
      (num / den : ℚ) < 2 ^ (log2Ratio num den + 1) := by
  obtain ⟨numLow,numHigh⟩ := log2_bounds above
  obtain ⟨denLow,denHigh⟩ := log2_bounds below
  have positive : (0 : ℚ) < den := by exact_mod_cast below
  have denPower := two_zpow_pos (den.log2 : ℤ)
  have upper : (num / den : ℚ) < 2 ^ ((num.log2 : ℤ) - den.log2 + 1) := by
    have split : (2 : ℚ) ^ ((num.log2 : ℤ) - den.log2 + 1) =
        2 ^ (num.log2 + 1 : ℤ) / 2 ^ (den.log2 : ℤ) := by
      rw [←zpow_sub₀ (by norm_num)]
      congr 1
      omega
    rw [split,div_lt_div_iff₀ positive denPower]
    nlinarith [two_zpow_pos (num.log2 + 1 : ℤ)]
  have lower : (2 : ℚ) ^ ((num.log2 : ℤ) - den.log2 - 1) ≤ num / den := by
    have split : (2 : ℚ) ^ ((num.log2 : ℤ) - den.log2 - 1) =
        2 ^ (num.log2 : ℤ) / 2 ^ (den.log2 + 1 : ℤ) := by
      rw [←zpow_sub₀ (by norm_num)]
      congr 1
      omega
    rw [split,div_le_div_iff₀ (two_zpow_pos _) positive]
    nlinarith [two_zpow_pos (num.log2 : ℤ)]
  have test : den * 2 ^ ((num.log2 : ℤ) - den.log2).toNat ≤
      num * 2 ^ (-((num.log2 : ℤ) - den.log2)).toNat ↔
      (2 : ℚ) ^ ((num.log2 : ℤ) - den.log2) ≤ num / den := by
    rw [zpow_toNat,div_le_div_iff₀ (by positivity) positive,mul_comm]
    exact_mod_cast Iff.rfl
  simp only [log2Ratio,Int.ofNat_eq_natCast]
  split
  · rename_i reached
    exact ⟨test.mp reached,upper⟩
  · rename_i missed
    refine ⟨lower,?_⟩
    rw [Int.sub_add_cancel]
    exact lt_of_not_ge (fun reached => missed (test.mpr reached))

theorem nearest_le {num den bound : Nat} (positive : 0 < den) (within : num ≤ bound * den) :
    nearest num den ≤ bound := by
  have whole := Nat.div_add_mod num den
  have floor : num / den ≤ bound := Nat.div_le_of_le_mul (by rw [Nat.mul_comm]; exact within)
  rcases Nat.lt_or_eq_of_le floor with less | exact_
  · simp only [nearest]
    split
    · omega
    split
    · omega
    split <;> omega
  · -- There is nothing left to round up.
    have nothing : num % den = 0 := by
      rw [exact_,Nat.mul_comm] at whole
      omega
    simp only [nearest,nothing]
    rw [if_pos (by omega)]
    exact floor

def unitNum (num : Nat) (exponent : Int) : Nat := num * 2 ^ (-exponent).toNat

def unitDen (den : Nat) (exponent : Int) : Nat := den * 2 ^ exponent.toNat

theorem unit_ratio (num den : Nat) (exponent : Int) :
    (unitNum num exponent : ℚ) / unitDen den exponent = num / den / 2 ^ exponent := by
  rw [zpow_toNat,unitNum,unitDen]
  push_cast
  field_simp

theorem unitDen_positive {den : Nat} (positive : 0 < den) (exponent : Int) :
    0 < unitDen den exponent := Nat.mul_pos positive (Nat.two_pow_pos _)

theorem nearest_unit_le {num den bound : Nat} (positive : 0 < den) (exponent : Int)
    (within : (num / den : ℚ) ≤ bound * 2 ^ exponent) :
    nearest (unitNum num exponent) (unitDen den exponent) ≤ bound := by
  have full := unitDen_positive positive exponent
  refine nearest_le full ?_
  have divided : (unitNum num exponent : ℚ) / unitDen den exponent ≤ bound := by
    rw [unit_ratio,div_le_iff₀ (two_zpow_pos exponent)]
    exact within
  rw [div_le_iff₀ (by exact_mod_cast full)] at divided
  exact_mod_cast divided

def unitExponent (num den : Nat) : Int := max (log2Ratio num den - 52) leastExponent

def carry (mantissa : Nat) (exponent : Int) : Nat × Int :=
  if mantissa == 2 ^ 53 then (2 ^ 52,exponent + 1) else (mantissa,exponent)

theorem carry_valid {mantissa : Nat} {exponent : Int} (within : mantissa ≤ 2 ^ 53)
    (least : leastExponent ≤ exponent) (negative : Bool)
    (greatest : (carry mantissa exponent).2 ≤ greatestExponent) :
    Valid ⟨negative,(carry mantissa exponent).1,(carry mantissa exponent).2⟩ := by
  rw [carry] at greatest ⊢
  split
  · rename_i full
    rw [if_pos full] at greatest
    exact ⟨by norm_num,by simp only; omega,greatest⟩
  · rename_i partial_
    rw [if_neg partial_] at greatest
    rw [beq_iff_eq] at partial_
    exact ⟨by simp only; omega,least,greatest⟩

theorem carry_size (mantissa : Nat) (exponent : Int) :
    ((carry mantissa exponent).1 : ℚ) * 2 ^ (carry mantissa exponent).2 =
      mantissa * 2 ^ exponent := by
  rw [carry]
  split
  · rename_i full
    rw [beq_iff_eq] at full
    rw [full,zpow_add₀ (by norm_num)]
    push_cast
    ring
  · rfl

theorem unit_mantissa_le {num den : Nat} (above : 0 < num) (below : 0 < den) :
    nearest (unitNum num (unitExponent num den)) (unitDen den (unitExponent num den)) ≤
      2 ^ 53 := by
  refine nearest_unit_le below _ ?_
  have upper := (log2Ratio_bounds above below).2
  have exponents : log2Ratio num den + 1 ≤ 53 + unitExponent num den := by
    rw [unitExponent]
    omega
  calc (num / den : ℚ) ≤ 2 ^ (log2Ratio num den + 1) := upper.le
    _ ≤ 2 ^ (53 + unitExponent num den) := zpow_le_zpow_right₀ (by norm_num) exponents
    _ = (2 ^ 53 : ℕ) * 2 ^ unitExponent num den := by
      rw [zpow_add₀ (by norm_num)]
      norm_num

def round (num den : Nat) : Nat × Int :=
  carry (nearest (unitNum num (unitExponent num den)) (unitDen den (unitExponent num den)))
    (unitExponent num den)

theorem ofRatio?_eq (negative : Bool) {num : Nat} (above : 0 < num) (den : Nat) :
    ofRatio? negative num den = if (round num den).2 ≤ greatestExponent then
      some ⟨negative,(round num den).1,(round num den).2⟩ else none := by
  rw [ofRatio?,if_neg (by simpa using Nat.ne_of_gt above)]
  rfl

theorem round_valid {num den : Nat} (above : 0 < num) (below : 0 < den) (negative : Bool)
    (greatest : (round num den).2 ≤ greatestExponent) :
    Valid ⟨negative,(round num den).1,(round num den).2⟩ :=
  carry_valid (unit_mantissa_le above below) (Int.le_max_right _ _) negative greatest

theorem zero_valid (negative : Bool) : Valid ⟨negative,0,leastExponent⟩ :=
  ⟨Nat.two_pow_pos 53,Int.le_refl _,show leastExponent ≤ greatestExponent by decide⟩

theorem ofRatio?_valid {negative : Bool} {num den : Nat} {x : Binary64} (positive : 0 < den)
    (given : ofRatio? negative num den = some x) : x.Valid := by
  rcases Nat.eq_zero_or_pos num with rfl | above
  · cases given
    exact zero_valid negative
  · rw [ofRatio?_eq negative above] at given
    split at given
    · rename_i greatest
      cases given
      exact round_valid above positive negative greatest
    · cases given

theorem unitExponent_le {num den : Nat} (above : 0 < num) (below : 0 < den) {b : Binary64}
    (valid : b.Valid) (within : (num / den : ℚ) ≤ b.size) :
    unitExponent num den ≤ b.exponent := by
  have reached := (log2Ratio_bounds above below).1
  have bounded : b.size < 2 ^ (53 + b.exponent) := by
    rw [size,zpow_add₀ (by norm_num)]
    have mantissa : (b.mantissa : ℚ) < 2 ^ 53 := by exact_mod_cast valid.mantissa
    exact mul_lt_mul_of_pos_right (by exact_mod_cast mantissa) (two_zpow_pos _)
  have powers : log2Ratio num den < 53 + b.exponent :=
    (zpow_lt_zpow_iff_right₀ (by norm_num)).mp (reached.trans_lt (within.trans_lt bounded))
  have least := valid.least
  rw [unitExponent]
  omega

-- A ratio within the range of the format is rounded to a number, and a number of the format that
-- bounds the ratio bounds what it is rounded to.
theorem ofRatio?_le (negative : Bool) {num den : Nat} {b : Binary64} (valid : b.Valid)
    (positive : 0 < den) (within : (num / den : ℚ) ≤ b.size) :
    ∃ x, ofRatio? negative num den = some x ∧ x.Valid ∧ x.size ≤ b.size := by
  rcases Nat.eq_zero_or_pos num with rfl | above
  · refine ⟨_,rfl,zero_valid negative,?_⟩
    rw [size,Nat.cast_zero,zero_mul]
    exact mul_nonneg (Nat.cast_nonneg _) (two_zpow_pos _).le
  · have units := unitExponent_le above positive valid within
    -- The bound is a multiple of the unit in which the ratio is rounded.
    obtain ⟨n,rise⟩ := Int.eq_ofNat_of_zero_le (Int.sub_nonneg_of_le units)
    have multiple : b.size = (b.mantissa * 2 ^ n : ℕ) * 2 ^ unitExponent num den := by
      have exponent : b.exponent = n + unitExponent num den := by omega
      rw [size,exponent,zpow_add₀ (by norm_num),zpow_natCast]
      push_cast
      ring
    have rounded := nearest_unit_le positive (unitExponent num den) (multiple ▸ within)
    have bounded : ((round num den).1 : ℚ) * 2 ^ (round num den).2 ≤ b.size := by
      rw [round,carry_size,multiple]
      exact mul_le_mul_of_nonneg_right (by exact_mod_cast rounded) (two_zpow_pos _).le
    have greatest : (round num den).2 ≤ greatestExponent := by
      refine le_trans ?_ valid.greatest
      rw [round,carry]
      split
      · -- A full mantissa is not above the bound's own, so the bound has a greater unit.
        rename_i full
        rw [beq_iff_eq] at full
        have mantissa := valid.mantissa
        have positive : n ≠ 0 := by
          rintro rfl
          omega
        dsimp only
        omega
      · exact units
    refine ⟨_,?_,round_valid above positive negative greatest,bounded⟩
    rw [ofRatio?_eq negative above,if_pos greatest]

end Binary64

end TableView.Number
