import TableView.Proofs.Number.Scaling
import TableView.Number.Shortest
import TableView.Proofs.Text.Numeral

namespace TableView.Number.Shortest

open Binary64 (Valid two_zpow_pos ratio_size)
open Text.Numeral (ofNat_length_bounds)

theorem ten_zpow_pos (e : ℤ) : (0 : ℚ) < 10 ^ e := zpow_pos (by norm_num) e

def Decimal.size (d : Decimal) : ℚ := d.digits * 10 ^ d.exponent

namespace Interval

def least (i : Interval) : ℚ := i.low / i.denominator

def middle (i : Interval) : ℚ := i.value / i.denominator

def greatest (i : Interval) : ℚ := i.high / i.denominator

theorem contains_iff {i : Interval} (positive : 0 < i.denominator) (d : Decimal) :
    i.contains d = true ↔ if i.closed then i.least ≤ d.size ∧ d.size ≤ i.greatest
      else i.least < d.size ∧ d.size < i.greatest := by
  have den : (0 : ℚ) < i.denominator := by exact_mod_cast positive
  have scale : (0 : ℚ) < 10 ^ (-d.exponent).toNat := by positivity
  have size : d.size = (d.digits * 10 ^ d.exponent.toNat : ℕ) / (10 ^ (-d.exponent).toNat : ℕ) := by
    rw [Decimal.size,zpow_toNat]
    push_cast
    ring
  rw [size,least,greatest]
  simp only [contains]
  split
  · rw [Bool.and_eq_true,decide_eq_true_eq,decide_eq_true_eq,
      div_le_div_iff₀ den (by exact_mod_cast scale),div_le_div_iff₀ (by exact_mod_cast scale) den]
    exact_mod_cast Iff.rfl
  · rw [Bool.and_eq_true,decide_eq_true_eq,decide_eq_true_eq,
      div_lt_div_iff₀ den (by exact_mod_cast scale),div_lt_div_iff₀ (by exact_mod_cast scale) den]
    exact_mod_cast Iff.rfl

theorem contains_of_between {i : Interval} (positive : 0 < i.denominator) {d : Decimal}
    (above : i.least < d.size) (below : d.size < i.greatest) : i.contains d = true := by
  rw [contains_iff positive]
  split
  · exact ⟨above.le,below.le⟩
  · exact ⟨above,below⟩

theorem between_of_contains {i : Interval} (positive : 0 < i.denominator) {d : Decimal}
    (inside : i.contains d = true) : i.least ≤ d.size ∧ d.size ≤ i.greatest := by
  rw [contains_iff positive] at inside
  split at inside
  · exact inside
  · exact ⟨inside.1.le,inside.2.le⟩

end Interval

theorem interval_denominator (x : Binary64) : 0 < (interval x).denominator := Nat.two_pow_pos _

def reach (x : Binary64) : Nat :=
  if x.mantissa == 2 ^ 52 && Binary64.leastExponent < x.exponent then 1 else 2

theorem reach_bounds (x : Binary64) :
    0 < reach x ∧ reach x ≤ 2 ∧ (reach x = 1 → x.mantissa = 2 ^ 52) := by
  rw [reach]
  split
  · rename_i power
    rw [Bool.and_eq_true,beq_iff_eq] at power
    exact ⟨by omega,by omega,fun _ => power.1⟩
  · exact ⟨by omega,by omega,fun one => by omega⟩

theorem quarters (n : Nat) (exponent : Int) :
    ((n * 2 ^ (exponent - 2).toNat : ℕ) : ℚ) / (2 ^ (-(exponent - 2)).toNat : ℕ) =
      n / 4 * 2 ^ exponent := by
  have unit : (2 : ℚ) ^ exponent = 4 * 2 ^ (exponent - 2) := by
    rw [zpow_sub₀ (by norm_num)]
    norm_num
    ring
  rw [unit,zpow_toNat]
  push_cast
  ring

theorem interval_middle (x : Binary64) : (interval x).middle = x.size := by
  have whole := quarters (4 * x.mantissa) x.exponent
  rw [Binary64.size]
  refine whole.trans ?_
  push_cast
  ring

theorem interval_greatest (x : Binary64) :
    (interval x).greatest = (x.mantissa + 1 / 2) * 2 ^ x.exponent := by
  refine (quarters (4 * x.mantissa + 2) x.exponent).trans ?_
  push_cast
  ring

theorem interval_least {x : Binary64} (positive : 0 < x.mantissa) :
    (interval x).least = (x.mantissa - reach x / 4) * 2 ^ x.exponent := by
  have below : reach x ≤ 4 * x.mantissa := by
    have := (reach_bounds x).2.1
    omega
  refine (quarters (4 * x.mantissa - reach x) x.exponent).trans ?_
  rw [Nat.cast_sub below]
  push_cast
  ring

theorem floor_bounds (num : Nat) {den : Nat} (below : 0 < den) :
    ((num / den : ℕ) : ℚ) ≤ num / den ∧ (num / den : ℚ) < (num / den : ℕ) + 1 := by
  have positive : (0 : ℚ) < den := by exact_mod_cast below
  rw [le_div_iff₀ positive,div_lt_iff₀ positive]
  have beyond := Nat.lt_mul_div_succ num below
  rw [Nat.mul_comm] at beyond
  exact ⟨by exact_mod_cast Nat.div_mul_le_self num den,by exact_mod_cast beyond⟩

theorem ten_zpow_step (n : Nat) : (10 : ℚ) ^ n = 10 * 10 ^ ((n : Int) - 1) := by
  rw [zpow_sub₀ (by norm_num),zpow_natCast]
  ring

theorem whole_length_bounds {num den : Nat} (below : 0 < den) (large : den ≤ num) :
    (10 : ℚ) ^ (((Text.Numeral.ofNat (num / den)).length : Int) - 1) ≤ num / den ∧
      (num / den : ℚ) < 10 ^ (Text.Numeral.ofNat (num / den)).length := by
  obtain ⟨low,high⟩ := ofNat_length_bounds (Nat.div_pos large below)
  obtain ⟨floor,beyond⟩ := floor_bounds num below
  generalize num / den = q at low high floor beyond ⊢
  generalize (Text.Numeral.ofNat q).length = n at low high ⊢
  have step := ten_zpow_step n
  have lowCast : (10 : ℚ) ^ n ≤ 10 * q := by exact_mod_cast low
  have highCast : (q : ℚ) + 1 ≤ 10 ^ n := by exact_mod_cast high
  exact ⟨by linarith,by linarith⟩

-- A ratio below one has the length of the whole part of its inverse, rounded up, less one.
theorem inverse_length_bounds {num den : Nat} (above : 0 < num) (small : num < den) :
    1 / (10 : ℚ) ^ (Text.Numeral.ofNat ((den - 1) / num)).length ≤ num / den ∧
      (num / den : ℚ) < 10 / 10 ^ (Text.Numeral.ofNat ((den - 1) / num)).length := by
  obtain ⟨low,high⟩ := ofNat_length_bounds (Nat.div_pos (show num ≤ den - 1 by omega) above)
  have under : (den - 1) / num * num < den := by
    have := Nat.div_mul_le_self (den - 1) num
    omega
  have beyond : den ≤ ((den - 1) / num + 1) * num := by
    have := Nat.lt_mul_div_succ (den - 1) above
    rw [Nat.mul_comm]
    omega
  generalize (den - 1) / num = q at low high under beyond ⊢
  generalize (Text.Numeral.ofNat q).length = n at low high ⊢
  have numPositive : (0 : ℚ) < num := by exact_mod_cast above
  have denPositive : (0 : ℚ) < den := by exact_mod_cast above.trans small
  have power : (0 : ℚ) < 10 ^ n := by positivity
  have lowCast : (10 : ℚ) ^ n ≤ 10 * q := by exact_mod_cast low
  have highCast : (q : ℚ) + 1 ≤ 10 ^ n := by exact_mod_cast high
  have underCast : (q : ℚ) * num < den := by exact_mod_cast under
  have beyondCast : (den : ℚ) ≤ (q + 1) * num := by exact_mod_cast beyond
  rw [div_le_div_iff₀ power denPositive,div_lt_div_iff₀ denPositive power]
  constructor
  · nlinarith
  · nlinarith

theorem leadingExponent_bounds {num den : Nat} (above : 0 < num) (below : 0 < den) :
    (10 : ℚ) ^ leadingExponent num den ≤ num / den ∧
      (num / den : ℚ) < 10 ^ (leadingExponent num den + 1) := by
  rw [leadingExponent]
  split
  · rename_i large
    have bounds := whole_length_bounds below large
    rw [Int.ofNat_eq_natCast,Int.sub_add_cancel,zpow_natCast]
    exact bounds
  · rename_i small
    have inverse : (den + num - 1) / num - 1 = (den - 1) / num := by
      have shifted : den + num - 1 = den - 1 + num := by omega
      rw [shifted,Nat.add_div_right _ above]
      rfl
    have bounds := inverse_length_bounds above (Nat.not_le.mp small)
    rw [inverse,zpow_add₀ (by norm_num),Int.ofNat_eq_natCast,zpow_neg,zpow_natCast,zpow_one,
      inv_eq_one_div,div_mul_eq_mul_div,one_mul]
    exact bounds

namespace Interval

def below (i : Interval) (place : Int) : Decimal :=
  ⟨(i.value * 10 ^ (-place).toNat) / (i.denominator * 10 ^ place.toNat),place⟩

theorem below_bounds {i : Interval} (positive : 0 < i.denominator) (place : Int) :
    (i.below place).size ≤ i.middle ∧ i.middle < (i.below place).size + 10 ^ place := by
  have den : 0 < i.denominator * 10 ^ place.toNat := Nat.mul_pos positive (by positivity)
  obtain ⟨floor,beyond⟩ := floor_bounds (i.value * 10 ^ (-place).toNat) den
  have scaled : ((i.value * 10 ^ (-place).toNat : ℕ) : ℚ) /
      (i.denominator * 10 ^ place.toNat : ℕ) = i.middle / 10 ^ place := by
    rw [middle,zpow_toNat]
    push_cast
    field_simp
  have unit := ten_zpow_pos place
  rw [scaled] at floor beyond
  rw [le_div_iff₀ unit] at floor
  rw [div_lt_iff₀ unit,add_mul,one_mul] at beyond
  exact ⟨floor,beyond⟩

theorem atPlace_some {i : Interval} {place : Int} {d : Decimal}
    (found : i.atPlace place = some d) :
    i.contains d = true ∧ d.exponent = place ∧ d.digits ≤ (i.below place).digits + 1 := by
  simp only [atPlace] at found
  split at found
  · rename_i under beyond
    split at found
    · cases found
      exact ⟨under,rfl,Nat.le_succ _⟩
    · cases found
      exact ⟨beyond,rfl,Nat.le_refl _⟩
  · rename_i under _
    cases found
    exact ⟨under,rfl,Nat.le_succ _⟩
  · rename_i _ beyond
    cases found
    exact ⟨beyond,rfl,Nat.le_refl _⟩
  · cases found

-- Where the last place is finer than the interval, one of the two decimals is inside.
theorem atPlace_fine {i : Interval} (positive : 0 < i.denominator) {place : Int}
    (left : 10 ^ place < 2 * (i.middle - i.least))
    (right : 10 ^ place < 2 * (i.greatest - i.middle)) : ∃ d, i.atPlace place = some d := by
  obtain ⟨floor,beyond⟩ := below_bounds positive place
  have next : (Decimal.mk ((i.below place).digits + 1) place).size =
      (i.below place).size + 10 ^ place := by
    simp only [Decimal.size,below]
    push_cast
    ring
  have unit := ten_zpow_pos place
  have inside : i.contains (i.below place) = true ∨
      i.contains ⟨(i.below place).digits + 1,place⟩ = true := by
    by_cases half : i.middle - (i.below place).size ≤ 10 ^ place / 2
    · exact Or.inl (contains_of_between positive (by linarith) (by linarith))
    · exact Or.inr (contains_of_between positive (by linarith) (by linarith))
  cases found : i.atPlace place with
  | some d => exact ⟨d,rfl⟩
  | none =>
    exfalso
    simp only [atPlace] at found
    split at found
    · split at found <;> cases found
    · cases found
    · cases found
    · rename_i under above
      rcases inside with within | within
      · exact Bool.false_ne_true (under.symm.trans within)
      · exact Bool.false_ne_true (above.symm.trans within)

end Interval

theorem search_found {i : Interval} {lead : Int} {last : Nat}
    (suffices_ : ∃ d, i.atPlace (lead - Int.ofNat last) = some d) {digits left : Nat}
    (reaches : digits + left = last + 1) (more : 0 < left) :
    ∃ n ≤ last, i.atPlace (lead - Int.ofNat n) = some (search i lead digits left) := by
  induction left generalizing digits with
  | zero => omega
  | succ left ih =>
    rw [search]
    split
    · rename_i d found
      exact ⟨digits,by omega,found⟩
    · rename_i missed
      rcases Nat.eq_zero_or_pos left with rfl | further
      · obtain rfl : digits = last := by omega
        obtain ⟨d,found⟩ := suffices_
        rw [missed] at found
        cases found
      · exact ih (by omega) further

theorem spacing_fine {x : Binary64} (valid : x.Valid) (positive : 0 < x.mantissa) {place : Int}
    (fine : 10 ^ 16 * 10 ^ place ≤ x.size) :
    10 ^ place < 2 * ((interval x).middle - (interval x).least) ∧
      10 ^ place < 2 * ((interval x).greatest - (interval x).middle) := by
  have mantissa : (x.mantissa : ℚ) < 2 ^ 53 := by exact_mod_cast valid.mantissa
  rw [interval_middle,interval_least positive,interval_greatest]
  rw [Binary64.size] at fine ⊢
  have unit := two_zpow_pos x.exponent
  have bounded := mul_lt_mul_of_pos_right mantissa unit
  generalize (2 : ℚ) ^ x.exponent = u at fine unit bounded ⊢
  generalize (10 : ℚ) ^ place = t at fine ⊢
  constructor
  · obtain ⟨some_,few,power⟩ := reach_bounds x
    rcases (show reach x = 1 ∨ reach x = 2 by omega) with one | two
    · -- The neighbour below is nearer, but then the mantissa is only half as large.
      rw [power one] at fine ⊢
      rw [one]
      push_cast at fine ⊢
      linarith
    · rw [two]
      push_cast
      linarith
  · linarith

-- Seventeen digits always suffice.
theorem shortest_inside {x : Binary64} (valid : x.Valid) (positive : 0 < x.mantissa) :
    (interval x).contains (shortest x) = true ∧ (shortest x).digits ≤ 10 ^ 17 := by
  have den := interval_denominator x
  have value : 0 < (interval x).value :=
    Nat.mul_pos (Nat.mul_pos (by decide) positive) (Nat.two_pow_pos _)
  have middle : ((interval x).value : ℚ) / (interval x).denominator = x.size :=
    interval_middle x
  obtain ⟨low,high⟩ := leadingExponent_bounds value den
  rw [middle] at low high
  rw [shortest]
  generalize leadingExponent (interval x).value (interval x).denominator = lead at low high ⊢
  have split (n : Nat) : (10 : ℚ) ^ lead = 10 ^ n * 10 ^ (lead - Int.ofNat n) := by
    rw [Int.ofNat_eq_natCast,zpow_sub₀ (by norm_num),zpow_natCast]
    field_simp
  obtain ⟨left,right⟩ := spacing_fine valid positive (split 16 ▸ low)
  obtain ⟨n,few,found⟩ := search_found (Interval.atPlace_fine den left right)
    (show 0 + 17 = 16 + 1 from rfl) (by decide)
  obtain ⟨inside,_,digits⟩ := Interval.atPlace_some found
  refine ⟨inside,Nat.le_trans digits ?_⟩
  have floor := (Interval.below_bounds den (lead - Int.ofNat n)).1
  have unit := ten_zpow_pos (lead - Int.ofNat n)
  rw [interval_middle] at floor
  have bounded : (((interval x).below (lead - Int.ofNat n)).digits : ℚ) < 10 ^ (n + 1) := by
    rw [zpow_add₀ (by norm_num),split n] at high
    have product := floor.trans_lt high
    rw [Decimal.size] at product
    refine lt_of_mul_lt_mul_right ?_ unit.le
    calc _ < _ := product
      _ = _ := by
        rw [pow_succ,zpow_one]
        ring
  have digits : ((interval x).below (lead - Int.ofNat n)).digits < 10 ^ (n + 1) := by
    exact_mod_cast bounded
  exact Nat.le_trans digits (Nat.pow_le_pow_right (by decide) (by omega))

theorem shortest_positive {x : Binary64} (valid : x.Valid) (positive : 0 < x.mantissa) :
    0 < (shortest x).digits := by
  have inside := (shortest_inside valid positive).1
  have least := (Interval.between_of_contains (interval_denominator x) inside).1
  have above : 0 < (interval x).least := by
    have mantissa : (1 : ℚ) ≤ x.mantissa := by exact_mod_cast positive
    have few : (reach x : ℚ) ≤ 2 := by exact_mod_cast (reach_bounds x).2.1
    rw [interval_least positive]
    exact mul_pos (by linarith) (two_zpow_pos _)
  by_contra none
  have zero : (shortest x).digits = 0 := by omega
  have nothing : (shortest x).size = 0 := by rw [Decimal.size,zero,Nat.cast_zero,zero_mul]
  linarith

theorem Decimal.strip_size (d : Decimal) : d.strip.size = d.size := by
  induction d using Decimal.strip.induct with
  | case1 d zero ih =>
    rw [strip,dif_pos zero,ih]
    have tens : (d.digits : ℚ) = (d.digits / 10 : ℕ) * 10 := by
      exact_mod_cast (Nat.div_mul_cancel (Nat.dvd_of_mod_eq_zero zero.2)).symm
    simp only [size]
    rw [zpow_add₀ (by norm_num),tens]
    ring
  | case2 d last => rw [strip,dif_neg last]

theorem Decimal.strip_digits (d : Decimal) :
    d.strip.digits ≤ d.digits ∧ (0 < d.digits → 0 < d.strip.digits) := by
  induction d using Decimal.strip.induct with
  | case1 d zero ih =>
    obtain ⟨few,some_⟩ := ih
    rw [strip,dif_pos zero]
    exact ⟨few.trans (Nat.div_le_self _ _),fun _ => some_ (by simp only; omega)⟩
  | case2 d last =>
    rw [strip,dif_neg last]
    exact ⟨Nat.le_refl _,id⟩

theorem strip_positive {x : Binary64} (valid : x.Valid) (positive : 0 < x.mantissa) :
    0 < (shortest x).strip.digits :=
  (shortest x).strip_digits.2 (shortest_positive valid positive)

theorem strip_size_le {x : Binary64} (valid : x.Valid) (positive : 0 < x.mantissa) :
    (interval x).least ≤ (shortest x).strip.size ∧
      (shortest x).strip.size ≤ (interval x).greatest := by
  rw [Decimal.strip_size]
  exact Interval.between_of_contains (interval_denominator x) (shortest_inside valid positive).1

-- Below the greatest number no interval reaches into the one of the greatest number.
theorem interval_greatest_le {x : Binary64} (valid : x.Valid)
    (below : ¬(x.mantissa = 2 ^ 53 - 1 ∧ x.exponent = Binary64.greatestExponent)) :
    (interval x).greatest ≤ Binary64.greatestMiddle := by
  have middle : (Binary64.greatestMiddle : ℚ) =
      (2 ^ 54 - 3) * 2 ^ (Binary64.greatestExponent - 1) := by
    have significand : ((2 ^ 54 - 3 : ℕ) : ℚ) = 2 ^ 54 - 3 := by norm_num
    have unit : (2 : ℚ) ^ (Binary64.greatestExponent - 1) =
        2 ^ (Binary64.greatestExponent - 1).toNat := zpow_natCast 2 _
    rw [Binary64.greatestMiddle,Nat.cast_mul,significand,Nat.cast_pow,unit,Nat.cast_ofNat]
  have bounded := valid.mantissa
  have greatest := valid.greatest
  rw [interval_greatest,middle]
  have unit := two_zpow_pos (Binary64.greatestExponent - 1)
  rcases Int.lt_or_eq_of_le greatest with less | top
  · have power : (2 : ℚ) ^ x.exponent ≤ 2 ^ (Binary64.greatestExponent - 1) :=
      zpow_le_zpow_right₀ (by norm_num) (Int.le_sub_one_of_lt less)
    have mantissa : (x.mantissa : ℚ) + 1 / 2 ≤ 2 ^ 54 - 3 := by
      have cast : (x.mantissa : ℚ) < 2 ^ 53 := by exact_mod_cast bounded
      linarith
    exact mul_le_mul mantissa power (two_zpow_pos _).le (by norm_num)
  · have half : (2 : ℚ) ^ x.exponent = 2 * 2 ^ (Binary64.greatestExponent - 1) := by
      rw [top,zpow_sub₀ (by norm_num)]
      ring
    have mantissa : (x.mantissa : ℚ) + 2 ≤ 2 ^ 53 := by
      have small : x.mantissa + 2 ≤ 2 ^ 53 := by omega
      exact_mod_cast small
    rw [half]
    generalize (2 : ℚ) ^ (Binary64.greatestExponent - 1) = u at unit
    nlinarith

theorem shortest_greatest (negative : Bool) :
    (shortest ⟨negative,2 ^ 53 - 1,Binary64.greatestExponent⟩).strip =
      ⟨17976931348623157,292⟩ := by
  have found : shortest ⟨negative,2 ^ 53 - 1,Binary64.greatestExponent⟩ =
      ⟨17976931348623157,292⟩ := by
    cases negative <;> decide +kernel
  rw [found,Decimal.strip,dif_neg (by decide)]

theorem shortest_given {x : Binary64} (valid : x.Valid) (positive : 0 < x.mantissa)
    (negative : Bool) : ∃ y, Binary64.ofDecimal? negative (shortest x).strip.digits
      (shortest x).strip.exponent = some y := by
  by_cases top : x.mantissa = 2 ^ 53 - 1 ∧ x.exponent = Binary64.greatestExponent
  · have same : x = ⟨x.negative,2 ^ 53 - 1,Binary64.greatestExponent⟩ := by
      rw [←top.1,←top.2]
    rw [same,shortest_greatest]
    have read : ∀ negative, (Binary64.ofDecimal? negative 17976931348623157 292).isSome := by
      decide +kernel
    exact Option.isSome_iff_exists.mp (read negative)
  · have digits := (shortest x).strip_digits.1.trans (shortest_inside valid positive).2
    have bounded := (strip_size_le valid positive).2.trans (interval_greatest_le valid top)
    exact Binary64.ofDecimal?_given negative
      ⟨strip_positive valid positive,digits,fun _ => bounded⟩

def Decimal.lead (d : Decimal) : Int :=
  d.exponent + Int.ofNat (Text.Numeral.ofNat d.digits).length - 1

theorem Decimal.lead_bounds {d : Decimal} (positive : 0 < d.digits) :
    (10 : ℚ) ^ d.lead ≤ d.size ∧ d.size < 10 ^ (d.lead + 1) := by
  obtain ⟨low,high⟩ := ofNat_length_bounds positive
  have unit := ten_zpow_pos d.exponent
  have lowCast : (10 : ℚ) ^ (Text.Numeral.ofNat d.digits).length ≤ 10 * d.digits := by
    exact_mod_cast low
  have highCast : (d.digits : ℚ) < 10 ^ (Text.Numeral.ofNat d.digits).length := by
    exact_mod_cast high
  rw [size,lead,Int.ofNat_eq_natCast,Int.sub_add_cancel,zpow_sub₀ (by norm_num),
    zpow_add₀ (by norm_num),zpow_natCast,zpow_one,div_le_iff₀ (by norm_num)]
  constructor
  · nlinarith
  · nlinarith

theorem lead_le {lead exponent : Int} (within : (10 : ℚ) ^ lead ≤ 2 ^ exponent)
    (positive : 0 ≤ exponent) : lead ≤ exponent := by
  rcases Int.lt_or_le lead 0 with negative | natural
  · omega
  · obtain ⟨n,rfl⟩ := Int.eq_ofNat_of_zero_le natural
    have less : (2 : ℚ) ^ (n : ℤ) ≤ 10 ^ (n : ℤ) := by
      rw [zpow_natCast,zpow_natCast]
      exact pow_le_pow_left₀ (by norm_num) (by norm_num) n
    exact (zpow_le_zpow_iff_right₀ (by norm_num)).mp (less.trans within)

theorem le_lead {lead exponent : Int} (within : (2 : ℚ) ^ exponent ≤ 10 ^ lead)
    (negative : exponent ≤ 0) : exponent ≤ lead := by
  have inverted : (10 : ℚ) ^ (-lead) ≤ 2 ^ (-exponent) := by
    rw [zpow_neg,zpow_neg]
    exact inv_anti₀ (two_zpow_pos _) within
  have opposite := lead_le inverted (Int.neg_nonneg_of_nonpos negative)
  omega

theorem strip_lead_bounds {x : Binary64} (valid : x.Valid) (positive : 0 < x.mantissa) :
    -1076 ≤ (shortest x).strip.lead ∧ (shortest x).strip.lead ≤ 1024 := by
  obtain ⟨low,high⟩ := Decimal.lead_bounds (strip_positive valid positive)
  obtain ⟨least,greatest⟩ := strip_size_le valid positive
  have one : (1 : ℚ) ≤ x.mantissa := by exact_mod_cast positive
  have few : (reach x : ℚ) ≤ 2 := by exact_mod_cast (reach_bounds x).2.1
  have bounded : (x.mantissa : ℚ) + 1 ≤ 2 ^ 53 := by exact_mod_cast valid.mantissa
  have smallest : (2 : ℚ) ^ Binary64.leastExponent ≤ 2 ^ x.exponent :=
    zpow_le_zpow_right₀ (by norm_num) valid.least
  have largest : (2 : ℚ) ^ x.exponent ≤ 2 ^ Binary64.greatestExponent :=
    zpow_le_zpow_right₀ (by norm_num) valid.greatest
  rw [interval_least positive] at least
  rw [interval_greatest] at greatest
  have unit := two_zpow_pos x.exponent
  constructor
  · have half : (2 : ℚ) ^ (Binary64.leastExponent - 1) * 2 = 2 ^ Binary64.leastExponent := by
      rw [zpow_sub₀ (by norm_num)]
      ring
    have reached : (2 : ℚ) ^ (Binary64.leastExponent - 1) ≤ 10 ^ ((shortest x).strip.lead + 1) := by
      nlinarith
    have bound := le_lead reached (by decide)
    simp only [Binary64.leastExponent] at bound
    omega
  · have full : (2 : ℚ) ^ (53 + Binary64.greatestExponent) =
        2 ^ 53 * 2 ^ Binary64.greatestExponent := by
      rw [zpow_add₀ (by norm_num)]
      norm_num
    have reached : (10 : ℚ) ^ (shortest x).strip.lead ≤ 2 ^ (53 + Binary64.greatestExponent) := by
      rw [full]
      exact low.trans (greatest.trans (mul_le_mul (by linarith) largest unit.le (by norm_num)))
    exact lead_le reached (by decide)

end TableView.Number.Shortest
