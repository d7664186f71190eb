import Mathlib.Data.List.Induction
import TableView.Text.Numeral

namespace TableView.Text.Numeral

theorem digitValue?_digit {d : Nat} (small : d < 10) : digitValue? (digit d) = some d := by
  have all : ∀ d < 10, digitValue? (digit d) = some d := by decide
  exact all d small

theorem digitValue?_lt {c : Char} {d : Nat} (digit : digitValue? c = some d) : d < 10 := by
  rw [digitValue?] at digit
  split at digit
  · rename_i between
    cases digit
    have upper : c.toNat ≤ '9'.toNat := between.2
    have nine : '9'.toNat = 57 := rfl
    omega
  · cases digit

theorem isDigit_digit {d : Nat} (small : d < 10) : isDigit (digit d) = true := by
  rw [isDigit,digitValue?_digit small]; rfl

theorem isDigit_ofNat (n : Nat) : ∀ c ∈ ofNat n, isDigit c = true := by
  induction n using ofNat.induct with
  | case1 n single =>
    rw [ofNat,if_pos single]
    exact List.forall_mem_singleton.mpr (isDigit_digit single)
  | case2 n several ih =>
    rw [ofNat,if_neg several]
    exact List.forall_mem_append.mpr ⟨ih,
      List.forall_mem_singleton.mpr (isDigit_digit (Nat.mod_lt n (by decide)))⟩

theorem ofNat_head (n : Nat) :
    ∃ d tail, ofNat n = digit d :: tail ∧ d < 10 ∧ (d = 0 → n = 0 ∧ tail = []) := by
  induction n using ofNat.induct with
  | case1 n single =>
    refine ⟨n,[],?_,single,fun zero => ⟨zero,rfl⟩⟩
    rw [ofNat,if_pos single]
  | case2 n several ih =>
    obtain ⟨d,tail,written,small,zero⟩ := ih
    refine ⟨d,tail ++ [digit (n % 10)],?_,small,fun none => ?_⟩
    · rw [ofNat,if_neg several,written,List.cons_append]
    · have high := (zero none).1
      omega

theorem ofNat_length_bounds {n : Nat} (positive : 0 < n) :
    10 ^ (ofNat n).length ≤ 10 * n ∧ n < 10 ^ (ofNat n).length := by
  induction n using ofNat.induct with
  | case1 n single =>
    rw [ofNat,if_pos single]
    simp only [List.length_cons,List.length_nil]
    omega
  | case2 n several ih =>
    obtain ⟨low,high⟩ := ih (by omega)
    rw [ofNat,if_neg several,List.length_append,List.length_cons,List.length_nil,Nat.pow_succ]
    omega

theorem readDigits_ofNat (n : Nat) (rest : List Char) :
    readDigits 0 (ofNat n ++ rest) = readDigits n rest := by
  induction n using ofNat.induct generalizing rest with
  | case1 n single =>
    rw [ofNat,if_pos single,List.cons_append,readDigits,digitValue?_digit single]
    simp only [Nat.zero_mul,Nat.zero_add,List.nil_append]
  | case2 n several ih =>
    have last : n % 10 < 10 := Nat.mod_lt n (by decide)
    have whole : n / 10 * 10 + n % 10 = n := Nat.div_add_mod' n 10
    rw [ofNat,if_neg several,List.append_assoc,ih,List.cons_append,readDigits,
      digitValue?_digit last]
    simp only [whole,List.nil_append]

theorem le_of_readDigits {cs : List Char} {v w : Nat} (read : readDigits v cs = some w) :
    v ≤ w := by
  induction cs generalizing v with
  | nil =>
    cases read
    exact Nat.le_refl _
  | cons c cs ih =>
    rw [readDigits] at read
    split at read
    · have := ih read
      omega
    · cases read

theorem readDigits_append (a b : List Char) (v : Nat) :
    readDigits v (a ++ b) = (readDigits v a).bind (fun w => readDigits w b) := by
  induction a generalizing v with
  | nil => rfl
  | cons c a ih =>
    rw [List.cons_append,readDigits,readDigits]
    split
    · exact ih _
    · rfl

theorem readDigits_zeros (n v : Nat) :
    readDigits v (List.replicate n '0') = some (v * 10 ^ n) := by
  induction n generalizing v with
  | zero => simp [readDigits]
  | succ n ih =>
    have zero : digitValue? '0' = some 0 := rfl
    rw [List.replicate_succ,readDigits,zero]
    dsimp only
    rw [ih,Nat.add_zero,Nat.pow_succ,Nat.mul_assoc,Nat.mul_comm 10]

theorem readDigits_split {ds : List Char} {n : Nat} (read : readDigits 0 ds = some n) (k : Nat) :
    ∃ m, readDigits 0 (ds.take k) = some m ∧ readDigits m (ds.drop k) = some n := by
  rw [←List.take_append_drop k ds,readDigits_append] at read
  exact Option.bind_eq_some_iff.mp read

theorem readDigits_written (n : Nat) : readDigits 0 (ofNat n) = some n := by
  have read := readDigits_ofNat n []
  rwa [List.append_nil] at read

theorem toNat?_ofNat (n : Nat) : toNat? (ofNat n) = some n := by
  obtain ⟨d,tail,written,_⟩ := ofNat_head n
  have read := readDigits_ofNat n []
  rw [List.append_nil] at read
  rw [written] at read ⊢
  exact read

theorem ofNat_injective {m n : Nat} (same : ofNat m = ofNat n) : m = n := by
  have read := congrArg toNat? same
  rw [toNat?_ofNat,toNat?_ofNat] at read
  exact Option.some.inj read

theorem digit_of_digitValue? {c : Char} {d : Nat} (given : digitValue? c = some d) :
    c = digit d := by
  rw [digitValue?] at given
  split at given
  · rename_i between
    cases given
    have lower : '0'.toNat ≤ c.toNat := between.1
    have whole : 48 + (c.toNat - 48) = c.toNat := Nat.add_sub_of_le lower
    rw [digit,whole,Char.ofNat_toNat]
  · cases given

def padded (zeros n : Nat) : List Char := List.replicate zeros '0' ++ ofNat n

theorem padded_head (zeros n : Nat) : ∃ d tail, padded zeros n = digit d :: tail ∧ d < 10 := by
  cases zeros with
  | zero =>
    obtain ⟨d,tail,written,small,_⟩ := ofNat_head n
    exact ⟨d,tail,written,small⟩
  | succ zeros => exact ⟨0,_,rfl,by decide⟩

theorem padded_unsigned (zeros n : Nat) (rest : List Char) : padded zeros n ≠ '+' :: rest := by
  obtain ⟨d,tail,written,small⟩ := padded_head zeros n
  have all : ∀ d < 10, digit d ≠ '+' := by decide
  rw [written]
  exact fun same => all d small (List.cons.inj same).1

-- One more digit. Behind the number zero it makes one more zero of the digit before it.
theorem padded_append (zeros m : Nat) {d : Nat} (small : d < 10) :
    ∃ more, padded zeros m ++ [digit d] = padded more (m * 10 + d) := by
  by_cases none : m = 0
  · subst none
    refine ⟨zeros + 1,?_⟩
    have last : ofNat (0 * 10 + d) = [digit d] := by
      rw [Nat.zero_mul,Nat.zero_add,ofNat,if_pos small]
    have zero : ofNat 0 = ['0'] := by
      rw [ofNat,if_pos (by decide)]
      rfl
    rw [padded,padded,last,zero,List.replicate_succ']
  · refine ⟨zeros,?_⟩
    have several : ¬m * 10 + d < 10 := by omega
    have high : (m * 10 + d) / 10 = m := by omega
    have low : (m * 10 + d) % 10 = d := by omega
    rw [padded,padded,ofNat.eq_def (m * 10 + d),if_neg several,high,low,List.append_assoc]

-- The digits of a number are its numeral behind zeros. The induction is from the last digit, which
-- the reader and the numeral both put behind the value of the others.
theorem toNat?_iff {cs : List Char} {n : Nat} :
    toNat? cs = some n ↔ ∃ zeros, cs = padded zeros n := by
  constructor
  · intro read
    induction cs using List.reverseRecOn generalizing n with
    | nil => cases read
    | append_singleton front c ih =>
      have digits : readDigits 0 (front ++ [c]) = some n := by
        cases front <;> exact read
      rw [readDigits_append] at digits
      obtain ⟨m,before,last⟩ := Option.bind_eq_some_iff.mp digits
      obtain ⟨d,value,rfl⟩ : ∃ d, digitValue? c = some d ∧ m * 10 + d = n := by
        rw [readDigits] at last
        split at last
        · rename_i d value
          exact ⟨d,value,Option.some.inj last⟩
        · cases last
      have small := digitValue?_lt value
      rw [digit_of_digitValue? value]
      cases front with
      | nil =>
        obtain rfl : 0 = m := Option.some.inj before
        exact ⟨0,by rw [padded,Nat.zero_mul,Nat.zero_add,ofNat,if_pos small]; rfl⟩
      | cons b front =>
        obtain ⟨zeros,whole⟩ := ih before
        rw [whole]
        exact padded_append zeros m small
  · rintro ⟨zeros,rfl⟩
    obtain ⟨d,tail,written,_⟩ := padded_head zeros n
    have read : readDigits 0 (padded zeros n) = some n := by
      rw [padded,readDigits_append,readDigits_zeros,Nat.zero_mul]
      exact readDigits_written n
    rw [written] at read ⊢
    exact read

def Spelled (cs : List Char) (n : Nat) : Prop :=
  ∃ zeros, cs = padded zeros n ∨ cs = '+' :: padded zeros n

theorem spelled_ofNat (n : Nat) : Spelled (ofNat n) n := ⟨0,Or.inl rfl⟩

theorem Spelled.unique {cs : List Char} {m n : Nat} (first : Spelled cs m)
    (second : Spelled cs n) : m = n := by
  have same {i j : Nat} (equal : padded i m = padded j n) : m = n := by
    have one : toNat? (padded i m) = some m := toNat?_iff.mpr ⟨i,rfl⟩
    have two : toNat? (padded i m) = some n := toNat?_iff.mpr ⟨j,equal⟩
    exact Option.some.inj (one.symm.trans two)
  obtain ⟨i,rfl | rfl⟩ := first
  · obtain ⟨j,equal | signed⟩ := second
    · exact same equal
    · exact absurd signed (padded_unsigned i m _)
  · obtain ⟨j,signed | equal⟩ := second
    · exact absurd signed.symm (padded_unsigned j n _)
    · exact same (List.cons.inj equal).2

theorem toOrdinal?_iff {cs : List Char} {n : Nat} :
    toOrdinal? cs = some n ↔ n < ordinalLimit ∧ Spelled cs n := by
  have bounded (digits : List Char) : (toNat? digits).filter (· < ordinalLimit) = some n ↔
      n < ordinalLimit ∧ ∃ zeros, digits = padded zeros n := by
    rw [Option.filter_eq_some_iff,toNat?_iff,and_comm,decide_eq_true_iff]
  unfold toOrdinal?
  split
  · rename_i digits
    rw [bounded]
    refine and_congr_right (fun _ => exists_congr (fun zeros => ?_))
    simp [(padded_unsigned zeros n digits).symm]
  · rename_i bare
    rw [bounded]
    refine and_congr_right (fun _ => exists_congr (fun zeros => ?_))
    exact ⟨Or.inl,fun spelled => spelled.resolve_right (bare _)⟩

end TableView.Text.Numeral
