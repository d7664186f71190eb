import TableView.Proofs.Number.Shortest
import TableView.Proofs.Json.Scan

namespace TableView.Json.Scan

open Text
open Text.Numeral
open TableView.Number (Binary64)
open TableView.Number.Shortest (Decimal layout shortest)

structure Leads (ds : List Char) (n : Nat) : Prop where
  read : readDigits 0 ds = some n
  given : ds ≠ []
  canonical : ∀ c rest, ds = c :: rest → digitValue? c = some 0 → rest = []

theorem significand_digits {ds : List Char} {v n : Nat} (read : readDigits v ds = some n)
    (bounded : n ≤ greatestSignificand) (taken : Nat) {rest : List Char}
    (ends : startsWithDigit rest = false) :
    significand v taken (ds ++ rest) = (n,taken + ds.length,rest) := by
  induction ds generalizing v taken with
  | nil =>
    cases read
    cases rest with
    | nil => rfl
    | cons c rest =>
      have none : digitValue? c = none := by simpa [startsWithDigit,isDigit] using ends
      rw [List.nil_append,significand,none]
      rfl
  | cons c ds ih =>
    rw [readDigits] at read
    split at read
    · rename_i d digit
      have less := le_of_readDigits read
      rw [List.cons_append,significand,digit]
      dsimp only
      rw [if_pos (by omega),ih read,List.length_cons]
      congr 2
      omega
    · cases read

theorem unsigned_digits {ds : List Char} {n : Nat} (leads : Leads ds n)
    (bounded : n ≤ greatestSignificand) (negative : Bool) {rest : List Char}
    (ends : startsWithDigit rest = false) :
    unsigned negative (ds ++ rest) = afterInteger negative n rest := by
  obtain ⟨read,given,canonical⟩ := leads
  cases ds with
  | nil => exact absurd rfl given
  | cons c ds =>
    rw [readDigits] at read
    split at read
    · rename_i d digit
      rw [Nat.zero_mul,Nat.zero_add] at read
      rw [List.cons_append,unsigned,digit]
      split
      · rename_i none; cases none
      · rename_i zero
        cases zero
        obtain rfl := canonical c ds rfl digit
        cases read
        rw [List.nil_append,ends]
        rfl
      · rename_i e _ first
        cases first
        rw [significand_digits read bounded 0 ends]
        dsimp only
        rw [ends]
        rfl
    · cases read

theorem fractionPart_digits {ds : List Char} {v n : Nat} (read : readDigits v ds = some n)
    (given : ds ≠ []) (bounded : n ≤ greatestSignificand) (negative : Bool) (exponent : Int)
    {rest : List Char} (ends : startsWithDigit rest = false) :
    fractionPart negative v exponent (ds ++ rest) =
      afterFraction negative n (exponent - ds.length) rest := by
  have some_ : ds.length ≠ 0 := fun none => given (List.length_eq_zero_iff.mp none)
  rw [fractionPart,significand_digits read bounded 0 ends]
  dsimp only
  rw [ends,if_neg (by decide),Nat.zero_add,if_neg some_]

theorem exponentDigits_digits {ds : List Char} {v n : Nat} (read : readDigits v ds = some n)
    (bounded : n ≤ 2147483647) {rest : List Char} (ends : startsWithDigit rest = false) :
    exponentDigits v (ds ++ rest) = (some n,rest) := by
  induction ds generalizing v with
  | nil =>
    cases read
    cases rest with
    | nil => rfl
    | cons c rest =>
      have none : digitValue? c = none := by simpa [startsWithDigit,isDigit] using ends
      rw [List.nil_append,exponentDigits,none]
  | cons c ds ih =>
    rw [readDigits] at read
    split at read
    · rename_i d digit
      have less := le_of_readDigits read
      rw [List.cons_append,exponentDigits,digit]
      dsimp only
      rw [if_pos (by omega),ih read]
    · cases read

theorem exponentPart_written {n : Nat} (bounded : n ≤ 2147483647) (down negative : Bool)
    (digits : Nat) (start : Int) {rest : List Char} (ends : startsWithDigit rest = false) :
    exponentPart negative digits start ((if down then '-' else '+') :: Numeral.ofNat n ++ rest) =
      realOf negative digits (if down then start - n else start + n) rest := by
  obtain ⟨d,tail,written,small,_⟩ := ofNat_head n
  have read := readDigits_written n
  rw [written,readDigits,digitValue?_digit small] at read
  rw [Nat.zero_mul] at read
  simp only [Nat.zero_add] at read
  have sign : exponentSign ((if down then '-' else '+') :: Numeral.ofNat n ++ rest) =
      (down,Numeral.ofNat n ++ rest) := by cases down <;> rfl
  rw [exponentPart,sign,written,List.cons_append]
  dsimp only
  rw [digitValue?_digit small]
  dsimp only
  rw [exponentDigits_digits read bounded ends]

theorem afterFraction_ends (negative : Bool) (digits : Nat) (exponent : Int) {rest : List Char}
    (ends : endsInteger rest = true) :
    afterFraction negative digits exponent rest = realOf negative digits exponent rest := by
  cases rest with
  | nil => rfl
  | cons c rest =>
    rw [afterFraction,(endsInteger_cons.mp ends).2.2]
    rfl

theorem written_given (n : Nat) : Numeral.ofNat n ≠ [] := by
  obtain ⟨h,tail,written,_⟩ := ofNat_head n
  rw [written]
  exact List.cons_ne_nil _ tail

theorem written_head {n : Nat} (positive : 0 < n) {c : Char} {rest : List Char}
    (first : Numeral.ofNat n = c :: rest) : digitValue? c ≠ some 0 := by
  obtain ⟨d,tail,written,small,zero⟩ := ofNat_head n
  obtain ⟨rfl,_⟩ := List.cons.inj (written.symm.trans first)
  rw [digitValue?_digit small]
  intro none
  have := (zero (Option.some.inj none)).1
  omega

theorem leads_take {n : Nat} (positive : 0 < n) {k : Nat} (some_ : 0 < k) :
    ∃ m, Leads ((Numeral.ofNat n).take k) m ∧ readDigits m ((Numeral.ofNat n).drop k) = some n := by
  obtain ⟨m,read,rest⟩ := readDigits_split (readDigits_written n) k
  refine ⟨m,⟨read,?_,?_⟩,rest⟩
  · rw [ne_eq,List.take_eq_nil_iff]
    rintro (none | none)
    · omega
    · exact written_given n none
  · intro c others first digit
    cases written : Numeral.ofNat n with
    | nil => exact absurd written (written_given n)
    | cons h tail =>
      obtain ⟨k,rfl⟩ : ∃ less, k = less + 1 := ⟨k - 1,by omega⟩
      rw [written,List.take_succ_cons] at first
      obtain ⟨rfl,_⟩ := List.cons.inj first
      exact absurd digit (written_head positive written)

theorem leads_zeros {n : Nat} (positive : 0 < n) (zeros : Nat) :
    Leads (Numeral.ofNat n ++ List.replicate zeros '0') (n * 10 ^ zeros) := by
  refine ⟨?_,fun none => written_given n (List.append_eq_nil_iff.mp none).1,?_⟩
  · rw [readDigits_append,readDigits_written,Option.bind_some,readDigits_zeros]
  · intro c others first digit
    cases written : Numeral.ofNat n with
    | nil => exact absurd written (written_given n)
    | cons h tail =>
      rw [written,List.cons_append] at first
      obtain ⟨rfl,_⟩ := List.cons.inj first
      exact absurd digit (written_head positive written)

theorem leads_zero : Leads ['0'] 0 :=
  ⟨rfl,List.cons_ne_nil _ _,fun _ _ first _ => (List.cons.inj first).2.symm⟩

theorem unsigned_point {front back : List Char} {m n : Nat} (leads : Leads front m)
    (read : readDigits m back = some n) (given : back ≠ []) (bounded : n ≤ greatestSignificand)
    (negative : Bool) {rest : List Char} (ends : startsWithDigit rest = false) :
    unsigned negative (front ++ '.' :: (back ++ rest)) =
      afterFraction negative n (-back.length) rest := by
  have less := le_of_readDigits read
  rw [unsigned_digits leads (by omega) negative rfl]
  have fraction := fractionPart_digits read given bounded negative 0 ends
  rw [Int.zero_sub] at fraction
  exact fraction

section

variable {d : Decimal} (positive : 0 < d.digits)
  (bounded : d.digits ≤ greatestSignificand) (negative : Bool) {rest : List Char}
  (ends : endsInteger rest = true)

theorem lead_eq (d : Decimal) :
    d.lead = d.exponent + (Numeral.ofNat d.digits).length - 1 := rfl

include bounded ends

theorem unsigned_zeros (small : d.lead < 0) :
    unsigned negative (['0','.'] ++ List.replicate (-d.lead - 1).toNat '0' ++
      Numeral.ofNat d.digits ++ rest) = realOf negative d.digits d.exponent rest := by
  have read : readDigits 0 (List.replicate (-d.lead - 1).toNat '0' ++
      Numeral.ofNat d.digits) = some d.digits := by
    rw [readDigits_append,readDigits_zeros,Nat.zero_mul]
    exact readDigits_written d.digits
  have point := unsigned_point leads_zero read (by simp [written_given]) bounded negative
    (startsWithDigit_ends ends)
  have place : -((List.replicate (-d.lead - 1).toNat '0' ++
      Numeral.ofNat d.digits).length : Int) = d.exponent := by
    rw [List.length_append,List.length_replicate]
    have := lead_eq d
    omega
  rw [place,afterFraction_ends _ _ _ ends] at point
  simpa using point

include positive

theorem unsigned_inside (whole : 0 ≤ d.lead) (broken : d.exponent < 0) :
    unsigned negative ((Numeral.ofNat d.digits).take (d.lead + 1).toNat ++ ['.'] ++
      (Numeral.ofNat d.digits).drop (d.lead + 1).toNat ++ rest) =
        realOf negative d.digits d.exponent rest := by
  have lead := lead_eq d
  obtain ⟨m,leads,read⟩ := leads_take positive (show 0 < (d.lead + 1).toNat by omega)
  have place : -(((Numeral.ofNat d.digits).drop (d.lead + 1).toNat).length : Int) =
      d.exponent := by
    rw [List.length_drop]
    omega
  have given : (Numeral.ofNat d.digits).drop (d.lead + 1).toNat ≠ [] := by
    rw [ne_eq,List.drop_eq_nil_iff]
    omega
  have point := unsigned_point leads read given bounded negative (startsWithDigit_ends ends)
  rw [place,afterFraction_ends _ _ _ ends] at point
  simpa using point

theorem unsigned_exponent (near : d.lead.natAbs ≤ 2147483647) :
    unsigned negative ((Numeral.ofNat d.digits).take 1 ++
      (if (Numeral.ofNat d.digits).length == 1 then [] else
        '.' :: (Numeral.ofNat d.digits).drop 1) ++ ['e'] ++
      ((if d.lead < 0 then '-' else '+') :: Numeral.ofNat d.lead.natAbs) ++ rest) =
        realOf negative d.digits d.exponent rest := by
  have lead := lead_eq d
  obtain ⟨m,leads,read⟩ := leads_take positive Nat.one_pos
  have stop := startsWithDigit_ends ends
  have shift (start : Int) (place : start + d.lead = d.exponent) :
      exponentPart negative d.digits start
        (((if d.lead < 0 then '-' else '+') :: Numeral.ofNat d.lead.natAbs) ++ rest) =
          realOf negative d.digits d.exponent rest := by
    have part := exponentPart_written near (decide (d.lead < 0)) negative d.digits start stop
    have sum : (if decide (d.lead < 0) = true then start - d.lead.natAbs
        else start + d.lead.natAbs) = d.exponent := by
      simp only [decide_eq_true_eq]
      split <;> omega
    rw [sum] at part
    simpa using part
  by_cases single : (Numeral.ofNat d.digits).length = 1
  · have whole : (Numeral.ofNat d.digits).take 1 = Numeral.ofNat d.digits :=
      List.take_of_length_le (by omega)
    have alone := leads_zeros positive 0
    rw [List.replicate_zero,List.append_nil,Nat.pow_zero,Nat.mul_one] at alone
    have integer := unsigned_digits alone bounded negative
      (show startsWithDigit ('e' :: (((if d.lead < 0 then '-' else '+') ::
        Numeral.ofNat d.lead.natAbs) ++ rest)) = false from rfl)
    have part := integer.trans (shift 0 (by omega))
    rw [whole,if_pos (by simpa using single)]
    simpa using part
  · have several := List.length_pos_iff.mpr (written_given d.digits)
    have given : (Numeral.ofNat d.digits).drop 1 ≠ [] := by
      rw [ne_eq,List.drop_eq_nil_iff]
      omega
    have place : -(((Numeral.ofNat d.digits).drop 1).length : Int) + d.lead = d.exponent := by
      rw [List.length_drop]
      omega
    have point := unsigned_point leads read given bounded negative
      (show startsWithDigit ('e' :: (((if d.lead < 0 then '-' else '+') ::
        Numeral.ofNat d.lead.natAbs) ++ rest)) = false from rfl)
    have part := point.trans (shift _ place)
    rw [if_neg (by simpa using single)]
    simpa using part

omit bounded

theorem unsigned_whole
    (room : d.digits * 10 ^ d.exponent.toNat * 10 ≤ greatestSignificand) :
    unsigned negative (Numeral.ofNat d.digits ++ List.replicate d.exponent.toNat '0' ++
      ['.','0'] ++ rest) =
        realOf negative (d.digits * 10 ^ d.exponent.toNat * 10) (-1) rest := by
  have read (n : Nat) : readDigits n ['0'] = some (n * 10) := rfl
  have point := unsigned_point (leads_zeros positive d.exponent.toNat) (read _)
    (List.cons_ne_nil _ _) room negative (startsWithDigit_ends ends)
  rw [afterFraction_ends _ _ _ ends] at point
  simpa using point

end

def ReadAs (d : Decimal) (digits : Nat) (exponent : Int) : Prop :=
  digits = d.digits ∧ exponent = d.exponent ∨
    0 < digits ∧ digits ≤ 10 ^ 17 ∧ exponent = -1

theorem zeros_room {digits : Nat} (positive : 0 < digits) {zeros : Nat}
    (places : (Numeral.ofNat digits).length + zeros ≤ 16) :
    digits * 10 ^ zeros * 10 ≤ 10 ^ 17 := by
  have less := (ofNat_length_bounds positive).2
  calc digits * 10 ^ zeros * 10
      ≤ 10 ^ (Numeral.ofNat digits).length * 10 ^ zeros * 10 :=
        Nat.mul_le_mul_right _ (Nat.mul_le_mul_right _ less.le)
    _ = 10 ^ ((Numeral.ofNat digits).length + zeros) * 10 := by rw [Nat.pow_add]
    _ ≤ 10 ^ 16 * 10 := Nat.mul_le_mul_right _ (Nat.pow_le_pow_right (by decide) places)
    _ ≤ 10 ^ 17 := by decide

-- Wherever the point or the exponent of a decimal is written, the reader comes back to digits and a
-- power of ten.
theorem unsigned_layout {d : Decimal} (positive : 0 < d.digits)
    (few : d.digits ≤ 10 ^ 17) (least : -1076 ≤ d.lead) (greatest : d.lead ≤ 1024)
    (negative : Bool) :
    ∃ digits exponent, ReadAs d digits exponent ∧ ∀ rest, endsInteger rest = true →
      unsigned negative (layout d ++ rest) = realOf negative digits exponent rest := by
  have bounded : d.digits ≤ greatestSignificand := few.trans (by decide)
  have lead : d.exponent + Int.ofNat (Numeral.ofNat d.digits).length - 1 = d.lead := rfl
  simp only [layout,lead]
  split
  · rename_i positional
    split
    · rename_i small
      refine ⟨d.digits,d.exponent,Or.inl ⟨rfl,rfl⟩,fun rest ends => ?_⟩
      exact unsigned_zeros bounded negative ends small
    split
    · rename_i whole
      have places : (Numeral.ofNat d.digits).length + d.exponent.toNat ≤ 16 := by
        simp only [TableView.Number.Shortest.positional,Bool.and_eq_true,
          decide_eq_true_eq] at positional
        have := lead_eq d
        omega
      have shown := zeros_room positive places
      refine ⟨_,-1,Or.inr ⟨by positivity,shown,rfl⟩,fun rest ends => ?_⟩
      exact unsigned_whole positive negative ends (shown.trans (by decide))
    · rename_i large broken
      refine ⟨d.digits,d.exponent,Or.inl ⟨rfl,rfl⟩,fun rest ends => ?_⟩
      exact unsigned_inside positive bounded negative ends (by omega) (by omega)
  · refine ⟨d.digits,d.exponent,Or.inl ⟨rfl,rfl⟩,fun rest ends => ?_⟩
    exact unsigned_exponent positive bounded negative ends (by omega)

theorem realOf_given {x : Binary64} (valid : x.Valid) (positive : 0 < x.mantissa)
    {digits : Nat} {exponent : Int} (read : ReadAs (shortest x).strip digits exponent)
    (negative : Bool) :
    ∃ y : Binary64, ∀ rest, realOf negative digits exponent rest = .ok (.real y,rest) := by
  have inside : ∃ y, Binary64.ofDecimal? negative digits exponent = some y ∧
      -2147483648 ≤ exponent ∧ exponent ≤ 2147483647 := by
    rcases read with ⟨rfl,rfl⟩ | ⟨some_,few,rfl⟩
    · obtain ⟨y,given⟩ := TableView.Number.Shortest.shortest_given valid positive negative
      obtain ⟨least,greatest⟩ := TableView.Number.Shortest.strip_lead_bounds valid positive
      have digits := (shortest x).strip_digits.1.trans
        (TableView.Number.Shortest.shortest_inside valid positive).2
      have power := (ofNat_length_bounds
        (TableView.Number.Shortest.strip_positive valid positive)).1
      have length : (Numeral.ofNat (shortest x).strip.digits).length ≤ 18 :=
        (Nat.pow_le_pow_iff_right (by decide)).mp (power.trans (Nat.mul_le_mul_left 10 digits))
      have lead := lead_eq (shortest x).strip
      exact ⟨y,given,by omega,by omega⟩
    · have down : ¬(0 : Int) ≤ -1 := by decide
      obtain ⟨y,given⟩ := Binary64.ofDecimal?_given negative
        ⟨some_,few,fun up => absurd up down⟩
      exact ⟨y,given,by decide,by decide⟩
  obtain ⟨y,given,least,greatest⟩ := inside
  refine ⟨y,fun rest => ?_⟩
  have kept : max (-2147483648) (min 2147483647 exponent) = exponent := by omega
  rw [realOf,kept,given]

def body (x : Binary64) : List Char :=
  if x.isZero then ['0','.','0'] else layout (shortest x).strip

theorem unsigned_body {x : Binary64} (valid : x.Valid) (negative : Bool) :
    ∃ y : Binary64, ∀ rest, endsInteger rest = true →
      unsigned negative (body x ++ rest) = .ok (.real y,rest) := by
  rw [body]
  split
  · have read : ∀ negative, (Binary64.ofDecimal? negative 0 (-1)).isSome := by decide +kernel
    obtain ⟨y,given⟩ := Option.isSome_iff_exists.mp (read negative)
    refine ⟨y,fun rest ends => ?_⟩
    have point := unsigned_point leads_zero (show readDigits 0 ['0'] = some 0 from rfl)
      (List.cons_ne_nil _ _) (Nat.zero_le _) negative (startsWithDigit_ends ends)
    rw [afterFraction_ends _ _ _ ends] at point
    refine point.trans ?_
    have kept : max (-2147483648) (min 2147483647 (-1)) = (-1 : Int) := by decide
    rw [List.length_singleton,realOf]
    simp only [Nat.cast_one,kept,given]
  · rename_i some_
    have positive : 0 < x.mantissa := by
      simp only [Binary64.isZero,beq_iff_eq] at some_
      omega
    have few := (shortest x).strip_digits.1.trans
      (TableView.Number.Shortest.shortest_inside valid positive).2
    obtain ⟨least,greatest⟩ := TableView.Number.Shortest.strip_lead_bounds valid positive
    obtain ⟨digits,exponent,read,back⟩ := unsigned_layout
      (TableView.Number.Shortest.strip_positive valid positive) few least greatest negative
    obtain ⟨y,given⟩ := realOf_given valid positive read negative
    exact ⟨y,fun rest ends => (back rest ends).trans (given rest)⟩

theorem unsigned_head {negative : Bool} {s : List Char} {read : Number × List Char}
    (given : unsigned negative s = .ok read) : ∃ c tail, s = c :: tail ∧ isDigit c = true := by
  cases s with
  | nil => cases given
  | cons c tail =>
    refine ⟨c,tail,rfl,?_⟩
    cases digit : digitValue? c with
    | none =>
      rw [unsigned,digit] at given
      cases given
    | some d => rw [isDigit,digit]; rfl

-- The reader does not round as the writer does, and may give a neighbour of the number written.
theorem number_real {x : Binary64} (valid : x.Valid) :
    (∃ c tail, TableView.Number.Shortest.write x = c :: tail ∧ startsNumber c = true) ∧
    ∃ y : Binary64, ∀ rest, endsInteger rest = true →
      number (TableView.Number.Shortest.write x ++ rest) = .ok (.real y,rest) := by
  obtain ⟨y,read⟩ := unsigned_body valid x.negative
  obtain ⟨c,tail,first,digit⟩ := unsigned_head (read [] rfl)
  rw [List.append_nil] at first
  have written : TableView.Number.Shortest.write x =
      if x.negative then '-' :: body x else body x := rfl
  rw [written]
  split
  · rename_i negative
    rw [negative] at read
    exact ⟨⟨_,_,rfl,rfl⟩,y,fun rest ends => read rest ends⟩
  · rename_i positive
    rw [Bool.not_eq_true] at positive
    rw [positive] at read
    refine ⟨⟨c,tail,first,by rw [startsNumber,digit,Bool.or_true]⟩,y,fun rest ends => ?_⟩
    have solid : c ≠ '-' := by
      rintro rfl
      cases digit
    have same : number (body x ++ rest) = unsigned false (body x ++ rest) := by
      rw [first,List.cons_append]
      unfold number
      split
      · rename_i minus
        exact absurd (List.cons.inj minus).1 solid
      · rfl
    exact same.trans (read rest ends)

end TableView.Json.Scan
