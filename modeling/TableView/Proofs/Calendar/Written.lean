import TableView.Calendar.Format
import TableView.Proofs.Calendar.Date
import TableView.Proofs.Text.Blank
import TableView.Proofs.Text.Numeral

namespace TableView

open Text.Numeral (digit)

theorem Text.digit_bounds {c : Char} (isDigit : c.isDigit = true) : 48 ≤ c.toNat ∧ c.toNat ≤ 57 := by
  simp only [Char.isDigit,ge_iff_le,Bool.and_eq_true,decide_eq_true_eq,
    UInt32.le_iff_toNat_le] at isDigit
  exact isDigit

theorem Text.isBlank_digit {c : Char} (isDigit : c.isDigit = true) : isBlank c = false := by
  have bounds := digit_bounds isDigit
  simp only [isBlank,Bool.or_eq_false_iff,Bool.and_eq_false_iff,decide_eq_false_iff_not,
    beq_eq_false_iff_ne]
  omega

namespace Calendar.Scan

def lastDigits : Nat → Nat → List Char
  | 0,_ => []
  | count + 1,n => lastDigits count (n / 10) ++ [digit (n % 10)]

theorem lastDigits_length (count n : Nat) : (lastDigits count n).length = count := by
  induction count generalizing n with
  | zero => rfl
  | succ count ih => rw [lastDigits,List.length_append,ih]; rfl

theorem digit_value : ∀ d < 10, (digit d).isDigit = true ∧ digitValue (digit d) = d := by decide

theorem lastDigits_isDigit (count n : Nat) : ∀ c ∈ lastDigits count n, c.isDigit = true := by
  induction count generalizing n with
  | zero => intro c member; cases member
  | succ count ih =>
    rw [lastDigits,List.forall_mem_append,List.forall_mem_singleton]
    exact ⟨ih (n / 10),(digit_value (n % 10) (Nat.mod_lt n (by omega))).1⟩

theorem valueOf_lastDigits (count n : Nat) : valueOf (lastDigits count n) = n % 10 ^ count := by
  induction count generalizing n with
  | zero => rw [Nat.pow_zero,Nat.mod_one]; rfl
  | succ count ih =>
    have value := (digit_value (n % 10) (Nat.mod_lt n (by omega))).2
    have front := ih (n / 10)
    rw [valueOf] at front
    rw [valueOf,lastDigits,List.foldl_append,front,List.foldl_cons,List.foldl_nil,value,
      Nat.pow_succ,Nat.mul_comm (10 ^ count) 10,Nat.mod_mul]
    omega

theorem digits_take {front rest : List Char} (all : ∀ c ∈ front, c.isDigit = true) {n : Nat}
    (ends : front.length < n → ∀ c ∈ rest.head?, c.isDigit = false) :
    digits (some n) (front ++ rest) = (front.take n,front.drop n ++ rest) := by
  induction front generalizing n with
  | nil =>
    cases n with
    | zero => cases rest <;> rfl
    | succ n =>
      cases rest with
      | nil => rfl
      | cons c rest =>
        rw [List.nil_append,digits]
        · rw [if_neg (by simp [ends (Nat.succ_pos n) c rfl])]
          rfl
        · simp
  | cons c front ih =>
    obtain ⟨first,others⟩ := List.forall_mem_cons.mp all
    cases n with
    | zero => rfl
    | succ n =>
      have left := ih others (fun less => ends (Nat.succ_lt_succ less))
      rw [List.cons_append,digits,if_pos first]
      · simp only [Option.map_some,Nat.add_sub_cancel,left]
        rfl
      · simp

theorem digits_lastDigits (count n : Nat) (rest : List Char) :
    digits (some count) (lastDigits count n ++ rest) = (lastDigits count n,rest) := by
  have length := lastDigits_length count n
  rw [digits_take (lastDigits_isDigit count n) (fun less => absurd length (Nat.ne_of_lt less)),
    List.take_of_length_le (Nat.le_of_eq length),List.drop_of_length_le (Nat.le_of_eq length)]
  rfl

theorem fixedNumber_lastDigits {count n : Nat} (small : n < 10 ^ count) (rest : List Char) :
    fixedNumber count (lastDigits count n ++ rest) = some (n,rest) := by
  simp only [fixedNumber,digits_lastDigits,lastDigits_length,valueOf_lastDigits,if_true,
    Nat.mod_eq_of_lt small]

theorem number_lastDigits {count n : Nat} (asked : 0 < count) (small : n < 10 ^ count)
    (fits : n < 2 ^ 63) (rest : List Char) :
    number (some count) (lastDigits count n ++ rest) = some (n,rest) := by
  have nonempty : (lastDigits count n).isEmpty = false := by
    rw [List.isEmpty_eq_false_iff,←List.length_pos_iff,lastDigits_length]
    exact asked
  simp only [number,digits_lastDigits,valueOf_lastDigits,Nat.mod_eq_of_lt small,nonempty,
    Bool.false_or,decide_eq_true_eq,if_neg (Nat.not_le.mpr fits)]

theorem sign_cons (c : Char) (rest : List Char) : sign c (c :: rest) = some ((),rest) := by
  rw [sign,if_pos rfl]

theorem lastDigits_first {count n : Nat} (asked : 0 < count) (rest : List Char) :
    ∃ c tail, lastDigits count n ++ rest = c :: tail ∧ c.isDigit = true := by
  obtain ⟨c,tail,whole⟩ := List.exists_cons_of_length_pos
    (show 0 < (lastDigits count n).length by rw [lastDigits_length]; exact asked)
  refine ⟨c,tail ++ rest,by rw [whole]; rfl,?_⟩
  exact lastDigits_isDigit count n c (by rw [whole]; exact List.mem_cons_self)

end Calendar.Scan

namespace Date

theorem monthLength_le (year : Int) {month : Nat} (first : 1 ≤ month) (last : month ≤ 12) :
    monthLength year month ≤ 31 := by
  have all : ∀ leap ≤ 1, ∀ m ≤ 12, 1 ≤ m →
      (if m = 12 then 365 + leap else daysBefore (m + 1) + if 2 < m + 1 then leap else 0) -
        (daysBefore m + if 2 < m then leap else 0) ≤ 31 := by decide
  exact all (leapDay year) (leapDay_le year) month last first

def written (d : Date) : List Char :=
  Calendar.Scan.lastDigits 4 d.year.toNat ++
    '-' :: (Calendar.Scan.lastDigits 2 d.month ++ '-' :: Calendar.Scan.lastDigits 2 d.day)

theorem written_append (d : Date) (rest : List Char) : d.written ++ rest =
    Calendar.Scan.lastDigits 4 d.year.toNat ++ '-' :: (Calendar.Scan.lastDigits 2 d.month ++
      '-' :: (Calendar.Scan.lastDigits 2 d.day ++ rest)) := by
  simp only [written,List.append_assoc,List.cons_append]

structure Common (d : Date) : Prop where
  valid : d.Valid
  first : 0 ≤ d.year
  last : d.year ≤ 9999

instance (d : Date) : Decidable d.Common :=
  decidable_of_iff (d.Valid ∧ 0 ≤ d.year ∧ d.year ≤ 9999)
    ⟨fun ⟨valid,first,last⟩ => ⟨valid,first,last⟩,
      fun common => ⟨common.valid,common.first,common.last⟩⟩

def midnight (d : Date) : List Char := d.written ++ "T00:00:00Z".toList

namespace Common
variable {d : Date} (common : d.Common)
include common

theorem year_small : d.year.toNat < 10 ^ 4 := by
  have last := common.last
  omega

theorem year_eq : (d.year.toNat : Int) = d.year := Int.toNat_of_nonneg common.first

theorem month_small : 1 ≤ d.month ∧ d.month ≤ 12 :=
  ⟨common.valid.2.2.1,common.valid.2.2.2.1⟩

theorem day_small : 1 ≤ d.day ∧ d.day ≤ 31 := by
  obtain ⟨_,_,first,last,firstDay,lastDay⟩ := common.valid
  exact ⟨firstDay,Nat.le_trans lastDay (monthLength_le d.year first last)⟩

theorem two_digits : d.month < 10 ^ 2 ∧ d.day < 10 ^ 2 := by
  have month := common.month_small
  have day := common.day_small
  omega

theorem of?_same : of? d.year d.month d.day = some d := by
  rw [of?,if_pos common.valid]

end Common

end Date

namespace Calendar

open Scan (lastDigits)

theorem trimStart_lastDigits {count n : Nat} (asked : 0 < count) (rest : List Char) :
    Text.Chars.trimStart (lastDigits count n ++ rest) = lastDigits count n ++ rest := by
  obtain ⟨c,tail,whole,isDigit⟩ := Scan.lastDigits_first (n := n) asked rest
  refine Text.Chars.dropWhile_solid ?_
  rw [whole]
  intro d first
  cases first
  exact Text.isBlank_digit isDigit

theorem Scan.signedNumber_lastDigits {n : Nat} (small : n < 10 ^ 4) (rest : List Char) :
    signedNumber 4 (lastDigits 4 n ++ rest) = some ((n : Int),rest) := by
  obtain ⟨c,tail,whole,isDigit⟩ := lastDigits_first (n := n) (show 0 < 4 by decide) rest
  have read := number_lastDigits (by decide) small (by omega) rest
  rw [whole] at read ⊢
  rw [signedNumber.eq_def]
  split
  · rename_i same
    cases same
    exact absurd isDigit (by decide)
  · rename_i same
    cases same
    exact absurd isDigit (by decide)
  · rw [read]
    rfl

namespace Item

theorem scan_year {c : Clues} {n : Nat} (small : n < 10 ^ 4) (rest : List Char) :
    (numeral .year).scan c (lastDigits 4 n ++ rest) = (c.tellYear n).map (·,rest) := by
  rw [scan,trimStart_lastDigits (by decide),Numeral.scan,Scan.signedNumber_lastDigits small,
    Option.bind_eq_bind,Option.bind_some]

theorem scan_two {c : Clues} {n : Numeral} (width : n.width = some 2) {v : Nat}
    (small : v < 10 ^ 2) (rest : List Char) :
    (numeral n).scan c (lastDigits 2 v ++ rest) = (n.tell v c).map (·,rest) := by
  have read := Scan.number_lastDigits (by decide) small (by omega) rest
  rw [scan,trimStart_lastDigits (by decide),Numeral.scan.eq_def]
  split
  · cases width
  · cases width
  · rw [width,read,Option.bind_eq_bind,Option.bind_some]

theorem scan_sign (c : Clues) (d : Char) (rest : List Char) :
    (sign d).scan c (d :: rest) = some (c,rest) := by
  have starts : [d].isPrefixOf (d :: rest) = true :=
    List.isPrefixOf_iff_prefix.mpr (List.prefix_append [d] rest)
  rw [sign,scan,if_pos starts]
  rfl

end Item

end Calendar

namespace Date

def clues (d : Date) : Clues := { year := some d.year, month := some d.month, day := some d.day }

variable {d : Date}

theorem Common.clues_written (common : d.Common) :
    Calendar.Format.clues {} d.written (Calendar.Item.dateParts '-' .year .month .day) =
      some d.clues := by
  have year : Clues.tellYear d.year.toNat {} = some { year := some d.year } := by
    have last := common.year_small
    have inRange : Clues.inInt32 d.year.toNat = true := by
      simp only [Clues.inInt32,Bool.and_eq_true,decide_eq_true_eq]
      omega
    rw [Clues.tellYear,if_pos inRange,common.year_eq]
    rfl
  have month : Clues.tellMonth d.month { year := some d.year } =
      some { year := some d.year, month := some d.month } := by
    have inRange : (decide (1 ≤ d.month) && decide (d.month ≤ 12)) = true := by
      simpa using common.month_small
    rw [Clues.tellMonth,if_pos inRange]
    rfl
  have day : Clues.tellDay d.day { year := some d.year, month := some d.month } = some d.clues := by
    have inRange : (decide (1 ≤ d.day) && decide (d.day ≤ 31)) = true := by
      simpa using common.day_small
    rw [Clues.tellDay,if_pos inRange]
    rfl
  have last := d.written_append []
  obtain ⟨twoMonth,twoDay⟩ := common.two_digits
  rw [List.append_nil] at last
  rw [last,Calendar.Item.dateParts]
  simp only [Calendar.Format.clues,Option.bind_eq_bind,Calendar.Item.scan_sign,
    Calendar.Item.scan_year common.year_small,year,
    Calendar.Item.scan_two (n := .month) rfl twoMonth,Calendar.Numeral.tell,month,
    Calendar.Item.scan_two (n := .day) rfl twoDay,day,Option.map_some,Option.bind_some]
  rfl

theorem Common.toDate_clues (common : d.Common) : d.clues.toDate = .ok d := by
  have iso : d.clues.agreesIsoWeek d = true := by
    simp [Clues.agreesIsoWeek,Clues.agreesYear,clues]
  have ordinal : d.clues.agreesOrdinal d = true := rfl
  have found : d.clues.candidate (some d.year) none = .ok (true,d) := by
    have date : Date.of? d.year d.month d.day = some d := common.of?_same
    simp only [Clues.candidate,clues,date,Clues.orImpossible,bind,Except.bind]
    rw [←clues,iso,ordinal]
    rfl
  have year : Clues.resolveYear d.clues.year d.clues.century d.clues.yearOfCentury =
      .ok (some d.year) := rfl
  have isoYear : Clues.resolveYear d.clues.isoYear none d.clues.isoYearOfCentury = .ok none := rfl
  simp only [Clues.toDate,year,isoYear,found,bind,Except.bind]
  rfl

theorem Common.seconds?_clues (common : d.Common) :
    Calendar.Format.seconds? d.clues = some (d.toDays * Clues.secondsPerDay) := by
  have date := common.toDate_clues
  have here : d.clues.toLocal 0 = .error .missing := by
    rw [Clues.toLocal,date]
    rfl
  have instant : d.clues.toInstant = none := rfl
  rw [Calendar.Format.seconds?,instant,here,date]

theorem Common.parse?_written (common : d.Common) :
    Calendar.Format.parse? "%Y-%m-%d".toList d.written =
      some (d.toDays * Clues.secondsPerDay) := by
  have items : Calendar.Format.ofChars? "%Y-%m-%d".toList =
      some (Calendar.Item.dateParts '-' .year .month .day) := by decide
  simp only [Calendar.Format.parse?,items,Option.bind_eq_bind,Option.bind_some,
    common.clues_written,common.seconds?_clues]

end Date

example : Date.midnight ⟨7,2,28⟩ = "0007-02-28T00:00:00Z".toList := by decide

end TableView
