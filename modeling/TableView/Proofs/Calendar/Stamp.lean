import Mathlib.Data.Rat.Floor
import Mathlib.Tactic.Linarith
import Mathlib.Tactic.Positivity
import Mathlib.Tactic.Ring
import TableView.Calendar.Scan
import TableView.Proofs.Calendar.Written

namespace TableView.Calendar

open Scan (lastDigits)

def OfInstant (c : Char) : Prop :=
  c.isDigit = true ∨ c ∈ ['-',':','.','+','T','t',' ','Z','z']

instance (c : Char) : Decidable (OfInstant c) := by unfold OfInstant; infer_instance

inductive Zone where
  | universal (letter : Char)
  | shifted (behind : Bool) (hours minutes : Nat)
deriving DecidableEq,Repr

namespace Zone

def written : Zone → List Char
  | universal letter => [letter]
  | shifted behind hours minutes =>
    (if behind then '-' else '+') :: (lastDigits 2 hours ++ ':' :: lastDigits 2 minutes)

def seconds : Zone → Int
  | universal _ => 0
  | shifted behind hours minutes =>
    if behind then -((hours : Int) * 3600 + minutes * 60) else hours * 3600 + minutes * 60

def Valid : Zone → Prop
  | universal letter => letter = 'Z' ∨ letter = 'z'
  | shifted _ hours minutes => hours ≤ 23 ∧ minutes ≤ 59

instance : (z : Zone) → Decidable z.Valid
  | universal letter => inferInstanceAs (Decidable (letter = 'Z' ∨ letter = 'z'))
  | shifted _ hours minutes => inferInstanceAs (Decidable (hours ≤ 23 ∧ minutes ≤ 59))

variable {z : Zone} (valid : z.Valid)
include valid

theorem offset_written : Scan.offset .colon true false z.written = some (z.seconds,[]) := by
  cases z with
  | universal letter =>
    rcases valid with rfl | rfl
    · rfl
    · rfl
  | shifted behind hours minutes =>
    obtain ⟨hour,minute⟩ := valid
    have readHours := Scan.fixedNumber_lastDigits (show hours < 10 ^ 2 by omega)
      (':' :: lastDigits 2 minutes)
    have readMinutes := Scan.fixedNumber_lastDigits (show minutes < 10 ^ 2 by omega) []
    rw [List.append_nil] at readMinutes
    have below : Scan.minutes false (lastDigits 2 minutes) = some (minutes,[]) := by
      simp only [Scan.minutes,Bool.false_and,readMinutes]
      rw [if_neg (by decide),if_pos (by omega)]
    cases behind <;>
    simp [written,seconds,Scan.offset,Scan.offsetSign,readHours,Scan.Divider.skip,below]

theorem seconds_bounds : -86340 ≤ z.seconds ∧ z.seconds ≤ 86340 := by
  cases z with
  | universal letter => simp [seconds]
  | shifted behind hours minutes =>
    obtain ⟨hour,minute⟩ := valid
    cases behind <;> simp only [seconds,if_true,Bool.false_eq_true,if_false] <;> omega

theorem written_first : ∃ c tail, z.written = c :: tail ∧ c.isDigit = false ∧ c ≠ '.' := by
  cases z with
  | universal letter =>
    refine ⟨letter,[],rfl,?_⟩
    rcases valid with rfl | rfl
    · decide
    · decide
  | shifted behind hours minutes =>
    refine ⟨_,_,rfl,?_⟩
    cases behind <;> decide

theorem written_last : ∃ front c, z.written = front ++ [c] ∧ Text.isBlank c = false := by
  cases z with
  | universal letter =>
    refine ⟨[],letter,rfl,?_⟩
    rcases valid with rfl | rfl
    · decide
    · decide
  | shifted behind hours minutes =>
    refine ⟨(if behind then '-' else '+') ::
      (lastDigits 2 hours ++ ':' :: lastDigits 1 (minutes / 10)),_,?_,Text.isBlank_digit
        (Scan.digit_value (minutes % 10) (Nat.mod_lt _ (by decide))).1⟩
    simp [written,lastDigits]

theorem written_chars : ∀ c ∈ z.written, OfInstant c := by
  cases z with
  | universal letter =>
    rw [written,List.forall_mem_singleton]
    rcases valid with rfl | rfl
    · decide
    · decide
  | shifted behind hours minutes =>
    have digits (n : Nat) : ∀ c ∈ lastDigits 2 n, OfInstant c :=
      fun c member => .inl (Scan.lastDigits_isDigit 2 n c member)
    rw [written,List.forall_mem_cons,List.forall_mem_append,List.forall_mem_cons]
    refine ⟨?_,digits hours,by decide,digits minutes⟩
    cases behind
    · decide
    · decide

end Zone

-- An instant as it is written. Without digits for parts of a second there is no point.
structure Stamp where
  date : Date
  divider : Char
  hour : Nat
  minute : Nat
  second : Nat
  part : List Char
  zone : Zone
deriving DecidableEq,Repr

namespace Stamp

def partText (s : Stamp) : List Char := if s.part = [] then [] else '.' :: s.part

def written (s : Stamp) : List Char :=
  s.date.written ++ s.divider :: (lastDigits 2 s.hour ++ ':' :: (lastDigits 2 s.minute ++
    ':' :: (lastDigits 2 s.second ++ (s.partText ++ s.zone.written))))

def whole (s : Stamp) : Int :=
  s.date.toDays * 86400 + (s.hour * 3600 + s.minute * 60 + s.second : Nat) - s.zone.seconds

-- The point on the time line, in seconds since the start of 1970.
def instant (s : Stamp) : ℚ := s.whole + Scan.valueOf s.part / 10 ^ s.part.length

theorem instant_whole {s : Stamp} (even : ∀ c ∈ s.part, c = '0') : s.instant = s.whole := by
  have zeros (front : List Char) (even : ∀ c ∈ front, c = '0') : Scan.valueOf front = 0 := by
    induction front with
    | nil => rfl
    | cons c front ih =>
      obtain ⟨rfl,others⟩ := List.forall_mem_cons.mp even
      exact ih others
  rw [instant,zeros s.part even,Nat.cast_zero,zero_div,add_zero]

structure Valid (s : Stamp) : Prop where
  date : s.date.Common
  divider : s.divider ∈ ['T','t',' ']
  hour : s.hour ≤ 23
  minute : s.minute ≤ 59
  second : s.second ≤ 59
  part : ∀ c ∈ s.part, c.isDigit = true
  zone : s.zone.Valid

-- The digits are looked at one by one, and not all characters.
instance (s : Stamp) : Decidable s.Valid :=
  decidable_of_iff (s.date.Common ∧ s.divider ∈ ['T','t',' '] ∧ s.hour ≤ 23 ∧ s.minute ≤ 59 ∧
      s.second ≤ 59 ∧ s.part.all Char.isDigit = true ∧ s.zone.Valid)
    ⟨fun ⟨date,divider,hour,minute,second,part,zone⟩ =>
      ⟨date,divider,hour,minute,second,List.all_eq_true.mp part,zone⟩,
    fun ⟨date,divider,hour,minute,second,part,zone⟩ =>
      ⟨date,divider,hour,minute,second,List.all_eq_true.mpr part,zone⟩⟩

end Stamp

namespace Scan

theorem digitValue_lt {c : Char} (isDigit : c.isDigit = true) : digitValue c < 10 := by
  have bounds := Text.digit_bounds isDigit
  rw [digitValue]
  omega

theorem valueOf_lt {front : List Char} (all : ∀ c ∈ front, c.isDigit = true) :
    valueOf front < 10 ^ front.length := by
  induction front using List.reverseRecOn with
  | nil => decide
  | append_singleton front c ih =>
    rw [List.forall_mem_append,List.forall_mem_singleton] at all
    have less := ih all.1
    have digit := digitValue_lt all.2
    rw [valueOf] at less
    rw [valueOf,List.foldl_append,List.foldl_cons,List.foldl_nil,List.length_append,
      List.length_singleton,Nat.pow_succ]
    omega

end Scan

namespace Stamp
variable {s : Stamp} (valid : s.Valid)
include valid

theorem partOfSecond_written :
    Instant.partOfSecond (s.partText ++ s.zone.written) = some ((),s.zone.written) := by
  obtain ⟨c,tail,zone,noDigit,noPoint⟩ := s.zone.written_first valid.zone
  have ends : ∀ d ∈ s.zone.written.head?, d.isDigit = false := by
    rw [zone]
    intro d first
    cases first
    exact noDigit
  rw [partText]
  split
  · rw [List.nil_append,zone,Instant.partOfSecond]
    rintro _ same
    cases same
    exact noPoint rfl
  · rename_i digits
    have taken : (s.part.take 9).isEmpty = false := by
      rw [List.isEmpty_eq_false_iff,ne_eq,List.take_eq_nil_iff]
      simp [digits]
    have passed : (s.part.drop 9 ++ s.zone.written).dropWhile Char.isDigit = s.zone.written := by
      have left : ∀ d ∈ s.part.drop 9, d.isDigit = true :=
        fun d member => valid.part d (List.mem_of_mem_drop member)
      rw [List.dropWhile_append_of_pos left,zone,List.dropWhile_cons_of_neg (by simp [noDigit])]
    rw [List.cons_append,Instant.partOfSecond,Scan.fraction,Scan.digits_take valid.part (fun _ => ends)]
    simp only [taken,passed]
    rfl

theorem dateEnd_divider (rest : List Char) :
    Instant.dateEnd (s.divider :: rest) = some ((),rest) := by
  have all : ['T','t',' '].all Instant.isDateEnd = true := by decide
  rw [Instant.dateEnd,if_pos (List.all_eq_true.mp all _ valid.divider)]

-- What is written is read, but for the part of a second.
theorem seconds?_written : Instant.seconds? s.written = some s.whole := by
  obtain ⟨twoMonth,twoDay⟩ := valid.date.two_digits
  have hour := valid.hour
  have minute := valid.minute
  have second := valid.second
  have offset := Zone.seconds_bounds valid.zone
  rw [written,Date.written_append,Instant.seconds?]
  refine Option.bind_eq_some_iff.mpr ⟨_,Scan.fixedNumber_lastDigits valid.date.year_small _,?_⟩
  refine Option.bind_eq_some_iff.mpr ⟨_,Scan.sign_cons '-' _,?_⟩
  refine Option.bind_eq_some_iff.mpr ⟨_,Scan.fixedNumber_lastDigits twoMonth _,?_⟩
  refine Option.bind_eq_some_iff.mpr ⟨_,Scan.sign_cons '-' _,?_⟩
  refine Option.bind_eq_some_iff.mpr ⟨_,Scan.fixedNumber_lastDigits twoDay _,?_⟩
  refine Option.bind_eq_some_iff.mpr ⟨_,dateEnd_divider valid _,?_⟩
  refine Option.bind_eq_some_iff.mpr ⟨_,Scan.fixedNumber_lastDigits (by omega) _,?_⟩
  refine Option.bind_eq_some_iff.mpr ⟨_,Scan.sign_cons ':' _,?_⟩
  refine Option.bind_eq_some_iff.mpr ⟨_,Scan.fixedNumber_lastDigits (by omega) _,?_⟩
  refine Option.bind_eq_some_iff.mpr ⟨_,Scan.sign_cons ':' _,?_⟩
  refine Option.bind_eq_some_iff.mpr ⟨_,Scan.fixedNumber_lastDigits (by omega) _,?_⟩
  refine Option.bind_eq_some_iff.mpr ⟨_,partOfSecond_written valid,?_⟩
  refine Option.bind_eq_some_iff.mpr ⟨_,Zone.offset_written valid.zone,?_⟩
  rw [valid.date.year_eq]
  refine Option.bind_eq_some_iff.mpr ⟨_,valid.date.of?_same,?_⟩
  dsimp only
  have inDay : ¬ (decide (s.zone.seconds < -offsetLimit) ||
      decide (offsetLimit < s.zone.seconds)) = true := by
    rw [Bool.or_eq_true,decide_eq_true_iff,decide_eq_true_iff,offsetLimit]
    omega
  rw [if_neg (by simp; omega),if_neg inDay,whole,Nat.min_eq_left second]
  rfl

theorem floor_instant : ⌊s.instant⌋ = s.whole := by
  have less : (Scan.valueOf s.part : ℚ) < 10 ^ s.part.length := by
    exact_mod_cast Scan.valueOf_lt valid.part
  have positive : (0 : ℚ) < 10 ^ s.part.length := by positivity
  rw [Int.floor_eq_iff,instant]
  constructor
  · have nonneg : (0 : ℚ) ≤ Scan.valueOf s.part / 10 ^ s.part.length := by positivity
    linarith
  · have below : (Scan.valueOf s.part : ℚ) / 10 ^ s.part.length < 1 := (div_lt_one positive).mpr less
    linarith

theorem whole_bounds : -2 ^ 62 < s.whole ∧ s.whole < 2 ^ 62 := by
  have days := Date.toDays_bounds valid.date.valid
  have offset := Zone.seconds_bounds valid.zone
  have hour := valid.hour
  have minute := valid.minute
  have second := valid.second
  rw [Date.dayLimit] at days
  rw [whole]
  omega

theorem written_ends : (∀ c ∈ s.written.head?, Text.isBlank c = false) ∧
    ∀ c ∈ s.written.getLast?, Text.isBlank c = false := by
  constructor
  · obtain ⟨c,tail,first,isDigit⟩ := Scan.lastDigits_first (n := s.date.year.toNat)
      (show 0 < 4 by decide) _
    rw [written,Date.written_append,first]
    intro d here
    cases here
    exact Text.isBlank_digit isDigit
  · obtain ⟨front,c,last,solid⟩ := s.zone.written_last valid.zone
    have ends : s.written.getLast? = some c := by
      rw [written,last]
      simp only [←List.cons_append,←List.append_assoc]
      exact List.getLast?_concat
    rw [ends]
    intro d here
    cases here
    exact solid

theorem written_chars : ∀ c ∈ s.written, OfInstant c := by
  have digits (count n : Nat) : ∀ c ∈ lastDigits count n, OfInstant c :=
    fun c member => .inl (Scan.lastDigits_isDigit count n c member)
  have divider : OfInstant s.divider := by
    have listed : ['T','t',' '].Sublist ['-',':','.','+','T','t',' ','Z','z'] := by decide
    exact .inr (listed.subset valid.divider)
  have part : ∀ c ∈ s.partText, OfInstant c := by
    rw [partText]
    split
    · simp
    · rw [List.forall_mem_cons]
      exact ⟨by decide,fun c member => .inl (valid.part c member)⟩
  simp only [written,Date.written,List.forall_mem_append,List.forall_mem_cons]
  exact ⟨⟨digits _ _,by decide,digits _ _,by decide,digits _ _⟩,divider,digits _ _,by decide,
    digits _ _,by decide,digits _ _,part,
    s.zone.written_chars valid.zone⟩

theorem slash_not_mem : '/' ∉ s.written := by
  intro member
  exact absurd (written_chars valid '/' member) (by decide)

end Stamp

section Midnight

def Stamp.ofDay (d : Date) : Stamp := ⟨d,'T',0,0,0,[],.universal 'Z'⟩

variable (d : Date)

theorem Stamp.ofDay_written : (ofDay d).written = d.midnight := by
  have time : 'T' :: (lastDigits 2 0 ++ ':' :: (lastDigits 2 0 ++ ':' :: (lastDigits 2 0 ++
      ([] ++ ['Z'])))) = "T00:00:00Z".toList := by decide
  exact congrArg (d.written ++ ·) time

theorem Stamp.ofDay_whole : (ofDay d).whole = d.toDays * Clues.secondsPerDay := by
  simp [whole,ofDay,Zone.seconds,Clues.secondsPerDay]

variable {d} in
theorem Stamp.ofDay_valid (common : d.Common) : (ofDay d).Valid where
  date := common
  divider := List.mem_cons_self
  hour := Nat.zero_le _
  minute := Nat.zero_le _
  second := Nat.zero_le _
  part := fun _ member => nomatch member
  zone := .inl rfl

end Midnight

end TableView.Calendar
