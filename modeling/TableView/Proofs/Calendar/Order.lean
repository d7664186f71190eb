import Mathlib.Data.Nat.Init
import TableView.Proofs.Calendar.Date

namespace TableView.Date

def Earlier (d e : Date) : Prop :=
  d.year < e.year ∨ d.year = e.year ∧
    (d.month < e.month ∨ d.month = e.month ∧ d.day < e.day)

def UpTo (d e : Date) : Prop := d.Earlier e ∨ d = e

instance (d e : Date) : Decidable (d.Earlier e) := by
  unfold Earlier; infer_instance

instance (d e : Date) : Decidable (d.UpTo e) := by
  unfold UpTo; infer_instance

theorem earlier_trichotomy (d e : Date) : d.Earlier e ∨ d = e ∨ e.Earlier d := by
  obtain ⟨y,m,a⟩ := d
  obtain ⟨z,n,b⟩ := e
  simp only [Earlier,Date.mk.injEq]
  omega

theorem isLeap_iff (year : Int) :
    isLeap year = true ↔ year % 4 = 0 ∧ (year % 100 ≠ 0 ∨ year % 400 = 0) := by
  simp [isLeap]

theorem daysBeforeYear_next (year : Int) :
    daysBeforeYear (year + 1) = daysBeforeYear year + yearLength year := by
  have leap := isLeap_iff year
  simp only [daysBeforeYear,yearLength,leapDay]
  split
  · rename_i is
    obtain ⟨fourth,kept⟩ := leap.mp is
    omega
  · rename_i isNot
    have common := mt leap.mpr isNot
    omega

theorem daysBeforeYear_le {year later : Int} (before : year < later) :
    daysBeforeYear year + yearLength year ≤ daysBeforeYear later := by
  obtain ⟨n,rfl⟩ : ∃ n : Nat, later = year + 1 + n := ⟨(later - (year + 1)).toNat,by omega⟩
  induction n with
  | zero =>
    rw [←daysBeforeYear_next]
    exact Int.le_of_eq (congrArg daysBeforeYear (Int.add_zero _).symm)
  | succ n ih =>
    have earlier := ih (by omega)
    have step := daysBeforeYear_next (year + 1 + n)
    have same : year + 1 + ((n + 1 : Nat) : Int) = year + 1 + n + 1 := by omega
    rw [same,step]
    omega

theorem daysBeforeMonth_le_next (year : Int) {month : Nat} (first : 1 ≤ month)
    (last : month < 12) : daysBeforeMonth year month ≤ daysBeforeMonth year (month + 1) := by
  have common : ∀ m < 12, 1 ≤ m → daysBefore m ≤ daysBefore (m + 1) := by decide
  have days := common month last first
  rw [daysBeforeMonth,daysBeforeMonth]
  split
  · rw [if_pos (by omega)]
    omega
  · omega

theorem monthEnd_le_next (year : Int) {month : Nat} (first : 1 ≤ month) (last : month < 12) :
    daysBeforeMonth year month + monthLength year month ≤ daysBeforeMonth year (month + 1) := by
  have grows := daysBeforeMonth_le_next year first last
  rw [monthLength,if_neg (Nat.ne_of_lt last)]
  omega

theorem monthEnd_le (year : Int) {month later : Nat} (first : 1 ≤ month) (before : month < later)
    (last : later ≤ 12) :
    daysBeforeMonth year month + monthLength year month ≤ daysBeforeMonth year later := by
  induction later, before using Nat.le_induction with
  | base => exact monthEnd_le_next year first (by omega)
  | succ later before ih =>
    exact Nat.le_trans (ih (by omega)) (daysBeforeMonth_le_next year (by omega) (by omega))

theorem monthEnd_le_year (year : Int) {month : Nat} (first : 1 ≤ month) (last : month ≤ 12) :
    daysBeforeMonth year month + monthLength year month ≤ yearLength year := by
  have december : daysBeforeMonth year 12 + monthLength year 12 ≤ yearLength year := by
    have leap : daysBeforeMonth year 12 = 334 + leapDay year := rfl
    rw [monthLength,if_pos rfl,leap,yearLength]
    omega
  rcases Nat.eq_or_lt_of_le last with rfl | before
  · exact december
  · exact Nat.le_trans (monthEnd_le year first before (Nat.le_refl 12)) (by omega)

theorem toDays_earlier {d e : Date} (validD : d.Valid) (validE : e.Valid) (earlier : d.Earlier e) :
    d.toDays < e.toDays := by
  obtain ⟨_,_,firstMonth,lastMonth,firstDay,lastDay⟩ := validD
  obtain ⟨_,_,_,lastMonthE,firstDayE,_⟩ := validE
  rw [toDays,toDays,ordinal,ordinal]
  rcases earlier with year | ⟨year,month | ⟨month,day⟩⟩
  · have years := daysBeforeYear_le year
    have inYear := monthEnd_le_year d.year firstMonth lastMonth
    omega
  · rw [year] at lastDay ⊢
    have months := monthEnd_le e.year firstMonth month lastMonthE
    omega
  · rw [year,month]
    omega

theorem toDays_le_iff {d e : Date} (validD : d.Valid) (validE : e.Valid) :
    d.toDays ≤ e.toDays ↔ d.UpTo e := by
  constructor
  · intro notMore
    rcases earlier_trichotomy d e with earlier | same | later
    · exact .inl earlier
    · exact .inr same
    · have more := toDays_earlier validE validD later
      omega
  · rintro (earlier | rfl)
    · exact Int.le_of_lt (toDays_earlier validD validE earlier)
    · exact Int.le_refl _

end TableView.Date
