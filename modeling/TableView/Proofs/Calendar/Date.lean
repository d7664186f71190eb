import TableView.Calendar.Date

namespace TableView.Date

theorem of?_valid {year : Int} {month day : Nat} {d : Date} (given : of? year month day = some d) :
    d.Valid ∧ d.year = year := by
  unfold of? at given
  split at given
  · rename_i valid
    cases given
    exact ⟨valid,rfl⟩
  · cases given

theorem ofOrdinal?_valid {year : Int} {n : Nat} {d : Date} (given : ofOrdinal? year n = some d) :
    d.Valid ∧ d.year = year ∧ 1 ≤ n ∧ n ≤ yearLength year := by
  unfold ofOrdinal? at given
  split at given
  · rename_i inYear
    rw [Bool.and_eq_true,decide_eq_true_eq,decide_eq_true_eq] at inYear
    obtain ⟨valid,same⟩ := of?_valid given
    exact ⟨valid,same,inYear⟩
  · cases given

theorem ofDays?_valid {days : Int} {d : Date} (given : ofDays? days = some d) : d.Valid :=
  (ofOrdinal?_valid given).1

theorem ofIsoWeek?_valid {year : Int} {week weekday : Nat} {d : Date}
    (given : ofIsoWeek? year week weekday = some d) : d.Valid := by
  unfold ofIsoWeek? at given
  split at given
  · exact ofDays?_valid given
  · cases given

theorem leapDay_le (year : Int) : leapDay year ≤ 1 := by
  rw [leapDay]; split <;> omega

theorem yearLength_le (year : Int) : yearLength year ≤ 366 := by
  have leap := leapDay_le year
  rw [yearLength]; omega

theorem daysBefore_le (month : Nat) : daysBefore month ≤ 334 := by
  unfold daysBefore; split <;> omega

theorem daysBeforeMonth_le (year : Int) (month : Nat) : daysBeforeMonth year month ≤ 335 := by
  have days := daysBefore_le month
  have leap := leapDay_le year
  rw [daysBeforeMonth]; split <;> omega

theorem ordinal_le {d : Date} (valid : d.Valid) : d.ordinal ≤ 800 := by
  have before := daysBeforeMonth_le d.year d.month
  have next := daysBeforeMonth_le d.year (d.month + 1)
  have year := yearLength_le d.year
  have day : d.day ≤ monthLength d.year d.month := valid.2.2.2.2.2
  have length : monthLength d.year d.month ≤ 366 := by
    rw [monthLength]; split <;> omega
  rw [ordinal]
  omega

def dayLimit : Int := 100000000

theorem daysBeforeYear_bounds {year : Int} (first : firstYear ≤ year) (last : year ≤ lastYear) :
    -dayLimit + 1000000 ≤ daysBeforeYear year ∧ daysBeforeYear year ≤ dayLimit - 1000000 := by
  simp only [firstYear,lastYear,dayLimit,daysBeforeYear] at *
  omega

theorem toDays_bounds {d : Date} (valid : d.Valid) :
    -dayLimit ≤ d.toDays ∧ d.toDays ≤ dayLimit := by
  have year := daysBeforeYear_bounds valid.1 valid.2.1
  have ordinal := ordinal_le valid
  rw [toDays,epochDay]
  omega

theorem ofDays?_bounds {days : Int} {d : Date} (given : ofDays? days = some d) :
    -dayLimit ≤ days ∧ days ≤ dayLimit := by
  obtain ⟨valid,same,first,last⟩ := ofOrdinal?_valid given
  have length := yearLength_le (yearOf (days + epochDay))
  have year := daysBeforeYear_bounds (same ▸ valid.1) (same ▸ valid.2.1)
  simp only [epochDay] at *
  omega

end TableView.Date
