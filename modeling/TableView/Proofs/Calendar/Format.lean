import TableView.Calendar.Format
import TableView.Proofs.Calendar.Clues
import TableView.Text.Numeral

namespace TableView.Calendar

open Clues (KeepsTime Timed keepsTime_agree keepsTime_if)

theorem Numeral.tell_timed (v : Nat) (n : Numeral) : KeepsTime (fun c => n.tell v c) := by
  cases n with
  | year => exact Clues.tellYear_timed v
  | isoYear => exact Clues.tellIsoYear_timed v
  | month => exact Clues.tellMonth_timed v
  | ordinal => exact Clues.tellOrdinal_timed v
  | hour => exact Clues.tellHour_timed v
  | hourOfHalf => exact Clues.tellHourOfHalf_timed v
  | minute => exact Clues.tellMinute_timed v
  | second => exact Clues.tellSecond_timed v
  | nanosecond => exact Clues.tellNanosecond_timed v
  | timestamp => exact Clues.tellTimestamp_timed v
  | weekdayFromSunday => exact keepsTime_if (fun _ => Clues.tellWeekday_timed _)
  | weekdayFromMonday => exact keepsTime_if (fun _ => Clues.tellWeekday_timed _)
  | century | yearOfCentury | isoYearOfCentury =>
    exact keepsTime_agree (fun _ timed => ⟨timed.half,timed.hour,timed.minute⟩)
  | quarter | day | weekFromSunday | weekFromMonday | isoWeek =>
    exact keepsTime_if (fun _ => keepsTime_agree (fun _ timed =>
      ⟨timed.half,timed.hour,timed.minute⟩))

theorem Scan.oneOf_bound {words : List (List Char)} {n m : Nat} {text rest : List Char}
    (read : oneOf words n text = some (m,rest)) : m < n + words.length := by
  induction words generalizing n with
  | nil => cases read
  | cons w words ih =>
    rw [oneOf] at read
    split at read
    · cases read
      simp
    · have bound := ih read
      rw [List.length_cons]
      omega

namespace Item

theorem told_timed {read : Option (α × List Char)} {tell : α → Clues → Option Clues}
    (keeps : ∀ v rest, read = some (v,rest) → KeepsTime (tell v)) {c next : Clues}
    {rest : List Char} (timed : c.Timed)
    (given : told read (fun v => tell v c) = some (next,rest)) : next.Timed := by
  simp only [told,Option.bind_eq_bind] at given
  obtain ⟨⟨v,text⟩,found,given⟩ := Option.bind_eq_some_iff.mp given
  obtain ⟨after,telling,same⟩ := Option.map_eq_some_iff.mp given
  cases same
  exact keeps v text found c next timed telling

theorem numeral_timed {n : Numeral} {c next : Clues} {text rest : List Char} (timed : c.Timed)
    (given : n.scan c text = some (next,rest)) : next.Timed := by
  have anyTold {scan : Option (Int × List Char)} {tell : Int → Clues → Option Clues}
      (keeps : ∀ v, KeepsTime (tell v))
      (given : told scan (fun v => tell v c) = some (next,rest)) : next.Timed :=
    told_timed (fun v _ _ => keeps v) timed given
  unfold Numeral.scan at given
  split at given
  · exact anyTold Clues.tellYear_timed given
  · exact anyTold Clues.tellIsoYear_timed given
  · exact told_timed (fun v _ _ => Numeral.tell_timed v n) timed given

theorem behindPoint_timed {c next : Clues} {text rest : List Char} {scan : Scan Nat}
    (timed : c.Timed) (given : behindPoint c text scan = some (next,rest)) : next.Timed := by
  unfold behindPoint at given
  split at given
  · exact told_timed (fun v _ _ => Clues.tellNanosecond_timed v) timed given
  · cases given
    exact timed

theorem numerals_timed {divider : Char} {list : List Numeral} {c next : Clues}
    {text rest : List Char} (timed : c.Timed)
    (given : numerals divider list c text = some (next,rest)) : next.Timed := by
  induction list generalizing c text with
  | nil => cases given; exact timed
  | cons n list ih =>
    cases list with
    | nil => exact numeral_timed timed given
    | cons m list =>
      simp only [numerals,Option.bind_eq_bind] at given
      obtain ⟨⟨c₁,text₁⟩,read,given⟩ := Option.bind_eq_some_iff.mp given
      obtain ⟨⟨_,text₂⟩,_,given⟩ := Option.bind_eq_some_iff.mp given
      exact ih (numeral_timed timed read) given

theorem looseInstant_timed {c next : Clues} {text rest : List Char} (timed : c.Timed)
    (given : looseInstant c text = some (next,rest)) : next.Timed := by
  simp only [looseInstant,Option.bind_eq_bind] at given
  obtain ⟨⟨c₁,text₁⟩,date,given⟩ := Option.bind_eq_some_iff.mp given
  have timed₁ : c₁.Timed := numerals_timed timed date
  split at given
  · split at given
    · obtain ⟨behind,_,given⟩ := Option.bind_eq_some_iff.mp given
      obtain ⟨⟨c₂,text₂⟩,time,given⟩ := Option.bind_eq_some_iff.mp given
      obtain ⟨⟨c₃,text₃⟩,part,given⟩ := Option.bind_eq_some_iff.mp given
      have timed₃ := behindPoint_timed (numerals_timed timed₁ time) part
      dsimp only at given
      split at given
      · obtain ⟨after,telling,same⟩ := Option.map_eq_some_iff.mp given
        cases same
        exact Clues.tellOffset_timed 0 c₃ next timed₃ telling
      · exact told_timed (fun v _ _ => Clues.tellOffset_timed v) timed₃ given
    · cases given
  · cases given

theorem scan_timed {item : Item} {c next : Clues} {text rest : List Char} (timed : c.Timed)
    (given : item.scan c text = some (next,rest)) : next.Timed := by
  cases item with
  | literal w =>
    simp only [scan] at given
    split at given
    · cases given; exact timed
    · cases given
  | blanks => cases given; exact timed
  | zoneName => cases given; exact timed
  | numeral n => exact numeral_timed timed given
  | shortMonth => exact told_timed (fun m _ _ => Clues.tellMonth_timed (m + 1)) timed given
  | longMonth => exact told_timed (fun m _ _ => Clues.tellMonth_timed (m + 1)) timed given
  | shortWeekday => exact told_timed (fun d _ _ => Clues.tellWeekday_timed d) timed given
  | longWeekday => exact told_timed (fun d _ _ => Clues.tellWeekday_timed d) timed given
  | halfDay =>
    refine told_timed (fun h after read => ?_) timed given
    have bound := Scan.oneOf_bound read
    exact Clues.tellHalfDay_timed (Nat.le_of_lt_succ bound)
  | fraction => exact behindPoint_timed timed given
  | pointFraction n => exact behindPoint_timed timed given
  | bareFraction n => exact told_timed (fun v _ _ => Clues.tellNanosecond_timed v) timed given
  | offset => exact told_timed (fun v _ _ => Clues.tellOffset_timed v) timed given
  | looseOffset => exact told_timed (fun v _ _ => Clues.tellOffset_timed v) timed given
  | instant => exact looseInstant_timed timed given

end Item

namespace Format

theorem clues_timed {format : Format} {c next : Clues} {text : List Char} (timed : c.Timed)
    (given : clues c text format = some next) : next.Timed := by
  induction format generalizing c text with
  | nil =>
    simp only [clues] at given
    split at given
    · cases given; exact timed
    · cases given
  | cons item format ih =>
    simp only [clues,Option.bind_eq_bind] at given
    obtain ⟨⟨c₁,text₁⟩,read,given⟩ := Option.bind_eq_some_iff.mp given
    exact ih (Item.scan_timed timed read) given

theorem seconds?_bounds {c : Clues} (timed : c.Timed) {s : Int} (given : seconds? c = some s) :
    -Clues.secondLimit ≤ s ∧ s < Clues.secondLimit := by
  unfold seconds? at given
  split at given
  · rename_i instant
    cases given
    exact Clues.toInstant_bounds instant
  split at given
  · rename_i here
    cases given
    exact Clues.toLocal_bounds timed here
  split at given
  · rename_i d date
    cases given
    have days := Date.toDays_bounds (Clues.toDate_valid date)
    simp only [Clues.secondsPerDay,Clues.secondLimit,Date.dayLimit] at *
    omega
  · cases given

theorem parse?_inInt64 {format text : List Char} {s : Int}
    (given : parse? format text = some s) : Text.Numeral.InInt64 s := by
  simp only [parse?,Option.bind_eq_bind] at given
  obtain ⟨items,_,given⟩ := Option.bind_eq_some_iff.mp given
  obtain ⟨c,told,given⟩ := Option.bind_eq_some_iff.mp given
  have bounds := seconds?_bounds (clues_timed Clues.blank_timed told) given
  simp only [Clues.secondLimit] at bounds
  exact ⟨by omega,by omega⟩

end Format

-- Clues that say nothing of a day or a time: there may be a part of a second.
def Dateless (c : Clues) : Prop := c = { nanosecond := c.nanosecond }

theorem Dateless.seconds?_none {c : Clues} (dateless : Dateless c) : Format.seconds? c = none := by
  rw [dateless]
  rfl

namespace Item

theorem numeral_nil (n : Numeral) (c : Clues) : n.scan c [] = none := by
  cases n <;> rfl

theorem scan_nil {item : Item} {c next : Clues} {rest : List Char} (dateless : Dateless c)
    (given : item.scan c [] = some (next,rest)) : rest = [] ∧ Dateless next := by
  cases item with
  | literal w =>
    simp only [scan] at given
    split at given
    · cases given
      exact ⟨by simp,dateless⟩
    · cases given
  | blanks | zoneName | fraction | pointFraction n =>
    cases given
    exact ⟨rfl,dateless⟩
  | numeral n =>
    have none : n.scan c [] = none := numeral_nil n c
    rw [scan,Text.Chars.trimStart,List.dropWhile_nil,none] at given
    cases given
  | shortMonth | longMonth | shortWeekday | longWeekday | halfDay | offset | looseOffset | instant =>
    cases given
  | bareFraction n =>
    cases n with
    | zero =>
      -- No digits are asked for, and none are there.
      rw [scan,told,Option.bind_eq_bind] at given
      obtain ⟨⟨v,after⟩,read,given⟩ := Option.bind_eq_some_iff.mp given
      obtain ⟨told,telling,same⟩ := Option.map_eq_some_iff.mp given
      have nothing : Scan.fixedFraction 0 [] = some (0,[]) := by decide
      cases nothing.symm.trans read
      cases same
      rw [Clues.tellNanosecond] at telling
      split at telling
      · obtain ⟨kept,_,same⟩ := Option.map_eq_some_iff.mp telling
        refine ⟨rfl,?_⟩
        rw [Dateless,←same,dateless]
      · cases telling
    | succ n => cases given

end Item

namespace Format

theorem clues_nil {format : Format} {c next : Clues} (dateless : Dateless c)
    (given : clues c [] format = some next) : Dateless next := by
  induction format generalizing c with
  | nil =>
    cases given
    exact dateless
  | cons item format ih =>
    obtain ⟨⟨told,text⟩,read,given⟩ := Option.bind_eq_some_iff.mp given
    obtain ⟨rfl,still⟩ := Item.scan_nil dateless read
    exact ih still given

theorem parse?_nil (format : List Char) : parse? format [] = none := by
  rw [parse?,Option.bind_eq_bind,Option.bind_eq_none_iff]
  intro items _
  rw [Option.bind_eq_bind,Option.bind_eq_none_iff]
  intro c told
  have blank : Dateless {} := rfl
  exact (clues_nil blank told).seconds?_none

end Format

end TableView.Calendar
