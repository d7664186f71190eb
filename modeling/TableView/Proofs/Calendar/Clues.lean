import TableView.Calendar.Clues
import TableView.Proofs.Calendar.Date

namespace TableView.Clues

structure Timed (c : Clues) : Prop where
  half : ∀ h ∈ c.halfDay, h ≤ 1
  hour : ∀ h ∈ c.hourOfHalf, h ≤ 11
  minute : ∀ m ∈ c.minute, m ≤ 59

theorem blank_timed : Timed {} := by
  constructor
  all_goals intro _ told; cases told

def KeepsTime (tell : Clues → Option Clues) : Prop :=
  ∀ c next, c.Timed → tell c = some next → next.Timed

theorem keepsTime_if {p : Prop} [Decidable p] {tell : Clues → Option Clues}
    (keeps : p → KeepsTime tell) : KeepsTime (fun c => if p then tell c else none) := by
  intro c next timed told
  dsimp only at told
  split at told
  · rename_i holds
    exact keeps holds c next timed told
  · cases told

theorem agree_told [DecidableEq α] {known next : Option α} {told : α}
    (agreed : agree known told = some next) : next = some told := by
  unfold agree at agreed
  split at agreed
  · exact (Option.some.inj agreed).symm
  · cases agreed

theorem keepsTime_agree [DecidableEq α] {known : Clues → Option α} {told : α}
    {set : Clues → Option α → Clues} (keeps : ∀ c, c.Timed → (set c (some told)).Timed) :
    KeepsTime (fun c => (agree (known c) told).map (set c)) := by
  intro c next timed written
  obtain ⟨y,agreed,rfl⟩ := Option.map_eq_some_iff.mp written
  rw [agree_told agreed]
  exact keeps c timed

theorem tellYear_timed (v : Int) : KeepsTime (tellYear v) :=
  keepsTime_if (fun _ => keepsTime_agree (fun _ timed => ⟨timed.half,timed.hour,timed.minute⟩))

theorem tellIsoYear_timed (v : Int) : KeepsTime (tellIsoYear v) :=
  keepsTime_if (fun _ => keepsTime_agree (fun _ timed => ⟨timed.half,timed.hour,timed.minute⟩))

theorem tellMonth_timed (v : Nat) : KeepsTime (tellMonth v) :=
  keepsTime_if (fun _ => keepsTime_agree (fun _ timed => ⟨timed.half,timed.hour,timed.minute⟩))

theorem tellOrdinal_timed (v : Nat) : KeepsTime (tellOrdinal v) :=
  keepsTime_if (fun _ => keepsTime_agree (fun _ timed => ⟨timed.half,timed.hour,timed.minute⟩))

theorem tellWeekday_timed (v : Nat) : KeepsTime (tellWeekday v) :=
  keepsTime_if (fun _ => keepsTime_agree (fun _ timed => ⟨timed.half,timed.hour,timed.minute⟩))

theorem tellSecond_timed (v : Nat) : KeepsTime (tellSecond v) :=
  keepsTime_if (fun _ => keepsTime_agree (fun _ timed => ⟨timed.half,timed.hour,timed.minute⟩))

theorem tellNanosecond_timed (v : Nat) : KeepsTime (tellNanosecond v) :=
  keepsTime_if (fun _ => keepsTime_agree (fun _ timed => ⟨timed.half,timed.hour,timed.minute⟩))

theorem tellTimestamp_timed (v : Int) : KeepsTime (tellTimestamp v) :=
  keepsTime_if (fun _ => keepsTime_agree (fun _ timed => ⟨timed.half,timed.hour,timed.minute⟩))

theorem tellOffset_timed (v : Int) : KeepsTime (tellOffset v) :=
  keepsTime_agree (fun _ timed => ⟨timed.half,timed.hour,timed.minute⟩)

theorem tellHalfDay_timed {v : Nat} (bound : v ≤ 1) : KeepsTime (tellHalfDay v) :=
  keepsTime_agree (fun _ timed => ⟨fun _ told => Option.some.inj told ▸ bound,timed.hour,
    timed.minute⟩)

theorem tellHourOfHalf_timed (v : Nat) : KeepsTime (tellHourOfHalf v) := by
  have bound : v % 12 ≤ 11 := by omega
  exact keepsTime_if (fun _ => keepsTime_agree (fun _ timed =>
    ⟨timed.half,fun _ told => Option.some.inj told ▸ bound,timed.minute⟩))

theorem tellMinute_timed (v : Nat) : KeepsTime (tellMinute v) :=
  keepsTime_if (fun bound => keepsTime_agree (fun _ timed =>
    ⟨timed.half,timed.hour,fun _ told => Option.some.inj told ▸ bound⟩))

theorem tellHour_timed (v : Nat) : KeepsTime (tellHour v) := by
  intro c next timed told
  unfold tellHour at told
  split at told
  · rename_i inDay
    simp only [Option.bind_eq_bind] at told
    obtain ⟨half,first,told⟩ := Option.bind_eq_some_iff.mp told
    obtain ⟨hour,second,told⟩ := Option.bind_eq_some_iff.mp told
    have halfBound : v / 12 ≤ 1 := by omega
    have hourBound : v % 12 ≤ 11 := by omega
    cases told
    rw [agree_told first,agree_told second]
    exact ⟨fun _ told => Option.some.inj told ▸ halfBound,
      fun _ told => Option.some.inj told ▸ hourBound,timed.minute⟩
  · cases told

theorem withSeconds_timed {c next : Clues} (timed : c.Timed) {seconds : Int}
    (told : c.withSeconds seconds = some next) : next.Timed := by
  simp only [withSeconds,Option.bind_eq_bind] at told
  obtain ⟨date,_,told⟩ := Option.bind_eq_some_iff.mp told
  let time := (seconds % secondsPerDay).toNat
  have rest {start : Clues} (timed : start.Timed)
      (told : (start.tellYear date.year).bind (fun c => (c.tellOrdinal date.ordinal).bind
        (fun c => (c.tellHour (time / 3600)).bind (fun c => c.tellMinute (time / 60 % 60)))) =
          some next) : next.Timed := by
    obtain ⟨c₁,year,told⟩ := Option.bind_eq_some_iff.mp told
    obtain ⟨c₂,ordinal,told⟩ := Option.bind_eq_some_iff.mp told
    obtain ⟨c₃,hour,told⟩ := Option.bind_eq_some_iff.mp told
    have timed₁ := tellYear_timed _ start c₁ timed year
    have timed₂ := tellOrdinal_timed _ c₁ c₂ timed₁ ordinal
    have timed₃ := tellHour_timed _ c₂ c₃ timed₂ hour
    exact tellMinute_timed _ c₃ next timed₃ told
  split at told
  · exact rest timed told
  · obtain ⟨start,second,told⟩ := Option.bind_eq_some_iff.mp told
    exact rest (tellSecond_timed _ c start timed second) told

theorem toTime_bound {c : Clues} (timed : c.Timed) {t : TimeOfDay} (given : c.toTime = .ok t) :
    (t.seconds : Int) < secondsPerDay := by
  unfold toTime at given
  split at given
  · rename_i half hour minute atHalf atHour atMinute
    have h := timed.half half atHalf
    have o := timed.hour hour atHour
    have m := timed.minute minute atMinute
    split at given
    · cases given
    · cases given
      have last : min (c.second.getD 0) 59 ≤ 59 := Nat.min_le_right ..
      simp only [secondsPerDay]
      omega
  · cases given

theorem orImpossible_ok {o : Option α} {a : α} (given : orImpossible o = .ok a) : o = some a := by
  cases o with
  | none => cases given
  | some b => cases given; rfl

theorem ofWeek_valid {year : Int} {week weekday start : Nat} {d : Date}
    (given : ofWeek year week weekday start = some d) : d.Valid := by
  simp only [ofWeek] at given
  split at given
  · exact (Date.ofOrdinal?_valid given).1
  · cases given

theorem candidate_valid {c : Clues} {year isoYear : Option Int} {agrees : Bool} {d : Date}
    (given : c.candidate year isoYear = .ok (agrees,d)) : d.Valid := by
  have found {o : Option Date} {full : Date → Bool × Date} (same : ∀ a, (full a).2 = a)
      (valid : ∀ a, o = some a → a.Valid)
      (read : (do let date ← orImpossible o; return full date) = Except.ok (agrees,d)) :
      d.Valid := by
    cases o with
    | none => cases read
    | some a =>
      have whole : full a = (agrees,d) := Except.ok.inj read
      have date : a = d := (same a).symm.trans (congrArg Prod.snd whole)
      exact date ▸ valid a rfl
  simp only [candidate] at given
  split at given
  · exact found (fun _ => rfl) (fun _ given => (Date.of?_valid given).1) given
  split at given
  · exact found (fun _ => rfl) (fun _ given => (Date.ofOrdinal?_valid given).1) given
  split at given
  · exact found (fun _ => rfl) (fun _ given => ofWeek_valid given) given
  split at given
  · exact found (fun _ => rfl) (fun _ given => ofWeek_valid given) given
  split at given
  · exact found (fun _ => rfl) (fun _ given => Date.ofIsoWeek?_valid given) given
  · cases given

theorem toDate_valid {c : Clues} {d : Date} (given : c.toDate = .ok d) : d.Valid := by
  simp only [toDate,bind,Except.bind] at given
  split at given
  · cases given
  split at given
  · cases given
  split at given
  · cases given
  · rename_i read
    split at given
    · cases given
      exact candidate_valid read
    · cases given

def secondLimit : Int := 10000000000000

theorem localSeconds_bounds {d : Date} (valid : d.Valid) {t : TimeOfDay}
    (inDay : (t.seconds : Int) < secondsPerDay) :
    -secondLimit ≤ localSeconds d t ∧ localSeconds d t < secondLimit := by
  have days := Date.toDays_bounds valid
  simp only [localSeconds,secondsPerDay,secondLimit,Date.dayLimit] at *
  omega

theorem toLocal_bounds {c : Clues} (timed : c.Timed) {offset here : Int}
    (given : c.toLocal offset = .ok here) : -secondLimit ≤ here ∧ here < secondLimit := by
  unfold toLocal at given
  split at given
  · rename_i date time
    dsimp only at given
    split at given
    · cases given
      exact localSeconds_bounds (toDate_valid date) (toTime_bound timed time)
    · cases given
  · cases given
  · cases given
  · -- The clues that a count of seconds adds are told like any others.
    simp only [bind,Except.bind] at given
    split at given
    · cases given
    split at given
    · cases given
    split at given
    · cases given
    split at given
    · cases given
    rename_i next added
    have kept := withSeconds_timed timed (orImpossible_ok added)
    split at given
    · cases given
    rename_i date
    split at given
    · cases given
    rename_i time
    cases given
    exact localSeconds_bounds (toDate_valid date) (toTime_bound kept time)
  · cases given
  · cases given

theorem toInstant_bounds {c : Clues} {s : Int} (given : c.toInstant = some s) :
    -secondLimit ≤ s ∧ s < secondLimit := by
  unfold toInstant at given
  split at given
  · cases given
  · dsimp only at given
    split at given
    · cases given
    · split at given
      · obtain ⟨d,dated,rfl⟩ := Option.map_eq_some_iff.mp given
        have days := Date.ofDays?_bounds dated
        simp only [secondsPerDay,secondLimit,Date.dayLimit] at *
        omega
      · cases given

end TableView.Clues
