import TableView.Proofs.Calendar.Order
import TableView.Proofs.Calendar.Written
import TableView.Proofs.Entries.Table
import TableView.Proofs.Markup.Guarded
import TableView.Proofs.Query.Between
import TableView.Proofs.Query.Narrowing
import TableView.Proofs.View.Render

namespace TableView

open Calendar (Stamp)

section Cells

theorem Inline.plainChars_free {content : List Char}
    (free : ∀ c ∈ '~' :: signs, c ∉ Text.Chars.trim content) :
    plainChars content = Text.Chars.trim content := by
  have solid {sign : Char} (sort : sign ∈ signs) : Solid sign (Text.Chars.trim content) := by
    have absent := free sign (List.mem_cons_of_mem _ sort)
    intro q member
    have behind := (List.mem_tails _ _).mp member
    constructor
    · rintro rfl
      exact absent (behind.subset List.mem_cons_self)
    · intro starts
      exact absent (behind.subset (starts.subset List.mem_cons_self))
  have pass {sign : Char} (sort : sign ∈ signs) :
      setApart (plainStyle sign) (Text.Chars.trim content) = Text.Chars.trim content := by
    have whole := setApart_solid (show Solid (plainStyle sign).sign _ from solid sort) []
    have nothing : setApart (plainStyle sign) [] = [] := by
      rw [setApart]
      rfl
    rwa [nothing,List.append_nil] at whole
  have tildes := unescape_free (free '~' List.mem_cons_self) []
  rw [List.append_nil,unescape,List.append_nil] at tildes
  have passes : ∀ some ⊆ signs, some.foldl (fun t s => setApart (plainStyle s) t)
      (Text.Chars.trim content) = Text.Chars.trim content := by
    intro some listed
    induction some with
    | nil => rfl
    | cons sign some ih =>
      obtain ⟨sort,others⟩ := List.cons_subset.mp listed
      rw [List.foldl_cons,pass sort,ih others]
  rw [plainChars,applyAll,List.foldl_map,passes signs (List.Subset.refl signs),tildes]

theorem Date.written_chars (d : Date) : ∀ c ∈ d.written, c.isDigit = true ∨ c = '-' := by
  intro c member
  simp only [written,List.mem_append,List.mem_cons] at member
  rcases member with inYear | rfl | inMonth | rfl | inDay
  · exact .inl (Calendar.Scan.lastDigits_isDigit _ _ c inYear)
  · exact .inr rfl
  · exact .inl (Calendar.Scan.lastDigits_isDigit _ _ c inMonth)
  · exact .inr rfl
  · exact .inl (Calendar.Scan.lastDigits_isDigit _ _ c inDay)

theorem Date.written_free {d : Date} {c : Char} (other : c.isDigit = false ∧ c ≠ '-') :
    c ∉ d.written := by
  intro member
  rcases d.written_chars c member with isDigit | rfl
  · rw [isDigit] at other
    cases other.1
  · exact other.2 rfl

theorem Date.written_solid (d : Date) : ∀ c ∈ d.written, Text.isBlank c = false := by
  intro c member
  rcases d.written_chars c member with isDigit | rfl
  · exact Text.isBlank_digit isDigit
  · decide

def dayRange (lo hi : Date) : String := String.ofList (lo.midnight ++ '/' :: hi.midnight)

theorem range?_dayRange {lo hi : Date} (first : lo.Common) (last : hi.Common) :
    Constraint.range? (dayRange lo hi) =
      some (lo.toDays * Clues.secondsPerDay,hi.toDays * Clues.secondsPerDay) := by
  have spread : Text.Chars.Spread [(Stamp.ofDay lo).written,(Stamp.ofDay hi).written]
      [[] ++ lo.midnight ++ [],[] ++ hi.midnight ++ []] := by
    rw [Stamp.ofDay_written,Stamp.ofDay_written]
    exact .item (by simp) (by simp) (.item (by simp) (by simp) .nil)
  have joined : dayRange lo hi = String.ofList
      (['/'].intercalate [[] ++ lo.midnight ++ [],[] ++ hi.midnight ++ []]) := by
    simp [dayRange,List.intercalate]
  rw [joined,Constraint.range?_stamps (Stamp.ofDay_valid first) (Stamp.ofDay_valid last) spread,
    Stamp.ofDay_whole,Stamp.ofDay_whole]

theorem Cell.value_date {c : Cell} {d : Date} (common : d.Common)
    (holds : Text.Chars.trim c.content.toList = d.written) :
    (c.value ["%Y-%m-%d"]).date = some (d.toDays * Clues.secondsPerDay) := by
  have plain : c.plainText.toList = d.written := by
    rw [plainText,String.toList_ofList,Inline.plainChars_free,holds]
    rw [holds]
    intro c listed
    refine Date.written_free ?_
    simp only [Inline.signs,List.mem_cons,List.not_mem_nil,or_false] at listed
    rcases listed with rfl | rfl | rfl | rfl
    all_goals decide
  have filled : d.written.isEmpty = false := by
    simp [Date.written]
  simp only [value,DateFormats.seconds?,plain,Payload.trim_solid d.written_solid,filled,
    List.findSome?_cons,common.parse?_written]
  rfl

end Cells

section Entries

def Entry.Tells (e : Entry) (property : String) (d : Date) : Prop :=
  e.seconds? property = some (d.toDays * Clues.secondsPerDay)

variable {property : String}

theorem Constraint.admits_dayRange {e : Entry} {lo d hi : Date} (first : lo.Common)
    (valid : d.Valid) (last : hi.Common) (tells : e.Tells property d) :
    (Constraint.of .between (dayRange lo hi)).admits property e = true ↔ lo.UpTo d ∧ d.UpTo hi := by
  rw [admits_range tells (range?_dayRange first last),←Date.toDays_le_iff first.valid valid,
    ←Date.toDays_le_iff valid last.valid,Clues.secondsPerDay]
  omega

theorem Entry.standing_day {e : Entry} {d : Date} (tells : e.Tells property d) :
    e.standing property = .dated (d.toDays * Clues.secondsPerDay) := by
  have given : e.seconds? property = some (d.toDays * Clues.secondsPerDay) := tells
  have has : e.has property = true := by
    cases date : e.dateValue? property with
    | none =>
      rw [seconds?,date] at given
      cases given
    | some v => rw [Entry.has,date,Option.isSome_some,Bool.or_true]
  rw [standing,has,given]
  rfl

end Entries

section Answers

def QueryResult.Has (r : QueryResult) (row : Nat) : Prop := ∃ e ∈ r.entries, e.rowId = row

theorem Query.mem_whole {q : Query} (whole : q.Whole) {decoded : List Fields} {e : Entry} :
    e ∈ (q.run (Entry.numbered decoded)).entries ↔
      decoded[e.rowId]? = some e.fields ∧ q.Satisfied e := by
  have finds := q.sorted_finds (Entry.numbered_ascending decoded)
  rw [run_whole whole,finds.selected.mem_iff,List.mem_filter,Entry.mem_numbered,
    decide_eq_true_iff]

theorem Query.has_iff {q : Query} (whole : q.Whole) (decoded : List Fields) (row : Nat) :
    (q.run (Entry.numbered decoded)).Has row ↔
      ∃ fields, decoded[row]? = some fields ∧ q.Satisfied ⟨row,fields⟩ := by
  constructor
  · rintro ⟨e,member,rfl⟩
    exact ⟨e.fields,(mem_whole whole).mp member⟩
  · rintro ⟨fields,found,satisfied⟩
    exact ⟨⟨row,fields⟩,(mem_whole whole).mpr ⟨found,satisfied⟩,rfl⟩

theorem Query.has_unfiltered {q : Query} (whole : q.Whole) (free : q.filters = [])
    (decoded : List Fields) (row : Nat) :
    (q.run (Entry.numbered decoded)).Has row ↔ row < decoded.length := by
  rw [has_iff whole]
  constructor
  · rintro ⟨fields,found,_⟩
    exact (List.getElem?_eq_some_iff.mp found).1
  · intro inside
    refine ⟨_,List.getElem?_eq_getElem inside,?_⟩
    intro f member
    rw [free] at member
    cases member

theorem Query.rows_distinct {q : Query} (whole : q.Whole) (decoded : List Fields) :
    ((q.run (Entry.numbered decoded)).entries.map Entry.rowId).Nodup := by
  have ascending := Entry.numbered_ascending decoded
  have finds := q.sorted_finds ascending
  have apart := (ascending.filter (fun e => decide (q.Satisfied e))).imp
    (fun less => Nat.ne_of_lt less)
  rw [run_whole whole,(finds.selected.map Entry.rowId).nodup_iff]
  exact List.pairwise_map.mpr apart

theorem Query.satisfied_addConstraint (q : Query) (property : String) (c : Constraint)
    (e : Entry) : (q.addConstraint property c).Satisfied e ↔
      c.admits property e = true ∧ q.Satisfied e := by
  have more : (q.addConstraint property c).conditions.Perm ((property,c) :: q.conditions) :=
    conditions_constrain property c q.filters
  rw [satisfied_conditions,satisfied_conditions]
  simp only [more.mem_iff,List.forall_mem_cons]
  rfl

theorem Query.has_dayRange {q : Query} (whole : q.Whole) {decoded : List Fields} {row : Nat}
    {fields : Fields} (found : decoded[row]? = some fields) {property : String} {lo d hi : Date}
    (first : lo.Common) (valid : d.Valid) (last : hi.Common)
    (tells : Entry.Tells ⟨row,fields⟩ property d) :
    ((q.addConstraint property (.of .between (dayRange lo hi))).run
        (Entry.numbered decoded)).Has row ↔
      (q.run (Entry.numbered decoded)).Has row ∧ lo.UpTo d ∧ d.UpTo hi := by
  have more := satisfied_addConstraint q property (.of .between (dayRange lo hi)) ⟨row,fields⟩
  rw [Constraint.admits_dayRange first valid last tells] at more
  have wholeMore : (q.addConstraint property (.of .between (dayRange lo hi))).Whole :=
    ⟨whole.offset,whole.limit⟩
  rw [has_iff wholeMore,has_iff whole,found]
  simp only [Option.some.injEq,exists_eq_left',more]
  exact and_comm

def InOrder (descending : Bool) (d e : Date) (row other : Nat) : Prop :=
  (if descending then e.Earlier d else d.Earlier e) ∨ d = e ∧ row < other

instance (descending : Bool) (d e : Date) (row other : Nat) :
    Decidable (InOrder descending d e row other) := by
  unfold InOrder; infer_instance

theorem Entry.compareAll_days {a b : Entry} {property : String} {d e : Date} (valid : d.Valid)
    (other : e.Valid) (first : a.Tells property d) (second : b.Tells property e)
    {descending : Bool} (ordered : compareAll a b [⟨property,descending⟩] ≠ .gt)
    (stable : compareAll a b [⟨property,descending⟩] = .eq → a.rowId < b.rowId) :
    InOrder descending d e a.rowId b.rowId := by
  have one : compareAll a b [⟨property,descending⟩] = compareBy a b ⟨property,descending⟩ := by
    rw [compareAll,compareAll]
    cases compareBy a b ⟨property,descending⟩ <;> rfl
  have upTo {d e : Date} (valid : d.Valid) (other : e.Valid)
      (notMore : compare (d.toDays * Clues.secondsPerDay) (e.toDays * Clues.secondsPerDay) ≠ .gt) :
      d.UpTo e := by
    have seconds := Int.isLE_compare.mp (Ordering.isLE_iff_ne_gt.mpr notMore)
    rw [Clues.secondsPerDay] at seconds
    exact (Date.toDays_le_iff valid other).mp (by omega)
  rw [one,compareBy_standing,standing_day first,standing_day second] at ordered stable
  cases descending with
  | false =>
    rcases upTo valid other ordered with earlier | rfl
    · exact .inl earlier
    · exact .inr ⟨rfl,stable Std.ReflOrd.compare_self⟩
  | true =>
    rcases upTo other valid ordered with earlier | rfl
    · exact .inl earlier
    · exact .inr ⟨rfl,stable Std.ReflOrd.compare_self⟩

theorem Query.days_ordered {q : Query} (whole : q.Whole) {property : String} {descending : Bool}
    (keys : q.sort = [⟨property,descending⟩]) (decoded : List Fields) :
    (q.run (Entry.numbered decoded)).entries.Pairwise (fun a b => ∀ d e : Date, d.Valid →
      e.Valid → a.Tells property d → b.Tells property e →
      InOrder descending d e a.rowId b.rowId) := by
  have finds := q.sorted_finds (Entry.numbered_ascending decoded)
  rw [run_whole whole]
  refine (finds.ordered.and finds.stable).imp ?_
  rintro a b ⟨notAfter,tie⟩ d e valid other first second
  rw [keys] at notAfter tie
  exact Entry.compareAll_days valid other first second notAfter tie

end Answers

structure Table.HoldsDay (t : Table) (policy : HeaderPolicy) (column row : Nat) (d : Date) :
    Prop where
  common : d.Common
  cell : ∃ r c, (t.bodyRows policy)[row]? = some r ∧ r[column]? = some c ∧
    Text.Chars.trim c.content.toList = d.written

theorem Table.HoldsDay.tells {t : Table} {options : NormalizeOptions}
    (format : options.dateFormats = ["%Y-%m-%d"]) {column row : Nat} {d : Date}
    (holds : t.HoldsDay options.headerPolicy column row d) :
    ∃ fields, ((t.normalize options).entries.map Payload.rowFields)[row]? = some fields ∧
      Entry.Tells ⟨row,fields⟩ (Text.Numeral.natText column) d := by
  obtain ⟨r,c,inBody,inRow,written⟩ := holds.cell
  have entry : (t.normalize options).entries[row]? = some (r.entry options.dateFormats) := by
    rw [normalize,List.getElem?_map,inBody]
    rfl
  have value : (r.entry options.dateFormats).get? column = some (c.value ["%Y-%m-%d"]) := by
    rw [Row.entry_get?,inRow,format]
    rfl
  refine ⟨_,by rw [List.getElem?_map,entry]; rfl,?_⟩
  exact (rowFields_tells (Row.entry_dated options.dateFormats r)).date column _ _ value
    (Cell.value_date holds.common written)

-- Rendered with the format of a date, a table is asked for its dates: a range of days keeps a row
-- exactly when its date lies in it by the calendar, and a sort by the column puts the dates in the
-- order of the calendar, or turns it round, with equal dates in the order of their rows.
theorem view_keeps_calendar {settings : RenderSettings} {cache : Option Cache}
    {blocks : List Block} {p : ViewParameters} {now asked : Time} {view : RenderedView}
    (rendered : (render settings cache blocks p now).1 = .ok view)
    (fits : ∀ payload, rowsPayload settings blocks p = .ok payload →
      Payload.Storable settings.compression payload)
    (soon : ∀ c ∈ cache, asked - now ≤ c.maxIdle)
    {t : Table} (found : firstTable? blocks = some t) {options : NormalizeOptions}
    (given : p.normalizeOptions = .ok options) (format : options.dateFormats = ["%Y-%m-%d"])
    (column : Nat) :
    let property := Text.Numeral.natText column
    ∃ answer : Query → QueryResult,
      (∀ q, (execute (render settings cache blocks p now).2 view.liveData.query.source.entries q
        asked).1 = .ok (answer q)) ∧
      (∀ q, q.Whole → ((answer q).entries.map Entry.rowId).Nodup ∧
        (q.filters = [] → ∀ row, (answer q).Has row ↔
          row < (t.bodyRows options.headerPolicy).length)) ∧
      (∀ q lo hi, q.Whole → lo.Common → hi.Common → ∀ row d,
        t.HoldsDay options.headerPolicy column row d →
        ((answer (q.addConstraint property (.of .between (dayRange lo hi)))).Has row ↔
          (answer q).Has row ∧ lo.UpTo d ∧ d.UpTo hi)) ∧
      ∀ q descending, q.Whole → q.sort = [⟨property,descending⟩] →
        (answer q).entries.Pairwise (fun a b => ∀ d e,
          t.HoldsDay options.headerPolicy column a.rowId d →
          t.HoldsDay options.headerPolicy column b.rowId e →
          InOrder descending d e a.rowId b.rowId) := by
  intro property
  obtain ⟨payload,kept,reference,after⟩ := render_ok rendered
  obtain ⟨table,parsed,rfl⟩ := rowsPayload_ok kept
  obtain ⟨read,same,rfl⟩ := parseTable_ok parsed
  cases given.symm.trans same
  have normal : normalizeDocument options blocks = t.normalize options := by
    rw [normalizeDocument,found]
  have decoded := decodeEntries_rowsPayload parsed (fits _ kept)
  rw [normal] at decoded reference after
  have resolves := storeEntries_resolves soon decoded
  rw [←reference,←after] at resolves
  have length : ((t.normalize options).entries.map Payload.rowFields).length =
      (t.bodyRows options.headerPolicy).length := by
    simp only [Table.normalize,List.length_map]
  refine ⟨_,execute_resolved resolves,?_,?_,?_⟩
  · intro q whole
    refine ⟨Query.rows_distinct whole _,?_⟩
    rw [←length]
    intro free row
    exact Query.has_unfiltered whole free _ row
  · intro q lo hi whole first last row d holds
    obtain ⟨fields,inRow,tells⟩ := holds.tells format
    exact Query.has_dayRange whole inRow first holds.common.valid last tells
  · intro q descending whole keys
    refine (Query.days_ordered whole keys _).imp_of_mem ?_
    intro a b inAnswer inAnswerB ordered d e holds holdsB
    have tells {e : Entry} {d : Date} (member : e ∈ (q.run (Entry.numbered
        ((t.normalize options).entries.map Payload.rowFields))).entries)
        (holds : t.HoldsDay options.headerPolicy column e.rowId d) : e.Tells property d := by
      obtain ⟨fields,inRow,tells⟩ := holds.tells format
      cases ((Query.mem_whole whole).mp member).1.symm.trans inRow
      exact tells
    exact ordered d e holds.common.valid holdsB.common.valid (tells inAnswer holds)
      (tells inAnswerB holdsB)

theorem view_keeps_calendar_february :
    let settings : RenderSettings := ⟨.bzip2,10⟩
    let cache : Option Cache := some (.create 1 60)
    let table : Table := ⟨[[⟨true,"Name"⟩,⟨true,"Made"⟩],[⟨false,"a"⟩,⟨false,"2000-03-01"⟩],
      [⟨false,"b"⟩,⟨false," 2000-02-29"⟩],[⟨false,"c"⟩,⟨false,"1969-12-31"⟩],
      [⟨false,"d"⟩,⟨false,"2000-02-29"⟩]]⟩
    let p : ViewParameters := { ViewParameters.standard with
      defaultDateFormats := ["%Y-%m-%d"] }
    let range : Query := Query.standard.addConstraint (Text.Numeral.natText 1)
      (.of .between (dayRange ⟨1969,12,31⟩ ⟨2000,2,29⟩))
    let upward : Query := ⟨[],[⟨Text.Numeral.natText 1,false⟩],0,none⟩
    ∃ (view : RenderedView) (kept sorted : QueryResult),
      (render settings cache [.table table] p 5).1 = .ok view ∧
      (execute (render settings cache [.table table] p 5).2 view.liveData.query.source.entries
        range 65).1 = .ok kept ∧ kept.Has 1 ∧ kept.Has 2 ∧ ¬ kept.Has 0 ∧
      (execute (render settings cache [.table table] p 5).2 view.liveData.query.source.entries
        upward 65).1 = .ok sorted ∧
      sorted.entries.Pairwise (fun a b => ¬ (a.rowId = 1 ∧ b.rowId = 2) ∧
        ¬ (a.rowId = 3 ∧ b.rowId = 1)) := by
  intro settings cache table p range upward
  obtain ⟨separator,read⟩ := standardSeparator_read
  have options : p.normalizeOptions = .ok ⟨.remove,["%Y-%m-%d"],[]⟩ :=
    p.normalizeOptions_unlisted read rfl rfl
  have rendered : ∃ view, (render settings cache [.table table] p 5).1 = .ok view := by
    rw [render,parseTable,options]
    exact ⟨_,rfl⟩
  obtain ⟨view,rendered⟩ := rendered
  obtain ⟨answer,answers,rows,ranges,orders⟩ := view_keeps_calendar rendered
    (fun _ _ xz => by cases xz) (show ∀ c ∈ cache, 65 - 5 ≤ c.maxIdle by decide)
    (show firstTable? [.table table] = some table from rfl) options rfl 1
  have march : table.HoldsDay .remove 1 0 ⟨2000,3,1⟩ := ⟨by decide,_,_,rfl,rfl,by decide⟩
  have leap : table.HoldsDay .remove 1 1 ⟨2000,2,29⟩ := ⟨by decide,_,_,rfl,rfl,by decide⟩
  have old : table.HoldsDay .remove 1 2 ⟨1969,12,31⟩ := ⟨by decide,_,_,rfl,rfl,by decide⟩
  have again : table.HoldsDay .remove 1 3 ⟨2000,2,29⟩ := ⟨by decide,_,_,rfl,rfl,by decide⟩
  have whole : Query.standard.Whole := ⟨rfl,rfl⟩
  have all (row : Nat) (inside : row < 4) : (answer .standard).Has row :=
    ((rows .standard whole).2 rfl row).mpr inside
  have range_ := ranges .standard ⟨1969,12,31⟩ ⟨2000,2,29⟩ whole (by decide) (by decide)
  refine ⟨view,answer range,answer upward,rendered,answers range,?_,?_,?_,answers upward,?_⟩
  · exact (range_ 1 _ leap).mpr ⟨all 1 (by decide),by decide⟩
  · exact (range_ 2 _ old).mpr ⟨all 2 (by decide),by decide⟩
  · intro has
    exact absurd ((range_ 0 _ march).mp has).2 (by decide)
  · refine (orders upward false ⟨rfl,rfl⟩ rfl).imp ?_
    intro a b inOrder
    constructor
    · rintro ⟨one,two⟩
      have order := inOrder _ _ (by rw [one]; exact leap) (by rw [two]; exact old)
      rw [one,two] at order
      exact absurd order (by decide)
    · rintro ⟨three,one⟩
      have order := inOrder _ _ (by rw [three]; exact again) (by rw [one]; exact leap)
      rw [three,one] at order
      exact absurd order (by decide)

end TableView
