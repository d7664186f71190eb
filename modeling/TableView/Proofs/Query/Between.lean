import TableView.Proofs.Calendar.Stamp
import TableView.Proofs.Query.Finding

namespace TableView

def FieldValue.integer? : FieldValue → Option Int
  | number (.integer i) => some i
  | number (.real x) => x.toInt?
  | text s => Text.Numeral.toInt64? (Text.Chars.trim s.toList)

theorem FieldValue.seconds?_clamped {v : FieldValue} {t : Int} (told : v.integer? = some t) :
    v.seconds? = some (clamp t) := by
  cases v with
  | number n =>
    cases n with
    | integer i =>
      cases told
      rfl
    | real x =>
      have same : x.toInt? = some t := told
      rw [seconds?,same]
      rfl
  | text s =>
    have read : Text.Numeral.toInt64? (Text.Chars.trim s.toList) = some t := told
    have inside := read
    unfold Text.Numeral.toInt64? at inside
    rw [Option.filter_eq_some_iff,decide_eq_true_iff] at inside
    obtain ⟨_,low,high⟩ := inside
    rw [seconds?,read,clamp]
    congr 1
    omega

namespace Constraint

open Calendar (Stamp)
open Text.Chars (Spread)

section Ranges
variable {first last : List Char} {parts : List (List Char)}

theorem range?_spread (spread : Spread [first,last] parts)
    (whole : ∀ text ∈ [first,last], Text.Chars.trim text = text ∧ text ≠ [])
    (free : ∀ text ∈ [first,last], '/' ∉ text) {a b : Int}
    (begins : Calendar.Instant.seconds? first = some a)
    (ends : Calendar.Instant.seconds? last = some b) :
    range? (String.ofList (['/'].intercalate parts)) = some (a,b) := by
  have cut : Text.Chars.splitOn '/' (['/'].intercalate parts) = parts := by
    rw [Text.Chars.splitOn_eq,List.splitOn_intercalate '/' (spread.not_mem (by decide) free)
      (spread.nonempty (List.cons_ne_nil _ _))]
  have items := spread.trimmed whole
  simp only [range?,String.toList_ofList,cut,items,begins,ends,Option.bind_eq_bind,
    Option.bind_some]
  rfl

end Ranges

theorem admits_range {value property : String} {e : Entry} {t a b : Int}
    (told : e.seconds? property = some t) (range : range? value = some (a,b)) :
    (Constraint.of .between value).admits property e = true ↔ a ≤ t ∧ t ≤ b := by
  rw [admits,kind_of]
  simp only [told]
  change inRange value t = true ↔ _
  rw [inRange,range,Bool.and_eq_true,decide_eq_true_iff,decide_eq_true_iff]

theorem range?_stamps {s l : Stamp} (begins : s.Valid) (ends : l.Valid)
    {parts : List (List Char)} (spread : Spread [s.written,l.written] parts) :
    range? (String.ofList (['/'].intercalate parts)) = some (s.whole,l.whole) := by
  have written {s : Stamp} (valid : s.Valid) :
      Text.Chars.trim s.written = s.written ∧ s.written ≠ [] := by
    obtain ⟨first,last⟩ := Stamp.written_ends valid
    exact ⟨Text.Chars.trim_solid_ends first last,by simp [Stamp.written]⟩
  refine range?_spread spread ?_ ?_ (Stamp.seconds?_written begins) (Stamp.seconds?_written ends)
  · rw [List.forall_mem_cons,List.forall_mem_singleton]
    exact ⟨written begins,written ends⟩
  · rw [List.forall_mem_cons,List.forall_mem_singleton]
    exact ⟨Stamp.slash_not_mem begins,Stamp.slash_not_mem ends⟩

-- An entry passes a range of instants when its date is one of the whole seconds from the second in
-- which the range begins up to its end. Where the range begins with a whole second these are the
-- seconds in the range.
theorem admits_between {e : Entry} {property : String} {v : FieldValue} {t : Int}
    (given : e.dateValue? property = some v) (told : v.integer? = some t) {s l : Stamp}
    (begins : s.Valid) (ends : l.Valid) {parts : List (List Char)}
    (spread : Spread [s.written,l.written] parts) :
    let c := Constraint.of .between (String.ofList (['/'].intercalate parts))
    (c.admits property e = true ↔ ⌊s.instant⌋ ≤ t ∧ (t : ℚ) ≤ l.instant) ∧
      ((∀ d ∈ s.part, d = '0') →
        (c.admits property e = true ↔ s.instant ≤ (t : ℚ) ∧ (t : ℚ) ≤ l.instant)) := by
  intro c
  have seconds : e.seconds? property = some (FieldValue.clamp t) := by
    rw [Entry.seconds?,given,Option.bind_some,FieldValue.seconds?_clamped told]
  have inside : c.admits property e = true ↔ s.whole ≤ t ∧ t ≤ l.whole := by
    have low := Stamp.whole_bounds begins
    have high := Stamp.whole_bounds ends
    rw [admits_range seconds (range?_stamps begins ends spread),FieldValue.clamp]
    omega
  have last : t ≤ l.whole ↔ (t : ℚ) ≤ l.instant := by
    rw [←Stamp.floor_instant ends,Int.le_floor]
  rw [inside,last,Stamp.floor_instant begins]
  refine ⟨Iff.rfl,?_⟩
  intro even
  rw [Stamp.instant_whole even,Int.cast_le]

theorem admits_between_offset :
    let e : Entry := ⟨0,OrderedMap.ofList [("date.0",.number (.integer (-1)))]⟩
    let s : Stamp := ⟨⟨1969,12,31⟩,' ',22,29,59,"00".toList,.shifted true 1 30⟩
    let l : Stamp := ⟨⟨1970,1,1⟩,'t',0,0,0,"000000000001".toList,.universal 'z'⟩
    let value := "/ 1969-12-31 22:29:59.00-01:30\t/ /1970-01-01t00:00:00.000000000001z/"
    s.Valid ∧ l.Valid ∧
      ((Constraint.of .between value).admits "0" e = true ↔
        s.instant ≤ ((-1 : Int) : ℚ) ∧ ((-1 : Int) : ℚ) ≤ l.instant) := by
  intro e s l value
  have begins : s.Valid := by decide
  have ends : l.Valid := by decide
  have blank {cs : List Char} (all : cs.all Text.isBlank = true) :
      ∀ c ∈ cs, Text.isBlank c = true :=
    List.all_eq_true.mp all
  let parts := [] :: ([' '] ++ s.written ++ ['\t']) :: [' '] :: ([] ++ l.written ++ []) :: [[]]
  have spread : Spread [s.written,l.written] parts :=
    .blank (blank rfl) (.item (blank rfl) (blank rfl) (.blank (blank rfl)
      (.item (blank rfl) (blank rfl) (.blank (blank rfl) .nil))))
  have joined : value = String.ofList (['/'].intercalate parts) := by decide
  have date : e.dateValue? "0" = some (.number (.integer (-1))) := by decide
  have zeros : s.part = List.replicate 2 '0' := by decide
  have passes := (admits_between date rfl begins ends spread).2 (by
    rw [zeros]
    exact fun _ => List.eq_of_mem_replicate)
  rw [←joined] at passes
  exact ⟨begins,ends,passes⟩

-- Half a second before the range an entry passes it.
theorem begun_second_admitted :
    let e : Entry := ⟨0,OrderedMap.ofList [("date.0",.number (.integer 0))]⟩
    let s : Stamp := ⟨⟨1970,1,1⟩,'T',0,0,0,['5'],.universal 'Z'⟩
    s.Valid ∧ s.written = "1970-01-01T00:00:00.5Z".toList ∧ s.instant = 1 / 2 ∧
      e.seconds? "0" = some 0 ∧ (Constraint.of .between
        "1970-01-01T00:00:00.5Z/1970-01-02T00:00:00Z").admits "0" e = true := by
  intro e s
  have begins : s.Valid := by decide
  have whole : s.whole = 0 := by decide
  have half : Calendar.Scan.valueOf s.part = 5 ∧ s.part.length = 1 := by decide
  refine ⟨begins,by decide,?_,by decide,by decide⟩
  rw [Stamp.instant,whole,half.1,half.2]
  norm_num

end Constraint

end TableView
