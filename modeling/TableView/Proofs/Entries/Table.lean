import TableView.Proofs.Calendar.Format
import TableView.Proofs.Outcome
import TableView.Proofs.Payload.Rows
import TableView.View.Render

namespace TableView

theorem Table.length_le_width (t : Table) : ∀ r ∈ t.rows, r.length ≤ t.width := by
  have longest (rows : List Row) (n : Nat) :
      n ≤ rows.foldl (fun n r => max n r.length) n ∧
        ∀ r ∈ rows, r.length ≤ rows.foldl (fun n r => max n r.length) n := by
    induction rows generalizing n with
    | nil => exact ⟨Nat.le_refl n,by simp⟩
    | cons row rows ih =>
      obtain ⟨start,others⟩ := ih (max n row.length)
      rw [List.foldl_cons,List.forall_mem_cons]
      exact ⟨by omega,by omega,others⟩
  exact (longest t.rows 0).2

theorem Row.entry_keys (formats : DateFormats) (r : Row) :
    (r.zipIdx.map (fun (c,i) => (i,c.value formats))).map (·.1) = List.range r.length := by
  rw [List.map_map]
  refine List.ext_getElem? (fun n => ?_)
  by_cases inside : n < r.length
  · simp [inside]
  · simp [Nat.not_lt.mp inside]

theorem Row.entry_get? (formats : DateFormats) (r : Row) (i : Nat) :
    (r.entry formats).get? i = (r[i]?).map (Cell.value formats) := by
  have keys := r.entry_keys formats
  have distinct := List.nodup_range (n := r.length)
  rw [←keys] at distinct
  rw [Row.entry,OrderedMap.get?_ofList distinct]
  cases found : r[i]? with
  | none =>
    have beyond : r.length ≤ i := List.getElem?_eq_none_iff.mp found
    rw [OrderedMap.find?_eq_none.mpr]
    · rfl
    · rw [keys,List.mem_range]
      omega
  | some c =>
    refine OrderedMap.find?_of_mem distinct (List.mem_map.mpr ⟨(c,i),?_,rfl⟩)
    rw [List.mem_zipIdx_iff_getElem?]
    exact found

theorem Table.mem_bodyRows {t : Table} {policy : HeaderPolicy} {r : Row}
    (member : r ∈ t.bodyRows policy) : r ∈ t.rows := by
  unfold bodyRows at member
  split at member
  · exact List.mem_of_mem_drop member
  · exact member

structure ParsedTable.Regular (table : ParsedTable) : Prop where
  contiguous : Payload.Contiguous table.columns
  inside : ∀ e ∈ table.entries, ∀ i cell, e.get? i = some cell → i < table.columns.length

theorem Table.normalize_regular (options : NormalizeOptions) (t : Table) :
    (t.normalize options).Regular := by
  have length : (t.normalize options).columns.length = t.width := by
    simp [normalize,columns]
  constructor
  · rw [Payload.Contiguous,length]
    simp [normalize,columns,Function.comp_def]
  · intro e member i cell found
    obtain ⟨r,inBody,rfl⟩ := List.mem_map.mp member
    rw [Row.entry_get?] at found
    obtain ⟨c,inRow,_⟩ := Option.map_eq_some_iff.mp found
    have inside : i < r.length := (List.getElem?_eq_some_iff.mp inRow).1
    have longest := t.length_le_width r (mem_bodyRows inBody)
    omega

theorem parseTable_ok {blocks : List Block} {p : ViewParameters} {table : ParsedTable}
    (parsed : parseTable blocks p = .ok table) :
    ∃ options, p.normalizeOptions = .ok options ∧ table = normalizeDocument options blocks := by
  obtain ⟨options,read,given⟩ := ok_of_bind parsed
  exact ⟨options,read,(Except.ok.inj given).symm⟩

theorem parseTable_regular {blocks : List Block} {p : ViewParameters} {table : ParsedTable}
    (parsed : parseTable blocks p = .ok table) : table.Regular := by
  obtain ⟨options,_,rfl⟩ := parseTable_ok parsed
  unfold normalizeDocument
  split
  · exact Table.normalize_regular options _
  · exact ⟨rfl,by simp [ParsedTable.empty]⟩

theorem DateFormats.seconds?_inInt64 {formats : DateFormats} {text : String} {t : Int}
    (given : formats.seconds? text = some t) : Text.Numeral.InInt64 t := by
  simp only [DateFormats.seconds?] at given
  split at given
  · cases given
  · obtain ⟨format,_,read⟩ := List.exists_of_findSome?_eq_some given
    exact Calendar.Format.parse?_inInt64 read

theorem Row.entry_dated (formats : DateFormats) (r : Row) : Payload.Dated (r.entry formats) := by
  intro p member t date
  obtain ⟨⟨c,i⟩,_,rfl⟩ := List.mem_map.mp (OrderedMap.mem_of_mem_ofList member)
  exact DateFormats.seconds?_inInt64 date

theorem Table.normalize_dated (options : NormalizeOptions) (t : Table) :
    ∀ e ∈ (t.normalize options).entries, Payload.Dated e := by
  intro e member
  obtain ⟨r,_,rfl⟩ := List.mem_map.mp member
  exact Row.entry_dated options.dateFormats r

theorem parseTable_dated {blocks : List Block} {p : ViewParameters} {table : ParsedTable}
    (parsed : parseTable blocks p = .ok table) : ∀ e ∈ table.entries, Payload.Dated e := by
  obtain ⟨options,_,rfl⟩ := parseTable_ok parsed
  unfold normalizeDocument
  split
  · exact Table.normalize_dated options _
  · exact List.forall_mem_nil _

end TableView
