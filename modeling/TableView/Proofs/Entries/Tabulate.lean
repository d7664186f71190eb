import TableView.Proofs.Entries.Table
import TableView.Proofs.Calendar.Format

namespace TableView

section Steps

def Column.named (n : Nat) (name : Nat → String) : List Column :=
  (List.range n).map (fun i => ⟨i,name i⟩)

-- Names a column in place; one that is not there cannot be named.
def Column.rename? (columns : List Column) (i : Nat) (name : String) : Option (List Column) :=
  if i < columns.length then some (columns.modify i (fun c => { c with name := name })) else none

def Column.override : List Column → List String → List Column
  | c :: columns,name :: names => { c with name := name } :: override columns names
  | columns,_ => columns

def Cell.pass? (formats : DateFormats) (first : Bool) (state : List Column × RowEntry)
    (place : Cell × Nat) : Option (List Column × RowEntry) := do
  let (c,i) := place
  let columns ← if first && c.header then Column.rename? state.1 i c.plainText else some state.1
  some (columns,state.2.insert i (c.value formats))

def Row.pass? (formats : DateFormats) (state : List Column × List RowEntry) (place : Row × Nat) :
    Option (List Column × List RowEntry) := do
  let (r,i) := place
  let (columns,entry) ← r.zipIdx.foldlM (Cell.pass? formats (i == 0)) (state.1,.empty)
  some (columns,state.2 ++ [entry])

def removeFirst? : Bool → List RowEntry → Option (List RowEntry)
  | false,entries => some entries
  | true,[] => none
  | true,_ :: rest => some rest

def Table.tabulate? (options : NormalizeOptions) (t : Table) : Option ParsedTable := do
  let (columns,entries) ← t.rows.zipIdx.foldlM (Row.pass? options.dateFormats)
    (Column.named t.width Text.Numeral.natText,[])
  let entries ← removeFirst? (t.hasHeader && options.headerPolicy = .remove) entries
  some ⟨Column.override columns options.header,entries⟩

end Steps

section Meaning

def DateFormats.read? (format text : String) : Option Int :=
  Calendar.Format.parse? format.toList (Text.Chars.trim text.toList)

inductive DateFormats.Dates (formats : DateFormats) (text : String) : Option Int → Prop where
  | first {before behind : DateFormats} {format : String} {t : Int}
      (listed : formats = before ++ format :: behind)
      (others : ∀ f ∈ before, read? f text = none) (reads : read? format text = some t) :
      Dates formats text (some t)
  | undated (others : ∀ f ∈ formats, read? f text = none) : Dates formats text none

-- A name that is given for a column comes before that of a header cell, and this before a number.
inductive Table.Names (t : Table) (header : List String) (i : Nat) : String → Prop where
  | given {name : String} (listed : header[i]? = some name) : Names t header i name
  | told {r : Row} {c : Cell} (unlisted : header[i]? = none) (first : t.rows.head? = some r)
      (cell : r[i]? = some c) (isHeader : c.header = true) : Names t header i c.plainText
  | counted (unlisted : header[i]? = none)
      (untold : ∀ r ∈ t.rows.head?, ∀ c ∈ r[i]?, c.header = false) :
      Names t header i (Text.Numeral.natText i)

structure Row.Fills (formats : DateFormats) (r : Row) (e : RowEntry) : Prop where
  ordinals : e.keys = List.range r.length
  cells : ∀ i c, r[i]? = some c → ∃ date, formats.Dates c.plainText date ∧
    e.get? i = some ⟨c.richText,c.plainText,date⟩

def Table.Removes (t : Table) (policy : HeaderPolicy) : Prop :=
  policy = .remove ∧ ∃ r ∈ t.rows.head?, ∃ c ∈ r, c.header = true

structure Table.Tabulates (options : NormalizeOptions) (t : Table) (p : ParsedTable) : Prop where
  longest : (∀ r ∈ t.rows, r.length ≤ p.columns.length) ∧
    (p.columns = [] ∨ ∃ r ∈ t.rows, r.length = p.columns.length)
  ordinals : p.columns.map Column.ordinal = List.range p.columns.length
  names : ∀ c ∈ p.columns, t.Names options.header c.ordinal c.name
  removed : t.Removes options.headerPolicy →
    List.Forall₂ (Row.Fills options.dateFormats) t.rows.tail p.entries
  kept : ¬ t.Removes options.headerPolicy →
    List.Forall₂ (Row.Fills options.dateFormats) t.rows p.entries

end Meaning

namespace Column

theorem named_length (n : Nat) (name : Nat → String) : (named n name).length = n := by
  rw [named,List.length_map,List.length_range]

theorem named_getElem? (n : Nat) (name : Nat → String) (i : Nat) :
    (named n name)[i]? = if i < n then some ⟨i,name i⟩ else none := by
  rw [named,List.getElem?_map]
  split
  · rename_i inside
    rw [List.getElem?_range inside]
    rfl
  · rename_i outside
    rw [List.getElem?_eq_none (by simpa using outside)]
    rfl

theorem rename?_named {n i : Nat} (inside : i < n) (name : Nat → String) (other : String) :
    rename? (named n name) i other = some (named n (fun j => if j = i then other else name j)) := by
  rw [rename?,named_length,if_pos inside]
  refine congrArg some (List.ext_getElem? (fun j => ?_))
  rw [List.getElem?_modify,named_getElem?,named_getElem?]
  by_cases here : i = j
  · subst here
    simp [inside]
  · have there : j ≠ i := fun same => here same.symm
    simp [here,there]

theorem override_getElem? (columns : List Column) (names : List String) (i : Nat) :
    (override columns names)[i]? =
      columns[i]?.map (fun c => { c with name := names[i]?.getD c.name }) := by
  induction columns generalizing names i with
  | nil => simp [override]
  | cons c columns ih =>
    cases names with
    | nil => simp [override]
    | cons name names =>
      cases i with
      | zero => simp [override]
      | succ i => simp [override,ih]

theorem override_named (n : Nat) (name : Nat → String) (names : List String) :
    override (named n name) names = named n (fun i => names[i]?.getD (name i)) := by
  refine List.ext_getElem? (fun i => ?_)
  rw [override_getElem?,named_getElem?,named_getElem?]
  split <;> rfl

end Column

namespace Row

def headerName? (r : Row) (i : Nat) : Option String :=
  r[i]?.bind (fun c => if c.header then some c.plainText else none)

theorem entry_concat (formats : DateFormats) (r : Row) (c : Cell) :
    Row.entry formats (r ++ [c]) = (r.entry formats).insert r.length (c.value formats) := by
  rw [entry,entry,OrderedMap.ofList,OrderedMap.ofList,List.zipIdx_append,List.map_append,
    List.foldl_append]
  simp

def named (first : Bool) (r : Row) (name : Nat → String) (i : Nat) : String :=
  if first then (r.headerName? i).getD (name i) else name i

theorem named_concat (first : Bool) (r : Row) (c : Cell) (name : Nat → String) :
    named first (r ++ [c]) name = if first && c.header then
      fun i => if i = r.length then c.plainText else named first r name i
    else named first r name := by
  funext i
  have last : (r ++ [c])[i]? = if i = r.length then some c else r[i]? := by
    by_cases here : i = r.length
    · rw [here,if_pos rfl,List.getElem?_concat_length]
    · rw [if_neg here]
      by_cases inside : i < r.length
      · rw [List.getElem?_append_left inside]
      · rw [List.getElem?_eq_none (by simp; omega),List.getElem?_eq_none (by omega)]
  cases first with
  | false => rfl
  | true =>
    simp only [named,if_true,headerName?,last,Bool.true_and]
    cases isHeader : c.header with
    | true =>
      simp only [if_true]
      split
      · simp [isHeader]
      · rfl
    | false =>
      simp only [Bool.false_eq_true,if_false]
      split
      · rename_i here
        simp [here,isHeader,named,headerName?]
      · rfl

theorem pass?_cell (formats : DateFormats) (first : Bool) (name : Nat → String) {n : Nat} {r : Row}
    (inside : r.length < n) (c : Cell) :
    Cell.pass? formats first (Column.named n (r.named first name),r.entry formats) (c,r.length) =
      some (Column.named n (Row.named first (r ++ [c]) name),Row.entry formats (r ++ [c])) := by
  rw [Cell.pass?,entry_concat,named_concat]
  cases first && c.header with
  | true =>
    simp only [if_true,Column.rename?_named inside]
    rfl
  | false => rfl

-- The cells of a row name columns and fill its entry. The induction is from the first cell on, with
-- the next one at the end.
theorem pass_cells (formats : DateFormats) (first : Bool) (name : Nat → String) {n : Nat} {r : Row}
    (short : r.length ≤ n) :
    r.zipIdx.foldlM (Cell.pass? formats first) (Column.named n name,.empty) =
      some (Column.named n (r.named first name),r.entry formats) := by
  induction r using List.reverseRecOn with
  | nil =>
    cases first <;> rfl
  | append_singleton r c ih =>
    rw [List.length_append,List.length_singleton] at short
    have before := ih (by omega)
    have next := pass?_cell formats first name (show r.length < n by omega) c
    rw [List.zipIdx_append,List.foldlM_append,before,Option.bind_eq_bind,Option.bind_some]
    simp only [Nat.zero_add,List.zipIdx_singleton,List.foldlM_cons,List.foldlM_nil,next]
    rfl

theorem pass?_row (formats : DateFormats) (name : Nat → String) {n : Nat} {r : Row}
    (short : r.length ≤ n) (entries : List RowEntry) (i : Nat) :
    Row.pass? formats (Column.named n name,entries) (r,i) =
      some (Column.named n (r.named (i == 0) name),entries ++ [r.entry formats]) := by
  rw [Row.pass?]
  simp only [pass_cells formats _ name short]
  rfl

theorem pass_rows (formats : DateFormats) (name : Nat → String) {n : Nat} {rows : List Row}
    (short : ∀ r ∈ rows, r.length ≤ n) (entries : List RowEntry) (i : Nat) :
    (rows.zipIdx (i + 1)).foldlM (Row.pass? formats) (Column.named n name,entries) =
      some (Column.named n name,entries ++ rows.map (Row.entry formats)) := by
  induction rows generalizing entries i with
  | nil => simp
  | cons r rows ih =>
    obtain ⟨first,others⟩ := List.forall_mem_cons.mp short
    have unnamed : r.named (i + 1 == 0) name = name := rfl
    rw [List.zipIdx_cons,List.foldlM_cons,pass?_row formats name first,unnamed,
      Option.bind_eq_bind,Option.bind_some,ih others]
    simp

theorem entry_keys_eq (formats : DateFormats) (r : Row) :
    (r.entry formats).keys = List.range r.length := by
  have keys := r.entry_keys formats
  have ascending : Ascending (r.zipIdx.map (fun (c,i) => (i,c.value formats))) := by
    have below : (List.range r.length).Pairwise (fun a b => compare a b = .lt) :=
      List.pairwise_lt_range.imp (fun less => Nat.compare_eq_lt.mpr less)
    rw [←keys,List.pairwise_map] at below
    exact below
  have whole := OrderedMap.ofList_toList ⟨_,ascending⟩
  rw [OrderedMap.keys,entry,whole,keys]

end Row

namespace Table

theorem tabulate?_eq (options : NormalizeOptions) (t : Table) :
    t.tabulate? options = some (t.normalize options) := by
  have rows : t.rows.zipIdx.foldlM (Row.pass? options.dateFormats)
      (Column.named t.width Text.Numeral.natText,[]) =
      some (Column.named t.width (fun i => (t.headerName? i).getD (Text.Numeral.natText i)),
        t.rows.map (Row.entry options.dateFormats)) := by
    have short := t.length_le_width
    have header : t.headerName? = fun i => t.rows.head?.bind (fun r => r.headerName? i) := rfl
    rw [header]
    cases whole : t.rows with
    | nil => rfl
    | cons r others =>
      rw [whole,List.forall_mem_cons] at short
      rw [List.zipIdx_cons,List.foldlM_cons,Row.pass?_row _ _ short.1,Option.bind_eq_bind,
        Option.bind_some,Row.pass_rows _ _ short.2]
      rfl
  have entries : removeFirst? (t.hasHeader && options.headerPolicy = .remove)
      (t.rows.map (Row.entry options.dateFormats)) =
      some ((t.bodyRows options.headerPolicy).map (Row.entry options.dateFormats)) := by
    rw [bodyRows]
    split
    · rename_i removed
      rw [removed]
      cases whole : t.rows with
      | nil =>
        rw [hasHeader,whole] at removed
        cases removed
      | cons r others => rfl
    · rename_i stays
      rw [Bool.eq_false_iff.mpr stays]
      rfl
  rw [tabulate?]
  simp only [rows,Option.bind_eq_bind,Option.bind_some,entries,Column.override_named]
  rfl

end Table

theorem DateFormats.dates (formats : DateFormats) (text : String) :
    formats.Dates text (formats.seconds? text) := by
  simp only [seconds?]
  split
  · rename_i empty
    refine .undated (fun f _ => ?_)
    rw [read?,List.isEmpty_iff.mp empty,Calendar.Format.parse?_nil]
  · cases found : formats.findSome? (fun f =>
        Calendar.Format.parse? f.toList (Text.Chars.trim text.toList)) with
    | none => exact .undated (List.findSome?_eq_none_iff.mp found)
    | some t =>
      obtain ⟨before,format,behind,listed,reads,others⟩ := List.findSome?_eq_some_iff.mp found
      exact .first listed others reads

theorem Row.fills_entry (formats : DateFormats) (r : Row) : r.Fills formats (r.entry formats) := by
  refine ⟨r.entry_keys_eq formats,?_⟩
  intro i c cell
  refine ⟨_,formats.dates c.plainText,?_⟩
  rw [Row.entry_get?,cell]
  rfl

theorem Table.names_columnName (t : Table) (header : List String) (i : Nat) :
    t.Names header i (t.columnName header i) := by
  rw [columnName]
  cases listed : header[i]? with
  | some name => exact .given listed
  | none =>
    rw [Option.getD_none]
    cases told : t.headerName? i with
    | some name =>
      obtain ⟨r,first,inRow⟩ := Option.bind_eq_some_iff.mp told
      obtain ⟨c,cell,named⟩ := Option.bind_eq_some_iff.mp inRow
      split at named
      · rename_i isHeader
        cases named
        exact .told listed first cell isHeader
      · cases named
    | none =>
      refine .counted listed ?_
      intro r first c cell
      rw [headerName?,Option.mem_def.mp first,Option.bind_some,Option.mem_def.mp cell,
        Option.bind_some] at told
      split at told
      · cases told
      · rename_i other
        exact Bool.eq_false_iff.mpr other

theorem Table.removes_iff (t : Table) (policy : HeaderPolicy) :
    t.Removes policy ↔ (t.hasHeader && policy = .remove) = true := by
  rw [Removes,Bool.and_eq_true,decide_eq_true_iff,hasHeader,and_comm,Option.any_eq_true]
  simp only [Row.hasHeader,List.any_eq_true,Option.mem_def]

theorem Table.width_reached (t : Table) : t.width = 0 ∨ ∃ r ∈ t.rows, r.length = t.width := by
  have reached (rows : List Row) (n : Nat) :
      rows.foldl (fun n r => max n r.length) n = n ∨
        ∃ r ∈ rows, r.length = rows.foldl (fun n r => max n r.length) n := by
    induction rows generalizing n with
    | nil => exact .inl rfl
    | cons row rows ih =>
      rw [List.foldl_cons]
      rcases ih (max n row.length) with same | ⟨r,member,longest⟩
      · rw [same]
        rcases Nat.le_total row.length n with less | more
        · exact .inl (Nat.max_eq_left less)
        · exact .inr ⟨row,List.mem_cons_self,(Nat.max_eq_right more).symm⟩
      · exact .inr ⟨r,List.mem_cons_of_mem _ member,longest⟩
  exact reached t.rows 0

theorem Table.tabulates_normalize (options : NormalizeOptions) (t : Table) :
    t.Tabulates options (t.normalize options) := by
  have columns : (t.normalize options).columns =
      Column.named t.width (t.columnName options.header) := rfl
  have filled (rows : List Row) : List.Forall₂ (Row.Fills options.dateFormats) rows
      (rows.map (Row.entry options.dateFormats)) := by
    rw [List.forall₂_map_right_iff,List.forall₂_same]
    exact fun r _ => r.fills_entry options.dateFormats
  constructor
  case longest =>
    rw [columns,Column.named_length]
    refine ⟨t.length_le_width,t.width_reached.imp ?_ id⟩
    intro none
    rw [none]
    rfl
  case ordinals =>
    rw [columns,Column.named_length,Column.named,List.map_map]
    exact List.map_id _
  case names =>
    rw [columns]
    intro c member
    obtain ⟨i,_,rfl⟩ := List.mem_map.mp member
    exact t.names_columnName options.header i
  case removed =>
    intro removes
    have body : t.bodyRows options.headerPolicy = t.rows.tail := by
      rw [bodyRows,if_pos ((t.removes_iff _).mp removes),List.drop_one]
    rw [←body]
    exact filled _
  case kept =>
    intro keeps
    have body : t.bodyRows options.headerPolicy = t.rows := by
      rw [bodyRows,if_neg (mt (t.removes_iff _).mpr keeps)]
    nth_rewrite 1 [←body]
    exact filled _

-- Every table can be passed through to its end, with every number that is reached that of a column
-- or an entry, and what comes of it has the columns and the entries that the table means.
theorem normalize_tabulates (options : NormalizeOptions) (t : Table) :
    t.tabulate? options = some (t.normalize options) ∧
      t.Tabulates options (t.normalize options) :=
  ⟨t.tabulate?_eq options,t.tabulates_normalize options⟩

end TableView
