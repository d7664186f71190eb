import TableView.Proofs.Entries.Table
import TableView.Proofs.Query.Names
import TableView.Proofs.View.Render

namespace TableView

def columnKeys (i : Nat) : List String :=
  [Text.Numeral.natText i,Entry.textKey (Text.Numeral.natText i),
    Entry.dateKey (Text.Numeral.natText i)]

structure Describe (descriptors : List PropertyDescriptor) (columns : List Column) : Prop where
  ids : descriptors.map (·.id) = columns.map Column.key
  names : descriptors.map (·.name) = columns.map (·.name)

structure Query.Within (q : Query) (properties : List String) : Prop where
  filters : ∀ f ∈ q.filters, f.property ∈ properties
  sort : ∀ s ∈ q.sort, s.property ∈ properties

theorem describe_map {make : Column → PropertyDescriptor} (id : ∀ c, (make c).id = c.key)
    (name : ∀ c, (make c).name = c.name) (columns : List Column) :
    Describe (columns.map make) columns := by
  constructor
  · rw [List.map_map]
    exact List.map_congr_left (fun c _ => id c)
  · rw [List.map_map]
    exact List.map_congr_left (fun c _ => name c)

theorem Payload.Contiguous.keys {columns : List Column} (contiguous : Payload.Contiguous columns) :
    columns.map Column.key = (List.range columns.length).map Text.Numeral.natText := by
  rw [←contiguous,List.map_map]
  rfl

theorem Query.resolve_within {columns : List Column} {q : Query}
    (within : q.Within (columns.map Column.key)) : q.resolve columns = q := by
  have filters : q.filters.map (fun f =>
      { f with property := resolveProperty columns f.property }) = q.filters := by
    rw [List.map_congr_left (g := id),List.map_id]
    intro f member
    rw [resolveProperty_key (within.filters f member)]
    rfl
  have sort : q.sort.map (fun s =>
      { s with property := resolveProperty columns s.property }) = q.sort := by
    rw [List.map_congr_left (g := id),List.map_id]
    intro s member
    rw [resolveProperty_key (within.sort s member)]
    rfl
  rw [resolve,filters,sort]

theorem ParsedTable.Regular.decodeColumns {table : ParsedTable} (regular : table.Regular)
    {format : Compression.Format}
    (fits : Payload.Storable format (Payload.encodeColumns format table.columns)) :
    Payload.decodeColumns (Payload.encodeColumns format table.columns) = .ok table.columns := by
  rw [Payload.decodeColumns_encodeColumns fits,Payload.columnsOf_names regular.contiguous]

theorem configuration_columns {fields : String} {columns : List Column}
    (decoded : Payload.decodeColumns fields = .ok columns) :
    ∃ c, Session.configuration (some fields) = .ok c ∧
      Describe c.described.propertyDescriptors columns := by
  have told : propertyDescriptors fields = .ok (columns.map (fun c => .generic c.key c.name)) := by
    rw [propertyDescriptors,decoded]
    rfl
  refine ⟨_,by rw [Session.configuration,told],?_⟩
  exact describe_map (fun _ => rfl) (fun _ => rfl) columns

theorem ParsedTable.Regular.rowFields_keys {table : ParsedTable} (regular : table.Regular)
    {row : RowEntry} (member : row ∈ table.entries) {key : String}
    (told : key ∈ (Payload.rowFields row).keys) :
    ∃ i < table.columns.length, key ∈ columnKeys i := by
  obtain ⟨i,cell,found,part,_,rfl⟩ := Payload.mem_rowFields_keys.mp told
  refine ⟨i,regular.inside row member i cell found,?_⟩
  cases part with
  | display s => exact List.mem_cons_self
  | text s => exact List.mem_cons_of_mem _ List.mem_cons_self
  | date t => exact List.mem_cons_of_mem _ (List.mem_cons_of_mem _ List.mem_cons_self)

theorem ParsedTable.Regular.decodeRows {table : ParsedTable} (regular : table.Regular)
    (dated : ∀ e ∈ table.entries, Payload.Dated e) {format : Compression.Format}
    (fits : Payload.Storable format (Payload.encodeRows format table.entries))
    (small : table.columns.length ≤ Text.Numeral.ordinalLimit) :
    Payload.decodeRows (Payload.encodeRows format table.entries) = .ok table.entries := by
  refine Payload.decodeRows_encodeRows (fun e member => ⟨?_,dated e member⟩) fits
  rintro ⟨i,cell⟩ inRow
  have inside := regular.inside e member i cell (OrderedMap.mem_toList.mp inRow)
  exact Nat.lt_of_lt_of_le inside small

-- A view agrees with itself: the properties of its query are the numerals from zero on, its
-- descriptors and a configuration made of its fields list the same numerals with the names of the
-- columns, no query that speaks of them is changed by resolving names, and the rows behind its
-- reference tell nothing of other columns.
theorem view_columns_agree {settings : RenderSettings} {cache : Option Cache}
    {blocks : List Block} {p : ViewParameters} {now : Time} {view : RenderedView}
    (rendered : (render settings cache blocks p now).1 = .ok view)
    (fits : ∀ table, parseTable blocks p = .ok table →
      Payload.Storable settings.compression
        (Payload.encodeRows settings.compression table.entries) ∧
      Payload.Storable settings.compression
        (Payload.encodeColumns settings.compression table.columns)) :
    ∃ (table : ParsedTable) (fields payload : String), parseTable blocks p = .ok table ∧
      view.liveData.query.source.fields = some fields ∧
      view.liveData.query.source.entries = (storeEntries cache payload now).1 ∧
      (render settings cache blocks p now).2 = (storeEntries cache payload now).2 ∧
      let n := table.columns.length
      let ids := (List.range n).map Text.Numeral.natText
      view.liveData.query.properties = ids ∧ table.columns.map Column.key = ids ∧
      Describe view.liveData.described.propertyDescriptors table.columns ∧
      (∃ c, Session.configuration (some fields) = .ok c ∧
        Describe c.described.propertyDescriptors table.columns) ∧
      (∃ columns, Payload.decodeColumns fields = .ok columns ∧
        ∀ q : Query, q.Within ids → q.resolve columns = q) ∧
      (∃ rows, Payload.decodeEntries payload = .ok rows ∧
        ∀ row ∈ rows, ∀ key ∈ row.keys, ∃ i < n, key ∈ columnKeys i) ∧
      (n ≤ Text.Numeral.ordinalLimit → ∃ rows, Payload.decodeRows payload = .ok rows ∧
        ∀ row ∈ rows, ∀ i cell, row.get? i = some cell → i < n) := by
  obtain ⟨payload,given,reference,after⟩ := render_ok rendered
  obtain ⟨table,parsed,rfl⟩ := rowsPayload_ok given
  obtain ⟨rowsFit,columnsFit⟩ := fits table parsed
  have regular := parseTable_regular parsed
  have dated := parseTable_dated parsed
  have keys := regular.contiguous.keys
  have decoded := regular.decodeColumns columnsFit
  simp only [render,parsed,Except.ok.injEq] at rendered
  subst rendered
  refine ⟨table,Payload.encodeColumns settings.compression table.columns,_,parsed,rfl,reference,
    after,keys,keys,describe_map (fun _ => rfl) (fun _ => rfl) _,configuration_columns decoded,
    ⟨table.columns,decoded,?_⟩,⟨_,decodeEntries_rowsPayload parsed rowsFit,?_⟩,?_⟩
  · intro q within
    rw [←keys] at within
    exact Query.resolve_within within
  · intro row member key told
    obtain ⟨e,inTable,rfl⟩ := List.mem_map.mp member
    exact regular.rowFields_keys inTable told
  · intro small
    exact ⟨table.entries,regular.decodeRows dated rowsFit small,regular.inside⟩

theorem view_columns_agree_crossed :
    let settings : RenderSettings := ⟨.bzip2,10⟩
    let blocks : List Block := [.table ⟨[[⟨true,"1"⟩,⟨true,"0"⟩,⟨true,"1"⟩],[⟨false,"a"⟩],[]]⟩]
    let q : Query := ⟨[⟨"0",[]⟩],[⟨"1",true⟩,⟨"2",false⟩],0,none⟩
    ∃ (view : RenderedView) (fields : String),
      (render settings none blocks .standard 0).1 = .ok view ∧
      view.liveData.query.source.fields = some fields ∧
      view.liveData.query.properties = ["0","1","2"] ∧
      (∃ c, Session.configuration (some fields) = .ok c ∧
        c.described.propertyDescriptors.map (·.id) = ["0","1","2"] ∧
        c.described.propertyDescriptors.map (·.name) = ["1","0","1"]) ∧
      ∃ columns, Payload.decodeColumns fields = .ok columns ∧ q.resolve columns = q := by
  intro settings blocks q
  obtain ⟨separator,read⟩ := standardSeparator_read
  have options : ViewParameters.standard.normalizeOptions = .ok ⟨.remove,[],[]⟩ :=
    ViewParameters.standard.normalizeOptions_unlisted read rfl rfl
  have normal : normalizeDocument ⟨.remove,[],[]⟩ blocks = ⟨[⟨0,"1"⟩,⟨1,"0"⟩,⟨2,"1"⟩],
      [.ofList [(0,⟨"a","a",none⟩)],.empty]⟩ := by decide +kernel
  have parsed : parseTable blocks .standard = .ok ⟨[⟨0,"1"⟩,⟨1,"0"⟩,⟨2,"1"⟩],
      [.ofList [(0,⟨"a","a",none⟩)],.empty]⟩ := by
    rw [parseTable,options]
    exact congrArg Except.ok normal
  have fits (payload : String) : Payload.Storable .bzip2 payload := fun xz => by cases xz
  have rendered : ∃ view, (render settings none blocks .standard 0).1 = .ok view := by
    rw [render,parsed]
    exact ⟨_,rfl⟩
  obtain ⟨view,rendered⟩ := rendered
  obtain ⟨table,fields,_,same,told,_,_,properties,_,_,⟨c,configured,described⟩,
    ⟨columns,decoded,fixed⟩,_⟩ := view_columns_agree rendered
      (fun _ _ => ⟨fits _,fits _⟩)
  cases parsed.symm.trans same
  have numerals : (List.range 3).map Text.Numeral.natText = ["0","1","2"] := by decide +kernel
  have within : q.Within ((List.range 3).map Text.Numeral.natText) := by
    rw [numerals]
    constructor <;> decide
  exact ⟨view,fields,rendered,told,properties.trans numerals,
    ⟨c,configured,described.ids.trans numerals,described.names⟩,columns,decoded,fixed q within⟩

end TableView
