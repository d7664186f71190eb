import TableView.Proofs.Cache.Store
import TableView.Proofs.Entries.Table
import TableView.Proofs.Payload.Fields
import TableView.Proofs.Query.Execution

namespace TableView

def rowsPayload (settings : RenderSettings) (blocks : List Block) (p : ViewParameters) :
    Except RequestFault String :=
  (parseTable blocks p).map (fun table =>
    Payload.encodeRows settings.compression table.entries)

theorem rowsPayload_ok {settings : RenderSettings} {blocks : List Block} {p : ViewParameters}
    {payload : String} (given : rowsPayload settings blocks p = .ok payload) :
    ∃ table, parseTable blocks p = .ok table ∧
      payload = Payload.encodeRows settings.compression table.entries := by
  cases parsed : parseTable blocks p with
  | error e => rw [rowsPayload,parsed] at given; cases given
  | ok table =>
    rw [rowsPayload,parsed] at given
    exact ⟨table,rfl,(Except.ok.inj given).symm⟩

theorem render_ok {settings : RenderSettings} {cache : Option Cache} {blocks : List Block}
    {p : ViewParameters} {now : Time} {view : RenderedView}
    (rendered : (render settings cache blocks p now).1 = .ok view) :
    ∃ payload, rowsPayload settings blocks p = .ok payload ∧
      view.liveData.query.source.entries = (storeEntries cache payload now).1 ∧
      (render settings cache blocks p now).2 = (storeEntries cache payload now).2 := by
  cases parsed : parseTable blocks p with
  | error e => rw [render,parsed] at rendered; cases rendered
  | ok table =>
    refine ⟨Payload.encodeRows settings.compression table.entries,?_,?_,?_⟩
    · rw [rowsPayload,parsed]; rfl
    · simp only [render,parsed,Except.ok.injEq] at rendered
      rw [←rendered]; rfl
    · simp only [render,parsed]

theorem render_given {settings : RenderSettings} {blocks : List Block} {p : ViewParameters}
    {payload : String} (given : rowsPayload settings blocks p = .ok payload)
    (cache : Option Cache) (now : Time) :
    ∃ view, (render settings cache blocks p now).1 = .ok view ∧
      view.liveData.query.source.entries = (storeEntries cache payload now).1 := by
  obtain ⟨table,parsed,rfl⟩ := rowsPayload_ok given
  exact ⟨_,by rw [render,parsed],rfl⟩

theorem decodeEntries_rowsPayload {settings : RenderSettings} {blocks : List Block}
    {p : ViewParameters} {table : ParsedTable} (parsed : parseTable blocks p = .ok table)
    (fits : Payload.Storable settings.compression
      (Payload.encodeRows settings.compression table.entries)) :
    Payload.decodeEntries (Payload.encodeRows settings.compression table.entries) =
      .ok (table.entries.map Payload.rowFields) :=
  Payload.decodeEntries_encodeRows (parseTable_dated parsed) fits

theorem storeEntries_resolves {cache : Option Cache} {payload : String} {now asked : Time}
    (soon : ∀ c ∈ cache, asked - now ≤ c.maxIdle) {decoded : List Fields}
    (given : Payload.decodeEntries payload = .ok decoded) :
    Resolves (storeEntries cache payload now).2 (storeEntries cache payload now).1 asked
      decoded := by
  cases cache with
  | none => exact given
  | some c =>
    have resident := c.put_resident_self (payloadKey payload) payload now
    have fresh : (c.put (payloadKey payload) payload now).Fresh now asked := soon c rfl
    have found := Cache.get_of_resident resident List.not_mem_nil fresh
    simp only [Resolves,storeEntries,lookUp_cache,found,Option.getD_some]
    exact given

theorem Query.run_standard (entries : List Entry) :
    Query.standard.run entries = ⟨entries,entries.length⟩ := by
  have all : Query.standard.matching entries = entries :=
    List.filter_eq_self.mpr (fun _ _ => rfl)
  rw [Query.run_unsorted rfl,all]
  rfl

structure Tells (fields : Fields) (row : RowEntry) : Prop where
  keys : ∀ key, key ∈ fields.keys ↔ ∃ n cell, row.get? n = some cell ∧
    (key = Text.Numeral.natText n ∨ key = Entry.textKey (Text.Numeral.natText n) ∨
      key = Entry.dateKey (Text.Numeral.natText n) ∧ cell.date.isSome = true)
  display : ∀ n cell, row.get? n = some cell →
    (fields.get? (Text.Numeral.natText n)).map FieldValue.asText = some cell.display
  text : ∀ n cell, row.get? n = some cell →
    (fields.get? (Entry.textKey (Text.Numeral.natText n))).map FieldValue.asText = some cell.text
  date : ∀ n cell t, row.get? n = some cell → cell.date = some t →
    (fields.get? (Entry.dateKey (Text.Numeral.natText n))).bind FieldValue.seconds? = some t

theorem rowFields_tells {row : RowEntry} (dated : Payload.Dated row) :
    Tells (Payload.rowFields row) row := by
  have shown (cell : CellValue) : Payload.CellPart.display cell.display ∈ Payload.cellParts cell :=
    List.mem_append_left _ List.mem_cons_self
  have texts (cell : CellValue) : Payload.CellPart.text cell.text ∈ Payload.cellParts cell :=
    List.mem_append_left _ (List.mem_cons_of_mem _ List.mem_cons_self)
  have dates {cell : CellValue} {t : Int} (given : cell.date = some t) :
      Payload.CellPart.date t ∈ Payload.cellParts cell :=
    List.mem_append_right _ (List.mem_map_of_mem (Option.mem_toList.mpr given))
  constructor
  · intro key
    rw [Payload.mem_rowFields_keys]
    refine exists_congr (fun n => exists_congr (fun cell => and_congr_right (fun _ => ?_)))
    constructor
    · rintro ⟨part,inCell,rfl⟩
      rcases List.mem_append.mp inCell with first | last
      · rcases List.mem_pair.mp first with rfl | rfl
        · exact Or.inl rfl
        · exact Or.inr (Or.inl rfl)
      · obtain ⟨t,inDate,rfl⟩ := List.mem_map.mp last
        have given : cell.date = some t := Option.mem_toList.mp inDate
        exact Or.inr (Or.inr ⟨rfl,by rw [given]; rfl⟩)
    · rintro (rfl | rfl | ⟨rfl,given⟩)
      · exact ⟨_,shown cell,rfl⟩
      · exact ⟨_,texts cell,rfl⟩
      · obtain ⟨t,given⟩ := Option.isSome_iff_exists.mp given
        exact ⟨_,dates given,rfl⟩
  · intro n cell found
    have field := Payload.rowFields_get? found (shown cell)
    exact (congrArg (Option.map FieldValue.asText) field).trans
      (congrArg some (FieldValue.asText_ofString cell.display))
  · intro n cell found
    have field := Payload.rowFields_get? found (texts cell)
    exact (congrArg (Option.map FieldValue.asText) field).trans
      (congrArg some (FieldValue.asText_ofString cell.text))
  · intro n cell t found given
    have field := Payload.rowFields_get? found (dates given)
    have inside := dated (n,cell) (OrderedMap.mem_toList.mpr found) t given
    exact (congrArg (Option.bind · FieldValue.seconds?) field).trans
      (FieldValue.seconds?_integer inside)

-- A view is queried for everything: every row of its table comes back, in its place, with all that
-- its cells tell. The reference of a cached view has to be asked for before it expires.
theorem view_tells_rows {settings : RenderSettings} {cache : Option Cache} {blocks : List Block}
    {p : ViewParameters} {now asked : Time} {view : RenderedView}
    (rendered : (render settings cache blocks p now).1 = .ok view)
    (fits : ∀ payload, rowsPayload settings blocks p = .ok payload →
      Payload.Storable settings.compression payload)
    (soon : ∀ c ∈ cache, asked - now ≤ c.maxIdle) :
    ∃ (table : ParsedTable) (r : QueryResult), parseTable blocks p = .ok table ∧
      (execute (render settings cache blocks p now).2 view.liveData.query.source.entries
        .standard asked).1 = .ok r ∧
      r.count = table.entries.length ∧ r.entries.length = table.entries.length ∧
      ∀ i row, table.entries[i]? = some row →
        ∃ e : Entry, r.entries[i]? = some e ∧ e.rowId = i ∧ Tells e.fields row := by
  obtain ⟨payload,given,reference,after⟩ := render_ok rendered
  obtain ⟨table,parsed,rfl⟩ := rowsPayload_ok given
  have decoded := decodeEntries_rowsPayload parsed (fits _ given)
  have answered := execute_resolved (storeEntries_resolves soon decoded) .standard
  rw [←reference,←after,Query.run_standard] at answered
  have length : (Entry.numbered (table.entries.map Payload.rowFields)).length =
      table.entries.length := by
    rw [Entry.numbered,List.length_map,List.length_zipIdx,List.length_map]
  refine ⟨table,_,parsed,answered,length,length,?_⟩
  intro i row found
  refine ⟨⟨i,Payload.rowFields row⟩,?_,rfl,?_⟩
  · rw [Entry.numbered_getElem?,List.getElem?_map,found]
    rfl
  · exact rowFields_tells (parseTable_dated parsed row (List.mem_of_getElem? found))

-- Without a list to be split nothing depends on the separator, as long as it can be read.
theorem ViewParameters.normalizeOptions_unlisted (p : ViewParameters) {separator : Pattern}
    (readable : Pattern.ofString? p.separator = some separator) (formats : p.dateFormats = none)
    (header : p.header = none) :
    p.normalizeOptions = .ok ⟨p.headerDetection,p.defaultDateFormats,[]⟩ := by
  rw [normalizeOptions,readable,formats,header]

theorem standardSeparator_read : ∃ separator, Pattern.ofString? standardSeparator = some separator :=
  Option.isSome_iff_exists.mp (by decide)

theorem view_tells_rows_cached :
    let settings : RenderSettings := ⟨.gzip,10⟩
    let cache : Option Cache := some (.create 1 60)
    let blocks : List Block := [.text "before",.table ⟨[[⟨true,"Name"⟩,⟨true,"Made"⟩],
      [⟨false,"007"⟩,⟨false,"2024-02-29"⟩]]⟩]
    let p : ViewParameters := { ViewParameters.standard with
      defaultDateFormats := ["%Y-%m-%d"] }
    ∃ (view : RenderedView) (e : Entry), (render settings cache blocks p 5).1 = .ok view ∧
      (execute (render settings cache blocks p 5).2 view.liveData.query.source.entries
        .standard 65).1 = .ok ⟨[e],1⟩ ∧ e.rowId = 0 ∧
      (e.fields.get? (Text.Numeral.natText 0)).map FieldValue.asText = some "007" ∧
      (e.fields.get? (Entry.dateKey (Text.Numeral.natText 1))).bind FieldValue.seconds? =
        some 1709164800 := by
  intro settings cache blocks p
  let row : RowEntry := .ofList [(0,⟨"007","007",none⟩),
    (1,⟨"2024-02-29","2024-02-29",some 1709164800⟩)]
  have normal : normalizeDocument ⟨.remove,["%Y-%m-%d"],[]⟩ blocks =
      ⟨[⟨0,"Name"⟩,⟨1,"Made"⟩],[row]⟩ := by decide +kernel
  obtain ⟨separator,read⟩ := standardSeparator_read
  have options : p.normalizeOptions = .ok ⟨.remove,["%Y-%m-%d"],[]⟩ := by
    have same : Pattern.ofString? p.separator = some separator := read
    rw [ViewParameters.normalizeOptions,same]
    rfl
  have parsed : parseTable blocks p = .ok ⟨[⟨0,"Name"⟩,⟨1,"Made"⟩],[row]⟩ := by
    rw [parseTable,options]
    exact congrArg Except.ok normal
  have rendered : ∃ view, (render settings cache blocks p 5).1 = .ok view := by
    rw [render,parsed]
    exact ⟨_,rfl⟩
  obtain ⟨view,rendered⟩ := rendered
  obtain ⟨table,r,same,answer,count,length,rows⟩ := view_tells_rows rendered
    (fun _ _ xz => by cases xz) (show ∀ c ∈ cache, 65 - 5 ≤ c.maxIdle by decide)
  cases parsed.symm.trans same
  obtain ⟨e,first,rowId,tells⟩ := rows 0 row rfl
  obtain ⟨found,count⟩ := r
  obtain ⟨only,rfl⟩ := List.length_eq_one_iff.mp length
  cases first
  refine ⟨view,e,rendered,?_,rowId,tells.display 0 _ rfl,tells.date 1 _ _ rfl rfl⟩
  rw [answer]
  exact congrArg (fun n => Except.ok (QueryResult.mk [e] n)) ‹_›

end TableView
