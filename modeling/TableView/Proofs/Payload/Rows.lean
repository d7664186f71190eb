import TableView.Proofs.Payload.Keys

namespace TableView.Payload

open Text.Numeral (InInt64 ordinalLimit)

namespace CellPart

def put (cell : CellValue) : CellPart → CellValue
  | display s => { cell with display := s }
  | text s => { cell with text := s }
  | date t => { cell with date := some t }

theorem put_comm (cell : CellValue) {a b : CellPart} (differ : a.slot ≠ b.slot) :
    b.put (a.put cell) = a.put (b.put cell) := by
  cases a <;> cases b <;> first | rfl | exact absurd rfl differ

theorem fill_value (key : String) (cell : CellValue) {a : CellPart} (bounded : a.Bounded) :
    fill key a.value cell a.slot = .ok (a.put cell) := by
  cases a with
  | display s => rfl
  | text s => rfl
  | date t =>
    have inside : InInt64 t := bounded
    simp [fill,slot,value,put,timestampOf,Json.ofInt,inside,Except.map]

end CellPart

namespace Placed

def Bounded (a : Placed) : Prop := a.1 < ordinalLimit ∧ a.2.Bounded

def put (entry : RowEntry) (a : Placed) : RowEntry :=
  entry.insert a.1 (a.2.put ((entry.get? a.1).getD .blank))

theorem slotOf_member {a : Placed} (bounded : a.Bounded) : slotOf a.member.1 = .ok a.place :=
  slotOf_slotKey bounded.1 a.2.slot

theorem addMember_member (entry : RowEntry) {a : Placed} (bounded : a.Bounded) :
    addMember entry a.member.1 a.member.2 = .ok (put entry a) := by
  have filled := CellPart.fill_value a.member.1 ((entry.get? a.1).getD .blank) bounded.2
  simp only [addMember,slotOf_member bounded,bind,Except.bind,place]
  rw [member] at filled ⊢
  simp only [filled]
  rfl

theorem put_comm (entry : RowEntry) {a b : Placed} (differ : a.place ≠ b.place) :
    put (put entry a) b = put (put entry b) a := by
  obtain ⟨m,a⟩ := a
  obtain ⟨n,b⟩ := b
  by_cases same : m = n
  · subst same
    have slots : a.slot ≠ b.slot := fun equal => differ (congrArg (Prod.mk m) equal)
    simp only [put,OrderedMap.get?_insert_self,Option.getD_some,OrderedMap.insert_insert,
      CellPart.put_comm _ slots]
  · simp only [put,OrderedMap.get?_insert_other entry same,
      OrderedMap.get?_insert_other entry (Ne.symm same)]
    exact OrderedMap.insert_comm entry same _ _

end Placed

theorem put_cellParts (entry : RowEntry) {ordinal : Nat} (absent : entry.get? ordinal = none)
    (cell : CellValue) :
    ((cellParts cell).map (Prod.mk ordinal)).foldl Placed.put entry =
      entry.insert ordinal cell := by
  rcases cell with ⟨display,text,_ | date⟩ <;>
    simp [cellParts,Placed.put,absent,OrderedMap.get?_insert_self,OrderedMap.insert_insert,
      CellPart.put,CellValue.blank]

theorem put_rowParts (entry : RowEntry) : (rowParts entry).foldl Placed.put .empty = entry := by
  have rows (pairs : List (Nat × CellValue)) (start : RowEntry)
      (distinct : (pairs.map (·.1)).Nodup) (absent : ∀ p ∈ pairs, start.get? p.1 = none) :
      (pairs.flatMap (fun p => (cellParts p.2).map (Prod.mk p.1))).foldl
        Placed.put start = pairs.foldl (fun m p => m.insert p.1 p.2) start := by
    induction pairs generalizing start with
    | nil => rfl
    | cons p pairs ih =>
      rw [List.map_cons,List.nodup_cons] at distinct
      rw [List.flatMap_cons,List.foldl_append,List.foldl_cons]
      rw [put_cellParts start (absent p List.mem_cons_self) p.2]
      refine ih _ distinct.2 ?_
      intro q member
      have other : p.1 ≠ q.1 := fun same => distinct.1 (same ▸ List.mem_map_of_mem member)
      rw [OrderedMap.get?_insert_other start other]
      exact absent q (List.mem_cons_of_mem _ member)
  calc (rowParts entry).foldl Placed.put .empty
      = OrderedMap.ofList entry.toList :=
        rows entry.toList .empty (OrderedMap.keys_nodup entry.ascending) (fun _ _ => rfl)
    _ = entry := OrderedMap.ofList_toList entry

def BoundedRow (entry : RowEntry) : Prop :=
  (∀ p ∈ entry.toList, p.1 < ordinalLimit) ∧ Dated entry

instance (entry : RowEntry) : Decidable (BoundedRow entry) :=
  inferInstanceAs (Decidable (_ ∧ _))

theorem rowParts_bounded {entry : RowEntry} (bounded : BoundedRow entry) :
    ∀ a ∈ rowParts entry, a.Bounded := by
  intro a member
  obtain ⟨cell,inEntry,_⟩ := mem_rowParts.mp member
  exact ⟨bounded.1 _ inEntry,rowParts_dated bounded.2 a member⟩

theorem rowOf_rowJson {entry : RowEntry} (bounded : BoundedRow entry) :
    rowOf (rowJson entry) = .ok entry := by
  have step (a : Placed) (inside : a.Bounded) (rest : List (String × Json)) (start : RowEntry) :
      addMembers (a.member :: rest) start = addMembers rest (Placed.put start a) := by
    have added := Placed.addMember_member start inside
    simp only [addMembers,added,bind,Except.bind]
  have read := read_parts (fun _ => rfl) step (fun s _ _ differ => Placed.put_comm s differ)
    (rowMembers_perm entry) (rowParts_bounded bounded) (rowParts_distinct entry) .empty
  rw [put_rowParts] at read
  exact read

def Contiguous (columns : List Column) : Prop :=
  columns.map (·.ordinal) = List.range columns.length

theorem columnsOf_names {columns : List Column} (contiguous : Contiguous columns) :
    columnsOf (columns.map (·.name)) = columns := by
  refine List.ext_getElem? (fun i => ?_)
  have ordinal := congrArg (·[i]?) contiguous
  simp only [List.getElem?_map] at ordinal
  simp only [columnsOf,List.getElem?_map,List.getElem?_zipIdx,Nat.zero_add]
  cases found : columns[i]? with
  | none => rfl
  | some c =>
    have inside : i < columns.length := (List.getElem?_eq_some_iff.mp found).1
    rw [found,List.getElem?_range inside] at ordinal
    simp only [Option.map_some,Option.some.injEq] at ordinal ⊢
    rw [←ordinal]

theorem decodeColumns_encodeColumns {format : Compression.Format} {columns : List Column}
    (storable : Storable format (encodeColumns format columns)) :
    decodeColumns (encodeColumns format columns) = .ok (columnsOf (columns.map (·.name))) := by
  have listed : decodeList (encodeColumns format columns) =
      .ok (columns.map (fun c => .string c.name)) := by
    refine decodeList_encode ?_ ?_ storable
    · intro v member
      obtain ⟨c,_,rfl⟩ := List.mem_map.mp member
      exact True.intro
    · intro v member
      obtain ⟨c,_,rfl⟩ := List.mem_map.mp member
      rfl
  have names : (columns.map (fun c => Json.string c.name)).mapM scalarText =
      .ok (columns.map (·.name)) := by
    exact mapM_read (fun _ _ => rfl)
  simp only [decodeColumns,listed,names,bind,Except.bind]
  rfl

theorem decodeRows_encodeRows {format : Compression.Format} {entries : List RowEntry}
    (bounded : ∀ e ∈ entries, BoundedRow e) (storable : Storable format (encodeRows format entries)) :
    decodeRows (encodeRows format entries) = .ok entries := by
  have read := mapM_read (fun e member => rowOf_rowJson (bounded e member))
  rw [List.map_id'] at read
  have listed := decodeList_encodeRows (fun e member => (bounded e member).2) storable
  simp only [decodeRows,listed,bind,Except.bind]
  exact read

-- Rows and columns come back from their payloads in every format, whatever the cells show, and the
-- payload is text that needs no quoting in an address.
theorem rows_and_columns_return {format : Compression.Format} {entries : List RowEntry}
    {columns : List Column} (bounded : ∀ e ∈ entries, BoundedRow e)
    (rowsFit : Storable format (encodeRows format entries)) (contiguous : Contiguous columns)
    (columnsFit : Storable format (encodeColumns format columns)) :
    (∀ c ∈ (encodeRows format entries).toList, Base64.isUrlSafe c = true) ∧
      decodeRows (encodeRows format entries) = .ok entries ∧
      decodeColumns (encodeColumns format columns) = .ok columns := by
  refine ⟨Base64.encode_urlSafe _,decodeRows_encodeRows bounded rowsFit,?_⟩
  rw [decodeColumns_encodeColumns columnsFit,columnsOf_names contiguous]

theorem rows_and_columns_return_bzip2 :
    let entries : List RowEntry :=
      [.ofList [(0,⟨"a\"\\\n","007",some (-5)⟩),(18446744073709551615,⟨"é","\x00",none⟩)],
        .empty]
    let columns : List Column := [⟨0,"name"⟩,⟨1,""⟩]
    (∀ e ∈ entries, BoundedRow e) ∧ Contiguous columns ∧
      decodeRows (encodeRows .bzip2 entries) = .ok entries ∧
      decodeColumns (encodeColumns .bzip2 columns) = .ok columns := by
  intro entries columns
  have bounded : ∀ e ∈ entries, BoundedRow e := by decide
  have contiguous : Contiguous columns := rfl
  have fits (payload : String) : Storable .bzip2 payload := fun xz => by cases xz
  exact ⟨bounded,contiguous,(rows_and_columns_return bounded (fits _) contiguous (fits _)).2⟩

end TableView.Payload
