import TableView.Payload.Fields
import TableView.Proofs.Payload.Members

namespace TableView

namespace FieldValue

@[simp] theorem asText_ofString (s : String) : (ofString s).asText = s := by
  unfold ofString
  split
  · split
    · rename_i same
      exact same
    · rfl
  · rfl

theorem seconds?_integer {t : Int} (inside : Text.Numeral.InInt64 t) :
    (number (.integer t)).seconds? = some t := by
  have same : clamp t = t := by
    have least := inside.1
    have bound := inside.2
    rw [clamp]
    omega
  rw [seconds?,same]

end FieldValue

namespace Payload

def CellPart.field : CellPart → FieldValue
  | .display s => .ofString s
  | .text s => .ofString s
  | .date t => .number (.integer t)

theorem CellPart.ofJson_value (a : CellPart) : FieldValue.ofJson a.value = .ok (some a.field) := by
  cases a <;> rfl

def Placed.named (a : Placed) : String × FieldValue := (slotKey a.1 a.2.slot,a.2.field)

def rowFields (entry : RowEntry) : Fields := OrderedMap.ofList ((rowParts entry).map Placed.named)

theorem insert_comm (fields : Fields) {a b : Placed} (differ : a.place ≠ b.place) :
    (fields.insert a.named.1 a.named.2).insert b.named.1 b.named.2 =
      (fields.insert b.named.1 b.named.2).insert a.named.1 a.named.2 := by
  have apart : a.named.1 ≠ b.named.1 := by
    intro same
    obtain ⟨ordinal,slot⟩ := slotKey_injective same
    exact differ (Prod.ext ordinal slot)
  exact OrderedMap.insert_comm fields apart _ _

theorem fieldsOf_rowJson (entry : RowEntry) : fieldsOf (rowJson entry) = .ok (rowFields entry) := by
  have step (a : Placed) (_ : True) (rest : List (String × Json)) (start : Fields) :
      addFields (a.member :: rest) start =
        addFields rest (start.insert a.named.1 a.named.2) := by
    have read := a.2.ofJson_value
    simp only [Placed.member,addFields,addField,read,bind,Except.bind]
    rfl
  have read := read_parts (fun _ => rfl) step (fun s _ _ differ => insert_comm s differ)
    (rowMembers_perm entry) (fun _ _ => True.intro) (rowParts_distinct entry) .empty
  have folded : (rowParts entry).foldl (fun m a => m.insert a.named.1 a.named.2) .empty =
      rowFields entry := by
    rw [rowFields,OrderedMap.ofList,List.foldl_map]
  rw [folded] at read
  exact read

theorem decodeEntries_encodeRows {format : Compression.Format} {entries : List RowEntry}
    (dated : ∀ e ∈ entries, Dated e) (storable : Storable format (encodeRows format entries)) :
    decodeEntries (encodeRows format entries) = .ok (entries.map rowFields) := by
  simp only [decodeEntries,decodeList_encodeRows dated storable,bind,Except.bind]
  exact mapM_read (fun e _ => fieldsOf_rowJson e)

theorem namedKeys_distinct (entry : RowEntry) :
    (((rowParts entry).map Placed.named).map (·.1)).Nodup := by
  have keys := rowKeys_distinct entry
  rw [List.map_map] at keys ⊢
  exact keys

theorem mem_rowFields_keys {entry : RowEntry} {key : String} :
    key ∈ (rowFields entry).keys ↔ ∃ ordinal cell, entry.get? ordinal = some cell ∧
      ∃ part ∈ cellParts cell, key = slotKey ordinal part.slot := by
  have perm := (OrderedMap.ofList_perm (namedKeys_distinct entry)).map (·.1)
  rw [OrderedMap.keys,rowFields,perm.mem_iff,List.map_map,List.mem_map]
  constructor
  · rintro ⟨⟨ordinal,part⟩,inParts,rfl⟩
    obtain ⟨cell,inEntry,inCell⟩ := mem_rowParts.mp inParts
    exact ⟨ordinal,cell,OrderedMap.mem_toList.mp inEntry,part,inCell,rfl⟩
  · rintro ⟨ordinal,cell,found,part,inCell,rfl⟩
    exact ⟨(ordinal,part),mem_rowParts.mpr ⟨cell,OrderedMap.mem_toList.mpr found,inCell⟩,rfl⟩

theorem rowFields_get? {entry : RowEntry} {ordinal : Nat} {cell : CellValue}
    (found : entry.get? ordinal = some cell) {part : CellPart} (inCell : part ∈ cellParts cell) :
    (rowFields entry).get? (slotKey ordinal part.slot) = some part.field := by
  have inParts : (ordinal,part) ∈ rowParts entry :=
    mem_rowParts.mpr ⟨cell,OrderedMap.mem_toList.mpr found,inCell⟩
  rw [rowFields,OrderedMap.get?_ofList (namedKeys_distinct entry)]
  exact OrderedMap.find?_of_mem (namedKeys_distinct entry) (List.mem_map_of_mem inParts)

end Payload

end TableView
