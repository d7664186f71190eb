import TableView.Proofs.Payload.Fields
import TableView.Proofs.Payload.Places

namespace TableView

def FieldValue.Matches (v : FieldValue) : Payload.CellPart → Prop
  | .display s => v.asText = s
  | .text s => v.asText = s
  | .date t => v.seconds? = some t

theorem FieldValue.ofJson_none {value : Json} : ofJson value = .ok none ↔ value = .null := by
  cases value <;> simp [ofJson]

namespace Payload

theorem scalarText_field {value : Json} {s : String} (read : scalarText value = .ok s)
    (given : value ≠ .null) : ∃ v, FieldValue.ofJson value = .ok (some v) ∧ v.asText = s := by
  cases value with
  | null => exact absurd rfl given
  | bool b =>
    cases read
    exact ⟨.text (boolText b),rfl,rfl⟩
  | number n =>
    cases read
    exact ⟨.number n,rfl,rfl⟩
  | string _ =>
    cases read
    exact ⟨.ofString s,rfl,FieldValue.asText_ofString s⟩
  | array items => cases read
  | object members => cases read

namespace CellPart.Reads

variable {a : CellPart} {value : Json}

theorem field (reads : a.Reads value) (given : value ≠ .null) :
    ∃ v, FieldValue.ofJson value = .ok (some v) ∧ v.Matches a := by
  cases a with
  | display s => exact scalarText_field reads given
  | text s => exact scalarText_field reads given
  | date t =>
    obtain ⟨rfl,inside⟩ := reads
    exact ⟨.number (.integer t),rfl,FieldValue.seconds?_integer inside⟩

theorem scalar (reads : a.Reads value) : ∃ field, FieldValue.ofJson value = .ok field := by
  by_cases null : value = .null
  · exact ⟨none,FieldValue.ofJson_none.mpr null⟩
  · obtain ⟨v,read,_⟩ := reads.field null
    exact ⟨some v,read⟩

theorem dated (reads : a.Reads value) (date : a.slot = .date) : value ≠ .null := by
  cases a with
  | date t =>
    obtain ⟨rfl,_⟩ := reads
    simp [Json.ofInt]
  | _ => cases date

end CellPart.Reads

theorem addField_ok {fields : Fields} {key : String} {value : Json} {field : Option FieldValue}
    (read : FieldValue.ofJson value = .ok field) (fresh : fields.get? key = none) :
    ∃ next, addField fields key value = .ok next ∧ next.get? key = field ∧
      ∀ other, other ≠ key → next.get? other = fields.get? other := by
  cases field with
  | none =>
    refine ⟨fields,?_,fresh,fun _ _ => rfl⟩
    rw [addField,read]
    rfl
  | some v =>
    refine ⟨fields.insert key v,?_,OrderedMap.get?_insert_self fields key v,?_⟩
    · rw [addField,read]
      rfl
    · intro other differ
      exact OrderedMap.get?_insert_other fields differ.symm v

theorem addFields_ok {members : List (String × Json)} {start : Fields}
    (scalar : ∀ p ∈ members, ∃ field, FieldValue.ofJson p.2 = .ok field)
    (distinct : (members.map (·.1)).Nodup) (fresh : ∀ p ∈ members, start.get? p.1 = none) :
    ∃ fields, addFields members start = .ok fields ∧
      (∀ p ∈ members, FieldValue.ofJson p.2 = .ok (fields.get? p.1)) ∧
      ∀ key, key ∉ members.map (·.1) → fields.get? key = start.get? key := by
  induction members generalizing start with
  | nil => exact ⟨start,rfl,by simp,fun _ _ => rfl⟩
  | cons p members ih =>
    obtain ⟨name,value⟩ := p
    obtain ⟨absent,distinct⟩ := List.nodup_cons.mp distinct
    obtain ⟨field,read⟩ := scalar (name,value) List.mem_cons_self
    obtain ⟨next,added,own,kept⟩ := addField_ok read (fresh (name,value) List.mem_cons_self)
    have still : ∀ p ∈ members, next.get? p.1 = none := by
      intro p member
      have differ : p.1 ≠ name := by
        intro same
        exact absent (List.mem_map.mpr ⟨p,member,same⟩)
      rw [kept p.1 differ]
      exact fresh p (List.mem_cons_of_mem _ member)
    obtain ⟨fields,rest,each,others⟩ :=
      ih (fun p member => scalar p (List.mem_cons_of_mem _ member)) distinct still
    refine ⟨fields,?_,?_,?_⟩
    · simp only [addFields,added,bind,Except.bind]
      exact rest
    · rw [List.forall_mem_cons]
      refine ⟨?_,each⟩
      rw [others name absent,own]
      exact read
    · intro key missing
      rw [List.map_cons,List.mem_cons,not_or] at missing
      rw [others key missing.2,kept key missing.1]

structure Agree (members : List (String × Json)) (row : RowEntry) (fields : Fields) : Prop where
  display : ∀ n value, (slotKey n .display,value) ∈ members → value ≠ .null →
    ∃ cell v, row.get? n = some cell ∧ fields.get? (slotKey n .display) = some v ∧
      v.asText = cell.display
  text : ∀ n value, (slotKey n .text,value) ∈ members → value ≠ .null →
    ∃ cell v, row.get? n = some cell ∧ fields.get? (slotKey n .text) = some v ∧
      v.asText = cell.text
  date : ∀ n value, (slotKey n .date,value) ∈ members →
    ∃ cell v t, row.get? n = some cell ∧ fields.get? (slotKey n .date) = some v ∧
      cell.date = some t ∧ v.seconds? = some t
  missing : ∀ key, fields.get? key = none ↔ key ∉ members.map (·.1) ∨ (key,.null) ∈ members

theorem Tells.both {members : List (String × Json)} {row : RowEntry} {fields : Fields}
    (tells : Tells members row) (apart : Apart members)
    (each : ∀ p ∈ members, FieldValue.ofJson p.2 = .ok (fields.get? p.1)) {n : Nat} {slot : Slot}
    {value : Json} (member : (slotKey n slot,value) ∈ members)
    (given : value ≠ .null ∨ slot = .date) :
    ∃ cell a v, row.get? n = some cell ∧ a ∈ cellParts cell ∧ a.slot = slot ∧
      fields.get? (slotKey n slot) = some v ∧ v.Matches a := by
  obtain ⟨⟨m,a⟩,inRow,spells,reads⟩ := tells.told apart member
  obtain ⟨rfl,rfl⟩ := Prod.mk.inj spells.slotKey
  obtain ⟨cell,found,inCell⟩ := mem_parts.mp inRow
  obtain ⟨v,read,tell⟩ := reads.field (given.elim id reads.dated)
  have own := (each _ member).symm.trans read
  exact ⟨cell,a,v,found,inCell,rfl,Except.ok.inj own,tell⟩

theorem Tells.agree {members : List (String × Json)} {row : RowEntry} {fields : Fields}
    (tells : Tells members row) (apart : Apart members)
    (each : ∀ p ∈ members, FieldValue.ofJson p.2 = .ok (fields.get? p.1))
    (others : ∀ key, key ∉ members.map (·.1) → fields.get? key = none) :
    Agree members row fields := by
  refine ⟨?_,?_,?_,?_⟩
  · intro n value member given
    obtain ⟨cell,a,v,found,inCell,same,own,tell⟩ := tells.both apart each member (Or.inl given)
    cases a with
    | display s =>
      have shown : s = cell.display := by simpa [cellParts] using inCell
      exact ⟨cell,v,found,own,shown ▸ tell⟩
    | _ => cases same
  · intro n value member given
    obtain ⟨cell,a,v,found,inCell,same,own,tell⟩ := tells.both apart each member (Or.inl given)
    cases a with
    | text s =>
      have kept : s = cell.text := by simpa [cellParts] using inCell
      exact ⟨cell,v,found,own,kept ▸ tell⟩
    | _ => cases same
  · intro n value member
    obtain ⟨cell,a,v,found,inCell,same,own,tell⟩ := tells.both apart each member (Or.inr rfl)
    cases a with
    | date t =>
      have dated : cell.date = some t := by simpa [cellParts] using inCell
      exact ⟨cell,v,t,found,own,dated,tell⟩
    | _ => cases same
  · intro key
    constructor
    · intro none
      by_cases inside : key ∈ members.map (·.1)
      · obtain ⟨⟨name,value⟩,member,rfl⟩ := List.mem_map.mp inside
        have read := each _ member
        rw [none] at read
        cases FieldValue.ofJson_none.mp read
        exact Or.inr member
      · exact Or.inl inside
    · rintro (outside | null)
      · exact others key outside
      · exact (Except.ok.inj (each _ null)).symm

theorem Tells.fields {members : List (String × Json)} {row : RowEntry} (tells : Tells members row)
    (distinct : (members.map (·.1)).Nodup) (canonical : Canonical members) :
    ∃ fields, fieldsOf (.object members) = .ok fields ∧ Agree members row fields := by
  have scalar : ∀ p ∈ members, ∃ field, FieldValue.ofJson p.2 = .ok field := by
    intro p member
    obtain ⟨a,_,reads⟩ := tells.reads p member
    exact reads.scalar
  have fresh : ∀ p ∈ members, (OrderedMap.empty : Fields).get? p.1 = none := fun _ _ => rfl
  obtain ⟨fields,added,each,others⟩ := addFields_ok scalar distinct fresh
  exact ⟨fields,added,tells.agree (canonical.apart distinct) each others⟩

theorem mapM_along {α β γ ε : Type} {f : α → Except ε β} {P : α → γ → β → Prop} {as : List α}
    {cs : List γ} (each : List.Forall₂ (fun a c => ∃ b, f a = .ok b ∧ P a c b) as cs) :
    ∃ bs, as.mapM f = .ok bs ∧ as.length = cs.length ∧ bs.length = cs.length ∧
      ∀ (i : Nat) a c b, as[i]? = some a → cs[i]? = some c → bs[i]? = some b → P a c b := by
  induction each with
  | nil => exact ⟨[],rfl,rfl,rfl,by simp⟩
  | @cons a c as cs one _ ih =>
    obtain ⟨b,first,holds⟩ := one
    obtain ⟨bs,rest,length,also,later⟩ := ih
    refine ⟨b :: bs,?_,by simp [length],by simp [also],?_⟩
    · simp only [List.mapM_cons,first,rest,bind,Except.bind]
      rfl
    · intro i a' c' b' atFirst atSecond atThird
      cases i with
      | zero =>
        cases atFirst
        cases atSecond
        cases atThird
        exact holds
      | succ i => exact later i a' c' b' atFirst atSecond atThird

-- The keys in the objects of a payload have neither a sign nor zeros before their digits.
def CanonicalKeys (payload : String) : Prop :=
  ∀ items, decodeList payload = .ok items →
    ∀ members, Json.object members ∈ items → Canonical members

-- Where rows can be read from a payload, fields can, and as many. Row by row, the fields have the
-- texts and the dates of the cells, and lack what is null or not there.
theorem decoders_agree {payload : String} {rows : List RowEntry}
    (given : decodeRows payload = .ok rows) (canonical : CanonicalKeys payload) :
    ∃ (objects : List (List (String × Json))) (entries : List Fields),
      decodeList payload = .ok (objects.map .object) ∧ decodeEntries payload = .ok entries ∧
      objects.length = rows.length ∧ entries.length = rows.length ∧
      ∀ (i : Nat) members row fields, objects[i]? = some members → rows[i]? = some row →
        entries[i]? = some fields → Agree members row fields := by
  obtain ⟨objects,listed,read⟩ := decodeRows_objects given
  have plain : ∀ members ∈ objects, Canonical members :=
    fun members inside => canonical _ listed members (List.mem_map_of_mem inside)
  have each : List.Forall₂ (fun members row => ∃ fields, fieldsOf (.object members) = .ok fields ∧
      Agree members row fields) objects rows := by
    apply ((List.forall₂_and_left _ _).mpr ⟨plain,read⟩).imp
    rintro members row ⟨canonical,distinct,tells⟩
    exact tells.fields distinct canonical
  obtain ⟨entries,told,length,also,agree⟩ := mapM_along each
  refine ⟨objects,entries,listed,?_,length,also,agree⟩
  simp only [decodeEntries,listed,bind,Except.bind]
  rw [List.mapM_map]
  exact told

theorem decoders_agree_mixed :
    let members := [("0",.string "007"),("1",.bool true),("date.0",Json.ofInt 5),
      ("text.0",.string "7"),("text.1",.null)]
    let row : RowEntry := .ofList [(0,⟨"007","7",some 5⟩),(1,⟨"true","",none⟩)]
    let payload := encode .gzip (.array [.object members])
    decodeRows payload = .ok [row] ∧ CanonicalKeys payload ∧
      ∃ fields, decodeEntries payload = .ok [fields] ∧ Agree members row fields := by
  intro members row payload
  have listed : decodeList payload = .ok [.object members] := by
    apply decodeList_encode
    · rw [List.forall_mem_singleton]
      exact ⟨by decide,True.intro,True.intro,⟨by decide,by decide⟩,True.intro,True.intro,
        True.intro⟩
    · rw [List.forall_mem_singleton]
      rfl
    · rintro ⟨⟩
  have given : decodeRows payload = .ok [row] := by
    rw [decodeRows,listed]
    rfl
  have canonical : CanonicalKeys payload := by
    intro items read found inside p member
    cases listed.symm.trans read
    cases List.mem_singleton.mp inside
    simp only [members,List.mem_cons,List.not_mem_nil,or_false] at member
    rcases member with rfl | rfl | rfl | rfl | rfl
    · exact ⟨0,.display,by decide +kernel⟩
    · exact ⟨1,.display,by decide +kernel⟩
    · exact ⟨0,.date,by decide +kernel⟩
    · exact ⟨0,.text,by decide +kernel⟩
    · exact ⟨1,.text,by decide +kernel⟩
  obtain ⟨objects,entries,same,told,_,length,agree⟩ := decoders_agree given canonical
  rw [listed,Except.ok.injEq] at same
  obtain ⟨m,rfl,equal⟩ := List.map_eq_singleton_iff.mp same.symm
  cases equal
  obtain ⟨fields,rfl⟩ := List.length_eq_one_iff.mp length
  exact ⟨given,canonical,fields,told,agree 0 _ _ _ rfl rfl rfl⟩

end Payload

end TableView
