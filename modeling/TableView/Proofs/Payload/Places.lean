import TableView.Payload.Fields
import TableView.Proofs.Payload.Rows

namespace TableView.Payload

open Text.Numeral (InInt64)

def CellPart.Reads (value : Json) : CellPart → Prop
  | display s => scalarText value = .ok s
  | text s => scalarText value = .ok s
  | date t => value = Json.ofInt t ∧ InInt64 t

def Told (row : RowEntry) (place : Nat × Slot) (value : Json) : Prop :=
  ∃ a ∈ rowParts row, a.place = place ∧ a.2.Reads value

theorem timestampOf_ok {key : String} {value : Json} {t : Int}
    (given : timestampOf key value = .ok t) : value = Json.ofInt t ∧ InInt64 t := by
  unfold timestampOf at given
  split at given
  · split at given
    · rename_i inside
      cases given
      exact ⟨rfl,inside⟩
    · cases given
  · cases given

theorem fill_ok {key : String} {value : Json} {cell filled : CellValue} {slot : Slot}
    (given : fill key value cell slot = .ok filled) :
    ∃ a : CellPart, a.slot = slot ∧ a.Reads value ∧ filled = a.put cell := by
  cases slot with
  | display =>
    obtain ⟨s,read,rfl⟩ := ok_of_map given
    exact ⟨.display s,rfl,read,rfl⟩
  | text =>
    obtain ⟨s,read,rfl⟩ := ok_of_map given
    exact ⟨.text s,rfl,read,rfl⟩
  | date =>
    obtain ⟨t,read,rfl⟩ := ok_of_map given
    exact ⟨.date t,rfl,timestampOf_ok read,rfl⟩

theorem addMember_ok {row next : RowEntry} {key : String} {value : Json}
    (given : addMember row key value = .ok next) :
    ∃ a : Placed, Spells key a.place ∧ a.2.Reads value ∧ next = Placed.put row a := by
  unfold addMember at given
  obtain ⟨⟨n,slot⟩,place,given⟩ := ok_of_bind given
  obtain ⟨cell,filled,given⟩ := ok_of_bind given
  obtain ⟨a,rfl,reads,rfl⟩ := fill_ok filled
  cases given
  exact ⟨(n,a),slotOf_iff.mp place,reads,rfl⟩

theorem CellPart.mem_put {cell : CellValue} {a b : CellPart} :
    b ∈ cellParts (a.put cell) ↔ b = a ∨ b.slot ≠ a.slot ∧ b ∈ cellParts cell := by
  cases a <;> cases b <;> simp [cellParts,CellPart.put,CellPart.slot]

theorem mem_parts {row : RowEntry} {a : Placed} :
    a ∈ rowParts row ↔ ∃ cell, row.get? a.1 = some cell ∧ a.2 ∈ cellParts cell := by
  simp only [mem_rowParts,OrderedMap.mem_toList]

-- The parts of a row behind one member: its own, those at other places, and where the row had no
-- cell at the ordinal the parts of a blank one.
theorem Placed.mem_put {row : RowEntry} {a b : Placed} :
    b ∈ rowParts (put row a) ↔ b = a ∨ b.place ≠ a.place ∧
      (b ∈ rowParts row ∨ row.get? a.1 = none ∧ b.1 = a.1 ∧ b.2 ∈ cellParts .blank) := by
  obtain ⟨m,a⟩ := a
  obtain ⟨n,b⟩ := b
  simp only [mem_parts,put,place,OrderedMap.get?_insert]
  by_cases same : m = n
  · subst same
    cases found : row.get? m <;> simp [CellPart.mem_put]
  · have other : n ≠ m := fun equal => same equal.symm
    simp [same,other]

theorem Told.kept {row : RowEntry} {a : Placed} {place : Nat × Slot} {value : Json}
    (told : Told row place value) (other : place ≠ a.place) :
    Told (Placed.put row a) place value := by
  obtain ⟨b,inRow,rfl,reads⟩ := told
  exact ⟨b,Placed.mem_put.mpr (Or.inr ⟨other,Or.inl inRow⟩),rfl,reads⟩

structure Tells (members : List (String × Json)) (row : RowEntry) : Prop where
  -- Every member names a place and has a value for it.
  reads : ∀ p ∈ members, ∃ a : Placed, Spells p.1 a.place ∧ a.2.Reads p.2
  -- Of the members at one place the last one is told.
  last : ∀ {front p back place}, members = front ++ p :: back → Spells p.1 place →
    (∀ q ∈ back, ¬Spells q.1 place) → Told row place p.2
  -- There is nothing else but the blank parts of cells that a member stands in.
  rest : ∀ a ∈ rowParts row, (∃ p ∈ members, Spells p.1 a.place ∧ a.2.Reads p.2) ∨
    a.2 ∈ cellParts .blank ∧ ∃ p ∈ members, ∃ slot, Spells p.1 (a.1,slot)

namespace Tells

variable {members : List (String × Json)} {row next : RowEntry}

theorem empty : Tells [] .empty := by
  refine ⟨?_,?_,?_⟩
  · simp
  · simp
  · intro a inRow
    cases inRow

theorem step {p : String × Json} (tells : Tells members row)
    (given : addMember row p.1 p.2 = .ok next) : Tells (members ++ [p]) next := by
  obtain ⟨a,spells,reads,rfl⟩ := addMember_ok given
  refine ⟨?_,?_,?_⟩
  · intro q member
    rcases List.mem_append.mp member with before | new
    · exact tells.reads q before
    · cases List.mem_singleton.mp new
      exact ⟨a,spells,reads⟩
  · intro front q back place whole spelled later
    rcases List.eq_nil_or_concat' back with rfl | ⟨back,r,rfl⟩
    · obtain ⟨rfl,same⟩ := List.append_inj' whole rfl
      cases same
      cases spells.unique spelled
      exact ⟨a,Placed.mem_put.mpr (Or.inl rfl),rfl,reads⟩
    · have shorter : members ++ [p] = (front ++ q :: back) ++ [r] := by simpa using whole
      obtain ⟨rfl,same⟩ := List.append_inj' shorter rfl
      cases same
      have told := tells.last rfl spelled (fun s member => later s (List.mem_append_left _ member))
      apply told.kept
      rintro rfl
      exact later p (by simp) spells
  · intro b inRow
    rcases Placed.mem_put.mp inRow with rfl | ⟨-,old | ⟨-,same,blank⟩⟩
    · exact Or.inl ⟨p,by simp,spells,reads⟩
    · rcases tells.rest b old with ⟨q,member,told⟩ | ⟨blank,q,member,named⟩
      · exact Or.inl ⟨q,List.mem_append_left _ member,told⟩
      · exact Or.inr ⟨blank,q,List.mem_append_left _ member,named⟩
    · exact Or.inr ⟨blank,p,by simp,a.2.slot,same ▸ spells⟩

theorem run {more : List (String × Json)} (tells : Tells members row)
    (given : addMembers more row = .ok next) : Tells (members ++ more) next := by
  induction more generalizing members row with
  | nil =>
    cases given
    simpa using tells
  | cons p more ih =>
    obtain ⟨middle,added,given⟩ := ok_of_bind given
    have whole : members ++ p :: more = (members ++ [p]) ++ more := by simp
    rw [whole]
    exact ih (tells.step added) given

end Tells

def Apart (members : List (String × Json)) : Prop :=
  members.Pairwise (fun p q => ∀ place, Spells p.1 place → ¬Spells q.1 place)

def Kept (members : List (String × Json)) (row : RowEntry) : Prop :=
  ∃ parts : List Placed, (∀ a ∈ parts, a ∈ rowParts row) ∧ (parts.map Placed.place).Nodup ∧
    List.Forall₂ (fun p a => Spells p.1 a.place ∧ a.2.Reads p.2) members parts

def Canonical (members : List (String × Json)) : Prop :=
  ∀ p ∈ members, ∃ ordinal slot, p.1 = slotKey ordinal slot

theorem Canonical.apart {members : List (String × Json)} (canonical : Canonical members)
    (distinct : (members.map (·.1)).Nodup) : Apart members := by
  apply (List.pairwise_map.mp distinct).imp_of_mem
  intro p q inFirst inSecond differ place first second
  obtain ⟨m,s,named⟩ := canonical p inFirst
  obtain ⟨n,t,also⟩ := canonical q inSecond
  rw [named] at first
  rw [also] at second
  apply differ
  cases first.slotKey.symm.trans second.slotKey
  rw [named,also]

theorem pairwise_along {α β : Type} {R : α → β → Prop} {P : α → α → Prop} {Q : β → β → Prop}
    {as : List α} {bs : List β} (along : List.Forall₂ R as bs)
    (same : ∀ {a b c d}, R a b → R c d → (P a c ↔ Q b d)) : as.Pairwise P ↔ bs.Pairwise Q := by
  have length := along.length_eq
  simp only [List.pairwise_iff_getElem]
  constructor
  · intro apart i j first second less
    have one := along.get (i := i) (by omega) first
    have two := along.get (i := j) (by omega) second
    exact (same one two).mp (apart i j (by omega) (by omega) less)
  · intro apart i j first second less
    have one := along.get (i := i) first (by omega)
    have two := along.get (i := j) second (by omega)
    exact (same one two).mpr (apart i j (by omega) (by omega) less)

theorem apart_iff {members : List (String × Json)} {parts : List Placed}
    (named : List.Forall₂ (fun p a => Spells p.1 a.place ∧ a.2.Reads p.2) members parts) :
    Apart members ↔ (parts.map Placed.place).Nodup := by
  rw [Apart,List.Nodup,List.pairwise_map]
  apply pairwise_along named
  intro p a q b first second
  constructor
  · intro apart same
    exact apart a.place first.1 (same ▸ second.1)
  · intro differ place one two
    exact differ ((first.1.unique one).trans (two.unique second.1))

theorem exists_parts {members : List (String × Json)} {row : RowEntry}
    (told : ∀ p ∈ members, ∃ a ∈ rowParts row, Spells p.1 a.place ∧ a.2.Reads p.2) :
    ∃ parts : List Placed, (∀ a ∈ parts, a ∈ rowParts row) ∧
      List.Forall₂ (fun p a => Spells p.1 a.place ∧ a.2.Reads p.2) members parts := by
  induction members with
  | nil => exact ⟨[],by simp,.nil⟩
  | cons p members ih =>
    obtain ⟨a,inRow,one⟩ := told p List.mem_cons_self
    obtain ⟨parts,inside,others⟩ := ih (fun q member => told q (List.mem_cons_of_mem p member))
    exact ⟨a :: parts,List.forall_mem_cons.mpr ⟨inRow,inside⟩,.cons one others⟩

theorem Tells.told {members : List (String × Json)} {row : RowEntry} (tells : Tells members row)
    (apart : Apart members) {p : String × Json} (member : p ∈ members) :
    ∃ a ∈ rowParts row, Spells p.1 a.place ∧ a.2.Reads p.2 := by
  obtain ⟨a,spells,-⟩ := tells.reads p member
  obtain ⟨front,back,rfl⟩ := List.append_of_mem member
  have later := (List.pairwise_cons.mp (List.pairwise_append.mp apart).2.1).1
  obtain ⟨b,inRow,same,reads⟩ :=
    tells.last rfl spells (fun q inBack => later q inBack a.place spells)
  exact ⟨b,inRow,same ▸ spells,reads⟩

theorem Tells.kept_iff {members : List (String × Json)} {row : RowEntry}
    (tells : Tells members row) : Kept members row ↔ Apart members := by
  constructor
  · rintro ⟨parts,-,distinct,named⟩
    exact (apart_iff named).mpr distinct
  · intro apart
    obtain ⟨parts,inRow,named⟩ := exists_parts (fun _ member => tells.told apart member)
    exact ⟨parts,inRow,(apart_iff named).mp apart,named⟩

theorem sorted_distinct {v : Json} {members : List (String × Json)}
    (given : v.sorted = .object members) : (members.map (·.1)).Nodup := by
  cases v with
  | object _ =>
    cases given
    exact OrderedMap.keys_nodup (OrderedMap.ascending _)
  | _ => cases given

theorem decodeList_distinct {payload : String} {items : List Json}
    (given : decodeList payload = .ok items) {members : List (String × Json)}
    (inside : .object members ∈ items) : (members.map (·.1)).Nodup := by
  rcases decodeList_ok given with rfl | ⟨_,parsed,_,sorted⟩
  · cases inside
  · cases parsed with
    | array list =>
      cases sorted
      rw [Json.sortedItems_eq_map] at inside
      obtain ⟨v,_,same⟩ := List.mem_map.mp inside
      exact sorted_distinct same
    | _ => cases sorted

theorem objects_of_rows {items : List Json} {rows : List RowEntry}
    (read : List.Forall₂ (fun v row => rowOf v = .ok row) items rows) :
    ∃ objects : List (List (String × Json)), items = objects.map .object ∧
      List.Forall₂ (fun members row => addMembers members .empty = .ok row) objects rows := by
  induction read with
  | nil => exact ⟨[],rfl,.nil⟩
  | @cons v row items rows one _ ih =>
    obtain ⟨objects,rfl,others⟩ := ih
    cases v with
    | object members => exact ⟨members :: objects,rfl,.cons one others⟩
    | _ => cases one

theorem decodeRows_objects {payload : String} {rows : List RowEntry}
    (given : decodeRows payload = .ok rows) :
    ∃ objects : List (List (String × Json)), decodeList payload = .ok (objects.map .object) ∧
      List.Forall₂ (fun members row => (members.map (·.1)).Nodup ∧ Tells members row)
        objects rows := by
  obtain ⟨items,listed,read⟩ := ok_of_bind given
  obtain ⟨objects,rfl,rowwise⟩ := objects_of_rows (forall₂_of_mapM read)
  refine ⟨objects,listed,?_⟩
  have distinct : ∀ members ∈ objects, (members.map (·.1)).Nodup :=
    fun members inside => decodeList_distinct listed (List.mem_map_of_mem inside)
  apply ((List.forall₂_and_left _ _).mpr ⟨distinct,rowwise⟩).imp
  rintro members row ⟨distinct,added⟩
  exact ⟨distinct,Tells.empty.run added⟩

-- Every object of a payload has a row. Each of its members names a place there, and of those that
-- name one place the last is told; so all of them are exactly when no two name one place, as keys
-- do that have neither a sign nor zeros before their digits.
theorem decodeRows_tells {payload : String} {rows : List RowEntry}
    (given : decodeRows payload = .ok rows) :
    ∃ objects : List (List (String × Json)), decodeList payload = .ok (objects.map .object) ∧
      List.Forall₂ (fun members row => (members.map (·.1)).Nodup ∧ Tells members row ∧
        (Kept members row ↔ Apart members) ∧ (Canonical members → Apart members))
        objects rows := by
  obtain ⟨objects,listed,read⟩ := decodeRows_objects given
  refine ⟨objects,listed,read.imp ?_⟩
  rintro members row ⟨distinct,tells⟩
  exact ⟨distinct,tells,tells.kept_iff,fun canonical => canonical.apart distinct⟩

theorem decodeRows_tells_canonical :
    let members := [("0",.string "a"),("date.0",Json.ofInt 5),("text.1",.null)]
    let row : RowEntry := .ofList [(0,⟨"a","",some 5⟩),(1,.blank)]
    let payload := encode .gzip (.array [.object members])
    decodeRows payload = .ok [row] ∧ Tells members row ∧ Kept members row := by
  intro members row payload
  have listed : decodeList payload = .ok [.object members] := by
    apply decodeList_encode
    · rw [List.forall_mem_singleton]
      exact ⟨by decide,True.intro,⟨by decide,by decide⟩,True.intro,True.intro⟩
    · rw [List.forall_mem_singleton]
      rfl
    · rintro ⟨⟩
  have given : decodeRows payload = .ok [row] := by
    rw [decodeRows,listed]
    rfl
  obtain ⟨objects,same,read⟩ := decodeRows_tells given
  rw [listed,Except.ok.injEq] at same
  obtain ⟨m,rfl,equal⟩ := List.map_eq_singleton_iff.mp same.symm
  cases equal
  obtain ⟨⟨distinct,tells,kept,apart⟩,-⟩ := List.forall₂_cons.mp read
  refine ⟨given,tells,kept.mpr (apart ?_)⟩
  intro p member
  simp only [members,List.mem_cons,List.not_mem_nil,or_false] at member
  rcases member with rfl | rfl | rfl
  · exact ⟨0,.display,by decide +kernel⟩
  · exact ⟨0,.date,by decide +kernel⟩
  · exact ⟨1,.text,by decide +kernel⟩

-- The second of two keys for one place takes it from the first, and a reader of fields has both.
theorem place_named_twice :
    -- [{"0":"a","00":"b"}]
    let payload := "W3siMCI6ImEiLCIwMCI6ImIifV0"
    slotOf "0" = .ok (0,.display) ∧ slotOf "00" = .ok (0,.display) ∧
      decodeEntries payload = .ok [.ofList [("0",.text "a"),("00",.text "b")]] ∧
      decodeRows payload = .ok [.ofList [(0,⟨"b","",none⟩)]] := by
  refine ⟨?_,?_,ok_of_toOption ?_,ok_of_toOption ?_⟩
  · exact ok_of_toOption (by decide +kernel)
  · exact ok_of_toOption (by decide +kernel)
  · decide +kernel
  · decide +kernel

end TableView.Payload
