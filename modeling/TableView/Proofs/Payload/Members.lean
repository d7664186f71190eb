import Mathlib.Data.List.Nodup
import Mathlib.Data.List.Perm.Basic
import TableView.Payload.Rows
import TableView.Proofs.OrderedMap
import TableView.Proofs.Payload.Codec

namespace TableView.Payload

open Text.Numeral (InInt64 Spelled natText ofNat ofNat_injective padded_head spelled_ofNat)

inductive CellPart where
  | display (s : String)
  | text (s : String)
  | date (t : Int)

namespace CellPart

def slot : CellPart → Slot
  | display _ => .display
  | text _ => .text
  | date _ => .date

def value : CellPart → Json
  | display s => .string s
  | text s => .string s
  | date t => Json.ofInt t

def Bounded : CellPart → Prop
  | date t => InInt64 t
  | _ => True

theorem value_exact {depth : Nat} {a : CellPart} (bounded : a.Bounded) :
    Json.Exact depth a.value := by
  cases a with
  | display s => exact True.intro
  | text s => exact True.intro
  | date t =>
    have inside : InInt64 t := bounded
    exact ⟨inside.1,by have := inside.2; omega⟩

theorem value_sorted (a : CellPart) : a.value.sorted = a.value := by cases a <;> rfl

end CellPart

def slotKey (ordinal : Nat) : Slot → String
  | .display => Text.Numeral.natText ordinal
  | .text => textMark ++ Text.Numeral.natText ordinal
  | .date => dateMark ++ Text.Numeral.natText ordinal

def slotMark : Slot → List Char
  | .display => []
  | .text => textMark.toList
  | .date => dateMark.toList

theorem slotKey_toList (ordinal : Nat) (slot : Slot) :
    (slotKey ordinal slot).toList = slotMark slot ++ ofNat ordinal := by
  have digits : (natText ordinal).toList = ofNat ordinal := String.toList_ofList
  cases slot with
  | display => exact digits
  | text => rw [slotKey,String.toList_append,digits]; rfl
  | date => rw [slotKey,String.toList_append,digits]; rfl

theorem spelled_unmarked {cs : List Char} {n : Nat} (spelled : Spelled cs n) (rest : List Char) :
    cs ≠ textMark.toList ++ rest ∧ cs ≠ dateMark.toList ++ rest := by
  obtain ⟨zeros,written⟩ := spelled
  rcases written with rfl | rfl
  · obtain ⟨d,tail,first,small⟩ := padded_head zeros n
    have all : ∀ d < 10, Text.Numeral.digit d ≠ 't' ∧ Text.Numeral.digit d ≠ 'd' := by decide
    rw [first]
    exact ⟨fun begins => (all d small).1 (List.cons.inj begins).1,
      fun begins => (all d small).2 (List.cons.inj begins).1⟩
  · exact ⟨fun begins => absurd (List.cons.inj begins).1 (by decide),
      fun begins => absurd (List.cons.inj begins).1 (by decide)⟩

theorem slotMark_injective {a b : List Char} {m n : Nat} {s t : Slot} (first : Spelled a m)
    (second : Spelled b n) (same : slotMark s ++ a = slotMark t ++ b) : s = t ∧ a = b := by
  cases s <;> cases t
  case display.display => exact ⟨rfl,same⟩
  case text.text => exact ⟨rfl,List.append_cancel_left same⟩
  case date.date => exact ⟨rfl,List.append_cancel_left same⟩
  case display.text => exact absurd same (spelled_unmarked first _).1
  case display.date => exact absurd same (spelled_unmarked first _).2
  case text.display => exact absurd same.symm (spelled_unmarked second _).1
  case date.display => exact absurd same.symm (spelled_unmarked second _).2
  case text.date => exact absurd (List.cons.inj same).1 (by decide)
  case date.text => exact absurd (List.cons.inj same).1 (by decide)

theorem slotKey_injective {m n : Nat} {s t : Slot} (same : slotKey m s = slotKey n t) :
    m = n ∧ s = t := by
  have characters := congrArg String.toList same
  rw [slotKey_toList,slotKey_toList] at characters
  obtain ⟨slots,numerals⟩ :=
    slotMark_injective (spelled_ofNat m) (spelled_ofNat n) characters
  exact ⟨ofNat_injective numerals,slots⟩

def cellParts (cell : CellValue) : List CellPart :=
  [.display cell.display,.text cell.text] ++ cell.date.toList.map .date

abbrev Placed := Nat × CellPart

namespace Placed

def place (a : Placed) : Nat × Slot := (a.1,a.2.slot)

def member (a : Placed) : String × Json := (slotKey a.1 a.2.slot,a.2.value)

end Placed

def rowParts (entry : RowEntry) : List Placed :=
  entry.toList.flatMap (fun (ordinal,cell) => (cellParts cell).map (Prod.mk ordinal))

theorem cellMembers_parts (ordinal : Nat) (cell : CellValue) :
    cellMembers ordinal cell = (cellParts cell).map (fun a => Placed.member (ordinal,a)) := by
  rcases cell with ⟨display,text,_ | date⟩ <;> rfl

def Dated (entry : RowEntry) : Prop := ∀ p ∈ entry.toList, ∀ t ∈ p.2.date, InInt64 t

instance (entry : RowEntry) : Decidable (Dated entry) := by unfold Dated; infer_instance

theorem mem_rowParts {entry : RowEntry} {a : Placed} :
    a ∈ rowParts entry ↔ ∃ cell, (a.1,cell) ∈ entry.toList ∧ a.2 ∈ cellParts cell := by
  simp only [rowParts,List.mem_flatMap,List.mem_map]
  constructor
  · rintro ⟨⟨ordinal,cell⟩,inEntry,part,inParts,rfl⟩
    exact ⟨cell,inEntry,inParts⟩
  · rintro ⟨cell,inEntry,inParts⟩
    exact ⟨(a.1,cell),inEntry,a.2,inParts,rfl⟩

theorem rowParts_dated {entry : RowEntry} (dated : Dated entry) :
    ∀ a ∈ rowParts entry, a.2.Bounded := by
  intro a member
  obtain ⟨cell,inEntry,inParts⟩ := mem_rowParts.mp member
  rcases List.mem_append.mp inParts with shown | date
  · rcases List.mem_pair.mp shown with is | is <;> rw [is] <;> exact True.intro
  · obtain ⟨t,inDate,is⟩ := List.mem_map.mp date
    rw [←is]
    exact dated _ inEntry t (Option.mem_toList.mp inDate)

theorem rowParts_distinct (entry : RowEntry) : ((rowParts entry).map Placed.place).Nodup := by
  have keys := OrderedMap.keys_nodup entry.ascending
  rw [rowParts,List.map_flatMap]
  refine List.nodup_flatMap.mpr ⟨?_,?_⟩
  · rintro ⟨ordinal,display,text,date⟩ _
    cases date <;> simp [cellParts,Placed.place,CellPart.slot]
  · refine (List.pairwise_map.mp keys).imp ?_
    rintro ⟨m,first⟩ ⟨n,second⟩ differ place inFirst inSecond
    simp only [List.map_map,List.mem_map,Function.comp_def,Placed.place] at inFirst inSecond
    obtain ⟨_,_,rfl⟩ := inFirst
    obtain ⟨_,_,same⟩ := inSecond
    exact differ (congrArg Prod.fst same).symm

theorem rowKeys_distinct (entry : RowEntry) :
    (((rowParts entry).map Placed.member).map (·.1)).Nodup := by
  have keys : ((rowParts entry).map Placed.member).map (·.1) =
      ((rowParts entry).map Placed.place).map (fun a => slotKey a.1 a.2) := by
    rw [List.map_map,List.map_map]
    rfl
  rw [keys]
  refine (rowParts_distinct entry).map ?_
  rintro ⟨m,s⟩ ⟨n,t⟩ same
  obtain ⟨rfl,rfl⟩ := slotKey_injective same
  rfl

theorem rowMembers_eq (entry : RowEntry) :
    rowMembers entry = OrderedMap.ofList ((rowParts entry).map Placed.member) := by
  have written : entry.toList.flatMap (fun (ordinal,cell) => cellMembers ordinal cell) =
      (rowParts entry).map Placed.member := by
    simp only [rowParts,List.map_flatMap,List.map_map,Function.comp_def,cellMembers_parts]
  rw [rowMembers,written]

theorem rowMembers_perm (entry : RowEntry) :
    (rowMembers entry).toList.Perm ((rowParts entry).map Placed.member) := by
  rw [rowMembers_eq]
  exact OrderedMap.ofList_perm (rowKeys_distinct entry)

-- A reader that takes the members one by one gets the same from every order of them, when it makes
-- no difference which of two parts at different places it takes first. The induction is on the
-- members as they stand in the payload; the part of the first one is brought to the front.
theorem read_parts {σ : Type} {run : List (String × Json) → σ → Except PayloadFault σ}
    {put : σ → Placed → σ} {good : Placed → Prop} (done : ∀ s, run [] s = .ok s)
    (step : ∀ a, good a → ∀ rest s, run (a.member :: rest) s = run rest (put s a))
    (comm : ∀ s a b, Placed.place a ≠ Placed.place b → put (put s a) b = put (put s b) a)
    {pairs : List (String × Json)} {parts : List Placed}
    (perm : pairs.Perm (parts.map Placed.member)) (fine : ∀ a ∈ parts, good a)
    (distinct : (parts.map Placed.place).Nodup) (s : σ) :
    run pairs s = .ok (parts.foldl put s) := by
  induction pairs generalizing parts s with
  | nil =>
    have none := List.map_eq_nil_iff.mp perm.nil_eq.symm
    subst none
    exact done s
  | cons p pairs ih =>
    obtain ⟨a,inParts,rfl⟩ := List.mem_map.mp (perm.subset List.mem_cons_self)
    obtain ⟨front,back,rfl⟩ := List.append_of_mem inParts
    have moved : (a :: (front ++ back)).Perm (front ++ a :: back) := List.perm_middle.symm
    have others : pairs.Perm ((front ++ back).map Placed.member) :=
      (perm.trans (moved.map Placed.member).symm).cons_inv
    have apart : ((front ++ back).map Placed.place).Nodup :=
      (List.nodup_cons.mp ((moved.map Placed.place).nodup_iff.mpr distinct)).2
    have same : (a :: (front ++ back)).foldl put s = (front ++ a :: back).foldl put s := by
      apply moved.foldl_eq'
      intro b inFirst c inSecond start
      by_cases equal : b.place = c.place
      · have one := List.inj_on_of_nodup_map distinct (moved.subset inFirst)
          (moved.subset inSecond) equal
        rw [one]
      · exact comm start b c equal
    have rest : ∀ b ∈ front ++ back, good b :=
      fun b member => fine b (moved.subset (List.mem_cons_of_mem a member))
    rw [step a (fine a inParts),ih others rest apart,←same,List.foldl_cons]

theorem rowMembers_value {entry : RowEntry} {p : String × Json}
    (member : p ∈ (rowMembers entry).toList) : ∃ a ∈ rowParts entry, p.2 = a.2.value := by
  obtain ⟨a,inParts,rfl⟩ := List.mem_map.mp ((rowMembers_perm entry).subset member)
  exact ⟨a,inParts,rfl⟩

theorem rowJson_exact {entry : RowEntry} (dated : Dated entry) {depth : Nat}
    (deep : 1 < depth) : Json.Exact depth (rowJson entry) := by
  refine ⟨deep,Json.withinMembers_iff.mpr ?_⟩
  intro p member
  obtain ⟨a,inParts,value⟩ := rowMembers_value member
  rw [value]
  exact a.2.value_exact (rowParts_dated dated a inParts)

theorem rowJson_sorted (entry : RowEntry) : (rowJson entry).sorted = rowJson entry := by
  have same : (rowMembers entry).toList.map (fun m => (m.1,Json.sorted m.2)) =
      (rowMembers entry).toList := by
    conv => rhs; rw [←List.map_id (rowMembers entry).toList]
    refine List.map_congr_left (fun p member => ?_)
    obtain ⟨a,_,value⟩ := rowMembers_value member
    obtain ⟨name,v⟩ := p
    have same : v = a.2.value := value
    rw [same]
    exact congrArg (Prod.mk name) a.2.value_sorted
  rw [rowJson,Json.sorted,Json.sortedMembers_eq_map,same,OrderedMap.ofList_toList]

theorem decodeList_encodeRows {format : Compression.Format} {entries : List RowEntry}
    (dated : ∀ e ∈ entries, Dated e) (storable : Storable format (encodeRows format entries)) :
    decodeList (encodeRows format entries) = .ok (entries.map rowJson) := by
  refine decodeList_encode ?_ ?_ storable
  · intro v member
    obtain ⟨e,inEntries,rfl⟩ := List.mem_map.mp member
    exact rowJson_exact (dated e inEntries) (by decide)
  · intro v member
    obtain ⟨e,_,rfl⟩ := List.mem_map.mp member
    exact rowJson_sorted e

theorem mapM_read {f : α → Json} {g : α → β} {read : Json → Except PayloadFault β}
    {list : List α} (back : ∀ a ∈ list, read (f a) = .ok (g a)) :
    (list.map f).mapM read = .ok (list.map g) := by
  induction list with
  | nil => rfl
  | cons a list ih =>
    have rest := ih (fun b member => back b (List.mem_cons_of_mem a member))
    rw [List.map_cons,List.mapM_cons,back a List.mem_cons_self,rest]
    rfl

end TableView.Payload
