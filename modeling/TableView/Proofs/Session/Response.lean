import TableView.Proofs.Json.Legible
import TableView.Proofs.Json.Writer
import TableView.Proofs.Session.Identity
import TableView.Proofs.View.Json

namespace TableView

open Json (Legible Within WithinMembers withinItems_iff)

namespace Json

theorem Scan.number?_legible {s : List Char} {n : Number} (given : number? s = some n) :
    n.Legible := by
  unfold number? at given
  split at given
  · cases given
  · split at given
    · split at given
      · rename_i read
        cases given
        exact number_legible read
      · cases given
    · cases given

end Json

open Json (within_list within_object within_string within_bool)

def FieldValue.Legible : FieldValue → Prop
  | number n => n.Legible
  | text _ => True

theorem FieldValue.ofString_legible (s : String) : (ofString s).Legible := by
  rw [ofString]
  split
  · rename_i n given
    split
    · exact Json.Scan.number?_legible given
    · exact True.intro
  · exact True.intro

theorem FieldValue.ofJson_legible {v : Json} {depth : Nat} (legible : Json.Legible depth v)
    {field : FieldValue} (given : ofJson v = .ok (some field)) : field.Legible := by
  cases v with
  | null => cases given
  | bool b => cases given; exact True.intro
  | number n => cases given; exact legible
  | string s => cases given; exact ofString_legible s
  | array items => cases given
  | object members => cases given

namespace Payload

theorem addFields_legible {members : List (String × Json)} {depth : Nat}
    (legible : WithinMembers Json.Number.Legible depth members) {start fields : Fields}
    (before : ∀ key v, start.get? key = some v → v.Legible)
    (given : addFields members start = .ok fields) :
    ∀ key v, fields.get? key = some v → v.Legible := by
  induction members generalizing start with
  | nil =>
    cases given
    exact before
  | cons p members ih =>
    obtain ⟨name,value⟩ := p
    rw [addFields] at given
    obtain ⟨next,added,rest⟩ := ok_of_bind given
    refine ih legible.2 ?_ rest
    rw [addField] at added
    obtain ⟨field,read,added⟩ := ok_of_bind added
    cases field with
    | none =>
      cases added
      exact before
    | some field =>
      cases added
      intro key v found
      rw [OrderedMap.get?_insert] at found
      split at found
      · cases found
        exact FieldValue.ofJson_legible legible.1 read
      · exact before key v found

theorem mapM_given {α β : Type} {f : α → Except PayloadFault β} {list : List α} {read : List β}
    (given : list.mapM f = .ok read) : ∀ b ∈ read, ∃ a ∈ list, f a = .ok b := by
  have along := forall₂_of_mapM given
  intro b member
  obtain ⟨i,inside,rfl⟩ := List.getElem_of_mem member
  have bound : i < list.length := along.length_eq ▸ inside
  exact ⟨list[i],List.getElem_mem bound,along.get bound inside⟩

theorem decodeList_legible {payload : String} {items : List Json}
    (given : decodeList payload = .ok items) : ∀ v ∈ items, Legible (Json.depthLimit - 1) v := by
  rcases decodeList_ok given with rfl | ⟨text,parsed,read,sorted⟩
  · simp
  · have legible := Json.within_sorted parsed (Json.parse_legible read)
    rw [sorted] at legible
    exact withinItems_iff.mp legible.2

theorem expectObject_given {v : Json} {members : List (String × Json)}
    (given : expectObject v = .ok members) : v = .object members := by
  cases v with
  | object found => cases given; rfl
  | null | bool _ | number _ | string _ | array _ => cases given

theorem decodeEntries_legible {payload : String} {decoded : List Fields}
    (given : decodeEntries payload = .ok decoded) :
    ∀ fields ∈ decoded, ∀ key v, fields.get? key = some v → v.Legible := by
  rw [decodeEntries] at given
  obtain ⟨items,listed,read⟩ := ok_of_bind given
  intro fields member
  obtain ⟨v,inItems,made⟩ := mapM_given read fields member
  obtain ⟨members,object,added⟩ := ok_of_bind made
  obtain rfl := expectObject_given object
  have legible := decodeList_legible listed _ inItems
  refine addFields_legible legible.2 ?_ added
  intro key v found
  cases found

end Payload

theorem QueryResult.legible {q : Query} {decoded : List Fields} (small : decoded.length < 2 ^ 64)
    (fields : ∀ fields ∈ decoded, ∀ key v, fields.get? key = some v → v.Legible) (depth : Nat) :
    Legible (depth + 4) (q.run (Entry.numbered decoded)).toJson := by
  have length : (Entry.numbered decoded).length = decoded.length := by
    rw [Entry.numbered,List.length_map,List.length_zipIdx]
  have count : (q.run (Entry.numbered decoded)).count ≤ decoded.length := by
    rw [←length]
    exact List.length_filter_le _ _
  have entries : ∀ e ∈ (q.run (Entry.numbered decoded)).entries, Legible (depth + 2) e.toJson := by
    intro e member
    have place := Query.mem_run member
    have less := (List.getElem?_eq_some_iff.mp place).1
    refine within_object ?_
    intro p inMembers
    rcases List.mem_cons.mp inMembers with rfl | inFields
    · exact Json.Number.legible_words _ (by omega)
    · obtain ⟨⟨key,v⟩,inMap,rfl⟩ := List.mem_map.mp inFields
      have found := OrderedMap.mem_toList.mp inMap
      have legible := fields _ (List.mem_of_getElem? place) key v found
      cases v with
      | number n => exact legible
      | text s => exact True.intro
  refine within_object ?_
  intro p member
  rcases List.mem_pair.mp member with rfl | rfl
  · exact within_list entries
  · exact Json.Number.legible_words _ (by omega)

theorem execute_ok {cache : Option Cache} {reference : String} {q : Query} {now : Time}
    {r : QueryResult} (given : (execute cache reference q now).1 = .ok r) :
    ∃ decoded, Resolves cache reference now decoded ∧ r = q.run (Entry.numbered decoded) := by
  obtain ⟨entries,loaded,rfl⟩ := ok_of_map (show (loadEntries (lookUp cache reference now).1
    reference).map q.run = .ok r from given)
  cases found : (lookUp cache reference now).1 with
  | none =>
    rw [found] at loaded
    obtain ⟨decoded,read,rfl⟩ := ok_of_map loaded
    refine ⟨decoded,?_,rfl⟩
    rw [Resolves,found]
    exact ok_of_mapError read
  | some payload =>
    rw [found] at loaded
    obtain ⟨decoded,read,rfl⟩ := ok_of_map loaded
    refine ⟨decoded,?_,rfl⟩
    rw [Resolves,found]
    exact ok_of_mapError read

theorem RenderedView.within {numbers : Json.Number → Prop} (words : Json.Number.Words numbers)
    {v : RenderedView} (offset : v.liveData.query.offset < 2 ^ 64)
    (limit : v.liveData.query.limit < 2 ^ 64) (depth : Nat) :
    Within numbers (depth + 6) v.toJson := by
  refine within_object ?_
  simp only [List.forall_mem_append,List.forall_mem_singleton]
  exact ⟨optionalMember_within (within_string · _) _ _,
    LiveDataDescriptor.within words offset limit depth⟩

namespace Session

-- Numbers of rows and the size of a page fit into a word of the machine.
def Addressable (s : Session) (r : Request) (now : Time) : Prop :=
  s.settings.limit < 2 ^ 64 ∧
    ∀ entries fields q decoded, r = .query entries fields q →
      Resolves s.cache entries now decoded → decoded.length < 2 ^ 64

theorem render_page {s : Session} {content : String} {p : ViewParameters} {now : Time}
    {view : RenderedView} (rendered : (s.render content p now).1 = .ok view) :
    view.liveData.query.offset = 0 ∧ view.liveData.query.limit = s.settings.limit := by
  simp only [render,TableView.render] at rendered
  split at rendered
  · cases rendered
  · cases rendered
    exact ⟨rfl,rfl⟩

theorem handle_legible {s : Session} {r : Request} {now : Time} (fits : s.Addressable r now)
    {answer : Json} (given : (s.handle r now).1 = .ok answer) :
    Legible (Json.depthLimit - 1) answer := by
  cases r with
  | render content p =>
    obtain ⟨view,rendered,rfl⟩ := ok_of_map given
    obtain ⟨offset,limit⟩ := render_page rendered
    refine Json.within_sorted _ (RenderedView.within Json.Number.legible_words ?_ ?_ 121)
    · rw [offset]
      exact Nat.two_pow_pos 64
    · rw [limit]
      exact fits.1
  | query entries fields q =>
    obtain ⟨result,answered,rfl⟩ := ok_of_map given
    refine Json.within_sorted _ ?_
    split at answered
    · cases answered
    · obtain ⟨decoded,resolves,rfl⟩ := execute_ok answered
      have legible := Payload.decodeEntries_legible resolves
      exact QueryResult.legible (fits.2 _ _ _ _ rfl resolves) legible 123
  | configuration fields =>
    obtain ⟨c,_,rfl⟩ := ok_of_map given
    refine Json.within_sorted _ (@within_object _ _ 125 ?_)
    simp only [List.forall_mem_singleton]
    exact c.described.within 122

theorem handleLine_object (s : Session) (line : String) (now : Time) :
    ∃ name value, (name = "result" ∨ name = "error") ∧
      (s.handleLine line now).1 = (Json.object [(name,value)]).compact ∧
      ((∀ r, Request.decoder.read line = .ok r → s.Addressable r now) →
        Legible (Json.depthLimit - 1) value) := by
  cases read : Request.decoder.read line with
  | error e =>
    simp only [handleLine,read]
    exact ⟨"error",_,Or.inr rfl,rfl,fun _ => within_string _ _⟩
  | ok r =>
    simp only [handleLine,read]
    cases given : (s.handle r now).1 with
    | error e => exact ⟨"error",_,Or.inr rfl,rfl,fun _ => within_string _ _⟩
    | ok answer =>
      exact ⟨"result",_,Or.inl rfl,rfl,fun fits => handle_legible (fits r rfl) given⟩

theorem handleLine_printable (s : Session) (line : String) (now : Time) :
    Printable (s.handleLine line now).1.toList := by
  obtain ⟨name,value,_,written,_⟩ := s.handleLine_object line now
  rw [written,Json.compact,String.toList_ofList]
  exact Json.printable_write _

theorem handleLine_parses {s : Session} {line : String} {now : Time}
    (fits : ∀ r, Request.decoder.read line = .ok r → s.Addressable r now) :
    ∃ name value, (name = "result" ∨ name = "error") ∧
      Json.parse (s.handleLine line now).1 = .ok (.object [(name,value)]) := by
  obtain ⟨name,value,named,written,legible⟩ := s.handleLine_object line now
  refine ⟨name,value.reread,named,?_⟩
  rw [written]
  exact Json.parse_reread ⟨by decide,legible fits,True.intro⟩

end Session

end TableView
