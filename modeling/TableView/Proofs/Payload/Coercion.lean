import TableView.Proofs.Json.Legible
import TableView.Proofs.Payload.Agreement
import TableView.Proofs.Query.Execution

namespace TableView

namespace Json

theorem value_blank {s : List Char} (blank : ∀ c ∈ s, Text.isBlank c = true) (fuel depth : Nat) :
    ∃ f, value fuel depth s = .error f := by
  have suffix : ∀ {c rest}, Scan.skipBlank s = c :: rest → Text.isBlank c = true := by
    intro c rest skipped
    have behind : Scan.skipBlank s <:+ s := List.dropWhile_suffix _
    exact blank c (behind.subset (skipped ▸ List.mem_cons_self))
  have digits : ∀ d < 10, Text.isBlank (Text.Numeral.digit d) = false := by decide
  cases fuel with
  | zero => exact ⟨_,rfl⟩
  | succ fuel =>
    rw [value]
    split
    · exact ⟨_,rfl⟩
    all_goals rename_i first
    · cases suffix first
    · cases suffix first
    · cases suffix first
    · cases suffix first
    · cases suffix first
    · cases suffix first
    · split
      · rename_i starts
        have solid := suffix first
        rw [Scan.startsNumber,Bool.or_eq_true,decide_eq_true_eq] at starts
        rcases starts with rfl | digit
        · cases solid
        · obtain ⟨d,given⟩ := Option.isSome_iff_exists.mp digit
          rw [Text.Numeral.digit_of_digitValue? given,
            digits d (Text.Numeral.digitValue?_lt given)] at solid
          cases solid
      · exact ⟨_,rfl⟩

theorem visible_of_parse {text : String} {v : Json} (given : parse text = .ok v) :
    Text.allBlank text = false := by
  cases blank : Text.allBlank text with
  | false => rfl
  | true =>
    have read := ok_of_mapError given
    rw [Decoder.readChars] at read
    obtain ⟨taken,one,_⟩ := ok_of_bind read
    obtain ⟨f,refused⟩ := value_blank (List.all_eq_true.mp blank) (2 * text.toList.length + 2)
      depthLimit
    cases refused.symm.trans one

-- The same value, but for an integer in the place of its canonical spelling or the reverse.
inductive Respelled : Json → Json → Prop where
  | same (v : Json) : Respelled v v
  | spelled {i : Int} (inRange : (Number.integer i).InRange) :
      Respelled (.number (.integer i)) (.string (Text.Numeral.intText i))
  | counted {i : Int} (inRange : (Number.integer i).InRange) :
      Respelled (.string (Text.Numeral.intText i)) (.number (.integer i))

inductive RespelledItem : Json → Json → Prop where
  | same (v : Json) : RespelledItem v v
  | entry {members others : List (String × Json)}
      (along : OrderedMap.Along Respelled members others) :
      RespelledItem (.object members) (.object others)

end Json

namespace FieldValue

theorem ofString_intText {i : Int} (inRange : (Json.Number.integer i).InRange) :
    ofString (Text.Numeral.intText i) = number (.integer i) := by
  obtain ⟨c,tail,written,starts⟩ := Json.Scan.ofInt_head i
  have read := Json.Scan.number_ofInt inRange.1 inRange.2
    (show Json.Scan.endsInteger [] = true from rfl)
  rw [List.append_nil,written] at read
  have found : Json.Scan.number? (Text.Numeral.intText i).toList = some (.integer i) := by
    rw [Text.Numeral.intText,String.toList_ofList,written]
    simp only [Json.Scan.number?,starts,read,if_true]
  rw [ofString,found]
  exact if_pos rfl

theorem ofJson_respelled {v w : Json} (respelled : Json.Respelled v w) :
    ofJson v.sorted = ofJson w.sorted := by
  cases respelled with
  | same v => rfl
  | spelled inRange =>
    have read := ofString_intText inRange
    simp only [Json.sorted,ofJson,read]
  | counted inRange =>
    have read := ofString_intText inRange
    simp only [Json.sorted,ofJson,read]

theorem toJson_ofString (s : String) :
    (ofString s).toJson = .string s ∨ (ofString s).toJson.compact = s := by
  have text := asText_ofString s
  cases read : ofString s with
  | text t =>
    rw [read] at text
    exact Or.inl (congrArg Json.string text)
  | number n =>
    rw [read] at text
    exact Or.inr text

end FieldValue

structure Entry.Keeps (e : Entry) (key s : String) : Prop where
  field : ∃ v, e.get? key = some v ∧ v.asText = s ∧ (v.toJson = .string s ∨ v.toJson.compact = s)
  compared : ∀ property, key = textKey property ∨
    key = property ∧ e.get? (textKey property) = none → e.text? property = some s

theorem Entry.keeps_ofString {e : Entry} {key s : String}
    (found : e.get? key = some (.ofString s)) : e.Keeps key s := by
  have text := FieldValue.asText_ofString s
  refine ⟨⟨_,found,text,FieldValue.toJson_ofString s⟩,?_⟩
  rintro property (rfl | ⟨rfl,none⟩)
  · rw [text?,found,Option.some_or,Option.map_some,text]
  · rw [text?,none,found,Option.none_or,Option.map_some,text]

namespace Payload

def Lists (payload : String) (items : List Json) : Prop :=
  ∃ text, decodeText payload = .ok text ∧ Json.parse text = .ok (.array items)

theorem Lists.decodeList {payload : String} {items : List Json} (lists : Lists payload items) :
    decodeList payload = .ok (items.map Json.sorted) := by
  obtain ⟨text,decoded,parsed⟩ := lists
  have value : decode payload = .ok (some (Json.array items).sorted) := by
    simp only [decode,decoded,Json.visible_of_parse parsed,parsed,bind,Except.bind,
      Except.mapError,Bool.false_eq_true,if_false]
    rfl
  simp only [Payload.decodeList,value,bind,Except.bind,Json.sorted,Json.sortedItems_eq_map]
  rfl

theorem lists_encode {format : Compression.Format} {items : List Json}
    (exact : ∀ v ∈ items, Json.Exact (Json.depthLimit - 1) v)
    (storable : Storable format (encode format (.array items))) :
    Lists (encode format (.array items)) items :=
  ⟨_,decodeText_encodeText storable,
    Json.parse_compact ⟨by decide,Json.withinItems_iff.mpr exact⟩⟩

theorem addFields_along {members others : List (String × Json)}
    (along : OrderedMap.Along (fun v w => FieldValue.ofJson v = FieldValue.ofJson w) members
      others) (start : Fields) : addFields members start = addFields others start := by
  induction along generalizing start with
  | nil => rfl
  | @cons p q members others same rest ih =>
    obtain ⟨name,value⟩ := p
    obtain ⟨other,value'⟩ := q
    obtain ⟨rfl,read⟩ := same
    simp only [addFields,addField,read,ih]

theorem fieldsOf_respelled {v w : Json} (item : Json.RespelledItem v w) :
    fieldsOf v.sorted = fieldsOf w.sorted := by
  cases item with
  | same v => rfl
  | @entry members others along =>
    have sorted : OrderedMap.Along (fun v w => FieldValue.ofJson v = FieldValue.ofJson w)
        (Json.sortedMembers members) (Json.sortedMembers others) := by
      rw [Json.sortedMembers_eq_map,Json.sortedMembers_eq_map]
      refine List.forall₂_map_left_iff.mpr (List.forall₂_map_right_iff.mpr (along.imp ?_))
      rintro p q ⟨name,respelled⟩
      exact ⟨name,FieldValue.ofJson_respelled respelled⟩
    exact addFields_along (OrderedMap.ofList_along sorted) .empty

theorem addFields_scalar {members : List (String × Json)} {start fields : Fields}
    (added : addFields members start = .ok fields) :
    ∀ p ∈ members, ∃ field, FieldValue.ofJson p.2 = .ok field := by
  induction members generalizing start with
  | nil => simp
  | cons p members ih =>
    obtain ⟨name,value⟩ := p
    obtain ⟨next,one,rest⟩ := ok_of_bind added
    obtain ⟨field,read,_⟩ := ok_of_bind one
    exact List.forall_mem_cons.mpr ⟨⟨field,read⟩,ih rest⟩

theorem fieldsOf_told {members : List (String × Json)} {fields : Fields}
    (read : fieldsOf (Json.object members).sorted = .ok fields) {key : String} {value : Json}
    (found : (Json.object members).sorted.member? key = some value) :
    FieldValue.ofJson value = .ok (fields.get? key) := by
  have ascending := (OrderedMap.ofList (Json.sortedMembers members)).ascending
  have added : addFields (OrderedMap.ofList (Json.sortedMembers members)).toList .empty =
      .ok fields := read
  have fresh : ∀ p ∈ (OrderedMap.ofList (Json.sortedMembers members)).toList,
      (OrderedMap.empty : Fields).get? p.1 = none := fun _ _ => rfl
  obtain ⟨told,same,each,_⟩ := addFields_ok (addFields_scalar added)
    (OrderedMap.keys_nodup ascending) fresh
  cases added.symm.trans same
  exact each (key,value) (OrderedMap.mem_of_find? found)

theorem mapM_respelled {items others : List Json}
    (respelled : List.Forall₂ Json.RespelledItem items others) :
    (items.map Json.sorted).mapM fieldsOf = (others.map Json.sorted).mapM fieldsOf := by
  induction respelled with
  | nil => rfl
  | cons one rest ih =>
    rw [List.map_cons,List.map_cons,List.mapM_cons,List.mapM_cons,fieldsOf_respelled one,ih]

-- Of two payloads that differ in the spelling of integers only, the entries are the same, or what
-- is wrong with them. And every text in an object of a payload is kept by the entry that is made of
-- it, for filters and sort keys and in what is written.
theorem decodeEntries_respelled {payload other : String} {items others : List Json}
    (first : Lists payload items) (second : Lists other others)
    (respelled : List.Forall₂ Json.RespelledItem items others) :
    decodeEntries other = decodeEntries payload ∧
    ∀ entries, decodeEntries payload = .ok entries → entries.length = items.length ∧
      ∀ e ∈ Entry.numbered entries, ∀ members, items[e.rowId]? = some (.object members) →
        ∀ key s, (Json.object members).sorted.member? key = some (.string s) → e.Keeps key s := by
  refine ⟨?_,?_⟩
  · rw [decodeEntries,decodeEntries,first.decodeList,second.decodeList]
    exact (mapM_respelled respelled).symm
  · intro entries decoded
    rw [decodeEntries,first.decodeList] at decoded
    have each := forall₂_of_mapM decoded
    refine ⟨?_,?_⟩
    · rw [←each.length_eq,List.length_map]
    · intro e member members object key s found
      obtain ⟨inItems,here⟩ := List.getElem?_eq_some_iff.mp object
      obtain ⟨inEntries,made⟩ := List.getElem?_eq_some_iff.mp (Entry.mem_numbered.mp member)
      have read := each.get (i := e.rowId) (by rwa [List.length_map]) inEntries
      rw [List.get_eq_getElem,List.get_eq_getElem,List.getElem_map,here,made] at read
      have told : FieldValue.ofJson (.string s) = .ok (e.fields.get? key) :=
        fieldsOf_told read found
      rw [FieldValue.ofJson,Except.ok.injEq] at told
      exact Entry.keeps_ofString told.symm

theorem decodeEntries_respelled_limits :
    let counted := [("0",Json.ofNat (2 ^ 64 - 1)),("date.0",Json.ofInt (-2 ^ 63)),
      ("text.0",.string "007")]
    let spelled := [("0",.string "18446744073709551615"),("date.0",.string "-9223372036854775808"),
      ("text.0",Json.string "007")]
    let payload := encode .gzip (.array [.object counted])
    let other := encode .bzip2 (.array [.object spelled])
    decodeEntries other = decodeEntries payload ∧
      ∃ fields, decodeEntries payload = .ok [fields] ∧
        (⟨0,fields⟩ : Entry).Keeps "text.0" "007" := by
  intro counted spelled payload other
  have first : Lists payload [.object counted] := by
    apply lists_encode
    · rw [List.forall_mem_singleton]
      exact ⟨by decide,⟨by decide,by decide⟩,⟨by decide,by decide⟩,True.intro,True.intro⟩
    · rintro ⟨⟩
  have second : Lists other [.object spelled] := by
    apply lists_encode
    · rw [List.forall_mem_singleton]
      exact ⟨by decide,True.intro,True.intro,True.intro,True.intro⟩
    · rintro ⟨⟩
  have greatest : Text.Numeral.intText (2 ^ 64 - 1) = "18446744073709551615" := by decide +kernel
  have least : Text.Numeral.intText (-2 ^ 63) = "-9223372036854775808" := by decide +kernel
  have respelled : List.Forall₂ Json.RespelledItem [.object counted] [.object spelled] := by
    refine .cons (.entry (.cons ⟨rfl,?_⟩ (.cons ⟨rfl,?_⟩ (.cons ⟨rfl,.same _⟩ .nil)))) .nil
    · exact greatest ▸ .spelled ⟨by decide,by decide⟩
    · exact least ▸ .spelled ⟨by decide,by decide⟩
  obtain ⟨same,keeps⟩ := decodeEntries_respelled first second respelled
  refine ⟨same,?_⟩
  have decoded : ∃ fields, decodeEntries payload = .ok [fields] := by
    rw [decodeEntries,first.decodeList]
    exact ⟨_,rfl⟩
  obtain ⟨fields,decoded⟩ := decoded
  refine ⟨fields,decoded,?_⟩
  exact (keeps _ decoded).2 ⟨0,fields⟩ List.mem_cons_self counted rfl "text.0" "007" rfl

end Payload

end TableView
