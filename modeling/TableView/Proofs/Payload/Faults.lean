import TableView.Payload.Fields
import TableView.Proofs.Json.Faults
import TableView.Proofs.Payload.Keys

namespace TableView

theorem Base64.Fault.message_unbroken (f : Base64.Fault) : ¬Broken f.message := by
  have number (n : Nat) : '\n' ∉ (Text.Numeral.natText n).toList := natText_unbroken n
  unfold message
  split <;> simp [Broken,toString,number]

theorem Text.Utf8.Fault.message_unbroken (f : Text.Utf8.Fault) : ¬Broken f.message := by
  have number (n : Nat) : '\n' ∉ Nat.toDigits 10 n := digits_unbroken n
  unfold message
  split <;> simp [Broken,toString,number]

def Compression.Fault.texts : Compression.Fault → List String
  | .unrecognized => []
  | .badStream reason => [reason]

theorem Compression.Fault.message_broken (f : Compression.Fault) :
    Broken f.message ↔ ∃ t ∈ f.texts, Broken t := by
  unfold message texts
  split
  · decide
  · simp

def ShapeFault.texts : ShapeFault → List String
  | notArray found | notObject found | notScalar found => [found]
  | unexpectedKey key | notTimestamp key => [key]
  | other reason => [reason]

theorem ShapeFault.message_broken (f : ShapeFault) :
    Broken f.message ↔ ∃ t ∈ f.texts, Broken t := by
  unfold message texts
  split <;> simp [Broken]

def PayloadFault.texts : PayloadFault → List String
  | base64 _ | utf8 _ => []
  | compression f => f.texts
  | json e => e.cause.texts
  | shape f => f.texts

theorem PayloadFault.message_broken (f : PayloadFault) :
    Broken f.message ↔ ∃ t ∈ f.texts, Broken t := by
  have encoding : ¬Broken "not valid encoded data: " := by decide
  have content : ¬Broken "malformed payload: " := by decide
  unfold message texts
  split
  · rename_i f
    simp [broken_append,encoding,f.message_unbroken]
  · rename_i f
    simp [broken_append,encoding,f.message_broken]
  · rename_i f
    simp [broken_append,encoding,f.message_unbroken]
  · rename_i e
    simp [broken_append,content,e.message_broken]
  · rename_i f
    simp [broken_append,content,f.message_broken]

theorem Json.kind_unbroken (v : Json) : ¬Broken v.kind := by
  cases v <;> simp [Broken,kind]

namespace Payload

-- A message in one line, if it is not that of a reader of streams.
def Whole (f : PayloadFault) : Prop := Broken f.message → ∃ c, f = .compression c

theorem whole_of_texts {f : PayloadFault} (whole : ∀ t ∈ f.texts, ¬Broken t) : Whole f := by
  intro broken
  obtain ⟨t,member,here⟩ := f.message_broken.mp broken
  exact absurd here (whole t member)

theorem whole_of_text {f : PayloadFault} {t : String} (only : f.texts = [t])
    (whole : ¬Broken t) : Whole f :=
  whole_of_texts (only ▸ List.forall_mem_singleton.mpr whole)

theorem decodeText_whole (payload : String) : FailsBy Whole (decodeText payload) := by
  refine (failsBy_told ?_).bind fun bytes _ => (failsBy_told ?_).bind fun plain _ =>
    failsBy_told ?_
  · exact fun f => whole_of_texts (List.forall_mem_nil _)
  · exact fun c _ => ⟨c,rfl⟩
  · exact fun f => whole_of_texts (List.forall_mem_nil _)

theorem decode_whole (payload : String) : FailsBy Whole (decode payload) := by
  refine (decodeText_whole payload).bind fun text _ => ?_
  split
  · exact failsBy_ok none
  · refine (failsBy_mapError (Json.parse_textual text) fun e textual => ?_).bind
      fun value _ => failsBy_ok _
    have none : PayloadFault.texts (.json e) = [] := textual.texts
    exact whole_of_texts (none ▸ List.forall_mem_nil _)

theorem decodeList_whole (payload : String) : FailsBy Whole (decodeList payload) := by
  refine (decode_whole payload).bind fun value _ => ?_
  unfold expectArray
  split
  · exact failsBy_ok _
  · exact failsBy_ok _
  · exact failsBy_error.mpr (whole_of_text rfl (Json.kind_unbroken _))

theorem expectObject_whole (value : Json) : FailsBy Whole (expectObject value) := by
  unfold expectObject
  split
  · exact failsBy_ok _
  · exact failsBy_error.mpr (whole_of_text rfl value.kind_unbroken)

theorem scalarText_whole (value : Json) : FailsBy Whole (scalarText value) := by
  have refused : Whole (.shape (.notScalar value.kind)) := whole_of_text rfl value.kind_unbroken
  cases value with
  | array _ | object _ => exact failsBy_error.mpr refused
  | _ => exact failsBy_ok _

theorem ofJson_whole (value : Json) : FailsBy Whole (FieldValue.ofJson value) := by
  have refused : Whole (.shape (.notScalar value.kind)) := whole_of_text rfl value.kind_unbroken
  cases value with
  | array _ | object _ => exact failsBy_error.mpr refused
  | _ => exact failsBy_ok _

theorem addFields_whole (members : List (String × Json)) (fields : Fields) :
    FailsBy Whole (addFields members fields) := by
  induction members generalizing fields with
  | nil => exact failsBy_ok fields
  | cons member members ih =>
    have added : FailsBy Whole (addField fields member.1 member.2) := by
      refine (ofJson_whole member.2).bind fun value _ => ?_
      split <;> exact failsBy_ok _
    exact added.bind fun next _ => ih next

theorem decodeEntries_whole (payload : String) : FailsBy Whole (decodeEntries payload) :=
  (decodeList_whole payload).bind fun _ _ => .mapM fun item _ =>
    (expectObject_whole item).bind fun members _ => addFields_whole members .empty

theorem decodeColumns_whole (payload : String) : FailsBy Whole (decodeColumns payload) :=
  (decodeList_whole payload).bind fun _ _ =>
    (FailsBy.mapM fun item _ => scalarText_whole item).bind fun _ _ => failsBy_ok _

theorem Spells.unbroken {key : String} {place : Nat × Slot} (spells : Spells key place) :
    ¬Broken key := by
  obtain ⟨_,numeral,written,zeros,spelled⟩ := spells
  have mark : '\n' ∉ slotMark place.2 := by cases place.2 <;> decide
  have digits : '\n' ∉ Text.Numeral.padded zeros place.1 := by
    intro member
    rcases List.mem_append.mp member with zero | digit
    · cases (List.mem_replicate.mp zero).2
    · cases Text.Numeral.isDigit_ofNat _ _ digit
  rw [Broken,written,List.mem_append,not_or]
  refine ⟨mark,?_⟩
  rcases spelled with rfl | rfl
  · exact digits
  · exact fun member => digits ((List.mem_cons.mp member).resolve_left (by decide))

theorem timestampOf_whole {key : String} {place : Nat × Slot} (spells : Spells key place)
    (value : Json) : FailsBy Whole (timestampOf key value) := by
  have refused : Whole (.shape (.notTimestamp key)) := whole_of_text rfl spells.unbroken
  unfold timestampOf
  split
  · split
    · exact failsBy_ok _
    · exact failsBy_error.mpr refused
  · exact failsBy_error.mpr refused

def WholeButKey (f : PayloadFault) : Prop :=
  Broken f.message → (∃ c, f = .compression c) ∨ ∃ key, f = .shape (.unexpectedKey key) ∧ Broken key

theorem Whole.butKey {f : PayloadFault} (whole : Whole f) : WholeButKey f :=
  fun broken => .inl (whole broken)

theorem slotOf_key (key : String) : FailsBy WholeButKey (slotOf key) := by
  have place (cs : List Char) : FailsBy WholeButKey (ordinalOf cs) := by
    unfold ordinalOf
    split
    · exact failsBy_ok _
    · rw [failsBy_error]
      intro broken
      obtain ⟨t,member,here⟩ := (PayloadFault.message_broken _).mp broken
      obtain rfl := List.mem_singleton.mp member
      exact .inr ⟨_,rfl,here⟩
  unfold slotOf
  split
  · exact (failsBy_map _).mpr (place _)
  · split
    · exact (failsBy_map _).mpr (place _)
    · exact (failsBy_map _).mpr (place _)

theorem addMember_key (entry : RowEntry) (key : String) (value : Json) :
    FailsBy WholeButKey (addMember entry key value) := by
  refine (slotOf_key key).bind fun place found => ?_
  obtain ⟨ordinal,slot⟩ := place
  have filled (cell : CellValue) : FailsBy Whole (fill key value cell slot) := by
    cases slot with
    | display => exact (failsBy_map _).mpr (scalarText_whole value)
    | text => exact (failsBy_map _).mpr (scalarText_whole value)
    | date => exact (failsBy_map _).mpr (timestampOf_whole (slotOf_iff.mp found) value)
  exact ((filled _).imp fun _ => Whole.butKey).bind fun cell _ => failsBy_ok _

theorem addMembers_key (members : List (String × Json)) (entry : RowEntry) :
    FailsBy WholeButKey (addMembers members entry) := by
  induction members generalizing entry with
  | nil => exact failsBy_ok entry
  | cons member members ih =>
    exact (addMember_key entry member.1 member.2).bind fun next _ => ih next

theorem decodeRows_key (payload : String) : FailsBy WholeButKey (decodeRows payload) :=
  ((decodeList_whole payload).imp fun _ => Whole.butKey).bind fun _ _ => .mapM fun item _ =>
    ((expectObject_whole item).imp fun _ => Whole.butKey).bind
      fun members _ => addMembers_key members .empty

end Payload
end TableView
