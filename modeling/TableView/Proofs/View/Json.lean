import TableView.Proofs.Json.Decoder
import TableView.View.Json

namespace TableView

open Json (Decoder Number Within within_bool within_list within_object within_string)
open Json.Decoder

variable {numbers : Number → Prop}

theorem optionalMember_within {α : Type} {write : α → Json} {depth : Nat}
    (each : ∀ a, Within numbers depth (write a)) (name : String) (a : Option α) :
    ∀ p ∈ optionalMember name write a, Within numbers depth p.2 := by
  intro p member
  cases a with
  | none => cases member
  | some a =>
    obtain rfl := List.mem_singleton.mp member
    exact each a

namespace Json.Decoder.Fills

variable {α β : Type} {d : Decoder β} {name : String} {fields : List (Field α)} {record a : α}
  {members : List (String × Json)}

-- A member that is left out where reading it would change nothing.
theorem perhaps {b : β} {v : Json} (read : d.ofValue v = .ok b) {set : β → α → α} {left : Prop}
    [Decidable left] (same : left → set b record = record)
    (more : Fills fields (set b record) members a) :
    Fills (field name d set :: fields) record ((if left then [] else [(name,v)]) ++ members) a := by
  split
  · rename_i out
    rw [same out] at more
    exact .absent rfl more
  · exact .known read more

theorem optional {write : β → Json} (read : ∀ b, d.ofValue (write b) = .ok b)
    (present : ∀ b, write b ≠ .null) {o : Option β} {set : Option β → α → α}
    (same : set none record = record) (more : Fills fields (set o record) members a) :
    Fills (field name d.optional set :: fields) record (optionalMember name write o ++ members)
      a := by
  cases o with
  | none =>
    rw [same] at more
    exact .absent rfl more
  | some b =>
    have made : d.optional.ofValue (write b) = .ok (some b) := by
      rw [optional_present (present b),read]
      rfl
    exact .known made more

theorem optionalLast {write : β → Json} (read : ∀ b, d.ofValue (write b) = .ok b)
    (present : ∀ b, write b ≠ .null) {o : Option β} {set : Option β → α → α}
    (same : set none record = record) :
    Fills [field name d.optional set] record (optionalMember name write o) (set o record) := by
  rw [←List.append_nil (optionalMember name write o)]
  exact optional read present same .nil

end Json.Decoder.Fills

namespace PropertyDescriptor

theorem ofValue_toJson (p : PropertyDescriptor) : decoder.ofValue p.toJson = .ok p := by
  have undescribed (empty : p.description.isEmpty = true) : p.description = "" :=
    String.isEmpty_iff.mp empty
  rw [toJson,decoder,descriptionMember]
  simp only [List.append_assoc,List.cons_append,List.nil_append]
  refine Fills.ofValue (.known (text_string _) (.known (text_string _) (.perhaps (text_string _) ?_
    (.optional text_string nofun rfl (.known (flag_bool _) (.known (flag_bool _)
      (.optional flag_bool nofun rfl (.optionalLast flag_bool nofun rfl)))))))) (by decide) _
  intro empty
  rw [undescribed empty]
  rfl

theorem decoder_agrees : decoder.Agrees := by
  refine record_agrees ?_ _ _
  simp only [List.forall_mem_cons]
  exact ⟨map_agrees text_agrees _,map_agrees text_agrees _,map_agrees text_agrees _,
    map_agrees (optional_agrees text_agrees) _,map_agrees flag_agrees _,map_agrees flag_agrees _,
    map_agrees (optional_agrees flag_agrees) _,map_agrees (optional_agrees flag_agrees) _,
    List.forall_mem_nil _⟩

theorem within (p : PropertyDescriptor) (depth : Nat) : Within numbers (depth + 2) p.toJson := by
  have description : ∀ m ∈ p.descriptionMember, Within numbers (depth + 1) m.2 := by
    intro m member
    rw [descriptionMember] at member
    split at member
    · cases member
    · obtain rfl := List.mem_singleton.mp member
      exact True.intro
  have texts := @optionalMember_within numbers String Json.string (depth + 1) (within_string · _)
  have switches := @optionalMember_within numbers Bool Json.bool (depth + 1) (within_bool · _)
  refine within_object ?_
  simp only [List.forall_mem_append,List.forall_mem_cons]
  exact ⟨⟨⟨⟨⟨⟨True.intro,True.intro,by simp⟩,description⟩,texts _ _⟩,True.intro,True.intro,
    by simp⟩,switches _ _⟩,switches _ _⟩

end PropertyDescriptor

namespace DescriptorMeta

theorem ofValue_toJson (m : DescriptorMeta) : decoder.ofValue m.toJson = .ok m := by
  have pagination (shown : Bool) : paginationDecoder.ofValue (paginationJson shown) = .ok shown :=
    rfl
  have entry (name : String) : entryDecoder.ofValue (entryJson name) = .ok name := rfl
  have properties : PropertyDescriptor.decoder.list.ofValue
      (.array (m.propertyDescriptors.map (·.toJson))) = .ok m.propertyDescriptors :=
    itemsOfValues_map (fun p _ => p.ofValue_toJson)
  rw [toJson,decoder]
  simp only [List.append_assoc]
  exact Fills.ofValue (.optional text_string nofun rfl (.optional pagination nofun rfl
    (.optional entry nofun rfl (.known properties .nil)))) (by decide) _

theorem paginationDecoder_agrees : paginationDecoder.Agrees := by
  refine record_agrees ?_ _ _
  simp only [List.forall_mem_cons]
  exact ⟨map_agrees flag_agrees _,List.forall_mem_nil _⟩

theorem entryDecoder_agrees : entryDecoder.Agrees := by
  refine record_agrees ?_ _ _
  simp only [List.forall_mem_cons]
  exact ⟨map_agrees text_agrees _,List.forall_mem_nil _⟩

theorem decoder_agrees : decoder.Agrees := by
  refine record_agrees ?_ _ _
  simp only [List.forall_mem_cons]
  exact ⟨map_agrees (optional_agrees text_agrees) _,
    map_agrees (optional_agrees paginationDecoder_agrees) _,
    map_agrees (optional_agrees entryDecoder_agrees) _,
    map_agrees (list_agrees PropertyDescriptor.decoder_agrees) _,List.forall_mem_nil _⟩

theorem within (m : DescriptorMeta) (depth : Nat) : Within numbers (depth + 4) m.toJson := by
  have single (name : String) (v : Json) (scalar : Within numbers (depth + 2) v) :
      Within numbers (depth + 3) (.object [(name,v)]) :=
    within_object (by simpa using scalar)
  refine within_object ?_
  simp only [List.forall_mem_append,List.forall_mem_singleton]
  refine ⟨⟨⟨?_,?_⟩,?_⟩,?_⟩
  · exact optionalMember_within (within_string · _) _ _
  · exact optionalMember_within (fun shown => single _ _ (within_bool shown _)) _ _
  · exact optionalMember_within (fun name => single _ _ (within_string name _)) _ _
  · exact within_list (fun p _ => p.within depth)

end DescriptorMeta

namespace SourceDescriptor

theorem ofValue_toJson (s : SourceDescriptor) : decoder.ofValue s.toJson = .ok s := by
  rw [toJson,decoder]
  exact Fills.ofValue (.known (text_string _) (.known (text_string _)
    (.optionalLast text_string nofun rfl))) (by decide) _

theorem decoder_agrees : decoder.Agrees := by
  refine record_agrees ?_ _ _
  simp only [List.forall_mem_cons]
  exact ⟨map_agrees text_agrees _,map_agrees text_agrees _,
    map_agrees (optional_agrees text_agrees) _,List.forall_mem_nil _⟩

theorem within (s : SourceDescriptor) (depth : Nat) : Within numbers (depth + 2) s.toJson := by
  refine within_object ?_
  simp only [List.forall_mem_append,List.forall_mem_cons]
  exact ⟨⟨within_string _ _,within_string _ _,List.forall_mem_nil _⟩,
    optionalMember_within (within_string · _) _ _⟩

end SourceDescriptor

namespace DescriptorQuery

theorem ofValue_toJson (q : DescriptorQuery) : decoder.ofValue q.toJson = .ok q := by
  have properties : text.list.ofValue (.array (q.properties.map .string)) = .ok q.properties :=
    itemsOfValues_map (fun s _ => text_string s)
  rw [toJson,decoder]
  exact Fills.ofValue (.known properties (.known q.source.ofValue_toJson
    (.known (natural_ofNat _ _) (.known (natural_ofNat _ _) .nil)))) (by decide) _

theorem decoder_agrees : decoder.Agrees := by
  refine record_agrees ?_ _ _
  simp only [List.forall_mem_cons]
  exact ⟨map_agrees (list_agrees text_agrees) _,map_agrees SourceDescriptor.decoder_agrees _,
    map_agrees (natural_agrees _) _,map_agrees (natural_agrees _) _,List.forall_mem_nil _⟩

theorem within (words : Number.Words numbers) {q : DescriptorQuery} (offset : q.offset < 2 ^ 64)
    (limit : q.limit < 2 ^ 64) (depth : Nat) : Within numbers (depth + 3) q.toJson := by
  refine within_object ?_
  simp only [List.forall_mem_cons]
  exact ⟨within_list (fun s _ => within_string s _),q.source.within depth,words _ offset,
    words _ limit,List.forall_mem_nil _⟩

end DescriptorQuery

namespace LiveDataDescriptor

theorem ofValue_toJson (d : LiveDataDescriptor) : decoder.ofValue d.toJson = .ok d := by
  rw [toJson,decoder]
  exact Fills.ofValue (.known d.query.ofValue_toJson (.known d.described.ofValue_toJson .nil))
    (by decide) _

theorem decoder_agrees : decoder.Agrees := by
  refine record_agrees ?_ _ _
  simp only [List.forall_mem_cons]
  exact ⟨map_agrees DescriptorQuery.decoder_agrees _,map_agrees DescriptorMeta.decoder_agrees _,
    List.forall_mem_nil _⟩

theorem within (words : Number.Words numbers) {d : LiveDataDescriptor}
    (offset : d.query.offset < 2 ^ 64) (limit : d.query.limit < 2 ^ 64) (depth : Nat) :
    Within numbers (depth + 5) d.toJson := by
  refine within_object ?_
  simp only [List.forall_mem_cons]
  exact ⟨DescriptorQuery.within words offset limit (depth + 1),d.described.within depth,
    List.forall_mem_nil _⟩

-- A descriptor is read back from its text, compact or indented, whatever its strings hold, and
-- whichever of the parts that may be absent it has.
theorem read_write (d : LiveDataDescriptor) (offset : d.query.offset < 2 ^ 64)
    (limit : d.query.limit < 2 ^ 64) (pretty : Bool) : decoder.read (d.write pretty) = .ok d := by
  have back := decoder_agrees.read d.ofValue_toJson (within Number.exact_words offset limit 123)
  rw [write]
  cases pretty with
  | false => exact back.1
  | true => exact back.2

theorem read_write_mixed :
    let described : PropertyDescriptor :=
      ⟨"0","a\"b\\","7\n\u0001é",none,true,false,some false,none⟩
    let untold : PropertyDescriptor := ⟨"","null","",some "",false,true,none,some true⟩
    let d : LiveDataDescriptor := ⟨⟨["0",""],⟨"livetab","",some ""⟩,18446744073709551615,0⟩,
      ⟨none,some false,some "_row_id",[described,untold]⟩⟩
    decoder.read (d.write false) = .ok d ∧ decoder.read (d.write true) = .ok d := by
  intro described untold d
  exact ⟨read_write d (by decide) (by decide) false,read_write d (by decide) (by decide) true⟩

end LiveDataDescriptor

end TableView
