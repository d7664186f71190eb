import TableView.Proofs.Json.Decoder
import TableView.Query.Json

namespace TableView

open Json (Number Within within_bool within_list within_object within_string)
open Json.Decoder

variable {numbers : Number → Prop}

namespace Constraint

theorem ofValue_toJson (c : Constraint) : decoder.ofValue c.toJson = .ok c := rfl

theorem decoder_agrees : decoder.Agrees := by
  refine record_agrees ?_ _ _
  simp only [List.forall_mem_cons]
  exact ⟨map_agrees text_agrees _,map_agrees (scalar_agrees _) _,List.forall_mem_nil _⟩

theorem within (c : Constraint) (depth : Nat) : Within numbers (depth + 2) c.toJson := by
  refine within_object ?_
  simp only [List.forall_mem_cons]
  exact ⟨within_string _ _,within_string _ _,List.forall_mem_nil _⟩

end Constraint

namespace Filter

theorem ofValue_toJson (f : Filter) : decoder.ofValue f.toJson = .ok f := by
  have constraints : Constraint.decoder.list.ofValue
      (.array (f.constraints.map (·.toJson))) = .ok f.constraints :=
    itemsOfValues_map (fun c _ => c.ofValue_toJson)
  rw [toJson,decoder]
  exact Fills.ofValue (.known (text_string _) (.known constraints .nil)) (by decide) _

theorem decoder_agrees : decoder.Agrees := by
  refine record_agrees ?_ _ _
  simp only [List.forall_mem_cons]
  exact ⟨map_agrees text_agrees _,map_agrees (list_agrees Constraint.decoder_agrees) _,
    List.forall_mem_nil _⟩

theorem within (f : Filter) (depth : Nat) : Within numbers (depth + 4) f.toJson := by
  refine within_object ?_
  simp only [List.forall_mem_cons]
  exact ⟨within_string _ _,within_list (fun c _ => c.within depth),List.forall_mem_nil _⟩

end Filter

namespace SortEntry

theorem ofValue_toJson (s : SortEntry) : decoder.ofValue s.toJson = .ok s := rfl

theorem decoder_agrees : decoder.Agrees := by
  refine record_agrees ?_ _ _
  simp only [List.forall_mem_cons]
  exact ⟨map_agrees text_agrees _,map_agrees flag_agrees _,List.forall_mem_nil _⟩

theorem within (s : SortEntry) (depth : Nat) : Within numbers (depth + 2) s.toJson := by
  refine within_object ?_
  simp only [List.forall_mem_cons]
  exact ⟨within_string _ _,within_bool _ _,List.forall_mem_nil _⟩

end SortEntry

namespace Query

theorem ofValue_toJson (q : Query) : decoder.ofValue q.toJson = .ok q := by
  have filters : Filter.decoder.list.ofValue (.array (q.filters.map (·.toJson))) =
      .ok q.filters := itemsOfValues_map (fun f _ => f.ofValue_toJson)
  have sort : SortEntry.decoder.list.ofValue (.array (q.sort.map (·.toJson))) = .ok q.sort :=
    itemsOfValues_map (fun s _ => s.ofValue_toJson)
  have offset : size.ofValue (.ofNat q.offset) = .ok q.offset := natural_ofNat _ _
  rw [toJson,decoder]
  refine Fills.ofValue (.known filters (.known sort (.known offset ?_))) (by decide) _
  obtain ⟨_,_,_,limit⟩ := q
  cases limit with
  | none => exact .absent rfl .nil
  | some n =>
    have present : Json.ofNat n ≠ .null := nofun
    have limit : size.optional.ofValue (.ofNat n) = .ok (some n) := by
      rw [optional_present present,size,natural_ofNat]
      rfl
    exact .known limit .nil

theorem decoder_agrees : decoder.Agrees := by
  refine record_agrees ?_ _ _
  simp only [List.forall_mem_cons]
  exact ⟨map_agrees (list_agrees Filter.decoder_agrees) _,
    map_agrees (list_agrees SortEntry.decoder_agrees) _,map_agrees (natural_agrees _) _,
    map_agrees (optional_agrees (natural_agrees _)) _,List.forall_mem_nil _⟩

theorem within (words : Number.Words numbers) {q : Query} (offset : q.offset < 2 ^ 64)
    (limit : ∀ n ∈ q.limit, n < 2 ^ 64) (depth : Nat) :
    Within numbers (depth + 6) q.toJson := by
  have last : ∀ p ∈ limitMember q.limit, Within numbers (depth + 5) p.2 := by
    cases given : q.limit with
    | none => exact List.forall_mem_nil _
    | some n => exact List.forall_mem_singleton.mpr (words n (limit n given))
  refine within_object ?_
  simp only [List.forall_mem_append,List.forall_mem_cons]
  exact ⟨⟨within_list (fun f _ => f.within depth),within_list (fun s _ => s.within (depth + 2)),
    words _ offset,List.forall_mem_nil _⟩,last⟩

-- Any query comes back from its JSON as it was, compact or indented: with whatever strings for
-- properties, operators and values, with filters that hold no constraint, and with a limit or
-- without.
theorem ofJson_toJson (q : Query) (offset : q.offset < 2 ^ 64)
    (limit : ∀ n ∈ q.limit, n < 2 ^ 64) :
    ofJson q.toJson.compact = .ok q ∧ ofJson q.toJson.pretty = .ok q :=
  decoder_agrees.read q.ofValue_toJson (within Number.exact_words offset limit 122)

theorem ofJson_toJson_strings :
    let q : Query := ⟨[⟨"a\"b\\",[⟨"no such",""⟩,⟨"","7\n\u0001é"⟩]⟩,⟨"",[]⟩],
      [⟨"null",true⟩,⟨"0",false⟩],18446744073709551615,none⟩
    let r : Query := { q with limit := some 0 }
    (ofJson q.toJson.compact = .ok q ∧ ofJson q.toJson.pretty = .ok q) ∧
      ofJson r.toJson.compact = .ok r ∧ ofJson r.toJson.pretty = .ok r := by
  intro q r
  exact ⟨ofJson_toJson q (by decide) (by decide),ofJson_toJson r (by decide) (by decide)⟩

end Query

end TableView
