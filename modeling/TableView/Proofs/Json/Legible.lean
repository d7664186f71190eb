import TableView.Proofs.Json.Reader
import TableView.Proofs.OrderedMap
import TableView.Proofs.Outcome

namespace TableView.Json

theorem reads_map {p : β → Prop} {f : α → β × List Char} {r : Except Fault α}
    (each : ∀ a, r = .ok a → p (f a).1) : Reads p (r.map f) := by
  intro b rest read
  cases r with
  | error e => cases read
  | ok a =>
    have same := each a rfl
    rw [Except.ok.inj read] at same
    exact same

theorem reads_bind {p : β → Prop} {r : Except Fault α} {f : α → Except Fault (β × List Char)}
    (each : ∀ a, r = .ok a → Reads p (f a)) : Reads p (r >>= f) := by
  cases r with
  | error e => exact reads_error e
  | ok a => exact each a rfl

structure LegibleWith (fuel : Nat) : Prop where
  value : ∀ depth s, Reads (Legible depth) (value fuel depth s)
  items : ∀ depth first s, Reads (WithinItems Number.Legible depth) (items fuel depth first s)
  members : ∀ depth first s,
    Reads (WithinMembers Number.Legible depth) (members fuel depth first s)

theorem legibleWith (fuel : Nat) : LegibleWith fuel := by
  induction fuel with
  | zero => exact ⟨fun _ _ => reads_error _,fun _ _ _ => reads_error _,fun _ _ _ => reads_error _⟩
  | succ fuel ih =>
    refine ⟨?_,?_,?_⟩
    · intro depth s
      rw [value]
      split
      · exact reads_error _
      · exact reads_map (fun _ _ => True.intro)
      · exact reads_map (fun _ _ => True.intro)
      · exact reads_map (fun _ _ => True.intro)
      · exact reads_map (fun _ _ => True.intro)
      · split
        · exact reads_error _
        · rename_i deep
          exact reads_map (fun _ read => ⟨Nat.not_le.mp deep,ih.items _ _ _ _ _ read⟩)
      · split
        · exact reads_error _
        · rename_i deep
          exact reads_map (fun _ read => ⟨Nat.not_le.mp deep,ih.members _ _ _ _ _ read⟩)
      · split
        · exact reads_map (fun _ read => Scan.number_legible read)
        · exact reads_error _
    · intro depth first s
      rw [items]
      refine reads_bind (fun next _ => ?_)
      cases next with
      | none =>
        intro list rest read
        cases read
        exact True.intro
      | some s =>
        refine reads_bind (fun one read => ?_)
        refine reads_bind (fun more readMore => ?_)
        intro list rest given
        cases given
        exact ⟨ih.value _ _ _ _ read,ih.items _ _ _ _ _ readMore⟩
    · intro depth first s
      rw [members]
      refine reads_bind (fun next _ => ?_)
      cases next with
      | none =>
        intro list rest read
        cases read
        exact True.intro
      | some named =>
        refine reads_bind (fun behind _ => ?_)
        refine reads_bind (fun one read => ?_)
        refine reads_bind (fun more readMore => ?_)
        intro list rest given
        cases given
        exact ⟨ih.value _ _ _ _ read,ih.members _ _ _ _ _ readMore⟩

theorem parse_legible {text : String} {v : Json} (given : parse text = .ok v) :
    Legible depthLimit v := by
  have read := ok_of_mapError given
  rw [Decoder.readChars] at read
  obtain ⟨⟨w,behind⟩,one,rest⟩ := ok_of_bind read
  have legible := (legibleWith _).value _ _ _ _ one
  dsimp only at rest
  split at rest
  · cases rest
    exact legible
  · cases rest

mutual

theorem within_sorted {numbers : Number → Prop} (v : Json) {depth : Nat}
    (within : Within numbers depth v) : Within numbers depth v.sorted := by
  match v with
  | .null | .bool _ | .string _ | .number _ => exact within
  | .array items => exact ⟨within.1,withinItems_sorted items within.2⟩
  | .object members =>
    refine ⟨within.1,withinMembers_iff.mpr ?_⟩
    intro p member
    exact withinMembers_iff.mp (withinMembers_sorted members within.2) p
      (OrderedMap.mem_of_mem_ofList member)

theorem withinItems_sorted {numbers : Number → Prop} (items : List Json) {depth : Nat}
    (within : WithinItems numbers depth items) :
    WithinItems numbers depth (sortedItems items) := by
  match items with
  | [] => exact True.intro
  | item :: others => exact ⟨within_sorted item within.1,withinItems_sorted others within.2⟩

theorem withinMembers_sorted {numbers : Number → Prop} (members : List (String × Json))
    {depth : Nat} (within : WithinMembers numbers depth members) :
    WithinMembers numbers depth (sortedMembers members) := by
  match members with
  | [] => exact True.intro
  | (name,item) :: others =>
    exact ⟨within_sorted item within.1,withinMembers_sorted others within.2⟩

end

end TableView.Json
