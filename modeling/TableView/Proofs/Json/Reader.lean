import TableView.Proofs.Json.Layout

namespace TableView.Json

open Scan (isBlank skipBlank startsNumber endsInteger)

theorem sortedItems_eq_map (items : List Json) : sortedItems items = items.map sorted := by
  induction items with
  | nil => rfl
  | cons v items ih => rw [sortedItems,ih,List.map_cons]

theorem sortedMembers_eq_map (members : List (String × Json)) :
    sortedMembers members = members.map (fun m => (m.1,sorted m.2)) := by
  induction members with
  | nil => rfl
  | cons p members ih =>
    obtain ⟨name,v⟩ := p
    rw [sortedMembers,ih,List.map_cons]

theorem value_number (fuel depth : Nat) {c : Char} (starts : startsNumber c = true)
    (s : List Char) : value (fuel + 1) depth (c :: s) =
      (Scan.number (c :: s)).map (fun (n,rest) => (.number n,rest)) := by
  rw [value,skipBlank_solid (startsNumber_solid starts)]
  split
  · rename_i none; cases none
  all_goals rename_i taken; cases taken
  · cases starts
  · cases starts
  · cases starts
  · cases starts
  · cases starts
  · cases starts
  · rw [if_pos starts]

theorem value_blanks {blank : List Char} (blanks : Blanks blank) (fuel depth : Nat)
    (s : List Char) : value (fuel + 1) depth (blank ++ s) = value (fuel + 1) depth s := by
  rw [value,value,skipBlank_blanks blanks]

theorem items_step {fuel depth : Nat} {first : Bool} {s t u rest : List Char} {item : Json}
    {others : List Json} (next : nextItem first s = .ok (some t))
    (one : value fuel depth t = .ok (item,u))
    (more : items fuel depth false u = .ok (others,rest)) :
    items (fuel + 1) depth first s = .ok (item :: others,rest) := by
  simp only [items,next,one,more,bind,Except.bind]

theorem members_step {fuel depth : Nat} {first : Bool} {s t u rest : List Char} {name : String}
    {item : Json} {others : List (String × Json)}
    (next : nextName first s = .ok (some (name,':' :: t)))
    (one : value fuel depth t = .ok (item,u))
    (more : members fuel depth false u = .ok (others,rest)) :
    members (fuel + 1) depth first s = .ok ((name,item) :: others,rest) := by
  have behind : colon (':' :: t) = .ok t := rfl
  simp only [members,next,behind,one,more,bind,Except.bind]

-- By induction on the value. Every step of the reader takes at least one character, so the length
-- of the text is enough fuel.
mutual

theorem value_text (l : Layout) (level : Nat) (v : Json) {depth fuel : Nat}
    (legible : Legible depth v) (enough : (l.text level v).length ≤ fuel) {blank : List Char}
    (blanks : Blanks blank) {rest : List Char} (ends : endsInteger rest = true) :
    value fuel depth (blank ++ (l.text level v ++ rest)) = .ok (reread v,rest) := by
  obtain ⟨fuel,rfl⟩ : ∃ less, fuel = less + 1 :=
    ⟨fuel - 1,by have := l.text_positive level legible; omega⟩
  rw [value_blanks blanks]
  match v with
  | .null => rfl
  | .bool true => rfl
  | .bool false => rfl
  | .number n =>
    obtain ⟨c,tail,written,starts⟩ := Number.write_head legible
    have read := Number.number_write legible ends
    rw [written,List.cons_append] at read
    rw [Layout.text,written,List.cons_append,value_number fuel depth starts,read]
    rfl
  | .string s =>
    have read := Scan.stringBody_escaped s rest
    rw [Layout.text_string,value,skipBlank_solid rfl]
    simp only [read]
    rfl
  | .array list =>
    have deep : ¬depth ≤ 1 := Nat.not_le.mpr legible.1
    have read := items_text l level true list legible.2 (Nat.le_of_succ_le_succ enough) rest
    rw [Layout.text,List.cons_append,value,skipBlank_solid rfl]
    simp only [deep,if_false,read]
    rfl
  | .object list =>
    have deep : ¬depth ≤ 1 := Nat.not_le.mpr legible.1
    have read := members_text l level true list legible.2 (Nat.le_of_succ_le_succ enough) rest
    rw [Layout.text,List.cons_append,value,skipBlank_solid rfl]
    simp only [deep,if_false,read]
    rfl

theorem items_text (l : Layout) (level : Nat) (first : Bool) (list : List Json) {depth fuel : Nat}
    (legible : WithinItems Number.Legible depth list)
    (enough : (l.items level first list).length ≤ fuel) (rest : List Char) :
    items fuel depth first (l.items level first list ++ rest) = .ok (rereadItems list,rest) := by
  obtain ⟨fuel,rfl⟩ : ∃ less, fuel = less + 1 :=
    ⟨fuel - 1,by have := l.items_long level first legible; omega⟩
  match list with
  | [] =>
    simp only [items,Layout.items,l.nextItem_ending,l.closeWith_ending level first
      (show isBlank ']' = false from rfl),bind,Except.bind]
    rfl
  | item :: others =>
    have positive := l.text_positive (level + 1) legible.1
    have more := l.items_long level false legible.2
    rw [Layout.items,List.length_append,List.length_append] at enough
    rw [Layout.items,List.append_assoc,List.append_assoc]
    exact items_step (l.nextItem_lead level first legible.1 _)
      (value_text l (level + 1) item legible.1 (by omega) (List.forall_mem_nil _)
        (l.items_ends level others rest))
      (items_text l level false others legible.2 (by omega) rest)

theorem members_text (l : Layout) (level : Nat) (first : Bool) (list : List (String × Json))
    {depth fuel : Nat} (legible : WithinMembers Number.Legible depth list)
    (enough : (l.members level first list).length ≤ fuel) (rest : List Char) :
    members fuel depth first (l.members level first list ++ rest) =
      .ok (rereadMembers list,rest) := by
  obtain ⟨fuel,rfl⟩ : ∃ less, fuel = less + 1 :=
    ⟨fuel - 1,by have := l.members_long level first list; omega⟩
  match list with
  | [] =>
    simp only [members,Layout.members,l.nextName_ending,l.closeWith_ending level first
      (show isBlank '\x7d' = false from rfl),bind,Except.bind]
    rfl
  | (name,item) :: others =>
    have positive := l.text_positive (level + 1) legible.1
    have more := l.members_long level false others
    simp only [Layout.members,List.length_append,List.length_cons] at enough
    have start : l.members level first ((name,item) :: others) ++ rest =
        l.lead level first ++ (writeString name ++ ':' :: (l.gap ++
          (l.text (level + 1) item ++ (l.members level false others ++ rest)))) := by
      simp [Layout.members]
    rw [start]
    exact members_step (l.nextName_lead level first name _)
      (value_text l (level + 1) item legible.1 (by omega) l.gap_blanks
        (l.members_ends level others rest))
      (members_text l level false others legible.2 (by omega) rest)

end

theorem valueAt_text (l : Layout) (level : Nat) {depth : Nat} {v : Json}
    (legible : Legible depth v) {blank : List Char} (blanks : Blanks blank) {rest : List Char}
    (ends : endsInteger rest = true) :
    valueAt depth (blank ++ (l.text level v ++ rest)) = .ok (reread v,rest) := by
  refine value_text l level v legible ?_ blanks ends
  rw [List.length_append,List.length_append]
  omega

theorem read_reread {v : Json} (legible : Legible depthLimit v) {rest : List Char}
    (ends : endsInteger rest = true) (blank : skipBlank rest = []) :
    Decoder.any.readChars (write v ++ rest) = .ok (reread v) := by
  have read := valueAt_text Layout.compact 0 legible (List.forall_mem_nil _) ends
  rw [List.nil_append,Layout.compact_text] at read
  rw [Decoder.readChars]
  simp only [Decoder.any,read,bind,Except.bind,blank]

theorem parse_reread {v : Json} (legible : Legible depthLimit v) :
    parse v.compact = .ok (reread v) := by
  have read := read_reread legible (show endsInteger [] = true from rfl) rfl
  rw [List.append_nil] at read
  rw [parse,Decoder.read,compact,String.toList_ofList,read]
  rfl

theorem parse_compact {v : Json} (exact_ : Exact depthLimit v) : parse v.compact = .ok v := by
  obtain ⟨legible,same⟩ := exact_reread v exact_
  exact (parse_reread legible).trans (congrArg Except.ok same)

theorem parse_line {v : Json} (exact_ : Exact depthLimit v) :
    parse (v.compact ++ "\n") = .ok v := by
  obtain ⟨legible,same⟩ := exact_reread v exact_
  have read := read_reread legible (show endsInteger ['\n'] = true from rfl) rfl
  rw [parse,Decoder.read,compact,String.toList_append,String.toList_ofList]
  exact (congrArg (Except.mapError _) read).trans (congrArg Except.ok same)

end TableView.Json
