import TableView.Proofs.Json.Number
import TableView.Json.Decoder

namespace TableView.Json

open Scan (isBlank skipBlank startsNumber endsInteger)

mutual

def Within (numbers : Number → Prop) : Nat → Json → Prop
  | _,.number n => numbers n
  | depth,.array items => 1 < depth ∧ WithinItems numbers (depth - 1) items
  | depth,.object members => 1 < depth ∧ WithinMembers numbers (depth - 1) members
  | _,_ => True

def WithinItems (numbers : Number → Prop) : Nat → List Json → Prop
  | _,[] => True
  | depth,item :: rest => Within numbers depth item ∧ WithinItems numbers depth rest

def WithinMembers (numbers : Number → Prop) : Nat → List (String × Json) → Prop
  | _,[] => True
  | depth,(_,value) :: rest => Within numbers depth value ∧ WithinMembers numbers depth rest

end

def Number.Exact : Number → Prop
  | .integer i => -2 ^ 63 ≤ i ∧ i < 2 ^ 64
  | .real _ => False

def Exact : Nat → Json → Prop := Within Number.Exact

def Legible : Nat → Json → Prop := Within Number.Legible

section

variable {numbers : Number → Prop}

theorem withinItems_iff {depth : Nat} {items : List Json} :
    WithinItems numbers depth items ↔ ∀ v ∈ items, Within numbers depth v := by
  induction items with
  | nil => simp [WithinItems]
  | cons v items ih => simp [WithinItems,ih]

theorem withinMembers_iff {depth : Nat} {members : List (String × Json)} :
    WithinMembers numbers depth members ↔ ∀ p ∈ members, Within numbers depth p.2 := by
  induction members with
  | nil => simp [WithinMembers]
  | cons p members ih =>
    obtain ⟨name,v⟩ := p
    simp [WithinMembers,ih]

theorem within_array {items : List Json} {depth : Nat}
    (each : ∀ v ∈ items, Within numbers (depth + 1) v) :
    Within numbers (depth + 2) (.array items) :=
  ⟨by omega,withinItems_iff.mpr each⟩

theorem within_list {write : α → Json} {as : List α} {depth : Nat}
    (each : ∀ a ∈ as, Within numbers (depth + 1) (write a)) :
    Within numbers (depth + 2) (.array (as.map write)) :=
  within_array (List.forall_mem_map.mpr each)

theorem within_object {members : List (String × Json)} {depth : Nat}
    (each : ∀ p ∈ members, Within numbers (depth + 1) p.2) :
    Within numbers (depth + 2) (.object members) :=
  ⟨by omega,withinMembers_iff.mpr each⟩

theorem within_string (s : String) (depth : Nat) : Within numbers depth (.string s) := True.intro

theorem within_bool (b : Bool) (depth : Nat) : Within numbers depth (.bool b) := True.intro

end

def Number.Words (numbers : Number → Prop) : Prop :=
  ∀ n : Nat, n < 2 ^ 64 → numbers (.integer n)

theorem Number.legible_words : Words Number.Legible := by
  intro n small
  have bounds : -2 ^ 63 ≤ (n : Int) ∧ (n : Int) < 2 ^ 64 := by omega
  exact bounds

theorem Number.exact_words : Words Number.Exact := by
  intro n small
  have bounds : -2 ^ 63 ≤ (n : Int) ∧ (n : Int) < 2 ^ 64 := by omega
  exact bounds

mutual

def reread : Json → Json
  | .number n => .number n.reread
  | .array items => .array (rereadItems items)
  | .object members => .object (rereadMembers members)
  | other => other

def rereadItems : List Json → List Json
  | [] => []
  | item :: rest => reread item :: rereadItems rest

def rereadMembers : List (String × Json) → List (String × Json)
  | [] => []
  | (name,value) :: rest => (name,reread value) :: rereadMembers rest

end

theorem Number.Exact.reread {n : Number} (exact_ : n.Exact) : n.Legible ∧ n.reread = n := by
  cases n with
  | integer i => exact ⟨exact_,Number.reread_integer exact_⟩
  | real x => exact exact_.elim

mutual

theorem exact_reread (v : Json) {depth : Nat} (exact_ : Within Number.Exact depth v) :
    Within Number.Legible depth v ∧ reread v = v := by
  match v with
  | .null => exact ⟨True.intro,rfl⟩
  | .bool b => exact ⟨True.intro,rfl⟩
  | .string s => exact ⟨True.intro,rfl⟩
  | .number n =>
    obtain ⟨legible,same⟩ := Number.Exact.reread (n := n) exact_
    exact ⟨legible,congrArg Json.number same⟩
  | .array items =>
    obtain ⟨legible,same⟩ := exactItems_reread items exact_.2
    exact ⟨⟨exact_.1,legible⟩,congrArg Json.array same⟩
  | .object members =>
    obtain ⟨legible,same⟩ := exactMembers_reread members exact_.2
    exact ⟨⟨exact_.1,legible⟩,congrArg Json.object same⟩

theorem exactItems_reread (items : List Json) {depth : Nat}
    (exact_ : WithinItems Number.Exact depth items) :
    WithinItems Number.Legible depth items ∧ rereadItems items = items := by
  match items with
  | [] => exact ⟨True.intro,rfl⟩
  | item :: others =>
    obtain ⟨one,same⟩ := exact_reread item exact_.1
    obtain ⟨more,others_⟩ := exactItems_reread others exact_.2
    exact ⟨⟨one,more⟩,by rw [rereadItems,same,others_]⟩

theorem exactMembers_reread (members : List (String × Json)) {depth : Nat}
    (exact_ : WithinMembers Number.Exact depth members) :
    WithinMembers Number.Legible depth members ∧ rereadMembers members = members := by
  match members with
  | [] => exact ⟨True.intro,rfl⟩
  | (name,item) :: others =>
    obtain ⟨one,same⟩ := exact_reread item exact_.1
    obtain ⟨more,others_⟩ := exactMembers_reread others exact_.2
    exact ⟨⟨one,more⟩,by rw [rereadMembers,same,others_]⟩

end

theorem skipBlank_solid {c : Char} (solid : isBlank c = false) (s : List Char) :
    skipBlank (c :: s) = c :: s := by
  rw [skipBlank,List.dropWhile_cons_of_neg (by simp [solid])]

theorem startsNumber_solid {c : Char} (starts : startsNumber c = true) : isBlank c = false := by
  cases blank : isBlank c with
  | false => rfl
  | true =>
    simp only [isBlank,Bool.or_eq_true,decide_eq_true_eq] at blank
    rcases blank with ((rfl | rfl) | rfl) | rfl <;> cases starts

def Blanks (cs : List Char) : Prop := ∀ c ∈ cs, isBlank c = true

theorem skipBlank_blanks {blank : List Char} (blanks : Blanks blank) (s : List Char) :
    skipBlank (blank ++ s) = skipBlank s :=
  List.dropWhile_append_of_pos blanks

theorem endsInteger_blanks {blank s : List Char} (blanks : Blanks blank)
    (ends : endsInteger s = true) : endsInteger (blank ++ s) = true := by
  cases blank with
  | nil => exact ends
  | cons c blank =>
    have first := blanks c List.mem_cons_self
    simp only [isBlank,Bool.or_eq_true,decide_eq_true_eq] at first
    rcases first with ((rfl | rfl) | rfl) | rfl <;> rfl

-- Compact and indented text differ by the blanks before items and closing brackets and behind
-- colons, so what is proved for any layout holds for both.
structure Layout where
  line : Nat → List Char
  gap : List Char
  line_blanks : ∀ level, Blanks (line level)
  gap_blanks : Blanks gap

namespace Layout

def compact : Layout where
  line _ := []
  gap := []
  line_blanks _ := List.forall_mem_nil _
  gap_blanks := List.forall_mem_nil _

def pretty : Layout where
  line := newline
  gap := [' ']
  line_blanks level := by
    intro c member
    rcases List.mem_cons.mp member with rfl | member
    · rfl
    · rw [List.eq_of_mem_replicate member]
      rfl
  gap_blanks := List.forall_mem_singleton.mpr rfl

@[simp] theorem compact_line (level : Nat) : compact.line level = [] := rfl

@[simp] theorem compact_gap : compact.gap = [] := rfl

@[simp] theorem pretty_line (level : Nat) : pretty.line level = newline level := rfl

@[simp] theorem pretty_gap : pretty.gap = [' '] := rfl

def lead (l : Layout) (level : Nat) (first : Bool) : List Char :=
  (if first then [] else [',']) ++ l.line (level + 1)

def ending (l : Layout) (level : Nat) (first : Bool) (close : Char) : List Char :=
  (if first then [] else l.line level) ++ [close]

mutual

def text (l : Layout) (level : Nat) : Json → List Char
  | .null => write .null
  | .bool b => writeBool b
  | .number n => n.write
  | .string s => writeString s
  | .array items => '[' :: l.items level true items
  | .object members => '\x7b' :: l.members level true members

def items (l : Layout) (level : Nat) (first : Bool) : List Json → List Char
  | [] => l.ending level first ']'
  | item :: rest => l.lead level first ++ (l.text (level + 1) item ++ l.items level false rest)

def members (l : Layout) (level : Nat) (first : Bool) : List (String × Json) → List Char
  | [] => l.ending level first '\x7d'
  | (name,v) :: rest => l.lead level first ++ (writeString name ++ ':' :: (l.gap ++
      (l.text (level + 1) v ++ l.members level false rest)))

end

theorem text_string (l : Layout) (level : Nat) (s : String) (rest : List Char) :
    l.text level (.string s) ++ rest = '"' :: (s.toList.flatMap escapeChar ++ '"' :: rest) := by
  simp [text,writeString]

mutual

theorem compact_text (level : Nat) (v : Json) : compact.text level v = write v := by
  match v with
  | .null | .bool _ | .number _ | .string _ | .array [] | .object [] => rfl
  | .array (item :: rest) =>
    have one := compact_text (level + 1) item
    have more := compact_items level rest
    simp [text,items,lead,write,one,more]
  | .object ((name,item) :: rest) =>
    have one := compact_text (level + 1) item
    have more := compact_members level rest
    simp [text,members,lead,write,one,more]

theorem compact_items (level : Nat) (list : List Json) :
    compact.items level false list = writeItems list := by
  match list with
  | [] => rfl
  | item :: rest =>
    have one := compact_text (level + 1) item
    have more := compact_items level rest
    simp [items,lead,writeItems,one,more]

theorem compact_members (level : Nat) (list : List (String × Json)) :
    compact.members level false list = writeMembers list := by
  match list with
  | [] => rfl
  | (name,item) :: rest =>
    have one := compact_text (level + 1) item
    have more := compact_members level rest
    simp [members,lead,writeMembers,one,more]

end

mutual

theorem pretty_text (level : Nat) (v : Json) : pretty.text level v = writePretty level v := by
  match v with
  | .null | .bool _ | .number _ | .string _ | .array [] | .object [] => rfl
  | .array (item :: rest) =>
    have one := pretty_text (level + 1) item
    have more := pretty_items level rest
    simp [text,items,lead,writePretty,one,more]
  | .object ((name,item) :: rest) =>
    have one := pretty_text (level + 1) item
    have more := pretty_members level rest
    simp [text,members,lead,writePretty,one,more]

theorem pretty_items (level : Nat) (list : List Json) :
    pretty.items level false list = writePrettyItems level list := by
  match list with
  | [] => rfl
  | item :: rest =>
    have one := pretty_text (level + 1) item
    have more := pretty_items level rest
    simp [items,lead,writePrettyItems,one,more]

theorem pretty_members (level : Nat) (list : List (String × Json)) :
    pretty.members level false list = writePrettyMembers level list := by
  match list with
  | [] => rfl
  | (name,item) :: rest =>
    have one := pretty_text (level + 1) item
    have more := pretty_members level rest
    simp [members,lead,writePrettyMembers,one,more]

end

-- A value starts with a character that is neither blank nor a closing bracket, and only null
-- starts with the first letter of its word.
theorem text_head (l : Layout) (level : Nat) {depth : Nat} {v : Json} (legible : Legible depth v) :
    ∃ c tail, l.text level v = c :: tail ∧ isBlank c = false ∧ c ≠ ']' ∧ (c = 'n' → v = .null) := by
  cases v with
  | null => exact ⟨_,_,rfl,rfl,by decide,fun _ => rfl⟩
  | bool b => cases b <;> exact ⟨_,_,rfl,rfl,by decide,fun same => absurd same (by decide)⟩
  | string s => exact ⟨_,_,rfl,rfl,by decide,fun same => absurd same (by decide)⟩
  | array items => exact ⟨_,_,rfl,rfl,by decide,fun same => absurd same (by decide)⟩
  | object members => exact ⟨_,_,rfl,rfl,by decide,fun same => absurd same (by decide)⟩
  | number n =>
    obtain ⟨c,tail,written,starts⟩ := Number.write_head legible
    refine ⟨c,tail,written,startsNumber_solid starts,?_,?_⟩
    · rintro rfl
      cases starts
    · rintro rfl
      cases starts

variable (l : Layout) (level : Nat)

theorem text_positive {depth : Nat} {v : Json} (legible : Legible depth v) :
    0 < (l.text level v).length := by
  obtain ⟨c,tail,written,_⟩ := l.text_head level legible
  rw [written,List.length_cons]
  exact Nat.succ_pos _

theorem ending_ends (first : Bool) {close : Char} (ends : ∀ s, endsInteger (close :: s) = true)
    (rest : List Char) : endsInteger (l.ending level first close ++ rest) = true := by
  cases first with
  | true => exact ends rest
  | false =>
    rw [ending,if_neg (by decide),List.append_assoc]
    exact endsInteger_blanks (l.line_blanks level) (ends rest)

theorem items_ends (list : List Json) (rest : List Char) :
    endsInteger (l.items level false list ++ rest) = true := by
  cases list with
  | nil => exact l.ending_ends level false (fun _ => rfl) rest
  | cons item list => rfl

theorem members_ends (list : List (String × Json)) (rest : List Char) :
    endsInteger (l.members level false list ++ rest) = true := by
  cases list with
  | nil => exact l.ending_ends level false (fun _ => rfl) rest
  | cons p list => rfl

theorem skipBlank_ending (first : Bool) {close : Char} (solid : isBlank close = false)
    (rest : List Char) : skipBlank (l.ending level first close ++ rest) = close :: rest := by
  cases first with
  | true => exact skipBlank_solid solid rest
  | false =>
    rw [ending,if_neg (by decide),List.append_assoc,skipBlank_blanks (l.line_blanks level)]
    exact skipBlank_solid solid rest

theorem closeWith_ending (first : Bool) {close : Char} (solid : isBlank close = false)
    (rest : List Char) : closeWith close (l.ending level first close ++ rest) = rest := by
  rw [closeWith,l.skipBlank_ending level first solid]
  exact if_pos rfl

theorem nextItem_ending (first : Bool) (rest : List Char) :
    nextItem first (l.ending level first ']' ++ rest) = .ok none := by
  rw [nextItem,l.skipBlank_ending level first rfl]
  rfl

theorem nextName_ending (first : Bool) (rest : List Char) :
    nextName first (l.ending level first '}' ++ rest) = .ok none := by
  rw [nextName,l.skipBlank_ending level first rfl]
  rfl

theorem nextItem_lead (first : Bool) {depth : Nat} {v : Json} (legible : Legible depth v)
    (rest : List Char) : nextItem first (l.lead level first ++ (l.text (level + 1) v ++ rest)) =
      .ok (some (l.text (level + 1) v ++ rest)) := by
  obtain ⟨c,tail,written,solid,open_,_⟩ := l.text_head (level + 1) legible
  have start : skipBlank (l.line (level + 1) ++ (c :: (tail ++ rest))) = c :: (tail ++ rest) := by
    rw [skipBlank_blanks (l.line_blanks _),skipBlank_solid solid]
  rw [written,List.cons_append,nextItem]
  cases first with
  | true =>
    rw [lead,if_pos rfl,List.nil_append,start]
    simp [open_]
  | false =>
    rw [lead,if_neg (by decide),List.append_assoc,List.singleton_append,
      skipBlank_solid (show isBlank ',' = false from rfl)]
    simp [start,open_]

theorem nextName_lead (first : Bool) (name : String) (rest : List Char) :
    nextName first (l.lead level first ++ (writeString name ++ rest)) = .ok (some (name,rest)) := by
  have read := Scan.stringBody_escaped name rest
  have start : skipBlank (l.line (level + 1) ++ (writeString name ++ rest)) =
      '"' :: (name.toList.flatMap escapeChar ++ '"' :: rest) := by
    rw [skipBlank_blanks (l.line_blanks _)]
    simp [writeString,skipBlank_solid (show isBlank '"' = false from rfl)]
  rw [nextName]
  cases first with
  | true =>
    rw [lead,if_pos rfl,List.nil_append,start]
    simp [read,Except.map]
  | false =>
    rw [lead,if_neg (by decide),List.append_assoc,List.singleton_append,
      skipBlank_solid (show isBlank ',' = false from rfl)]
    simp [start,read,Except.map]

theorem items_long (first : Bool) {depth : Nat} {list : List Json}
    (legible : WithinItems Number.Legible depth list) :
    list.length < (l.items level first list).length := by
  induction list generalizing first with
  | nil => simp [items,ending]
  | cons item list ih =>
    have positive := l.text_positive (level + 1) legible.1
    have more := ih false legible.2
    simp only [items,List.length_append,List.length_cons]
    omega

theorem members_long (first : Bool) (list : List (String × Json)) :
    list.length < (l.members level first list).length := by
  induction list generalizing first with
  | nil => simp [members,ending]
  | cons p list ih =>
    have more := ih false
    simp only [members,List.length_append,List.length_cons]
    omega

end Layout

end TableView.Json
