import TableView.Proofs.Json.Layout

namespace TableView.Json

namespace Skip

open Scan (isBlank skipBlank startsWithDigit dropDigits endsInteger)

theorem string_escapeChar (c : Char) (rest : List Char) :
    string (escapeChar c ++ rest) = string rest := by
  have simple (d : Char) (known : (Scan.simpleEscape? d).isSome = true) (letter : d ≠ 'u') :
      string ('\\' :: d :: rest) = string rest := by
    simp [string,letter,known]
  rw [escapeChar]
  split
  · exact simple '"' rfl (by decide)
  split
  · exact simple '\\' rfl (by decide)
  split
  · exact simple 'b' rfl (by decide)
  split
  · exact simple 't' rfl (by decide)
  split
  · exact simple 'n' rfl (by decide)
  split
  · exact simple 'f' rfl (by decide)
  split
  · exact simple 'r' rfl (by decide)
  split
  · rename_i control
    have four := Scan.hexFour_control control rest
    rw [escapeControl]
    simp only [List.cons_append,List.nil_append]
    rw [string,if_pos rfl]
    split
    · rename_i failed
      rw [four] at failed
      cases failed
    · rename_i passed
      rw [four] at passed
      cases passed
      rfl
  · rename_i backslash _ _ _ _ _ control
    simp [string,backslash,control]

theorem string_escaped (cs rest : List Char) :
    string (cs.flatMap escapeChar ++ '"' :: rest) = .ok rest := by
  induction cs with
  | nil => rw [List.flatMap_nil,List.nil_append,string]
  | cons c cs ih => rw [List.flatMap_cons,List.append_assoc,string_escapeChar,ih]

theorem unsigned_ofNat (n : Nat) {rest : List Char} (ends : endsInteger rest = true) :
    unsigned (Text.Numeral.ofNat n ++ rest) = .ok rest := by
  have stops := Scan.startsWithDigit_ends ends
  have after : afterInteger rest = .ok rest := by
    unfold afterInteger
    split
    · exact absurd rfl (Scan.endsInteger_cons.mp ends).2.1
    · cases rest with
      | nil => rfl
      | cons c rest =>
        rw [afterFraction,(Scan.endsInteger_cons.mp ends).2.2]
        rfl
  have digits := Text.Numeral.isDigit_ofNat n
  obtain ⟨d,tail,written,small,zero⟩ := Text.Numeral.ofNat_head n
  have passed : dropDigits (tail ++ rest) = rest := by
    rw [written] at digits
    rw [dropDigits,List.dropWhile_append_of_pos (List.forall_mem_cons.mp digits).2]
    cases rest with
    | nil => rfl
    | cons c rest => exact List.dropWhile_cons_of_neg (by simpa [startsWithDigit] using stops)
  rw [written,List.cons_append]
  by_cases none : d = 0
  · obtain ⟨_,rfl⟩ := zero none
    subst none
    have start : Text.Numeral.digit 0 = '0' := rfl
    rw [start,List.nil_append,unsigned,stops]
    exact after
  · have positive : Text.Numeral.digit d ≠ '0' := by
      have all : ∀ d < 10, d ≠ 0 → Text.Numeral.digit d ≠ '0' := by decide
      exact all d small none
    unfold unsigned
    split
    · rename_i empty
      cases empty
    · rename_i first
      exact absurd (List.cons.inj first).1 positive
    · rename_i c behind _ same
      cases same
      rw [Text.Numeral.isDigit_digit small,passed]
      exact after

theorem opening_blanks {blank : List Char} (blanks : Blanks blank) (s : List Char) :
    opening (blank ++ s) = opening s := by
  rw [opening,skipBlank_blanks blanks,opening]

theorem opening_digit {c : Char} (digit : Text.Numeral.isDigit c = true) (s : List Char) :
    opening (c :: s) = (unsigned (c :: s)).map (fun rest => (none,rest)) := by
  have starts : Scan.startsNumber c = true := by rw [Scan.startsNumber,digit,Bool.or_true]
  rw [opening,skipBlank_solid (startsNumber_solid starts)]
  split
  · rename_i none
    cases none
  all_goals rename_i taken; cases taken
  · cases digit
  · cases digit
  · cases digit
  · cases digit
  · cases digit
  · cases digit
  · cases digit
  · rw [if_pos digit]

theorem opening_ofInt (i : Int) {rest : List Char} (ends : endsInteger rest = true) :
    opening (Text.Numeral.ofInt i ++ rest) = .ok (none,rest) := by
  have passed := unsigned_ofNat i.natAbs ends
  rw [Text.Numeral.ofInt]
  split
  · have start : opening ('-' :: (Text.Numeral.ofNat i.natAbs ++ rest)) =
        (unsigned (Text.Numeral.ofNat i.natAbs ++ rest)).map (fun rest => (none,rest)) := rfl
    rw [List.cons_append,start,passed]
    rfl
  · obtain ⟨d,tail,written,small,_⟩ := Text.Numeral.ofNat_head i.natAbs
    rw [written,List.cons_append] at passed ⊢
    rw [opening_digit (Text.Numeral.isDigit_digit small),passed]
    rfl

theorem opening_string (s : String) (rest : List Char) :
    opening (writeString s ++ rest) = .ok (none,rest) := by
  have start : opening (writeString s ++ rest) =
      (string (s.toList.flatMap escapeChar ++ '"' :: rest)).map (fun rest => (none,rest)) := by
    rw [writeString,List.append_assoc]
    rfl
  rw [start,string_escaped]
  rfl

theorem name_written {blank : List Char} (blanks : Blanks blank) (s : String)
    (rest : List Char) : name (blank ++ (writeString s ++ ':' :: rest)) = .ok rest := by
  have start : name (blank ++ (writeString s ++ ':' :: rest)) =
      (string (s.toList.flatMap escapeChar ++ '"' :: ':' :: rest)).bind colon := by
    rw [name,skipBlank_blanks blanks,writeString,List.append_assoc]
    rfl
  rw [start,string_escaped]
  rfl

def proceed (fuel : Nat) : After → Except Fault (List Char)
  | .done s => .ok s
  | .item .list outer s => value fuel (.list :: outer) s
  | .item .object outer s => (name s).bind (value fuel (.object :: outer))

-- The pass keeps the brackets that are open on a stack, so what follows a value is told for any
-- such stack.
def behind (fuel : Nat) (outer : List Bracket) (s : List Char) : Except Fault (List Char) :=
  match outer with
  | [] => .ok s
  | b :: outer => (close true b outer s).bind (proceed fuel)

theorem value_scalar {s rest : List Char} (passed : opening s = .ok (none,rest)) (fuel : Nat)
    (outer : List Bracket) : value (fuel + 1) outer s = behind fuel outer rest := by
  cases outer with
  | nil => simp only [value,passed,behind,bind,Except.bind]
  | cons b outer =>
    simp only [value,passed,behind,bind,Except.bind]
    cases close true b outer rest with
    | error f => rfl
    | ok after =>
      cases after with
      | done s => rfl
      | item b outer s => cases b <;> rfl

theorem value_bracket {b : Bracket} {s rest : List Char}
    (passed : opening s = .ok (some b,rest)) (fuel : Nat) (outer : List Bracket) :
    value (fuel + 1) outer s = (close false b outer rest).bind (proceed fuel) := by
  simp only [value,passed,bind,Except.bind]
  cases close false b outer rest with
  | error f => rfl
  | ok after =>
    cases after with
    | done s => rfl
    | item b outer s => cases b <;> rfl

theorem close_ending {b : Bracket} {s rest : List Char}
    (found : skipBlank s = b.closing :: rest) (comma : Bool) (fuel : Nat)
    (outer : List Bracket) : (close comma b outer s).bind (proceed fuel) =
      behind fuel outer rest := by
  have bracket : b.closing ≠ ',' := by cases b <;> decide
  rw [close,found]
  cases outer with
  | nil => simp [bracket,behind,Except.bind,proceed]
  | cons next outer => simp [bracket,behind]

theorem close_lead (l : Layout) (level : Nat) (b : Bracket) (outer : List Bracket) (first : Bool)
    {c : Char} (solid : isBlank c = false) (inside : c ≠ b.closing) (tail : List Char) :
    ∃ blank, Blanks blank ∧ close (!first) b outer (l.lead level first ++ c :: tail) =
      .ok (.item b outer (blank ++ c :: tail)) := by
  cases first with
  | true =>
    refine ⟨[],List.forall_mem_nil _,?_⟩
    rw [Layout.lead,if_pos rfl,List.nil_append,close,skipBlank_blanks (l.line_blanks _),
      skipBlank_solid solid]
    simp [inside]
  | false =>
    refine ⟨_,l.line_blanks (level + 1),?_⟩
    rw [Layout.lead,if_neg (by decide),List.append_assoc,List.singleton_append,close,
      skipBlank_solid (show isBlank ',' = false from rfl)]
    simp

mutual

def steps : Json → Nat
  | .array items => stepsOfItems items + 1
  | .object members => stepsOfMembers members + 1
  | _ => 1

def stepsOfItems : List Json → Nat
  | [] => 0
  | item :: rest => steps item + stepsOfItems rest

def stepsOfMembers : List (String × Json) → Nat
  | [] => 0
  | (_,v) :: rest => steps v + stepsOfMembers rest

end

mutual

theorem value_text (l : Layout) (level : Nat) (v : Json) {depth : Nat} (exact_ : Exact depth v)
    {blank : List Char} (blanks : Blanks blank) (fuel : Nat) (outer : List Bracket)
    {rest : List Char} (ends : endsInteger rest = true) :
    value (fuel + steps v) outer (blank ++ (l.text level v ++ rest)) =
      behind fuel outer rest := by
  match v with
  | .null => exact value_scalar (opening_blanks blanks _) fuel outer
  | .bool true => exact value_scalar (opening_blanks blanks _) fuel outer
  | .bool false => exact value_scalar (opening_blanks blanks _) fuel outer
  | .number (.integer i) =>
    exact value_scalar ((opening_blanks blanks _).trans (opening_ofInt i ends)) fuel outer
  | .string s =>
    exact value_scalar ((opening_blanks blanks _).trans (opening_string s rest)) fuel outer
  | .array items =>
    have opened : opening (blank ++ (l.text level (.array items) ++ rest)) =
        .ok (some .list,l.items level true items ++ rest) := opening_blanks blanks _
    rw [steps,←Nat.add_assoc,value_bracket opened]
    exact items_text l level true items exact_.2 fuel outer rest
  | .object members =>
    have opened : opening (blank ++ (l.text level (.object members) ++ rest)) =
        .ok (some .object,l.members level true members ++ rest) := opening_blanks blanks _
    rw [steps,←Nat.add_assoc,value_bracket opened]
    exact members_text l level true members exact_.2 fuel outer rest

theorem items_text (l : Layout) (level : Nat) (first : Bool) (items : List Json) {depth : Nat}
    (exact_ : WithinItems Number.Exact depth items) (fuel : Nat) (outer : List Bracket)
    (rest : List Char) :
    (close (!first) .list outer (l.items level first items ++ rest)).bind
      (proceed (fuel + stepsOfItems items)) = behind fuel outer rest := by
  match items with
  | [] => exact close_ending (l.skipBlank_ending level first rfl rest) _ fuel outer
  | item :: items =>
    obtain ⟨c,tail,written,solid,inside,_⟩ := l.text_head (level + 1) (exact_reread item exact_.1).1
    obtain ⟨blank,blanks,next⟩ := close_lead l level .list outer first solid inside
      (tail ++ (l.items level false items ++ rest))
    rw [←List.cons_append,←written] at next
    have one := value_text l (level + 1) item exact_.1 blanks (fuel + stepsOfItems items)
      (.list :: outer) (l.items_ends level items rest)
    have more := items_text l level false items exact_.2 fuel outer rest
    rw [Layout.items,List.append_assoc,List.append_assoc,next,Except.bind,proceed,stepsOfItems,
      Nat.add_comm (steps item),←Nat.add_assoc,one]
    exact more

theorem members_text (l : Layout) (level : Nat) (first : Bool) (members : List (String × Json))
    {depth : Nat} (exact_ : WithinMembers Number.Exact depth members) (fuel : Nat)
    (outer : List Bracket) (rest : List Char) :
    (close (!first) .object outer (l.members level first members ++ rest)).bind
      (proceed (fuel + stepsOfMembers members)) = behind fuel outer rest := by
  match members with
  | [] => exact close_ending (l.skipBlank_ending level first rfl rest) _ fuel outer
  | (key,item) :: members =>
    obtain ⟨tail,written⟩ : ∃ tail, writeString key = '"' :: tail := ⟨_,rfl⟩
    let inner := l.text (level + 1) item ++ (l.members level false members ++ rest)
    obtain ⟨blank,blanks,next⟩ := close_lead l level .object outer first
      (show isBlank '"' = false from rfl) (by decide) (tail ++ ':' :: (l.gap ++ inner))
    rw [←List.cons_append,←written] at next
    have named := name_written blanks key (l.gap ++ inner)
    have one := value_text l (level + 1) item exact_.1 l.gap_blanks
      (fuel + stepsOfMembers members) (.object :: outer) (l.members_ends level members rest)
    have more := members_text l level false members exact_.2 fuel outer rest
    have start : l.members level first ((key,item) :: members) ++ rest =
        l.lead level first ++ (writeString key ++ ':' :: (l.gap ++ inner)) := by
      simp [Layout.members,inner]
    rw [start,next,Except.bind,proceed,named,Except.bind,stepsOfMembers,
      Nat.add_comm (steps item),←Nat.add_assoc,one]
    exact more

end

mutual

theorem steps_le (l : Layout) (level : Nat) (v : Json) {depth : Nat} (exact_ : Exact depth v) :
    steps v ≤ (l.text level v).length := by
  match v with
  | .null | .bool true | .bool false | .string s =>
    simp [steps,Layout.text,write,writeBool,writeString]
  | .number n =>
    exact l.text_positive level (exact_reread (.number n) exact_).1
  | .array items =>
    have inner := stepsOfItems_lt l level true items exact_.2
    rw [steps,Layout.text,List.length_cons]
    omega
  | .object members =>
    have inner := stepsOfMembers_lt l level true members exact_.2
    rw [steps,Layout.text,List.length_cons]
    omega

theorem stepsOfItems_lt (l : Layout) (level : Nat) (first : Bool) (items : List Json)
    {depth : Nat} (exact_ : WithinItems Number.Exact depth items) :
    stepsOfItems items < (l.items level first items).length := by
  match items with
  | [] => simp [stepsOfItems,Layout.items,Layout.ending]
  | item :: items =>
    have one := steps_le l (level + 1) item exact_.1
    have more := stepsOfItems_lt l level false items exact_.2
    rw [stepsOfItems,Layout.items,List.length_append,List.length_append]
    omega

theorem stepsOfMembers_lt (l : Layout) (level : Nat) (first : Bool)
    (members : List (String × Json)) {depth : Nat}
    (exact_ : WithinMembers Number.Exact depth members) :
    stepsOfMembers members < (l.members level first members).length := by
  match members with
  | [] => simp [stepsOfMembers,Layout.members,Layout.ending]
  | (key,item) :: members =>
    have one := steps_le l (level + 1) item exact_.1
    have more := stepsOfMembers_lt l level false members exact_.2
    simp only [stepsOfMembers,Layout.members,List.length_append,List.length_cons]
    omega

end

end Skip

theorem skipValue_text (l : Layout) (level : Nat) {depth : Nat} {v : Json}
    (exact_ : Exact depth v) {blank : List Char} (blanks : Blanks blank) {rest : List Char}
    (ends : Scan.endsInteger rest = true) :
    skipValue (blank ++ (l.text level v ++ rest)) = .ok rest := by
  have enough : Skip.steps v ≤ (blank ++ (l.text level v ++ rest)).length + 1 := by
    have taken := Skip.steps_le l level v exact_
    rw [List.length_append,List.length_append]
    omega
  obtain ⟨fuel,whole⟩ := Nat.exists_eq_add_of_le' enough
  rw [skipValue,whole,Skip.value_text l level v exact_ blanks fuel [] ends,Skip.behind]

end TableView.Json
