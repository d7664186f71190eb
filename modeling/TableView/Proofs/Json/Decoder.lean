import TableView.Proofs.Json.Reader
import TableView.Proofs.Json.Skip
import TableView.Proofs.Outcome

namespace TableView.Json.Decoder

open Scan (isBlank skipBlank startsNumber endsInteger)

-- Read with blanks before it and other text behind it.
def Agrees (d : Decoder α) : Prop :=
  ∀ {v : Json} {a : α}, d.ofValue v = .ok a → ∀ (l : Layout) (level : Nat) {depth : Nat},
    Exact depth v → ∀ {blank : List Char}, Blanks blank → ∀ {rest : List Char},
      endsInteger rest = true → d.ofText depth (blank ++ (l.text level v ++ rest)) = .ok (a,rest)

theorem begin_solid {blank : List Char} (blanks : Blanks blank) {c : Char}
    (solid : isBlank c = false) (read : Char → List Char → List Char → Except Fault (α × List Char))
    (s : List Char) : begin read (blank ++ c :: s) = read c s (c :: s) := by
  rw [begin,skipBlank_blanks blanks,skipBlank_solid solid]

theorem map_agrees {d : Decoder α} (agrees : d.Agrees) (f : α → β) : (d.map f).Agrees := by
  intro v b made l level depth exact_ blank blanks rest ends
  obtain ⟨a,one,rfl⟩ := ok_of_map made
  have read := agrees one l level exact_ blanks ends
  simp only [map,read,Except.map]

theorem text_agrees : text.Agrees := by
  intro v s made l level depth exact_ blank blanks rest ends
  cases v with
  | string t =>
    cases made
    have read := Scan.stringBody_escaped s rest
    simp only [Layout.text_string,text,begin_solid blanks (show isBlank '"' = false from rfl),if_true,read]
  | _ => cases made

theorem flag_agrees : flag.Agrees := by
  intro v b made l level depth exact_ blank blanks rest ends
  cases v with
  | bool c =>
    cases made
    cases b with
    | true =>
      have start : l.text level (.bool true) ++ rest = 't' :: 'r' :: 'u' :: 'e' :: rest := rfl
      simp only [start,flag,begin_solid blanks (show isBlank 't' = false from rfl)]
      rfl
    | false =>
      have start : l.text level (.bool false) ++ rest = 'f' :: 'a' :: 'l' :: 's' :: 'e' :: rest :=
        rfl
      simp only [start,flag,begin_solid blanks (show isBlank 'f' = false from rfl)]
      rfl
  | _ => cases made

theorem natural_agrees (kind : String) : (natural kind).Agrees := by
  intro v n made l level depth exact_ blank blanks rest ends
  cases v with
  | number m =>
    cases m with
    | real x => cases made
    | integer i =>
      obtain ⟨c,tail,written,starts⟩ := Scan.ofInt_head i
      have read := Scan.number_ofInt exact_.1 exact_.2 ends
      have made : naturalOf kind (.integer i) = .ok n := made
      have start : l.text level (.number (.integer i)) ++ rest = c :: (tail ++ rest) :=
        congrArg (· ++ rest) written
      rw [written,List.cons_append] at read
      simp only [start,natural,begin_solid blanks (startsNumber_solid starts),starts,if_true,read,
        made]
  | _ => cases made

theorem text_string (s : String) : text.ofValue (.string s) = .ok s := rfl

theorem flag_bool (b : Bool) : flag.ofValue (.bool b) = .ok b := rfl

theorem natural_ofNat (kind : String) (n : Nat) : (natural kind).ofValue (.ofNat n) = .ok n := by
  have given : naturalOf kind (.integer n) = .ok n := by
    rw [naturalOf,if_pos (Int.natCast_nonneg n),Int.toNat_natCast]
  exact given

theorem optional_present {d : Decoder α} {v : Json} (present : v ≠ .null) :
    d.optional.ofValue v = (d.ofValue v).map some := by
  cases v with
  | null => exact absurd rfl present
  | _ => rfl

theorem optional_agrees {d : Decoder α} (agrees : d.Agrees) : d.optional.Agrees := by
  intro v o made l level depth exact_ blank blanks rest ends
  obtain ⟨c,tail,written,solid,_,word⟩ := l.text_head level (exact_reread v exact_).1
  by_cases absent : v = .null
  · subst absent
    cases made
    have start : skipBlank (blank ++ (l.text level .null ++ rest)) =
        'n' :: 'u' :: 'l' :: 'l' :: rest := skipBlank_blanks blanks _
    rw [optional]
    simp only [start]
    rfl
  · rw [optional_present absent] at made
    obtain ⟨a,one,rfl⟩ := ok_of_map made
    have read := agrees one l level exact_ (List.forall_mem_nil _) ends
    have start : skipBlank (blank ++ (l.text level v ++ rest)) = l.text level v ++ rest := by
      rw [skipBlank_blanks blanks,written,List.cons_append,skipBlank_solid solid]
    rw [List.nil_append] at read
    rw [optional]
    simp only [start]
    split
    · rename_i none
      rw [written] at none
      exact absurd (word (List.cons.inj none).1) absent
    · rw [read]
      rfl

theorem scalar_agrees (what : String) : (scalar what).Agrees := by
  intro v s made l level depth exact_ blank blanks rest ends
  have made : scalarOf what v = .ok s := made
  obtain ⟨legible,same⟩ := exact_reread v exact_
  have read := valueAt_text l level legible blanks ends
  rw [same] at read
  simp only [scalar,read,made,bind,Except.bind]

section List

variable {d : Decoder α}

theorem itemsOfText_text (agrees : d.Agrees) (l : Layout) (level : Nat) {depth : Nat}
    (rest : List Char) {items : List Json} {as : List α} (first : Bool) {fuel : Nat}
    (made : itemsOfValues d items = .ok as) (exact_ : WithinItems Number.Exact depth items)
    (enough : items.length < fuel) :
    itemsOfText d depth fuel first (l.items level first items ++ rest) = .ok (as,rest) := by
  induction items generalizing as first fuel with
  | nil =>
    cases made
    obtain ⟨fuel,rfl⟩ := Nat.exists_eq_succ_of_ne_zero (Nat.ne_zero_of_lt enough)
    simp only [itemsOfText,Layout.items,l.nextItem_ending,l.closeWith_ending level first
      (show isBlank ']' = false from rfl),bind,Except.bind]
  | cons item items ih =>
    obtain ⟨a,one,made⟩ := ok_of_bind made
    obtain ⟨others,more,made⟩ := ok_of_bind made
    cases made
    obtain ⟨fuel,rfl⟩ := Nat.exists_eq_succ_of_ne_zero (Nat.ne_zero_of_lt enough)
    have next := l.nextItem_lead level first (exact_reread item exact_.1).1
      (l.items level false items ++ rest)
    have read := agrees one l (level + 1) exact_.1 (List.forall_mem_nil _)
      (l.items_ends level items rest)
    rw [List.nil_append] at read
    have behind := ih false more exact_.2 (Nat.lt_of_succ_lt_succ enough)
    rw [Layout.items,List.append_assoc,List.append_assoc]
    simp only [itemsOfText,next,read,behind,bind,Except.bind]

theorem list_agrees (agrees : d.Agrees) : d.list.Agrees := by
  intro v as made l level depth exact_ blank blanks rest ends
  cases v with
  | array items =>
    have deep : ¬depth ≤ 1 := Nat.not_le.mpr exact_.1
    have enough : items.length < (l.items level true items ++ rest).length + 1 := by
      have long := l.items_long level true (exactItems_reread items exact_.2).1
      rw [List.length_append]
      omega
    have read := itemsOfText_text agrees l level rest true made exact_.2 enough
    have start : l.text level (.array items) ++ rest =
        '[' :: (l.items level true items ++ rest) := rfl
    simp only [start,list,begin_solid blanks (show isBlank '[' = false from rfl),if_true,deep,
      if_false,read]
    rfl
  | _ => cases made

end List

theorem itemsOfValues_map {d : Decoder α} {write : α → Json} {as : List α}
    (each : ∀ a ∈ as, d.ofValue (write a) = .ok a) :
    itemsOfValues d (as.map write) = .ok as := by
  induction as with
  | nil => rfl
  | cons a as ih =>
    obtain ⟨one,more⟩ := List.forall_mem_cons.mp each
    simp only [List.map_cons,itemsOfValues,one,ih more,bind,Except.bind]

-- Members that give the fields of a record in their order. Those that may be missing need not be
-- among them, and leave the record as it is.
inductive Fills : List (Field α) → α → List (String × Json) → α → Prop where
  | nil {record : α} : Fills [] record [] record
  | given {f : Field α} {fields : List (Field α)} {record a : α} {v : Json} {set : α → α}
      {members : List (String × Json)} (read : f.setter.ofValue v = .ok set)
      (more : Fills fields (set record) members a) :
      Fills (f :: fields) record ((f.name,v) :: members) a
  | absent {f : Field α} {fields : List (Field α)} {record a : α}
      {members : List (String × Json)} (free : f.required = false)
      (more : Fills fields record members a) : Fills (f :: fields) record members a

namespace Fills

theorem known {d : Decoder β} {b : β} {v : Json} (read : d.ofValue v = .ok b) {name : String}
    {required : Bool} {set : β → α → α} {fields : List (Field α)} {record a : α}
    {members : List (String × Json)} (more : Fills fields (set b record) members a) :
    Fills (⟨name,required,d.map set⟩ :: fields) record ((name,v) :: members) a := by
  have made : (d.map set).ofValue v = .ok (set b) := by
    rw [map]
    exact congrArg (Except.map set) read
  exact .given (f := ⟨name,required,d.map set⟩) made more

-- The members are read one by one, behind the fields that came before. Names are distinct, so the
-- field of a member is found by its name, and it has not been seen.
theorem membersOfValue {fields : List (Field α)} {record a : α} {members : List (String × Json)}
    (fills : Fills fields record members a) (passed : List (Field α)) {seen : List String}
    (distinct : ((passed ++ fields).map Field.name).Nodup)
    (listed : ∀ name ∈ seen, name ∈ passed.map Field.name)
    (complete : ∀ f ∈ passed, f.required = true → f.name ∈ seen) :
    Decoder.membersOfValue (passed ++ fields) seen record members = .ok a := by
  induction fills generalizing passed seen with
  | @nil record =>
    have none : missing? (passed ++ []) seen = none := by
      rw [missing?,Option.map_eq_none_iff,List.find?_eq_none,List.append_nil]
      intro f member
      cases needed : f.required with
      | false => simp
      | true => simp [complete f member needed]
    rw [Decoder.membersOfValue,none]
  | @given f fields record a v set members read more ih =>
    have apart : f.name ∉ passed.map Field.name := by
      rw [List.map_append,List.map_cons] at distinct
      exact fun member => (List.nodup_append.mp distinct).2.2 _ member _ List.mem_cons_self rfl
    have found : Field.find? (passed ++ f :: fields) f.name = some f := by
      rw [Field.find?,List.find?_append]
      have before : passed.find? (fun g => g.name == f.name) = none := by
        rw [List.find?_eq_none]
        intro g member same
        exact apart (List.mem_map.mpr ⟨g,member,by simpa using same⟩)
      rw [before,Option.none_or,List.find?_cons_of_pos (by simp)]
    have fresh : seen.contains f.name = false := by
      simpa using fun member => apart (listed _ member)
    rw [Decoder.membersOfValue,found]
    simp only [fresh,Bool.false_eq_true,if_false,read,bind,Except.bind]
    rw [List.append_cons] at distinct ⊢
    refine ih _ distinct ?_ ?_
    · intro name member
      rw [List.map_append,List.mem_append]
      rcases List.mem_cons.mp member with rfl | earlier
      · exact .inr List.mem_cons_self
      · exact .inl (listed name earlier)
    · intro g member needed
      rcases List.mem_append.mp member with before | last
      · exact List.mem_cons_of_mem _ (complete g before needed)
      · rw [List.mem_singleton.mp last]
        exact List.mem_cons_self
  | @absent f fields record a members free more ih =>
    rw [List.append_cons] at distinct ⊢
    refine ih _ distinct ?_ ?_
    · intro name member
      rw [List.map_append,List.mem_append]
      exact .inl (listed name member)
    · intro g member needed
      rcases List.mem_append.mp member with before | last
      · exact complete g before needed
      · rw [List.mem_singleton.mp last,free] at needed
        cases needed

theorem ofValue {fields : List (Field α)} {start a : α} {members : List (String × Json)}
    (fills : Fills fields start members a) (distinct : (fields.map Field.name).Nodup)
    (what : String) : (record what fields start).ofValue (.object members) = .ok a :=
  fills.membersOfValue [] distinct (List.forall_mem_nil _) (List.forall_mem_nil _)

end Fills

theorem absent_ok {fields : List (Field α)} {what : String} {total given taken : Nat} {record a : α}
    (made : positionsOfValue what total given fields taken record [] = .ok a) (s : List Char) :
    positionsOfText.absent what total fields taken s record = .ok (a,s) := by
  induction fields generalizing taken with
  | nil =>
    cases made
    rfl
  | cons f fields ih =>
    rw [positionsOfValue] at made
    split at made
    · cases made
    · rename_i free
      rw [positionsOfText.absent,if_neg free]
      exact ih made

section Record

variable {fields : List (Field α)} (each : ∀ f ∈ fields, f.setter.Agrees)

include each

theorem membersOfText_text (l : Layout) (level : Nat) {depth : Nat} (rest : List Char)
    {members : List (String × Json)} {seen : List String} {record a : α} (first : Bool)
    {fuel : Nat} (made : membersOfValue fields seen record members = .ok a)
    (exact_ : WithinMembers Number.Exact depth members) (enough : members.length < fuel) :
    membersOfText fields depth fuel first seen record (l.members level first members ++ rest) =
      .ok (a,rest) := by
  induction members generalizing seen record first fuel with
  | nil =>
    obtain ⟨fuel,rfl⟩ := Nat.exists_eq_succ_of_ne_zero (Nat.ne_zero_of_lt enough)
    rw [membersOfValue] at made
    split at made
    · cases made
    · rename_i complete
      cases made
      simp only [membersOfText,Layout.members,l.nextName_ending,complete,
        l.closeWith_ending level first (show isBlank '\x7d' = false from rfl),bind,Except.bind]
  | cons p members ih =>
    obtain ⟨name,v⟩ := p
    obtain ⟨fuel,rfl⟩ := Nat.exists_eq_succ_of_ne_zero (Nat.ne_zero_of_lt enough)
    let inner := l.gap ++ (l.text (level + 1) v ++ (l.members level false members ++ rest))
    have next := l.nextName_lead level first name (':' :: inner)
    have behindColon : colon (':' :: inner) = .ok inner := rfl
    have ends := l.members_ends level members rest
    have start : l.members level first ((name,v) :: members) ++ rest =
        l.lead level first ++ (writeString name ++ ':' :: inner) := by
      simp [Layout.members,inner]
    have fewer := Nat.lt_of_succ_lt_succ enough
    rw [membersOfValue] at made
    rw [start]
    split at made
    · -- A member that belongs to no field is passed over.
      rename_i unknown
      have skipped := skipValue_text l (level + 1) exact_.1 l.gap_blanks ends
      have behind := ih false made exact_.2 fewer
      simp only [membersOfText,next,unknown,behindColon,inner,skipped,behind,bind,Except.bind]
    · rename_i f known
      split at made
      · cases made
      · rename_i fresh
        obtain ⟨set,one,made⟩ := ok_of_bind made
        have read := each f (List.mem_of_find?_eq_some known) one l (level + 1) exact_.1
          l.gap_blanks ends
        have behind := ih false made exact_.2 fewer
        simp only [membersOfText,next,known,fresh,behindColon,inner,read,behind,bind,Except.bind,
          Bool.false_eq_true,if_false]

theorem positionsOfText_text (what : String) (total given : Nat) (l : Layout) (level : Nat)
    {depth : Nat} (rest : List Char) {items : List Json} {taken : Nat} {record a : α}
    (made : positionsOfValue what total given fields taken record items = .ok a)
    (exact_ : WithinItems Number.Exact depth items) :
    ∃ first, positionsOfText what total depth fields taken record
      (l.items level (taken = 0) items ++ rest) = .ok (a,l.ending level first ']' ++ rest) := by
  induction fields generalizing items taken record with
  | nil =>
    cases items with
    | nil =>
      cases made
      exact ⟨_,rfl⟩
    | cons item items => cases made
  | cons f fields ih =>
    obtain ⟨here,each⟩ := List.forall_mem_cons.mp each
    cases items with
    | nil =>
      refine ⟨taken = 0,?_⟩
      rw [positionsOfValue] at made
      split at made
      · cases made
      · rename_i free
        have left := absent_ok made (l.ending level (taken = 0) ']' ++ rest)
        simp only [positionsOfText,Layout.items,l.nextItem_ending,free,left,bind,Except.bind,
          Bool.false_eq_true,if_false]
    | cons item items =>
      obtain ⟨set,one,made⟩ := ok_of_bind made
      have next := l.nextItem_lead level (taken = 0) (exact_reread item exact_.1).1
        (l.items level false items ++ rest)
      have read := here one l (level + 1) exact_.1 (List.forall_mem_nil _)
        (l.items_ends level items rest)
      obtain ⟨first,behind⟩ := ih each made exact_.2
      refine ⟨first,?_⟩
      have later : decide (taken + 1 = 0) = false := decide_eq_false (Nat.succ_ne_zero taken)
      rw [later] at behind
      rw [List.nil_append] at read
      rw [Layout.items,List.append_assoc,List.append_assoc]
      simp only [positionsOfText,next,read,behind,bind,Except.bind]

theorem record_agrees (what : String) (start : α) : (record what fields start).Agrees := by
  intro v a made l level depth exact_ blank blanks rest ends
  cases v with
  | object members =>
    have deep : ¬depth ≤ 1 := Nat.not_le.mpr exact_.1
    have enough : members.length < (l.members level true members ++ rest).length + 1 := by
      have long := l.members_long level true members
      rw [List.length_append]
      omega
    have read := membersOfText_text each l level rest true made exact_.2 enough
    have open_ : l.text level (.object members) ++ rest =
        '\x7b' :: (l.members level true members ++ rest) := rfl
    simp only [open_,record,recordOfText,begin_solid blanks (show isBlank '\x7b' = false from rfl),
      if_true,deep,if_false,read]
    rfl
  | array items =>
    have deep : ¬depth ≤ 1 := Nat.not_le.mpr exact_.1
    obtain ⟨first,read⟩ := positionsOfText_text each what fields.length items.length l level rest
      made exact_.2
    rw [show decide (0 = 0) = true from rfl] at read
    have ended : endList (l.ending level first ']' ++ rest) = .ok rest := by
      rw [endList,l.skipBlank_ending level first rfl]
      rfl
    have open_ : l.text level (.array items) ++ rest =
        '[' :: (l.items level true items ++ rest) := rfl
    simp only [open_,record,recordOfText,begin_solid blanks (show isBlank '[' = false from rfl),
      if_true,deep,if_false,read]
    exact congrArg (Except.map (fun rest => (a,rest))) ended
  | _ => cases made

end Record

theorem Agrees.read {d : Decoder α} (agrees : d.Agrees) {v : Json} {a : α}
    (made : d.ofValue v = .ok a) (exact_ : Exact depthLimit v) :
    d.read v.compact = .ok a ∧ d.read v.pretty = .ok a := by
  have whole (l : Layout) : d.read (String.ofList (l.text 0 v)) = .ok a := by
    have ends : endsInteger [] = true := rfl
    have read := agrees made l 0 exact_ (List.forall_mem_nil _) ends
    rw [List.nil_append,List.append_nil] at read
    rw [Decoder.read,readChars,String.toList_ofList,read]
    rfl
  constructor
  · rw [compact,←Layout.compact_text 0 v]
    exact whole Layout.compact
  · rw [pretty,←Layout.pretty_text 0 v]
    exact whole Layout.pretty

end TableView.Json.Decoder
