import TableView.Proofs.Markup.Reading

namespace TableView.Inline

def tagsIn (text : List Char) : List String :=
  text.tails.filterMap (fun q => tags.find? (fun t => t.toList.isPrefixOf q))

def openBehind : List String → List String → Option (List String)
  | stack,[] => some stack
  | stack,t :: rest =>
    match names.find? (fun name => opening name = t) with
    | some name => openBehind (name :: stack) rest
    | none => if stack.head?.map closing = some t then openBehind stack.tail rest else none

def Nested (text : List Char) : Prop := openBehind [] (tagsIn text) = some []

instance (text : List Char) : Decidable (Nested text) := inferInstanceAs (Decidable (_ = _))

def insides (style : Style) (text : List Char) : List (List Char) :=
  match _h : marked? style.sign text with
  | some (inner,after) => inner :: insides style after
  | none =>
    match text with
    | [] => []
    | _ :: rest => insides style rest
termination_by text.length
decreasing_by
  · exact marked?_length _h
  · simp

-- No text that is set apart has a tag in it and the other one of the pair outside of it. The first
-- pass finds no tags.
def Uncrossed (content : List Char) : Prop :=
  let strong := setApart bold (escape content)
  (∀ inner ∈ insides italic strong, Nested inner) ∧
    ∀ inner ∈ insides underlined (setApart italic strong), Nested inner

section Tags

def Emphasis.name : Emphasis → String
  | .strong => "strong"
  | .italic => "em"
  | .underlined => "ins"

def Token.tagText? : Token → Option String
  | char _ => none
  | tag false e => some (opening e.name)
  | tag true e => some (closing e.name)

theorem tagsIn_cons (c : Char) (text : List Char) : tagsIn (c :: text) =
    (tags.find? (fun t => t.toList.isPrefixOf (c :: text))).toList ++ tagsIn text := by
  rw [tagsIn,List.tails_cons,List.filterMap_cons]
  cases tags.find? (fun t => t.toList.isPrefixOf (c :: text)) <;> rfl

theorem tagsIn_skip {text : List Char} (free : '<' ∉ text) (rest : List Char) :
    tagsIn (text ++ rest) = tagsIn rest := by
  induction text with
  | nil => rfl
  | cons c text ih =>
    rw [List.mem_cons,not_or] at free
    obtain ⟨other,free⟩ := free
    have absent : tags.find? (fun t => t.toList.isPrefixOf (c :: (text ++ rest))) = none := by
      rw [List.find?_eq_none]
      intro t listed starts
      obtain ⟨tail,whole⟩ := tag_begins listed
      rw [whole,List.isPrefixOf_iff_prefix] at starts
      exact other (List.cons_prefix_cons.mp starts).1
    rw [List.cons_append,tagsIn_cons,absent,ih free]
    rfl

theorem tagsIn_tag {tag : String} (listed : tag ∈ tags) (rest : List Char) :
    tagsIn (tag.toList ++ rest) = tag :: tagsIn rest := by
  have piece : IsPiece tag.toList := .mark (List.mem_map_of_mem (List.mem_append_left _ listed))
  have found : tags.find? (fun t => t.toList.isPrefixOf (tag.toList ++ rest)) = some tag := by
    have here : tag.toList.isPrefixOf (tag.toList ++ rest) = true :=
      List.isPrefixOf_iff_prefix.mpr (List.prefix_append _ rest)
    have some : (tags.find? (fun t => t.toList.isPrefixOf (tag.toList ++ rest))).isSome :=
      List.find?_isSome.mpr ⟨tag,listed,here⟩
    obtain ⟨t,found⟩ := Option.isSome_iff_exists.mp some
    have starts := List.find?_some found
    rw [List.isPrefixOf_iff_prefix] at starts
    have same := piece.eq_tag (List.mem_of_find?_eq_some found) starts
    rwa [←String.toList_inj.mp same] at found
  obtain ⟨c,tail,whole⟩ := List.exists_cons_of_ne_nil piece.nonempty
  have free : '<' ∉ tail := by
    have tail := piece.tail_not_mem (c := '<') (by simp)
    rwa [whole] at tail
  rw [whole,List.cons_append] at found ⊢
  rw [tagsIn_cons,found,tagsIn_skip free]
  rfl

theorem tagsIn_shown (ts : List Token) : tagsIn (shownText ts) = ts.filterMap Token.tagText? := by
  induction ts with
  | nil => rfl
  | cons t ts ih =>
    change tagsIn (t.shown ++ shownText ts) = _
    cases t with
    | char c =>
      rw [List.filterMap_cons_none rfl,←ih]
      exact tagsIn_skip (escapeChar_free c) (shownText ts)
    | tag ends e =>
      have named : ∃ t ∈ tags, (Token.tag ends e).shown = t.toList ∧
          (Token.tag ends e).tagText? = some t := by
        cases ends <;> cases e <;> decide
      obtain ⟨t,listed,shown,text⟩ := named
      rw [List.filterMap_cons_some text,shown,tagsIn_tag listed,ih]

end Tags

section Stacks

def Token.opened : List Emphasis → List Token → Option (List Emphasis)
  | stack,[] => some stack
  | stack,.char _ :: rest => opened stack rest
  | stack,.tag false e :: rest => opened (e :: stack) rest
  | [],.tag true _ :: _ => none
  | e :: stack,.tag true f :: rest => if e = f then opened stack rest else none

theorem openBehind_tokens (stack : List Emphasis) (ts : List Token) :
    openBehind (stack.map Emphasis.name) (ts.filterMap Token.tagText?) =
      (Token.opened stack ts).map (·.map Emphasis.name) := by
  have closes (e : Emphasis) : names.find? (fun name => opening name = closing e.name) = none := by
    cases e <;> decide
  fun_induction Token.opened stack ts with
  | case1 stack => rfl
  | case2 stack c rest ih => exact ih
  | case3 stack e rest ih =>
    have found : names.find? (fun name => opening name = opening e.name) = some e.name := by
      cases e <;> decide
    change openBehind _ (opening e.name :: rest.filterMap Token.tagText?) = _
    rw [openBehind,found]
    exact ih
  | case4 e rest =>
    change openBehind [] (closing e.name :: rest.filterMap Token.tagText?) = _
    rw [openBehind,closes]
    rfl
  | case5 stack e rest ih =>
    change openBehind (e.name :: stack.map Emphasis.name)
      (closing e.name :: rest.filterMap Token.tagText?) = _
    rw [openBehind,closes]
    exact (if_pos rfl).trans ih
  | case6 e stack f rest other =>
    have differ : closing e.name ≠ closing f.name := by
      intro same
      apply other
      cases e <;> cases f <;> first | rfl | exact absurd same (by decide)
    change openBehind (e.name :: stack.map Emphasis.name)
      (closing f.name :: rest.filterMap Token.tagText?) = _
    rw [openBehind,closes]
    exact if_neg (fun same => differ (Option.some.inj same))

theorem nested_shown (ts : List Token) :
    Nested (shownText ts) ↔ Token.opened [] ts = some [] := by
  have same := openBehind_tokens [] ts
  rw [List.map_nil] at same
  rw [Nested,tagsIn_shown,same]
  cases Token.opened [] ts with
  | none => simp
  | some stack => cases stack <;> simp

theorem opened_append (stack : List Emphasis) (front back : List Token) :
    Token.opened stack (front ++ back) =
      (Token.opened stack front).bind (fun stack => Token.opened stack back) := by
  fun_induction Token.opened stack front with
  | case1 stack => rfl
  | case2 stack c rest ih => exact ih
  | case3 stack e rest ih => exact ih
  | case4 e rest => rfl
  | case5 stack e rest ih =>
    rw [←ih]
    exact if_pos rfl
  | case6 e stack f rest other => exact if_neg other

theorem opened_cons (stack : List Emphasis) (t : Token) (ts : List Token) :
    Token.opened stack (t :: ts) =
      (Token.opened stack [t]).bind (fun stack => Token.opened stack ts) :=
  opened_append stack [t] ts

theorem opened_over {stack after : List Emphasis} {ts : List Token}
    (opened : Token.opened stack ts = some after) (more : List Emphasis) :
    Token.opened (stack ++ more) ts = some (after ++ more) := by
  fun_induction Token.opened stack ts with
  | case1 stack =>
    cases opened
    rfl
  | case2 stack c rest ih => exact ih opened
  | case3 stack e rest ih => exact ih opened
  | case4 e rest => cases opened
  | case5 stack e rest ih => exact (if_pos rfl).trans (ih opened)
  | case6 e stack f rest other => cases opened

def Clear (e : Emphasis) (ts : List Token) : Prop := ∀ ends, .tag ends e ∉ ts

theorem Clear.mono {e : Emphasis} {ts part : List Token} (clear : Clear e ts) (listed : part ⊆ ts) :
    Clear e part :=
  fun ends member => clear ends (listed member)

theorem opened_fresh {e : Emphasis} {stack after : List Emphasis} {ts : List Token}
    (clear : Clear e ts) (fresh : e ∉ stack) (opened : Token.opened stack ts = some after) :
    e ∉ after := by
  fun_induction Token.opened stack ts with
  | case1 stack =>
    cases opened
    exact fresh
  | case2 stack c rest ih => exact ih (clear.mono (List.subset_cons_self _ _)) fresh opened
  | case3 stack f rest ih =>
    have other : e ≠ f := by
      rintro rfl
      exact clear false List.mem_cons_self
    exact ih (clear.mono (List.subset_cons_self _ _)) (by simp [other,fresh]) opened
  | case4 f rest => cases opened
  | case5 stack f rest ih =>
    exact ih (clear.mono (List.subset_cons_self _ _)) (List.not_mem_of_not_mem_cons fresh) opened
  | case6 f stack g rest other => cases opened

-- Tags of other kinds cannot close one of this kind, nor what was opened before it.
theorem opened_under {e : Emphasis} {top stack after : List Emphasis} {ts : List Token}
    (clear : Clear e ts) (fresh : e ∉ top)
    (opened : Token.opened (top ++ e :: stack) ts = some after) :
    ∃ rest, after = rest ++ e :: stack ∧ e ∉ rest ∧ Token.opened top ts = some rest := by
  induction ts generalizing top with
  | nil =>
    cases opened
    exact ⟨top,rfl,fresh,rfl⟩
  | cons t ts ih =>
    have later : Clear e ts := clear.mono (List.subset_cons_self t ts)
    cases t with
    | char c => exact ih later fresh opened
    | tag ends f =>
      have other : e ≠ f := by
        rintro rfl
        exact clear ends List.mem_cons_self
      cases ends with
      | false => exact ih later (by simp [other,fresh]) opened
      | true =>
        cases top with
        | nil =>
          rw [List.nil_append,Token.opened,if_neg other] at opened
          cases opened
        | cons g top =>
          rw [List.cons_append,Token.opened] at opened
          split at opened
          · rename_i same
            rw [Token.opened,if_pos same]
            exact ih later (List.not_mem_of_not_mem_cons fresh) opened
          · cases opened

end Stacks

section Passes

-- What a pass makes of a row of tokens, with the texts that it has set apart. The doubled signs
-- around each of them have become two tags.
inductive Parted (e : Emphasis) : List Token → List Token → List (List Token) → Prop where
  | done : Parted e [] [] []
  | kept (t : Token) : Parted e ts after inners → Parted e (t :: ts) (t :: after) inners
  | apart (inner : List Token) : Parted e behind after inners →
      Parted e (.char e.sign :: .char e.sign :: (inner ++ .char e.sign :: .char e.sign :: behind))
        (.tag false e :: (inner ++ .tag true e :: after)) (inner :: inners)

theorem insides_marked {style : Style} {text inner back : List Char}
    (found : marked? style.sign text = some (inner,back)) :
    insides style text = inner :: insides style back := by
  rw [insides.eq_def]
  split
  · rename_i again
    rw [found] at again
    cases again
    rfl
  · rename_i none
    rw [found] at none
    cases none

theorem insides_unmarked {style : Style} {c : Char} {text : List Char}
    (none : marked? style.sign (c :: text) = none) :
    insides style (c :: text) = insides style text := by
  rw [insides]
  split
  · rename_i found
    rw [none] at found
    cases found
  · rfl

theorem insides_solid {style : Style} {text : List Char} (solid : Solid style.sign text)
    (rest : List Char) : insides style (text ++ rest) = insides style rest := by
  induction text with
  | nil => rfl
  | cons c text ih =>
    have unmarked := marked?_undoubled (solid.undoubled rest)
    rw [List.cons_append,insides_unmarked unmarked,ih solid.tail]

theorem parted_tokens (e : Emphasis) (ts : List Token) : ∃ after inners, Parted e ts after inners ∧
    setApart e.style (shownText ts) = shownText after ∧
    insides e.style (shownText ts) = inners.map shownText := by
  induction size : ts.length using Nat.strongRecOn generalizing ts with
  | ind n ih =>
    subst size
    have shown := marked_shown e.sign_listed ts
    cases found : Token.marked? e.sign ts with
    | some parts =>
      obtain ⟨inner,behind⟩ := parts
      rw [found] at shown
      have first : marked? e.style.sign (shownText ts) =
          some (shownText inner,shownText behind) := shown
      have split := marked?_split found
      have shorter : behind.length < ts.length := by
        rw [split]
        simp
        omega
      obtain ⟨after,inners,parted,text,texts⟩ := ih behind.length shorter behind rfl
      refine ⟨_,_,split ▸ parted.apart inner,?_,?_⟩
      · rw [setApart_marked first,text]
        simp only [shownText,List.flatMap_cons,List.flatMap_append,Token.shown,List.append_assoc]
      · rw [insides_marked first,texts]
        rfl
    | none =>
      cases ts with
      | nil =>
        refine ⟨[],[],.done,?_,?_⟩
        · rw [shownText,List.flatMap_nil,setApart]
          rfl
        · rw [shownText,List.flatMap_nil,insides]
          rfl
      | cons t ts =>
        obtain ⟨after,inners,parted,text,texts⟩ := ih ts.length (Nat.lt_succ_self _) ts rfl
        obtain ⟨c,tail,_,whole,solid,_⟩ := t.shown_cons
        rw [found] at shown
        have first : marked? e.style.sign (shownText (t :: ts)) = none := shown
        have solid := solid e.sign e.sign_listed
        rw [whole] at first
        refine ⟨_,_,parted.kept t,?_,?_⟩
        · rw [whole,whole,setApart_unmarked first,setApart_solid solid,text]
        · rw [whole,insides_unmarked first,insides_solid solid,texts]

variable {e : Emphasis} {ts after : List Token} {inners : List (List Token)}

theorem Clear.apart {sign : Char} {inner behind : List Token}
    (clear : Clear e (.char sign :: .char sign :: (inner ++ .char sign :: .char sign :: behind))) :
    Clear e inner ∧ Clear e behind := by
  constructor
  all_goals
    refine clear.mono ?_
    intro t member
    simp [member]

theorem Parted.mem_inner (parted : Parted e ts after inners) {inner : List Token}
    (listed : inner ∈ inners) {t : Token} (member : t ∈ inner) : t ∈ ts := by
  induction parted with
  | done => cases listed
  | kept u _ ih => exact List.mem_cons_of_mem u (ih listed)
  | apart first _ ih =>
    simp only [List.mem_cons,List.mem_append]
    rcases List.mem_cons.mp listed with rfl | later
    · exact .inr (.inr (.inl member))
    · exact .inr (.inr (.inr (.inr (.inr (ih later)))))

theorem Parted.mem_after (parted : Parted e ts after inners) {ends : Bool} {f : Emphasis}
    (other : f ≠ e) (member : .tag ends f ∈ after) : .tag ends f ∈ ts := by
  induction parted with
  | done => cases member
  | kept u _ ih =>
    rcases List.mem_cons.mp member with rfl | later
    · exact List.mem_cons_self
    · exact List.mem_cons_of_mem u (ih later)
  | apart first _ ih =>
    simp only [List.mem_cons,List.mem_append,Token.tag.injEq,other,and_false,false_or] at member ⊢
    rcases member with inside | later
    · exact .inr (.inr (.inl inside))
    · exact .inr (.inr (.inr (.inr (.inr (ih later)))))

-- Texts whose tags are nested can be set apart without any consequence for the tags around them.
theorem Parted.opened_after (parted : Parted e ts after inners)
    (nested : ∀ inner ∈ inners, Token.opened [] inner = some []) (stack : List Emphasis) :
    Token.opened stack after = Token.opened stack ts := by
  induction parted generalizing stack with
  | done => rfl
  | @kept ts after inners t _ ih =>
    rw [opened_cons stack t after,opened_cons stack t ts]
    exact congrArg _ (funext (ih nested))
  | @apart behind after inners inner _ ih =>
    obtain ⟨first,others⟩ := List.forall_mem_cons.mp nested
    have inside (stack : List Emphasis) : Token.opened stack inner = some stack :=
      opened_over first stack
    rw [Token.opened,Token.opened,Token.opened,opened_append,opened_append,inside,inside]
    exact (if_pos rfl).trans (ih others stack)

theorem Parted.opened_inner (parted : Parted e ts after inners) (clear : Clear e ts)
    {stack last : List Emphasis} (fresh : e ∉ stack)
    (opened : Token.opened stack after = some last) :
    ∀ inner ∈ inners, Token.opened [] inner = some [] := by
  induction parted generalizing stack with
  | done => simp
  | @kept ts after inners t _ ih =>
    rw [opened_cons] at opened
    obtain ⟨middle,first,later⟩ := Option.bind_eq_some_iff.mp opened
    have one : Clear e [t] := clear.mono (by simp)
    exact ih (clear.mono (List.subset_cons_self t ts)) (opened_fresh one fresh first) later
  | @apart behind after inners inner _ ih =>
    rw [Token.opened,opened_append] at opened
    obtain ⟨middle,first,later⟩ := Option.bind_eq_some_iff.mp opened
    obtain ⟨clearInner,clearBehind⟩ := clear.apart
    obtain ⟨rest,rfl,absent,inside⟩ := opened_under clearInner List.not_mem_nil
      (show Token.opened ([] ++ e :: stack) inner = some middle from first)
    cases rest with
    | nil =>
      have behind : Token.opened stack after = some last := by
        rw [←later]
        exact (if_pos rfl).symm
      exact List.forall_mem_cons.mpr ⟨inside,ih clearBehind fresh behind⟩
    | cons f rest =>
      rw [List.cons_append,Token.opened] at later
      split at later
      · rename_i same
        exact absurd List.mem_cons_self (same ▸ absent)
      · cases later

theorem Parted.nested_iff (parted : Parted e ts after inners) (clear : Clear e ts) :
    Token.opened [] after = some [] ↔
      Token.opened [] ts = some [] ∧ ∀ inner ∈ inners, Token.opened [] inner = some [] := by
  constructor
  · intro nested
    have inside := parted.opened_inner clear List.not_mem_nil nested
    exact ⟨(parted.opened_after inside []).symm.trans nested,inside⟩
  · rintro ⟨around,inside⟩
    exact (parted.opened_after inside []).trans around

def Token.isTag (e : Emphasis) : Token → Bool
  | char _ => false
  | tag _ f => f = e

def own (e : Emphasis) (ts : List Token) : List Token := ts.filter (Token.isTag e)

theorem own_clear (clear : Clear e ts) : own e ts = [] := by
  rw [own,List.filter_eq_nil_iff]
  intro t member tagged
  cases t with
  | char c => cases tagged
  | tag ends f =>
    obtain rfl : f = e := of_decide_eq_true tagged
    exact clear ends member

theorem Parted.own_self (parted : Parted e ts after inners) (clear : Clear e ts) :
    own e after = (List.replicate inners.length [.tag false e,.tag true e]).flatten := by
  induction parted with
  | done => rfl
  | @kept ts after inners t _ ih =>
    have none : own e [t] = [] := own_clear (clear.mono (by simp))
    have split : own e (t :: after) = own e [t] ++ own e after := List.filter_append [t] after
    rw [split,none,List.nil_append,ih (clear.mono (List.subset_cons_self t ts))]
  | @apart behind after inners inner _ ih =>
    obtain ⟨clearInner,clearBehind⟩ := clear.apart
    have none := own_clear clearInner
    have rest := ih clearBehind
    rw [own] at none rest
    simp [own,Token.isTag,none,rest,List.replicate_succ]

theorem Parted.own_other (parted : Parted e ts after inners) {f : Emphasis} (other : f ≠ e) :
    own f after = own f ts := by
  induction parted with
  | done => rfl
  | kept t _ ih =>
    simp only [own] at ih
    simp only [own,List.filter_cons,ih]
  | apart inner _ ih =>
    simp only [own] at ih
    simp [own,Token.isTag,Ne.symm other,ih]

theorem opened_unescape (stack : List Emphasis) (ts : List Token) :
    Token.opened stack (Token.unescape ts) = Token.opened stack ts := by
  fun_induction Token.unescape ts generalizing stack with
  | case1 => rfl
  | case2 rest ih => exact ih stack
  | case3 t rest other ih =>
    rw [Token.opened,opened_cons stack t,opened_cons stack t rest]
    exact congrArg _ (funext ih)
  | case4 t rest other ih =>
    rw [opened_cons stack t,opened_cons stack t rest]
    exact congrArg _ (funext ih)

theorem own_unescape (e : Emphasis) (ts : List Token) : own e (Token.unescape ts) = own e ts := by
  simp only [own]
  fun_induction Token.unescape ts with
  | case1 => rfl
  | case2 rest ih => exact ih
  | case3 t rest other ih =>
    change (t :: Token.unescape rest).filter _ = (t :: rest).filter _
    rw [List.filter_cons,List.filter_cons,ih]
  | case4 t rest other ih => simp only [List.filter_cons,ih]

theorem own_text (e : Emphasis) (ts : List Token) :
    (ts.filterMap Token.tagText?).filter (fun t => t = opening e.name ∨ t = closing e.name) =
      (own e ts).filterMap Token.tagText? := by
  have same : ∀ t : Token, ∀ text, t.tagText? = some text →
      t.isTag e = decide (text = opening e.name ∨ text = closing e.name) := by
    intro t text given
    cases t with
    | char c => cases given
    | tag ends f =>
      cases ends <;> cases given <;> cases e <;> cases f <;> decide
  rw [own,List.filter_filterMap,List.filterMap_filter]
  refine List.filterMap_congr ?_
  intro t _
  cases given : t.tagText? with
  | none => cases t.isTag e <;> rfl
  | some text =>
    rw [same t text given,Option.filter]

end Passes

section Content

theorem opened_chars {ts : List Token} (chars : ∀ t ∈ ts, ∃ c, t = .char c)
    (stack : List Emphasis) : Token.opened stack ts = some stack := by
  induction ts with
  | nil => rfl
  | cons t ts ih =>
    obtain ⟨⟨c,rfl⟩,others⟩ := List.forall_mem_cons.mp chars
    exact ih others

structure Passes (content : List Char) (once twice thrice : List Token)
    (strongs italics lines : List (List Token)) : Prop where
  strong : Parted .strong (content.map .char) once strongs
  italic : Parted .italic once twice italics
  underlined : Parted .underlined twice thrice lines
  strongText : setApart bold (escape content) = shownText once
  italicText : setApart Inline.italic (shownText once) = shownText twice
  underlinedText : setApart Inline.underlined (shownText twice) = shownText thrice
  italics : insides Inline.italic (shownText once) = italics.map shownText
  lines : insides Inline.underlined (shownText twice) = lines.map shownText

theorem passes_tokens (content : List Char) : ∃ once twice thrice strongs italics lines,
    Passes content once twice thrice strongs italics lines := by
  obtain ⟨once,strongs,first,strongText,_⟩ := parted_tokens .strong (content.map .char)
  obtain ⟨twice,italics,second,italicText,italicInsides⟩ := parted_tokens .italic once
  obtain ⟨thrice,lines,third,underlinedText,lineInsides⟩ := parted_tokens .underlined twice
  have shown : shownText (content.map .char) = escape content := by
    rw [shownText,List.flatMap_map]
    rfl
  rw [shown] at strongText
  exact ⟨once,twice,thrice,strongs,italics,lines,first,second,third,strongText,italicText,
    underlinedText,italicInsides,lineInsides⟩

namespace Passes

variable {content : List Char} {once twice thrice : List Token}
  {strongs italics lines : List (List Token)}

theorem untagged (e : Emphasis) : Clear e (content.map .char) := by
  intro ends member
  obtain ⟨c,_,other⟩ := List.mem_map.mp member
  cases other

theorem clear_once (passes : Passes content once twice thrice strongs italics lines)
    {e : Emphasis} (other : e ≠ .strong) : Clear e once :=
  fun ends member => untagged e ends (passes.strong.mem_after other member)

theorem clear_twice (passes : Passes content once twice thrice strongs italics lines) :
    Clear .underlined twice :=
  fun ends member =>
    passes.clear_once (by decide) ends (passes.italic.mem_after (by decide) member)

theorem strong_nested (passes : Passes content once twice thrice strongs italics lines) :
    Token.opened [] once = some [] := by
  have chars : ∀ t ∈ content.map Token.char, ∃ c, t = .char c := by
    intro t member
    obtain ⟨c,_,rfl⟩ := List.mem_map.mp member
    exact ⟨c,rfl⟩
  apply (passes.strong.nested_iff (untagged _)).mpr
  refine ⟨opened_chars chars [],?_⟩
  intro inner listed
  exact opened_chars (fun t member => chars t (passes.strong.mem_inner listed member)) []

theorem nested_iff (passes : Passes content once twice thrice strongs italics lines) :
    Token.opened [] thrice = some [] ↔ Uncrossed content := by
  have texts (inners : List (List Token)) : (∀ inner ∈ inners.map shownText, Nested inner) ↔
      ∀ inner ∈ inners, Token.opened [] inner = some [] := by
    rw [List.forall_mem_map]
    exact forall₂_congr (fun inner _ => nested_shown inner)
  rw [passes.underlined.nested_iff passes.clear_twice,
    passes.italic.nested_iff (passes.clear_once (by decide)),Uncrossed,passes.strongText,
    passes.italicText,passes.italics,passes.lines,texts,texts]
  simp only [passes.strong_nested,true_and]

theorem turns (passes : Passes content once twice thrice strongs italics lines) (e : Emphasis) :
    ∃ count, own e thrice = (List.replicate count [.tag false e,.tag true e]).flatten := by
  cases e with
  | strong =>
    refine ⟨strongs.length,?_⟩
    rw [passes.underlined.own_other (by decide),passes.italic.own_other (by decide),
      passes.strong.own_self (untagged _)]
  | italic =>
    refine ⟨italics.length,?_⟩
    rw [passes.underlined.own_other (by decide),
      passes.italic.own_self (passes.clear_once (by decide))]
  | underlined => exact ⟨lines.length,passes.underlined.own_self passes.clear_twice⟩

end Passes

theorem content_nesting (content : List Char) : ∃ ts,
    applyAll [bold,italic,underlined] (escape content) = shownText ts ∧
    (Token.opened [] ts = some [] ↔ Uncrossed content) ∧
    ∀ e, ∃ count, own e ts = (List.replicate count [.tag false e,.tag true e]).flatten := by
  obtain ⟨once,twice,thrice,strongs,italics,lines,passes⟩ := passes_tokens content
  refine ⟨Token.unescape thrice,?_,?_,?_⟩
  · rw [←unescape_shown,←passes.underlinedText,←passes.italicText,←passes.strongText]
    rfl
  · rw [opened_unescape]
    exact passes.nested_iff
  · intro e
    rw [own_unescape]
    exact passes.turns e

-- The tags of one name in a shown cell come in turns, one that opens and one that closes. All tags
-- together are nested just when the tags within each text that a later pass sets apart are.
theorem richText_nesting (c : Cell) :
    (∀ name ∈ names, ∃ count, (tagsIn c.richText.toList).filter
      (fun t => t = opening name ∨ t = closing name) =
        (List.replicate count [opening name,closing name]).flatten) ∧
    (Nested c.richText.toList ↔ Uncrossed (Text.Chars.trim c.content.toList)) := by
  obtain ⟨ts,shown,nested,turns⟩ := content_nesting (Text.Chars.trim c.content.toList)
  rw [Cell.richText,String.toList_ofList,richChars,shown,nested_shown]
  refine ⟨?_,nested⟩
  intro name listed
  obtain ⟨e,rfl⟩ : ∃ e : Emphasis, name = e.name := by
    rw [names,List.mem_cons,List.mem_cons,List.mem_singleton] at listed
    rcases listed with rfl | rfl | rfl
    · exact ⟨.strong,rfl⟩
    · exact ⟨.italic,rfl⟩
    · exact ⟨.underlined,rfl⟩
  obtain ⟨count,turn⟩ := turns e
  refine ⟨count,?_⟩
  rw [tagsIn_shown,own_text,turn,List.filterMap_flatten,List.map_replicate]
  rfl

-- A text that begins in strong text and ends behind it is set apart by a later pass.
theorem tags_crossed :
    let c : Cell := ⟨false,"**a//b**c//"⟩
    c.richText = "<strong>a<em>b</strong>c</em>" ∧
      tagsIn c.richText.toList = ["<strong>","<em>","</strong>","</em>"] ∧
      ¬ Nested c.richText.toList := by
  have shown : Cell.richText ⟨false,"**a//b**c//"⟩ = "<strong>a<em>b</strong>c</em>" := by cbv
  intro c
  refine ⟨shown,?_,?_⟩
  · rw [shown]
    decide +kernel
  · rw [shown]
    decide +kernel

example : Nested (Cell.richText ⟨false,"__**a//b//**__ //c//"⟩).toList := by
  have shown : Cell.richText ⟨false,"__**a//b//**__ //c//"⟩ =
      "<ins><strong>a<em>b</em></strong></ins> <em>c</em>" := by cbv
  rw [shown]
  decide +kernel

end Content

end TableView.Inline
