import TableView.Proofs.Markup.Guarded

namespace TableView.Inline

section Tokens

inductive Emphasis where
  | strong
  | italic
  | underlined
deriving DecidableEq

def Emphasis.style : Emphasis → Style
  | .strong => bold
  | .italic => Inline.italic
  | .underlined => Inline.underlined

def Emphasis.sign (e : Emphasis) : Char := e.style.sign

-- A character of the content, or what a pass has made of a doubled sign in it.
inductive Token where
  | char (c : Char)
  | tag (ends : Bool) (e : Emphasis)
deriving DecidableEq

namespace Token

def shown : Token → List Char
  | char c => escapeChar c
  | tag false e => e.style.before
  | tag true e => e.style.behind

def bare : Token → List Char
  | char c => [c]
  | tag _ _ => []

def written : Token → List Char
  | char c => [c]
  | tag _ e => doubled e.sign

end Token

-- The shown text, the plain text and the content that a row of tokens stands for.
def shownText (ts : List Token) : List Char := ts.flatMap Token.shown
def bareText (ts : List Token) : List Char := ts.flatMap Token.bare
def writtenText (ts : List Token) : List Char := ts.flatMap Token.written

theorem Emphasis.style_listed (e : Emphasis) : e.style ∈ styles := by
  cases e <;> simp [styles,Emphasis.style]

theorem Emphasis.sign_listed (e : Emphasis) : e.sign ∈ signs := (style_marks e.style_listed).1

namespace Token

theorem shown_piece (t : Token) : IsPiece t.shown := by
  cases t with
  | char c => exact escapeChar_piece c
  | tag ends e =>
    obtain ⟨_,before,behind⟩ := style_marks e.style_listed
    cases ends with
    | false => exact .mark before
    | true => exact .mark behind

theorem shown_char {c : Char} (plain : entity? c = none) : (char c).shown = [c] := by
  rw [shown,escapeChar,plain]

theorem shown_first {t : Token} {c : Char} (first : t.shown.head? = some c)
    (other : c ≠ '<' ∧ c ≠ '&') : t = char c := by
  cases t with
  | char d =>
    rw [shown,escapeChar] at first
    split at first
    · rename_i e given
      have all : ∀ e ∈ entities, e.toList.head? = some '&' := by decide
      rw [all e (entity?_listed given)] at first
      cases first
      exact absurd rfl other.2
    · cases first
      rfl
  | tag ends e =>
    have begins : (tag ends e).shown.head? = some '<' := by cases ends <;> cases e <;> rfl
    cases begins.symm.trans first
    exact absurd rfl other.1

end Token

theorem IsPiece.line_not_mem {p : List Char} (piece : IsPiece p) : '\n' ∉ p.tail := by
  cases piece with
  | char => simp
  | mark listed =>
    have all : ∀ m ∈ marks, '\n' ∉ m.tail := by decide
    exact all p listed

-- No sign, line break or tilde that a pass looks for begins behind the first character of a token.
theorem Token.shown_cons (t : Token) : ∃ c tail, t.shown = c :: tail ∧
    (∀ ts, shownText (t :: ts) = c :: (tail ++ shownText ts)) ∧
    (∀ sign ∈ signs, Solid sign tail) ∧ '\n' ∉ tail ∧ '~' ∉ tail := by
  have piece := t.shown_piece
  obtain ⟨c,tail,shown⟩ := List.exists_cons_of_ne_nil piece.nonempty
  have whole (ts : List Token) : shownText (t :: ts) = c :: (tail ++ shownText ts) := by
    rw [shownText,List.flatMap_cons,shown]
    rfl
  rw [shown] at piece
  exact ⟨c,tail,shown,whole,fun _ sort => piece.solid_tail sort,piece.line_not_mem,
    piece.tail_not_mem (by simp)⟩

end Tokens

section Passes

def reach (sign : Char) (text : List Char) : Option (List Char × List Char) :=
  if (doubled sign).isPrefixOf text then some ([],text.drop 2) else untilMark sign text

theorem untilMark_cons (sign c : Char) (text : List Char) : untilMark sign (c :: text) =
    if c = '\n' then none
    else (reach sign text).map (fun (inner,after) => (c :: inner,after)) := by
  rw [untilMark,reach]
  split
  · rfl
  · split
    · rfl
    · rfl

theorem reach_undoubled {sign : Char} {text : List Char} (other : ¬ doubled sign <+: text) :
    reach sign text = untilMark sign text := by
  rw [reach,if_neg]
  rwa [List.isPrefixOf_iff_prefix]

theorem doubled_starts (sign : Char) (text : List Char) :
    (doubled sign).isPrefixOf (sign :: sign :: text) = true :=
  List.isPrefixOf_iff_prefix.mpr (List.prefix_append [sign,sign] text)

theorem reach_doubled (sign : Char) (text : List Char) :
    reach sign (sign :: sign :: text) = some ([],text) := by
  rw [reach,if_pos (doubled_starts sign text)]
  rfl

theorem reach_solid {sign : Char} {text : List Char} (solid : Solid sign text)
    (line : '\n' ∉ text) (rest : List Char) : reach sign (text ++ rest) =
      (reach sign rest).map (fun (inner,after) => (text ++ inner,after)) := by
  induction text with
  | nil => exact Option.map_id'.symm
  | cons c text ih =>
    rw [List.mem_cons,not_or] at line
    obtain ⟨other,line⟩ := line
    rw [List.cons_append,reach_undoubled (solid.undoubled rest),untilMark_cons,
      if_neg (Ne.symm other),ih solid.tail line,Option.map_map]
    rfl

theorem marked?_doubled (sign : Char) (text : List Char) :
    marked? sign (sign :: sign :: text) = untilMark sign text := by
  rw [marked?,if_pos (doubled_starts sign text)]
  rfl

namespace Token

def twice (sign : Char) (ts : List Token) : Prop :=
  ts.head? = some (char sign) ∧ ts.tail.head? = some (char sign)

instance (sign : Char) (ts : List Token) : Decidable (twice sign ts) :=
  inferInstanceAs (Decidable (_ ∧ _))

def reach? (sign : Char) : List Token → Option (List Token × List Token)
  | [] => none
  | t :: rest =>
    if twice sign (t :: rest) then some ([],rest.tail)
    else if t = char '\n' then none
    else (reach? sign rest).map (fun (inner,after) => (t :: inner,after))

def until? (sign : Char) : List Token → Option (List Token × List Token)
  | [] => none
  | t :: rest =>
    if t = char '\n' then none
    else (reach? sign rest).map (fun (inner,after) => (t :: inner,after))

def marked? (sign : Char) (ts : List Token) : Option (List Token × List Token) :=
  if twice sign ts then until? sign (ts.drop 2) else none

theorem twice_cons {sign : Char} {ts : List Token} (both : twice sign ts) :
    ∃ rest, ts = char sign :: char sign :: rest := by
  obtain ⟨first,second⟩ := both
  obtain ⟨tail,rfl⟩ := List.head?_eq_some_iff.mp first
  obtain ⟨rest,same⟩ := List.head?_eq_some_iff.mp second
  exact ⟨rest,congrArg (char sign :: ·) same⟩

end Token

variable {sign : Char} {ts : List Token}

section Shown
variable (sort : sign ∈ signs)
include sort

theorem sign_plain : entity? sign = none ∧ sign ≠ '<' ∧ sign ≠ '&' := by
  simp only [signs,List.mem_cons,List.not_mem_nil,or_false] at sort
  rcases sort with rfl | rfl | rfl
  all_goals decide

theorem shown_sign : (Token.char sign).shown = [sign] := Token.shown_char (sign_plain sort).1

theorem shown_doubled (rest : List Token) :
    shownText (.char sign :: .char sign :: rest) = sign :: sign :: shownText rest := by
  rw [shownText,List.flatMap_cons,List.flatMap_cons,shown_sign sort]
  rfl

theorem twice_shown : doubled sign <+: shownText ts ↔ Token.twice sign ts := by
  constructor
  · intro starts
    rw [shownText,List.flatMap_def] at starts
    have whole : ∀ p ∈ ts.map Token.shown, IsPiece p := by
      intro p member
      obtain ⟨t,_,rfl⟩ := List.mem_map.mp member
      exact t.shown_piece
    obtain ⟨behind,split⟩ := pieces_doubled sort whole starts
    have signed {t : Token} (same : t.shown = [sign]) : t = .char sign :=
      Token.shown_first (congrArg List.head? same) (sign_plain sort).2
    obtain ⟨t,rest,rfl,first,split⟩ := List.map_eq_cons_iff.mp split
    obtain ⟨u,rest,rfl,second,_⟩ := List.map_eq_cons_iff.mp split
    exact ⟨congrArg some (signed first),congrArg some (signed second)⟩
  · intro both
    obtain ⟨rest,rfl⟩ := Token.twice_cons both
    rw [shown_doubled sort]
    exact List.prefix_append [sign,sign] (shownText rest)

theorem shown_step (t : Token) (rest : List Token) (search : reach sign (shownText rest) =
      (Token.reach? sign rest).map (Prod.map shownText shownText)) :
    untilMark sign (shownText (t :: rest)) =
      (Token.until? sign (t :: rest)).map (Prod.map shownText shownText) := by
  obtain ⟨c,tail,shown,whole,solid,line,_⟩ := t.shown_cons
  rw [whole,untilMark_cons,reach_solid (solid sign sort) line,search,Token.until?]
  by_cases newline : t = .char '\n'
  · subst newline
    cases shown
    rfl
  · have other : c ≠ '\n' := by
      rintro rfl
      exact newline (Token.shown_first (congrArg List.head? shown) (by decide))
    rw [if_neg other,if_neg newline,Option.map_map,Option.map_map,Option.map_map]
    congr 1
    funext ⟨inner,after⟩
    simp only [Function.comp,Prod.map,whole]

theorem reach_shown : reach sign (shownText ts) =
    (Token.reach? sign ts).map (Prod.map shownText shownText) := by
  induction ts with
  | nil => rfl
  | cons t rest ih =>
    by_cases both : Token.twice sign (t :: rest)
    · obtain ⟨more,split⟩ := Token.twice_cons both
      rw [Token.reach?,if_pos both,split,shown_doubled sort,reach_doubled]
      cases split
      rfl
    · rw [Token.reach?,if_neg both,reach_undoubled (mt (twice_shown sort).mp both),
        shown_step sort t rest ih,Token.until?]

theorem marked_shown (ts : List Token) : marked? sign (shownText ts) =
    (Token.marked? sign ts).map (Prod.map shownText shownText) := by
  by_cases both : Token.twice sign ts
  · rw [Token.marked?,if_pos both]
    obtain ⟨rest,rfl⟩ := Token.twice_cons both
    rw [shown_doubled sort,marked?_doubled]
    cases rest with
    | nil => rfl
    | cons t rest => exact shown_step sort t rest (reach_shown sort)
  · rw [marked?_undoubled (mt (twice_shown sort).mp both),Token.marked?,if_neg both]
    rfl

end Shown

section Bare

-- No sign of the plain text meets an equal one for want of a tag between them.
def Unjoined (sign : Char) (ts : List Token) : Prop :=
  ∀ rest, .char sign :: rest <:+ ts → (bareText rest).head? = some sign →
    rest.head? = some (.char sign)

theorem Unjoined.suffix (unjoined : Unjoined sign ts) {rest : List Token} (behind : rest <:+ ts) :
    Unjoined sign rest :=
  fun more last => unjoined more (last.trans behind)

theorem bare_doubled (rest : List Token) :
    bareText (.char sign :: .char sign :: rest) = sign :: sign :: bareText rest := rfl

theorem twice_bare {c : Char} {rest : List Token} (unjoined : Unjoined sign (.char c :: rest))
    (starts : doubled sign <+: c :: bareText rest) : Token.twice sign (.char c :: rest) := by
  obtain ⟨rfl,second⟩ := List.cons_prefix_cons.mp starts
  obtain ⟨tail,whole⟩ := second
  have first : (bareText rest).head? = some sign := by
    rw [←whole]
    rfl
  exact ⟨rfl,unjoined rest (List.suffix_refl _) first⟩

theorem reach_bare (unjoined : Unjoined sign ts) : reach sign (bareText ts) =
    (Token.reach? sign ts).map (Prod.map bareText bareText) := by
  induction ts with
  | nil => rfl
  | cons t rest ih =>
    have search := ih (unjoined.suffix (List.suffix_cons t rest))
    by_cases both : Token.twice sign (t :: rest)
    · obtain ⟨more,split⟩ := Token.twice_cons both
      rw [Token.reach?,if_pos both,split,bare_doubled,reach_doubled]
      cases split
      rfl
    · rw [Token.reach?,if_neg both]
      cases t with
      | char c =>
        have other : ¬ doubled sign <+: c :: bareText rest := fun starts =>
          both (twice_bare unjoined starts)
        change reach sign (c :: bareText rest) = _
        rw [reach_undoubled other,untilMark_cons,search]
        by_cases newline : c = '\n'
        · subst newline
          rfl
        · rw [if_neg newline,if_neg (fun same => newline (Token.char.inj same)),Option.map_map,
            Option.map_map]
          rfl
      | tag ends e =>
        change reach sign (bareText rest) = _
        rw [search,if_neg (by simp),Option.map_map]
        rfl

theorem until_bare (unjoined : Unjoined sign (.char sign :: ts)) :
    untilMark sign (bareText ts) =
      (Token.until? sign ts).map (Prod.map bareText bareText) := by
  cases ts with
  | nil => rfl
  | cons t rest =>
    have behind : rest <:+ .char sign :: t :: rest :=
      (List.suffix_cons t rest).trans (List.suffix_cons _ _)
    have search := reach_bare (unjoined.suffix behind)
    rw [Token.until?]
    cases t with
    | char c =>
      change untilMark sign (c :: bareText rest) = _
      rw [untilMark_cons,search]
      by_cases newline : c = '\n'
      · subst newline
        rfl
      · rw [if_neg newline,if_neg (fun same => newline (Token.char.inj same)),Option.map_map,
          Option.map_map]
        rfl
    | tag ends e =>
      have other : ¬ doubled sign <+: bareText rest := by
        rintro ⟨tail,whole⟩
        have first : (bareText (.tag ends e :: rest)).head? = some sign := by
          change (bareText rest).head? = some sign
          rw [←whole]
          rfl
        cases unjoined _ (List.suffix_refl _) first
      change untilMark sign (bareText rest) = _
      rw [←reach_undoubled other,search,if_neg (by simp),Option.map_map]
      rfl

theorem marked_bare {c : Char} (unjoined : Unjoined sign (.char c :: ts)) :
    marked? sign (bareText (.char c :: ts)) =
      (Token.marked? sign (.char c :: ts)).map (Prod.map bareText bareText) := by
  by_cases both : Token.twice sign (.char c :: ts)
  · rw [Token.marked?,if_pos both]
    obtain ⟨rest,split⟩ := Token.twice_cons both
    cases split
    rw [bare_doubled,marked?_doubled]
    exact until_bare (unjoined.suffix (List.suffix_cons _ _))
  · rw [Token.marked?,if_neg both]
    exact marked?_undoubled (fun starts => both (twice_bare unjoined starts))

end Bare

-- What a pass makes of a row of tokens, in both texts: the marks it finds become tags.
structure Passed (e : Emphasis) (ts after : List Token) : Prop where
  shown : setApart e.style (shownText ts) = shownText after
  bare : setApart (plainStyle e.sign) (bareText ts) = bareText after
  written : writtenText after = writtenText ts
  tags : ∀ t ∈ after, t ∈ ts ∨ ∃ ends, t = .tag ends e

theorem reach?_split {inner after : List Token}
    (found : Token.reach? sign ts = some (inner,after)) :
    ts = inner ++ .char sign :: .char sign :: after := by
  induction ts generalizing inner with
  | nil => cases found
  | cons t rest ih =>
    rw [Token.reach?] at found
    split at found
    · rename_i both
      obtain ⟨more,split⟩ := Token.twice_cons both
      cases split
      cases found
      rfl
    split at found
    · cases found
    · obtain ⟨⟨inner,after⟩,later,equal⟩ := Option.map_eq_some_iff.mp found
      cases equal
      rw [ih later]
      rfl

theorem marked?_split {inner after : List Token}
    (found : Token.marked? sign ts = some (inner,after)) :
    ts = .char sign :: .char sign :: (inner ++ .char sign :: .char sign :: after) := by
  rw [Token.marked?] at found
  split at found
  · rename_i both
    obtain ⟨rest,rfl⟩ := Token.twice_cons both
    cases rest with
    | nil => cases found
    | cons t rest =>
      change Token.until? sign (t :: rest) = _ at found
      rw [Token.until?] at found
      split at found
      · cases found
      · obtain ⟨⟨inner,after⟩,later,equal⟩ := Option.map_eq_some_iff.mp found
        cases equal
        rw [reach?_split later]
        rfl
  · cases found

theorem Passed.cons {e : Emphasis} {t : Token} {after : List Token}
    (unjoined : Unjoined e.sign (t :: ts)) (unmarked : Token.marked? e.sign (t :: ts) = none)
    (passed : Passed e ts after) : Passed e (t :: ts) (t :: after) := by
  refine ⟨?_,?_,?_,?_⟩
  · obtain ⟨c,tail,_,whole,solid,_⟩ := t.shown_cons
    have first : marked? e.style.sign (shownText (t :: ts)) = none := by
      have same := marked_shown e.sign_listed (t :: ts)
      rw [unmarked] at same
      exact same
    rw [whole] at first
    rw [whole,whole,setApart_unmarked first,setApart_solid (solid _ e.sign_listed),passed.shown]
  · cases t with
    | char c =>
      have first : marked? (plainStyle e.sign).sign (c :: bareText ts) = none := by
        have same := marked_bare unjoined
        rw [unmarked] at same
        exact same
      change setApart (plainStyle e.sign) (c :: bareText ts) = c :: bareText after
      rw [setApart_unmarked first,passed.bare]
    | tag ends other => exact passed.bare
  · exact congrArg (t.written ++ ·) passed.written
  · intro u member
    rcases List.mem_cons.mp member with rfl | member
    · exact .inl List.mem_cons_self
    · exact (passed.tags u member).imp_left (List.mem_cons_of_mem t)

theorem Passed.marked {e : Emphasis} {inner behind after : List Token}
    (split : ts = .char e.sign :: .char e.sign :: (inner ++ .char e.sign :: .char e.sign :: behind))
    (unjoined : Unjoined e.sign ts)
    (found : Token.marked? e.sign ts = some (inner,behind)) (passed : Passed e behind after) :
    Passed e ts (.tag false e :: (inner ++ .tag true e :: after)) := by
  refine ⟨?_,?_,?_,?_⟩
  · have first : marked? e.style.sign (shownText ts) =
        some (shownText inner,shownText behind) := by
      have same := marked_shown e.sign_listed ts
      rw [found] at same
      exact same
    rw [setApart_marked first,passed.shown]
    simp only [shownText,List.flatMap_cons,List.flatMap_append,Token.shown,List.append_assoc]
  · have first : marked? (plainStyle e.sign).sign (bareText ts) =
        some (bareText inner,bareText behind) := by
      subst split
      have same := marked_bare unjoined
      rw [found] at same
      exact same
    rw [setApart_marked first,passed.bare]
    simp only [plainStyle,bareText,List.flatMap_cons,List.flatMap_append,Token.bare,
      List.nil_append,List.append_nil]
  · have later := passed.written
    rw [split]
    simp only [writtenText,List.flatMap_cons,List.flatMap_append,Token.written,doubled] at later ⊢
    rw [later]
    rfl
  · intro t member
    rw [split]
    simp only [List.mem_cons,List.mem_append] at member ⊢
    rcases member with rfl | inInner | rfl | inAfter
    · exact .inr ⟨false,rfl⟩
    · exact .inl (.inr (.inr (.inl inInner)))
    · exact .inr ⟨true,rfl⟩
    · refine (passed.tags t inAfter).imp_left ?_
      intro later
      exact .inr (.inr (.inr (.inr (.inr later))))

theorem pass_tokens {e : Emphasis} (unjoined : Unjoined e.sign ts) :
    ∃ after, Passed e ts after := by
  induction size : ts.length using Nat.strongRecOn generalizing ts with
  | ind n ih =>
    subst size
    cases found : Token.marked? e.sign ts with
    | some parts =>
      obtain ⟨inner,behind⟩ := parts
      have split := marked?_split found
      have suffix : behind <:+ ts :=
        ⟨.char e.sign :: .char e.sign :: (inner ++ [.char e.sign,.char e.sign]),by
          rw [split]
          simp⟩
      have shorter : behind.length < ts.length := by
        rw [split]
        simp
        omega
      obtain ⟨after,passed⟩ := ih behind.length shorter (unjoined.suffix suffix) rfl
      exact ⟨_,passed.marked split unjoined found⟩
    | none =>
      cases ts with
      | nil => exact ⟨[],by rw [shownText,List.flatMap_nil,setApart]; rfl,
          by rw [bareText,List.flatMap_nil,setApart]; rfl,rfl,by simp⟩
      | cons t rest =>
        have fewer : rest.length < (t :: rest).length := Nat.lt_succ_self _
        obtain ⟨after,passed⟩ := ih rest.length fewer
          (unjoined.suffix (List.suffix_cons t rest)) rfl
        exact ⟨_,passed.cons unjoined found⟩

end Passes

end TableView.Inline
