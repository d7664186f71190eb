import TableView.Proofs.Markup.Tokens

namespace TableView.Inline

section Substitution

-- Puts other text in the place of every listed part, from left to right. The count tells how much
-- of a part is still to be passed over.
def substitute (table : List (List Char × List Char)) : Nat → List Char → List Char
  | _,[] => []
  | left + 1,_ :: rest => substitute table left rest
  | 0,c :: rest =>
    match table.find? (fun entry => entry.1.isPrefixOf (c :: rest)) with
    | some (part,instead) => instead ++ substitute table (part.length - 1) rest
    | none => c :: substitute table 0 rest

def tagTable : List (List Char × List Char) := tags.map (fun t => (t.toList,[]))

def entityTable : List (List Char × List Char) :=
  ['&','<','>','"','\''].filterMap (fun c => (entity? c).map (fun e => (e.toList,[c])))

def reading (shown : String) : String :=
  String.ofList (substitute entityTable 0 (substitute tagTable 0 shown.toList))

variable {table : List (List Char × List Char)}

theorem substitute_pass (front rest : List Char) :
    substitute table front.length (front ++ rest) = substitute table 0 rest := by
  induction front with
  | nil => rfl
  | cons c front ih => exact ih

theorem substitute_skip {mark : Char} (begun : ∀ entry ∈ table, entry.1.head? = some mark)
    {text : List Char} (free : mark ∉ text) (rest : List Char) :
    substitute table 0 (text ++ rest) = text ++ substitute table 0 rest := by
  induction text with
  | nil => rfl
  | cons c text ih =>
    rw [List.mem_cons,not_or] at free
    obtain ⟨other,free⟩ := free
    have absent : table.find? (fun entry => entry.1.isPrefixOf (c :: (text ++ rest))) = none := by
      rw [List.find?_eq_none]
      intro entry listed starts
      obtain ⟨tail,whole⟩ := List.head?_eq_some_iff.mp (begun entry listed)
      rw [whole,List.isPrefixOf_iff_prefix] at starts
      exact other (List.cons_prefix_cons.mp starts).1
    rw [List.cons_append,substitute,absent,List.cons_append]
    exact congrArg (c :: ·) (ih free)

theorem substitute_part {part instead rest : List Char} (listed : (part,instead) ∈ table)
    (nonempty : part ≠ []) (only : ∀ entry ∈ table, entry.1 <+: part ++ rest →
      entry = (part,instead)) :
    substitute table 0 (part ++ rest) = instead ++ substitute table 0 rest := by
  obtain ⟨c,tail,rfl⟩ := List.exists_cons_of_ne_nil nonempty
  have found : table.find? (fun entry => entry.1.isPrefixOf (c :: (tail ++ rest))) =
      some (c :: tail,instead) := by
    have here : (c :: tail).isPrefixOf (c :: (tail ++ rest)) = true :=
      List.isPrefixOf_iff_prefix.mpr (List.prefix_append (c :: tail) rest)
    have some : (table.find? (fun entry => entry.1.isPrefixOf (c :: (tail ++ rest)))).isSome :=
      List.find?_isSome.mpr ⟨_,listed,here⟩
    obtain ⟨entry,found⟩ := Option.isSome_iff_exists.mp some
    have starts := List.find?_some found
    rw [List.isPrefixOf_iff_prefix] at starts
    rw [←only entry (List.mem_of_find?_eq_some found) starts]
    exact found
  rw [List.cons_append,substitute,found]
  exact congrArg (instead ++ ·) (substitute_pass tail rest)

end Substitution

section Reading

theorem escapeChar_free (c : Char) : '<' ∉ escapeChar c := by
  rw [escapeChar]
  split
  · rename_i e given
    have all : ∀ e ∈ entities, '<' ∉ e.toList := by decide
    exact all e (entity?_listed given)
  · rename_i plain
    intro member
    cases List.mem_singleton.mp member
    cases plain

theorem untag_shown (ts : List Token) :
    substitute tagTable 0 (shownText ts) = escape (bareText ts) := by
  have begun : ∀ entry ∈ tagTable, entry.1.head? = some '<' := by decide
  have deleted (ends : Bool) (e : Emphasis) (rest : List Char) :
      substitute tagTable 0 ((Token.tag ends e).shown ++ rest) = substitute tagTable 0 rest := by
    have piece := (Token.tag ends e).shown_piece
    have listed : ((Token.tag ends e).shown,[]) ∈ tagTable := by
      cases ends <;> cases e <;> decide
    refine substitute_part listed piece.nonempty ?_
    intro entry member starts
    obtain ⟨name,known,rfl⟩ := List.mem_map.mp member
    rw [piece.eq_tag known starts]
  induction ts with
  | nil => rfl
  | cons t ts ih =>
    cases t with
    | char c =>
      have left := substitute_skip begun (escapeChar_free c) (shownText ts)
      rw [ih] at left
      exact left
    | tag ends e => exact (deleted ends e (shownText ts)).trans ih

theorem decode_escape (text : List Char) : substitute entityTable 0 (escape text) = text := by
  have begun : ∀ entry ∈ entityTable, entry.1.head? = some '&' := by decide
  have apart : ∀ a ∈ entityTable, ∀ b ∈ entityTable, a.1 <+: b.1 ∨ b.1 <+: a.1 → a = b := by
    decide
  have decoded (c : Char) (rest : List Char) : substitute entityTable 0 (escapeChar c ++ rest) =
      [c] ++ substitute entityTable 0 rest := by
    rw [escapeChar]
    split
    · rename_i e given
      have listed : (e.toList,[c]) ∈ entityTable := by
        unfold entity? at given
        split at given
        case h_6 => cases given
        all_goals
          cases given
          decide
      refine substitute_part listed ?_ ?_
      · intro empty
        cases begun _ listed |>.symm.trans (congrArg List.head? empty)
      · intro entry member starts
        exact apart entry member _ listed
          (List.prefix_or_prefix_of_prefix starts (List.prefix_append _ rest))
    · rename_i plain
      refine substitute_skip begun ?_ rest
      intro member
      cases List.mem_singleton.mp member
      cases plain
  induction text with
  | nil => rfl
  | cons c text ih => exact (decoded c (escape text)).trans (congrArg (c :: ·) ih)

theorem reading_shown (ts : List Token) :
    reading (String.ofList (shownText ts)) = String.ofList (bareText ts) := by
  rw [reading,String.toList_ofList,untag_shown,decode_escape]

end Reading

section Content

def behindMarks (allowed : List Char) : List Char → List (List Char)
  | a :: b :: rest => if a = b ∧ a ∈ allowed then rest :: behindMarks allowed rest else []
  | _ => []

def takers : List Char → List (List Char)
  | [] => []
  | '~' :: c :: rest => (c :: rest) :: takers rest
  | _ :: rest => takers rest

-- No sign is kept from an equal one by doubled signs alone that an earlier pass looks for.
def Spaced (content : List Char) : Prop :=
  ∀ sign ∈ signs, ∀ q ∈ content.tails, q.head? = some sign →
    ∀ b ∈ behindMarks (signs.takeWhile (· ≠ sign)) q.tail, b.head? ≠ some sign

-- A tilde in front of doubled signs has a character behind them that it has no use for.
def Untaken (content : List Char) : Prop :=
  ∀ q ∈ takers content, ∀ b ∈ behindMarks signs q, b.head? ∉ [none,some '~',some '\n']

structure Apart (content : List Char) : Prop where
  spaced : Spaced content
  untaken : Untaken content

instance (content : List Char) : Decidable (Spaced content) :=
  List.decidableBAll (fun sign => ∀ q ∈ content.tails, q.head? = some sign →
    ∀ b ∈ behindMarks (signs.takeWhile (· ≠ sign)) q.tail, b.head? ≠ some sign) signs

instance (content : List Char) : Decidable (Untaken content) :=
  inferInstanceAs (Decidable (∀ q ∈ takers content, ∀ b ∈ behindMarks signs q,
    b.head? ∉ [none,some '~',some '\n']))

instance (content : List Char) : Decidable (Apart content) :=
  decidable_of_iff (Spaced content ∧ Untaken content)
    ⟨fun ⟨spaced,untaken⟩ => ⟨spaced,untaken⟩,fun apart => ⟨apart.spaced,apart.untaken⟩⟩

def Tagged (allowed : List Char) (ts : List Token) : Prop :=
  ∀ ends e, .tag ends e ∈ ts → e.sign ∈ allowed

theorem behindMarks_doubled {allowed : List Char} {sign : Char} (listed : sign ∈ allowed)
    (text : List Char) : behindMarks allowed (doubled sign ++ text) =
      text :: behindMarks allowed text := by
  change behindMarks allowed (sign :: sign :: text) = _
  rw [behindMarks,if_pos ⟨rfl,listed⟩]

theorem Tagged.tail {allowed : List Char} {t : Token} {ts : List Token}
    (tagged : Tagged allowed (t :: ts)) : Tagged allowed ts :=
  fun ends e member => tagged ends e (List.mem_cons_of_mem t member)

theorem bare_first {allowed : List Char} {ts : List Token} (tagged : Tagged allowed ts) :
    ∃ b ∈ writtenText ts :: behindMarks allowed (writtenText ts),
      b.head? = (bareText ts).head? := by
  induction ts with
  | nil => exact ⟨[],List.mem_cons_self,rfl⟩
  | cons t rest ih =>
    cases t with
    | char c => exact ⟨writtenText (.char c :: rest),List.mem_cons_self,rfl⟩
    | tag ends e =>
      obtain ⟨b,member,first⟩ := ih tagged.tail
      have marks := behindMarks_doubled (tagged ends e List.mem_cons_self) (writtenText rest)
      rw [←marks] at member
      exact ⟨b,List.mem_cons_of_mem _ member,first⟩

theorem bare_behind {allowed : List Char} {ends : Bool} {e : Emphasis} {ts : List Token}
    (tagged : Tagged allowed (.tag ends e :: ts)) :
    ∃ b ∈ behindMarks allowed (writtenText (.tag ends e :: ts)),
      b.head? = (bareText ts).head? := by
  obtain ⟨b,member,first⟩ := bare_first tagged.tail
  have marks := behindMarks_doubled (tagged ends e List.mem_cons_self) (writtenText ts)
  rw [←marks] at member
  exact ⟨b,member,first⟩

theorem Spaced.unjoined {ts : List Token} (spaced : Spaced (writtenText ts)) {sign : Char}
    (sort : sign ∈ signs) (tagged : Tagged (signs.takeWhile (· ≠ sign)) ts) :
    Unjoined sign ts := by
  rintro rest ⟨front,rfl⟩ first
  cases rest with
  | nil => cases first
  | cons t rest =>
    cases t with
    | char c => exact congrArg (fun c => some (Token.char c)) (Option.some.inj first)
    | tag ends e =>
      have later : Tagged (signs.takeWhile (· ≠ sign)) (.tag ends e :: rest) := by
        intro ends e member
        exact tagged ends e (List.mem_append_right _ (List.mem_cons_of_mem _ member))
      obtain ⟨b,behind,same⟩ := bare_behind later
      refine absurd (same.trans first) (spaced sign sort
        (writtenText (.char sign :: .tag ends e :: rest)) ?_ rfl b behind)
      rw [List.mem_tails,writtenText,writtenText,List.flatMap_append]
      exact List.suffix_append _ _

theorem Passed.tagged {e : Emphasis} {ts after : List Token} (passed : Passed e ts after)
    {before behind : List Char} (tagged : Tagged before ts)
    (more : before ⊆ behind ∧ e.sign ∈ behind) : Tagged behind after := by
  intro ends other member
  rcases passed.tags _ member with old | ⟨_,new⟩
  · exact more.1 (tagged ends other old)
  · cases new
    exact more.2

end Content

section Tildes

def Token.unescape : List Token → List Token
  | [] => []
  | .char '~' :: t :: rest =>
    if t = .char '\n' then .char '~' :: t :: unescape rest else t :: unescape rest
  | t :: rest => t :: unescape rest

theorem unescape_other {c : Char} (other : c ≠ '~') (rest : List Char) :
    unescape (c :: rest) = c :: unescape rest := by
  have free : '~' ∉ [c] := fun member => other (List.mem_singleton.mp member).symm
  exact unescape_free free rest

theorem takers_other {c : Char} (other : c ≠ '~') (rest : List Char) :
    takers (c :: rest) = takers rest := by
  rw [takers]
  intro _ _ same _
  exact other same

theorem unescape_taken {text : List Char} (untaken : text.head? ∉ [none,some '~',some '\n']) :
    unescape ('~' :: text) = unescape text := by
  cases text with
  | nil => exact absurd List.mem_cons_self untaken
  | cons c rest =>
    have tilde : c ≠ '~' := by
      rintro rfl
      exact untaken (by simp)
    have newline : c ≠ '\n' := by
      rintro rfl
      exact untaken (by simp)
    rw [unescape,if_neg newline,unescape_other tilde]

theorem unescape_shown (ts : List Token) :
    unescape (shownText ts) = shownText (Token.unescape ts) := by
  fun_induction Token.unescape ts with
  | case1 => rfl
  | case2 rest ih => exact congrArg ('~' :: '\n' :: ·) ih
  | case3 t rest other ih =>
    obtain ⟨c,tail,shown,whole,_,_,free⟩ := t.shown_cons
    have newline : c ≠ '\n' := by
      rintro rfl
      exact other (Token.shown_first (congrArg List.head? shown) (by decide))
    change unescape ('~' :: shownText (t :: rest)) = _
    rw [whole,whole,unescape,if_neg newline,unescape_free free,ih]
  | case4 t rest other ih =>
    by_cases tilde : t = .char '~'
    · cases rest with
      | nil =>
        subst tilde
        rfl
      | cons u rest => cases other u rest tilde rfl
    · have free : '~' ∉ t.shown := by
        intro member
        have alone := t.shown_piece.eq_tilde member
        exact tilde (Token.shown_first (congrArg List.head? alone) (by decide))
      exact (unescape_free free (shownText rest)).trans (congrArg (t.shown ++ ·) ih)

theorem unescape_bare {ts : List Token} (tagged : Tagged signs ts)
    (untaken : Untaken (writtenText ts)) :
    unescape (bareText ts) = bareText (Token.unescape ts) := by
  have sign (e : Emphasis) : e.sign ≠ '~' := by cases e <;> decide
  have tag (e : Emphasis) (text : List Char) : takers (doubled e.sign ++ text) = takers text :=
    (takers_other (sign e) _).trans (takers_other (sign e) text)
  fun_induction Token.unescape ts with
  | case1 => rfl
  | case2 rest ih =>
    refine congrArg ('~' :: '\n' :: ·) (ih tagged.tail.tail ?_)
    intro q member
    exact untaken q (List.mem_cons_of_mem _ member)
  | case3 t rest other ih =>
    cases t with
    | char c =>
      have newline : c ≠ '\n' := fun same => other (congrArg Token.char same)
      have later := ih tagged.tail.tail (fun q member => untaken q (List.mem_cons_of_mem _ member))
      change unescape ('~' :: c :: bareText rest) = c :: bareText (Token.unescape rest)
      rw [unescape,if_neg newline,later]
    | tag ends e =>
      have written : takers (writtenText (.char '~' :: .tag ends e :: rest)) =
          writtenText (.tag ends e :: rest) :: takers (writtenText rest) :=
        congrArg (writtenText (.tag ends e :: rest) :: ·) (takers_other (sign e) _)
      rw [Untaken,written,List.forall_mem_cons] at untaken
      obtain ⟨now,later⟩ := untaken
      obtain ⟨b,behind,first⟩ := bare_behind tagged.tail
      have useless := now b behind
      rw [first] at useless
      exact (unescape_taken useless).trans (ih tagged.tail.tail later)
  | case4 t rest other ih =>
    cases t with
    | char c =>
      by_cases tilde : c = '~'
      · subst tilde
        cases rest with
        | nil => rfl
        | cons u rest => cases other u rest rfl rfl
      · have later : Untaken (writtenText rest) := by
          have same := takers_other tilde (writtenText rest)
          change Untaken (c :: writtenText rest) at untaken
          rwa [Untaken,same] at untaken
        change unescape (c :: bareText rest) = c :: bareText (Token.unescape rest)
        rw [unescape_other tilde,ih tagged.tail later]
    | tag ends e =>
      refine ih tagged.tail ?_
      change Untaken (doubled e.sign ++ writtenText rest) at untaken
      rwa [Untaken,tag] at untaken

end Tildes

theorem content_tokens {content : List Char} (apart : Apart content) : ∃ ts,
    applyAll [bold,italic,underlined] (escape content) = shownText ts ∧
    applyAll (signs.map plainStyle) content = bareText ts := by
  have shown : shownText (content.map .char) = escape content := by
    rw [shownText,List.flatMap_map]
    rfl
  have bare : bareText (content.map .char) = content := by
    rw [bareText,List.flatMap_map]
    exact List.flatMap_singleton' content
  have written : writtenText (content.map .char) = content := by
    rw [writtenText,List.flatMap_map]
    exact List.flatMap_singleton' content
  have untagged : Tagged [] (content.map .char) := by
    intro ends e member
    obtain ⟨c,_,other⟩ := List.mem_map.mp member
    cases other
  have spaced {ts : List Token} (same : writtenText ts = content) : Spaced (writtenText ts) := by
    rw [same]
    exact apart.spaced
  obtain ⟨once,first⟩ :=
    pass_tokens ((spaced written).unjoined Emphasis.strong.sign_listed untagged)
  have tagged : Tagged ['*'] once := first.tagged untagged (by decide)
  have same := first.written.trans written
  obtain ⟨twice,second⟩ :=
    pass_tokens ((spaced same).unjoined Emphasis.italic.sign_listed tagged)
  have tagged : Tagged ['*','/'] twice := second.tagged tagged (by decide)
  have same := second.written.trans same
  obtain ⟨thrice,third⟩ :=
    pass_tokens ((spaced same).unjoined Emphasis.underlined.sign_listed tagged)
  have tagged : Tagged signs thrice := third.tagged tagged (by decide)
  have same := third.written.trans same
  refine ⟨Token.unescape thrice,?_,?_⟩
  · rw [←unescape_shown,←third.shown,←second.shown,←first.shown,shown]
    rfl
  · rw [←unescape_bare tagged (by rw [same]; exact apart.untaken),←third.bare,←second.bare,
      ←first.bare,bare]
    rfl

-- What a reader sees of a cell is its plain text, wherever no doubled sign stands between two equal
-- signs and no tilde between a tag and something it would have left.
theorem reading_richText (c : Cell) (apart : Apart (Text.Chars.trim c.content.toList)) :
    reading c.richText = c.plainText := by
  obtain ⟨ts,rich,plain⟩ := content_tokens apart
  rw [Cell.richText,richChars,rich,reading_shown,Cell.plainText,plainChars,plain]

theorem reading_richText_mixed :
    let c : Cell := ⟨false," __**it's**__ //a**b//c**~~ <&~**x** /_/ "⟩
    Apart (Text.Chars.trim c.content.toList) ∧ reading c.richText = c.plainText := by
  intro c
  have apart : Apart (Text.Chars.trim c.content.toList) := by decide +kernel
  exact ⟨apart,reading_richText c apart⟩

-- Without the doubled stars two slashes meet, and the pass for slashes finds another mark.
theorem reading_joined :
    let c : Cell := ⟨false,"/**/a**//"⟩
    c.plainText = "a" ∧ reading c.richText = "//a//" ∧ reading c.richText ≠ c.plainText := by
  have plain : Cell.plainText ⟨false,"/**/a**//"⟩ = "a" := by cbv
  have shown : Cell.richText ⟨false,"/**/a**//"⟩ = "/<strong>/a</strong>//" := by cbv
  have read : reading (Cell.richText ⟨false,"/**/a**//"⟩) = "//a//" := by
    rw [shown]
    decide +kernel
  refine ⟨plain,read,?_⟩
  rw [plain,read]
  decide

-- In front of a tag a tilde takes the beginning of the tag, where the plain text keeps it.
example : Cell.plainText ⟨false,"**a~**"⟩ = "a~" ∧
    Cell.richText ⟨false,"**a~**"⟩ = "<strong>a</strong>" := by
  constructor <;> cbv

end TableView.Inline
