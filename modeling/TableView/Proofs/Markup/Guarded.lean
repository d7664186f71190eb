import Mathlib.Data.List.Infix
import TableView.Markup.Inline

namespace TableView.Inline

def names : List String := ["strong","em","ins"]

def opening (name : String) : String := "<" ++ name ++ ">"

def closing (name : String) : String := "</" ++ name ++ ">"

def tags : List String := ["<strong>","</strong>","<em>","</em>","<ins>","</ins>"]

def entities : List String := ["&amp;","&lt;","&gt;","&quot;","&#39;"]

def occurrences (part text : List Char) : Nat := text.tails.countP (part.isPrefixOf ·)

-- Everything that is markup in a text is one of the tags or one of the entities.
structure Guarded (text : List Char) : Prop where
  opened : ∀ front back, text = front ++ '<' :: back → ∃ t ∈ tags, t.toList <+: '<' :: back
  closed : ∀ front back, text = front ++ '>' :: back → ∃ t ∈ tags, t.toList <:+ front ++ ['>']
  unquoted : '"' ∉ text ∧ '\'' ∉ text
  referred : ∀ front back, text = front ++ '&' :: back → ∃ e ∈ entities, e.toList <+: '&' :: back
  paired : ∀ name ∈ names,
    occurrences (opening name).toList text = occurrences (closing name).toList text

section Pieces

def marks : List (List Char) := (tags ++ entities).map String.toList

inductive IsPiece : List Char → Prop where
  | char {c : Char} (plain : entity? c = none) : IsPiece [c]
  | mark {m : List Char} (listed : m ∈ marks) : IsPiece m

def Solid (sign : Char) (text : List Char) : Prop :=
  ∀ q ∈ text.tails, q ≠ [sign] ∧ ¬ doubled sign <+: q

theorem Solid.tail {sign c : Char} {text : List Char} (solid : Solid sign (c :: text)) :
    Solid sign text := by
  intro q member
  exact solid q (List.mem_cons_of_mem _ member)

theorem Solid.undoubled {sign c : Char} {text : List Char} (solid : Solid sign (c :: text))
    (rest : List Char) : ¬ doubled sign <+: c :: (text ++ rest) := by
  obtain ⟨notSign,notDoubled⟩ := solid (c :: text) List.mem_cons_self
  intro starts
  obtain ⟨rfl,second⟩ := List.cons_prefix_cons.mp starts
  cases text with
  | nil => exact notSign rfl
  | cons d text =>
    obtain ⟨rfl,_⟩ := List.cons_prefix_cons.mp second
    exact notDoubled (List.prefix_append [sign,sign] text)

namespace IsPiece
variable {p : List Char} (piece : IsPiece p)
include piece

theorem nonempty : p ≠ [] := by
  cases piece with
  | char => simp
  | mark listed =>
    have all : ∀ m ∈ marks, m ≠ [] := by decide
    exact all p listed

theorem eq_sign {sign : Char} (sort : sign ∈ signs) (first : p.head? = some sign) : p = [sign] := by
  cases piece with
  | char => exact congrArg (fun c => [c]) (Option.some.inj first)
  | mark listed =>
    have all : ∀ m ∈ marks, m.head? = some '<' ∨ m.head? = some '&' := by decide
    rcases all p listed with begins | begins
    all_goals
      rw [begins] at first
      cases first
      exact absurd sort (by decide)

theorem solid_tail {sign : Char} (sort : sign ∈ signs) : Solid sign p.tail := by
  cases piece with
  | char =>
    intro q member
    obtain rfl := List.mem_singleton.mp member
    exact ⟨by simp,by simp [doubled]⟩
  | mark listed =>
    have all : ∀ m ∈ marks, ∀ q ∈ m.tail.tails, q ≠ [sign] ∧ ¬ doubled sign <+: q := by
      simp only [signs,List.mem_cons,List.not_mem_nil,or_false] at sort
      rcases sort with rfl | rfl | rfl
      all_goals decide
    exact all p listed

theorem special_mark {c : Char} (special : (entity? c).isSome = true) (member : c ∈ p) :
    p ∈ marks := by
  cases piece with
  | char plain =>
    obtain rfl := List.mem_singleton.mp member
    rw [plain] at special
    cases special
  | mark listed => exact listed

theorem tail_not_mem {c : Char} (special : c ∈ ['~','<','&']) : c ∉ p.tail := by
  cases piece with
  | char => simp
  | mark listed =>
    have all : ∀ m ∈ marks, '~' ∉ m.tail ∧ '<' ∉ m.tail ∧ '&' ∉ m.tail := by decide
    obtain ⟨tilde,angle,ampersand⟩ := all p listed
    simp only [List.mem_cons,List.not_mem_nil,or_false] at special
    rcases special with rfl | rfl | rfl
    · exact tilde
    · exact angle
    · exact ampersand

theorem eq_tilde (tilde : '~' ∈ p) : p = ['~'] := by
  cases piece with
  | char => rw [List.mem_singleton.mp tilde]
  | mark listed =>
    have all : ∀ m ∈ marks, '~' ∉ m := by decide
    exact absurd tilde (all p listed)

theorem front_not_mem : '>' ∉ p.dropLast := by
  cases piece with
  | char => simp
  | mark listed =>
    have all : ∀ m ∈ marks, '>' ∉ m.dropLast := by decide
    exact all p listed

theorem unquoted : '"' ∉ p ∧ '\'' ∉ p := by
  have all : ∀ m ∈ marks, '"' ∉ m ∧ '\'' ∉ m := by decide
  constructor
  · intro member
    exact (all p (piece.special_mark rfl member)).1 member
  · intro member
    exact (all p (piece.special_mark rfl member)).2 member

end IsPiece

theorem pieces_doubled {sign : Char} (sort : sign ∈ signs) {pieces : List (List Char)}
    (whole : ∀ p ∈ pieces, IsPiece p) (starts : doubled sign <+: pieces.flatten) :
    ∃ behind, pieces = [sign] :: [sign] :: behind := by
  have first {q : List Char} {rest : List (List Char)} (piece : IsPiece q)
      (starts : [sign] <+: (q :: rest).flatten) : q = [sign] := by
    obtain ⟨c,text,rfl⟩ := List.exists_cons_of_ne_nil piece.nonempty
    obtain ⟨rfl,_⟩ := List.cons_prefix_cons.mp starts
    exact piece.eq_sign sort rfl
  cases pieces with
  | nil => cases List.eq_nil_of_prefix_nil starts
  | cons p pieces =>
    obtain ⟨piece,others⟩ := List.forall_mem_cons.mp whole
    obtain rfl := first piece ((List.prefix_append [sign] [sign]).trans starts)
    obtain ⟨_,second⟩ := List.cons_prefix_cons.mp starts
    cases pieces with
    | nil => cases List.eq_nil_of_prefix_nil second
    | cons q pieces =>
      obtain rfl := first (others q List.mem_cons_self) second
      exact ⟨pieces,rfl⟩

theorem untilMark_piece {sign c : Char} {inner rest text back : List Char}
    (solid : Solid sign inner)
    (found : untilMark sign (c :: (inner ++ rest)) = some (text,back)) :
    (doubled sign <+: rest ∧ text = c :: inner ∧ back = rest.drop 2) ∨
      ∃ more, untilMark sign rest = some (more,back) ∧ text = c :: inner ++ more := by
  induction inner generalizing c text with
  | nil =>
    rw [List.nil_append,untilMark] at found
    split at found
    · cases found
    split at found
    · rename_i starts
      cases found
      exact .inl ⟨List.isPrefixOf_iff_prefix.mp starts,rfl,rfl⟩
    · obtain ⟨⟨more,back⟩,later,equal⟩ := Option.map_eq_some_iff.mp found
      cases equal
      exact .inr ⟨more,later,rfl⟩
  | cons d inner ih =>
    rw [List.cons_append,untilMark] at found
    split at found
    · cases found
    split at found
    · rename_i starts
      exact absurd (List.isPrefixOf_iff_prefix.mp starts) (solid.undoubled rest)
    · obtain ⟨⟨text,back⟩,later,equal⟩ := Option.map_eq_some_iff.mp found
      cases equal
      rcases ih solid.tail later with ⟨starts,rfl,rfl⟩ | ⟨more,last,rfl⟩
      · exact .inl ⟨starts,rfl,rfl⟩
      · exact .inr ⟨more,last,rfl⟩

theorem untilMark_pieces {sign : Char} (sort : sign ∈ signs) {pieces : List (List Char)}
    (whole : ∀ p ∈ pieces, IsPiece p) {text back : List Char}
    (found : untilMark sign pieces.flatten = some (text,back)) :
    ∃ inner behind, pieces = inner ++ [sign] :: [sign] :: behind ∧ text = inner.flatten ∧
      back = behind.flatten := by
  induction pieces generalizing text with
  | nil => cases found
  | cons p pieces ih =>
    obtain ⟨piece,others⟩ := List.forall_mem_cons.mp whole
    obtain ⟨c,tail,rfl⟩ := List.exists_cons_of_ne_nil piece.nonempty
    have solid : Solid sign tail := piece.solid_tail sort
    rcases untilMark_piece solid found with ⟨starts,rfl,rfl⟩ | ⟨more,later,rfl⟩
    · obtain ⟨behind,rfl⟩ := pieces_doubled sort others starts
      exact ⟨[c :: tail],behind,rfl,(List.append_nil _).symm,rfl⟩
    · obtain ⟨inner,behind,rfl,rfl,rfl⟩ := ih others later
      exact ⟨(c :: tail) :: inner,behind,rfl,rfl,rfl⟩

end Pieces

section Passes

def styles : List Style := [bold,italic,underlined]

def surplus (style : Style) (pieces : List (List Char)) : Int :=
  pieces.count style.before - pieces.count style.behind

theorem surplus_append (style : Style) (front back : List (List Char)) :
    surplus style (front ++ back) = surplus style front + surplus style back := by
  simp only [surplus,List.count_append]
  omega

theorem surplus_cons (style : Style) (p : List Char) (pieces : List (List Char)) :
    surplus style (p :: pieces) = surplus style [p] + surplus style pieces :=
  surplus_append style [p] pieces

theorem surplus_char {style : Style} (listed : style ∈ styles) (c : Char) :
    surplus style [[c]] = 0 := by
  have long : ∀ s ∈ styles, s.before.length ≠ 1 ∧ s.behind.length ≠ 1 := by decide
  obtain ⟨before,behind⟩ := long style listed
  have notBefore : [c] ≠ style.before := fun same => before (by rw [←same]; rfl)
  have notBehind : [c] ≠ style.behind := fun same => behind (by rw [←same]; rfl)
  simp [surplus,notBefore,notBehind]

theorem surplus_tags {style other : Style} (listed : style ∈ styles) (asked : other ∈ styles) :
    surplus other [style.before] + surplus other [style.behind] = 0 := by
  have all : ∀ s ∈ styles, ∀ o ∈ styles, surplus o [s.before] + surplus o [s.behind] = 0 := by
    decide
  exact all style listed other asked

-- What a pass makes of a row of pieces: a row of pieces again, where no style is left open.
structure Kept (pieces : List (List Char)) (text : List Char) (after : List (List Char)) :
    Prop where
  flat : text = after.flatten
  whole : ∀ p ∈ after, IsPiece p
  even : ∀ style ∈ styles, surplus style after = surplus style pieces

theorem Kept.cons {p : List Char} {pieces after : List (List Char)} {text : List Char}
    (piece : IsPiece p) (kept : Kept pieces text after) :
    Kept (p :: pieces) (p ++ text) (p :: after) := by
  refine ⟨by rw [kept.flat]; rfl,List.forall_mem_cons.mpr ⟨piece,kept.whole⟩,?_⟩
  intro style listed
  rw [surplus_cons,surplus_cons style p pieces,kept.even style listed]

theorem marked?_undoubled {sign : Char} {text : List Char} (other : ¬ doubled sign <+: text) :
    marked? sign text = none := by
  rw [marked?,if_neg]
  rwa [List.isPrefixOf_iff_prefix]

theorem setApart_unmarked {style : Style} {c : Char} {text : List Char}
    (none : marked? style.sign (c :: text) = none) :
    setApart style (c :: text) = c :: setApart style text := by
  rw [setApart]
  split
  · rename_i found
    rw [none] at found
    cases found
  · rfl

theorem setApart_marked {style : Style} {text inner back : List Char}
    (found : marked? style.sign text = some (inner,back)) :
    setApart style text = style.before ++ inner ++ style.behind ++ setApart style back := by
  rw [setApart.eq_def]
  split
  · rename_i again
    rw [found] at again
    cases again
    rfl
  · rename_i none
    rw [found] at none
    cases none

theorem setApart_solid {style : Style} {text : List Char} (solid : Solid style.sign text)
    (rest : List Char) : setApart style (text ++ rest) = text ++ setApart style rest := by
  induction text with
  | nil => rfl
  | cons c text ih =>
    have unmarked := marked?_undoubled (solid.undoubled rest)
    rw [List.cons_append,setApart_unmarked unmarked,ih solid.tail,List.cons_append]

theorem marked?_pieces {sign : Char} (sort : sign ∈ signs) {pieces : List (List Char)}
    (whole : ∀ p ∈ pieces, IsPiece p) {text back : List Char}
    (found : marked? sign pieces.flatten = some (text,back)) :
    ∃ inner behind, pieces = [sign] :: [sign] :: (inner ++ [sign] :: [sign] :: behind) ∧
      text = inner.flatten ∧ back = behind.flatten := by
  rw [marked?] at found
  split at found
  · rename_i starts
    obtain ⟨rest,rfl⟩ := pieces_doubled sort whole (List.isPrefixOf_iff_prefix.mp starts)
    obtain ⟨_,_,whole⟩ := List.forall_mem_cons.mp whole |>.imp_right List.forall_mem_cons.mp
    obtain ⟨inner,behind,rfl,rfl,rfl⟩ := untilMark_pieces sort whole found
    exact ⟨inner,behind,rfl,rfl,rfl⟩
  · cases found

theorem style_marks {style : Style} (listed : style ∈ styles) :
    style.sign ∈ signs ∧ style.before ∈ marks ∧ style.behind ∈ marks := by
  have all : ∀ s ∈ styles, s.sign ∈ signs ∧ s.before ∈ marks ∧ s.behind ∈ marks := by decide
  exact all style listed

theorem Kept.marked {style : Style} (listed : style ∈ styles)
    {inner behind after : List (List Char)} {text : List Char}
    (whole : ∀ p ∈ inner, IsPiece p) (kept : Kept behind text after) :
    Kept ([style.sign] :: [style.sign] :: (inner ++ [style.sign] :: [style.sign] :: behind))
      (style.before ++ inner.flatten ++ style.behind ++ text)
      (style.before :: (inner ++ style.behind :: after)) := by
  obtain ⟨_,before,closing⟩ := style_marks listed
  refine ⟨by rw [kept.flat]; simp,?_,?_⟩
  · simp only [List.forall_mem_cons,List.forall_mem_append]
    exact ⟨.mark before,whole,.mark closing,kept.whole⟩
  · intro other asked
    have tags := surplus_tags listed asked
    have same := kept.even other asked
    have plain := surplus_char asked style.sign
    have signed (rest : List (List Char)) :
        surplus other ([style.sign] :: rest) = surplus other rest := by
      rw [surplus_cons,plain,Int.zero_add]
    rw [surplus_cons,surplus_append,surplus_cons other style.behind,signed,signed,surplus_append,
      signed,signed]
    omega

theorem setApart_pieces {style : Style} (listed : style ∈ styles) {pieces : List (List Char)}
    (whole : ∀ p ∈ pieces, IsPiece p) :
    ∃ after, Kept pieces (setApart style pieces.flatten) after := by
  have sort := (style_marks listed).1
  -- The text behind a closing sign is shorter by several pieces.
  induction size : pieces.length using Nat.strongRecOn generalizing pieces with
  | ind n ih =>
    subst size
    cases found : marked? style.sign pieces.flatten with
    | some parts =>
      obtain ⟨text,back⟩ := parts
      obtain ⟨inner,behind,rfl,rfl,rfl⟩ := marked?_pieces sort whole found
      simp only [List.forall_mem_cons,List.forall_mem_append] at whole
      obtain ⟨_,_,wholeInner,_,_,wholeBehind⟩ := whole
      obtain ⟨after,kept⟩ := ih behind.length (by simp; omega) wholeBehind rfl
      rw [setApart_marked found]
      exact ⟨_,kept.marked listed wholeInner⟩
    | none =>
      cases pieces with
      | nil => exact ⟨[],by rw [List.flatten_nil,setApart]; rfl,by simp,fun _ _ => rfl⟩
      | cons p pieces =>
        obtain ⟨piece,others⟩ := List.forall_mem_cons.mp whole
        obtain ⟨after,kept⟩ := ih pieces.length (by simp) others rfl
        obtain ⟨c,tail,rfl⟩ := List.exists_cons_of_ne_nil piece.nonempty
        have solid : Solid style.sign tail := piece.solid_tail sort
        have first : setApart style ((c :: tail) :: pieces).flatten =
            (c :: tail) ++ setApart style pieces.flatten := by
          rw [List.flatten_cons,List.cons_append] at found ⊢
          rw [setApart_unmarked found,setApart_solid solid,List.cons_append]
        rw [first]
        exact ⟨_,kept.cons piece⟩

theorem Kept.trans {pieces middle after : List (List Char)} {text later : List Char}
    (first : Kept pieces text middle) (second : Kept middle later after) :
    Kept pieces later after :=
  ⟨second.flat,second.whole,
    fun style listed => (second.even style listed).trans (first.even style listed)⟩

theorem unescape_free {text : List Char} (free : '~' ∉ text) (rest : List Char) :
    unescape (text ++ rest) = text ++ unescape rest := by
  induction text with
  | nil => rfl
  | cons c text ih =>
    rw [List.mem_cons,not_or] at free
    obtain ⟨other,free⟩ := free
    rw [List.cons_append,unescape,ih free,List.cons_append]
    intro _ _ same
    exact absurd same.symm other

-- A tilde takes the whole piece behind it, since it is not in the rest of that.
theorem unescape_pieces {pieces : List (List Char)} (whole : ∀ p ∈ pieces, IsPiece p) :
    ∃ after, Kept pieces (unescape pieces.flatten) after := by
  induction size : pieces.length using Nat.strongRecOn generalizing pieces with
  | ind n ih =>
    subst size
    cases pieces with
    | nil => exact ⟨[],rfl,whole,fun _ _ => rfl⟩
    | cons p pieces =>
      obtain ⟨piece,others⟩ := List.forall_mem_cons.mp whole
      by_cases tilde : '~' ∈ p
      · obtain rfl := piece.eq_tilde tilde
        cases pieces with
        | nil => exact ⟨[['~']],rfl,whole,fun _ _ => rfl⟩
        | cons q pieces =>
          obtain ⟨taken,others⟩ := List.forall_mem_cons.mp others
          obtain ⟨after,kept⟩ := ih pieces.length
            (Nat.lt_succ_of_lt (Nat.lt_succ_self _)) others rfl
          obtain ⟨c,tail,rfl⟩ := List.exists_cons_of_ne_nil taken.nonempty
          have free : '~' ∉ tail := taken.tail_not_mem (by simp)
          have behind := kept.cons taken
          have first : unescape ([['~'],c :: tail] ++ pieces).flatten = if c = '\n' then
              '~' :: ((c :: tail) ++ unescape pieces.flatten) else
              (c :: tail) ++ unescape pieces.flatten := by
            simp only [List.cons_append,List.flatten_cons,List.nil_append]
            rw [unescape,unescape_free free]
          rw [List.cons_append,List.cons_append,List.nil_append] at first
          rw [first]
          split
          · exact ⟨_,behind.cons piece⟩
          · refine ⟨_,behind.flat,behind.whole,?_⟩
            intro style listed
            rw [behind.even style listed,surplus_cons style ['~'],surplus_char listed,Int.zero_add]
      · obtain ⟨after,kept⟩ := ih pieces.length (by simp) others rfl
        rw [List.flatten_cons,unescape_free tilde]
        exact ⟨_,kept.cons piece⟩

theorem entity?_listed {c : Char} {e : String} (given : entity? c = some e) : e ∈ entities := by
  unfold entity? at given
  split at given
  case h_6 => cases given
  all_goals
    cases given
    decide

theorem escapeChar_piece (c : Char) : IsPiece (escapeChar c) := by
  rw [escapeChar]
  split
  · rename_i e given
    exact .mark (List.mem_map_of_mem (List.mem_append_right _ (entity?_listed given)))
  · rename_i plain
    exact .char plain

theorem escapeChar_surplus {style : Style} (listed : style ∈ styles) (c : Char) :
    surplus style [escapeChar c] = 0 := by
  rw [escapeChar]
  split
  · rename_i e given
    have all : ∀ s ∈ styles, ∀ e ∈ entities, surplus s [e.toList] = 0 := by decide
    exact all style listed e (entity?_listed given)
  · exact surplus_char listed c

theorem escape_pieces (text : List Char) : Kept [] (escape text) (text.map escapeChar) := by
  refine ⟨List.flatMap_def,?_,?_⟩
  · rintro p member
    obtain ⟨c,_,rfl⟩ := List.mem_map.mp member
    exact escapeChar_piece c
  · intro style listed
    induction text with
    | nil => rfl
    | cons c text ih => rw [List.map_cons,surplus_cons,ih,escapeChar_surplus listed,Int.zero_add]

theorem richChars_pieces (content : List Char) : ∃ after, Kept [] (richChars content) after := by
  have passes {some : List Style} (listed : ∀ s ∈ some, s ∈ styles) {text : List Char}
      {pieces : List (List Char)} (kept : Kept [] text pieces) :
      ∃ after, Kept [] (some.foldl (fun t s => setApart s t) text) after := by
    induction some generalizing text pieces with
    | nil => exact ⟨pieces,kept⟩
    | cons style rest ih =>
      obtain ⟨now,later⟩ := List.forall_mem_cons.mp listed
      obtain ⟨after,next⟩ := setApart_pieces now kept.whole
      rw [←kept.flat] at next
      exact ih later (kept.trans next)
  obtain ⟨pieces,tagged⟩ := passes (fun _ listed => listed)
    (escape_pieces (Text.Chars.trim content))
  obtain ⟨after,plain⟩ := unescape_pieces tagged.whole
  rw [←tagged.flat] at plain
  exact ⟨after,tagged.trans plain⟩

end Passes

section Reading

theorem tag_begins {tag : String} (listed : tag ∈ tags) : ∃ tail, tag.toList = '<' :: tail := by
  have all : ∀ t ∈ tags, t.toList.head? = some '<' := by decide
  exact List.head?_eq_some_iff.mp (all tag listed)

theorem occurrences_skip {tag : String} (listed : tag ∈ tags) {text : List Char}
    (free : '<' ∉ text) (rest : List Char) :
    occurrences tag.toList (text ++ rest) = occurrences tag.toList rest := by
  obtain ⟨tail,whole⟩ := tag_begins listed
  induction text with
  | nil => rfl
  | cons c text ih =>
    rw [List.mem_cons,not_or] at free
    obtain ⟨other,free⟩ := free
    rw [←ih free,List.cons_append,occurrences,List.tails_cons,List.countP_cons_of_neg,occurrences]
    rw [List.isPrefixOf_iff_prefix,whole]
    intro starts
    exact other (List.cons_prefix_cons.mp starts).1

theorem IsPiece.eq_tag {p : List Char} (piece : IsPiece p) {tag : String} (listed : tag ∈ tags)
    {rest : List Char} (starts : tag.toList <+: p ++ rest) : p = tag.toList := by
  cases piece with
  | char plain =>
    obtain ⟨tail,whole⟩ := tag_begins listed
    rw [whole] at starts
    obtain ⟨rfl,_⟩ := List.cons_prefix_cons.mp starts
    cases plain
  | mark known =>
    have all : ∀ t ∈ tags, ∀ m ∈ marks, t.toList <+: m ∨ m <+: t.toList → m = t.toList := by
      decide
    exact all tag listed p known
      (List.prefix_or_prefix_of_prefix starts (List.prefix_append p rest))

theorem occurrences_pieces {tag : String} (listed : tag ∈ tags) {pieces : List (List Char)}
    (whole : ∀ p ∈ pieces, IsPiece p) :
    occurrences tag.toList pieces.flatten = pieces.count tag.toList := by
  induction pieces with
  | nil =>
    have all : ∀ t ∈ tags, occurrences t.toList [] = 0 := by decide
    exact all tag listed
  | cons p pieces ih =>
    obtain ⟨piece,others⟩ := List.forall_mem_cons.mp whole
    obtain ⟨c,tail,rfl⟩ := List.exists_cons_of_ne_nil piece.nonempty
    have free : '<' ∉ tail := piece.tail_not_mem (by simp)
    have behind := occurrences_skip listed free pieces.flatten
    rw [List.flatten_cons,List.cons_append,occurrences,List.tails_cons,List.countP_cons,
      ←occurrences,behind,ih others,List.count_cons]
    congr 2
    rw [eq_iff_iff,List.isPrefixOf_iff_prefix,beq_iff_eq]
    constructor
    · exact piece.eq_tag listed
    · intro same
      rw [←List.cons_append,same]
      exact List.prefix_append _ _

theorem flatten_split {pieces : List (List Char)} {front back : List Char} {c : Char}
    (split : pieces.flatten = front ++ c :: back) :
    ∃ before inner outer behind, inner ++ c :: outer ∈ pieces ∧ front = before ++ inner ∧
      back = outer ++ behind := by
  rcases List.flatten_eq_append_iff.mp split with
    ⟨as,bs,rfl,rfl,later⟩ | ⟨as,inner,d,outer,ds,rfl,rfl,later⟩
  · obtain ⟨es,outer,ds,rfl,_,rfl⟩ := List.flatten_eq_cons_iff.mp later.symm
    exact ⟨as.flatten,[],outer,ds.flatten,by simp,(List.append_nil _).symm,rfl⟩
  · cases later
    exact ⟨as.flatten,inner,outer,ds.flatten,by simp,rfl,rfl⟩

theorem IsPiece.begins {inner outer : List Char} {c : Char} (piece : IsPiece (inner ++ c :: outer))
    (special : c ∈ ['~','<','&']) : inner = [] := by
  have free := piece.tail_not_mem special
  cases inner with
  | nil => rfl
  | cons d inner => exact absurd (by simp) free

theorem IsPiece.ends {inner outer : List Char} (piece : IsPiece (inner ++ '>' :: outer)) :
    outer = [] := by
  have free := piece.front_not_mem
  rw [List.dropLast_append_of_ne_nil (List.cons_ne_nil _ _)] at free
  cases outer with
  | nil => rfl
  | cons d outer => exact absurd (List.mem_append_right _ List.mem_cons_self) free

theorem opened_tag {outer : List Char} (piece : IsPiece ('<' :: outer)) :
    ∃ t ∈ tags, t.toList = '<' :: outer := by
  have all : ∀ m ∈ marks, m.head? = some '<' → ∃ t ∈ tags, t.toList = m := by decide
  exact all _ (piece.special_mark (show (entity? '<').isSome = true from rfl) (by simp)) rfl

theorem closed_tag {inner : List Char} (piece : IsPiece (inner ++ ['>'])) :
    ∃ t ∈ tags, t.toList = inner ++ ['>'] := by
  have all : ∀ m ∈ marks, m.getLast? = some '>' → ∃ t ∈ tags, t.toList = m := by decide
  exact all _ (piece.special_mark (show (entity? '>').isSome = true from rfl) (by simp)) (by simp)

theorem begun_entity {outer : List Char} (piece : IsPiece ('&' :: outer)) :
    ∃ e ∈ entities, e.toList = '&' :: outer := by
  have all : ∀ m ∈ marks, m.head? = some '&' → ∃ e ∈ entities, e.toList = m := by decide
  exact all _ (piece.special_mark (show (entity? '&').isSome = true from rfl) (by simp)) rfl

theorem guarded_pieces {text : List Char} {pieces : List (List Char)}
    (kept : Kept [] text pieces) : Guarded text := by
  obtain ⟨rfl,whole,even⟩ := kept
  constructor
  · intro front back split
    obtain ⟨before,inner,outer,behind,member,rfl,rfl⟩ := flatten_split split
    obtain rfl := (whole _ member).begins (by simp)
    obtain ⟨t,listed,same⟩ := opened_tag (whole _ member)
    exact ⟨t,listed,behind,by rw [same]; rfl⟩
  · intro front back split
    obtain ⟨before,inner,outer,behind,member,rfl,rfl⟩ := flatten_split split
    obtain rfl := (whole _ member).ends
    obtain ⟨t,listed,same⟩ := closed_tag (whole _ member)
    exact ⟨t,listed,before,by rw [same,List.append_assoc]⟩
  · constructor
    all_goals
      intro member
      obtain ⟨p,inPieces,inPiece⟩ := List.mem_flatten.mp member
      have clear := (whole p inPieces).unquoted
    · exact clear.1 inPiece
    · exact clear.2 inPiece
  · intro front back split
    obtain ⟨before,inner,outer,behind,member,rfl,rfl⟩ := flatten_split split
    obtain rfl := (whole _ member).begins (by simp)
    obtain ⟨e,listed,same⟩ := begun_entity (whole _ member)
    exact ⟨e,listed,behind,by rw [same]; rfl⟩
  · intro name listed
    have all : ∀ n ∈ names, opening n ∈ tags ∧ closing n ∈ tags ∧ ∃ s ∈ styles,
        s.before = (opening n).toList ∧ s.behind = (closing n).toList := by decide
    obtain ⟨begun,ended,style,known,before,behind⟩ := all name listed
    have balanced : surplus style pieces = 0 := even style known
    rw [surplus,before,behind] at balanced
    rw [occurrences_pieces begun whole,occurrences_pieces ended whole]
    omega

end Reading

-- No text of a cell can put markup of its own into what is shown: angle brackets belong to the six
-- tags, ampersands to the five entities, and each tag is closed as often as it is opened.
theorem richText_guarded (c : Cell) : Guarded c.richText.toList := by
  obtain ⟨pieces,kept⟩ := richChars_pieces c.content.toList
  rw [Cell.richText,String.toList_ofList]
  exact guarded_pieces kept

-- Tags are paired, but they may cross.
example : Cell.richText ⟨false,"**a//b**c//<"⟩ = "<strong>a<em>b</strong>c</em>&lt;" := by cbv

end TableView.Inline
