import TableView.Proofs.Markup.Guarded
import TableView.Proofs.Markup.Leaves
import TableView.Proofs.Markup.Written

namespace TableView

def Inline.literal (text : List Char) : List Char := text.flatMap (fun c => ['~',c])

def Cell.literal (s : String) : Cell := ⟨false,String.ofList (Inline.literal s.toList)⟩

def Row.around (before : List (List Char)) (text : List Char) (behind : List Char) : List Char :=
  '|' :: ((before ++ [Inline.literal text]).flatMap (fun cell => cell ++ ['|']) ++ behind)

namespace Inline

section Passes
variable (write : Char → List Char)

-- No sign meets another one where there is a tilde between any two characters.
theorem setApart_tildes {style : Style} (sort : style.sign ∈ signs)
    (bare : write style.sign = [style.sign])
    (solid : ∀ c, c ≠ style.sign → Solid style.sign (write c)) (text : List Char) :
    setApart style (text.flatMap (fun c => '~' :: write c)) =
      text.flatMap (fun c => '~' :: write c) := by
  have noTilde : '~' ≠ style.sign := by
    intro same
    rw [←same] at sort
    exact absurd sort (by decide)
  induction text with
  | nil =>
    rw [List.flatMap_nil,setApart]
    rfl
  | cons c text ih =>
    have tilde : setApart style ('~' :: (write c ++ text.flatMap (fun c => '~' :: write c))) =
        '~' :: setApart style (write c ++ text.flatMap (fun c => '~' :: write c)) := by
      refine setApart_unmarked (marked?_undoubled ?_)
      intro starts
      exact noTilde (List.cons_prefix_cons.mp starts).1.symm
    rw [List.flatMap_cons,List.cons_append,tilde]
    refine congrArg ('~' :: ·) ?_
    by_cases same : c = style.sign
    · -- Behind a sign comes the next tilde, or the end.
      have single : ¬ doubled style.sign <+:
          style.sign :: text.flatMap (fun c => '~' :: write c) := by
        intro starts
        have second := (List.cons_prefix_cons.mp starts).2
        cases text with
        | nil => exact absurd second (by simp)
        | cons d text => exact noTilde (List.cons_prefix_cons.mp second).1.symm
      rw [same,bare,List.singleton_append,setApart_unmarked (marked?_undoubled single),ih]
    · rw [setApart_solid (solid c same),ih]

theorem unescape_tildes {text : List Char}
    (taken : ∀ c ∈ text, ∃ d tail, write c = d :: tail ∧ d ≠ '\n' ∧ '~' ∉ tail) :
    unescape (text.flatMap (fun c => '~' :: write c)) = text.flatMap write := by
  induction text with
  | nil => rfl
  | cons c text ih =>
    obtain ⟨⟨d,tail,written,noBreak,free⟩,others⟩ := List.forall_mem_cons.mp taken
    rw [List.flatMap_cons,List.flatMap_cons,written,List.cons_append,List.cons_append,unescape,
      if_neg noBreak,unescape_free free,ih others]
    rfl

theorem applyAll_tildes {styles : List Style} (sort : ∀ style ∈ styles, style.sign ∈ signs)
    (bare : ∀ sign ∈ signs, write sign = [sign])
    (solid : ∀ sign ∈ signs, ∀ c, c ≠ sign → Solid sign (write c)) {text : List Char}
    (taken : ∀ c ∈ text, ∃ d tail, write c = d :: tail ∧ d ≠ '\n' ∧ '~' ∉ tail) :
    applyAll styles (text.flatMap (fun c => '~' :: write c)) = text.flatMap write := by
  have passes : styles.foldl (fun t s => setApart s t) (text.flatMap (fun c => '~' :: write c)) =
      text.flatMap (fun c => '~' :: write c) := by
    induction styles with
    | nil => rfl
    | cons style styles ih =>
      obtain ⟨first,others⟩ := List.forall_mem_cons.mp sort
      rw [List.foldl_cons,setApart_tildes write first (bare _ first) (solid _ first),ih others]
  rw [applyAll,passes,unescape_tildes write taken]

end Passes

theorem solid_singleton {sign c : Char} (other : c ≠ sign) : Solid sign [c] := by
  intro q member
  rcases List.mem_cons.mp member with rfl | behind
  · refine ⟨by simpa using other,?_⟩
    intro starts
    exact other (List.cons_prefix_cons.mp starts).1.symm
  · obtain rfl := List.mem_singleton.mp behind
    exact ⟨by simp,by simp [doubled]⟩

theorem sign_cases {sign : Char} (sort : sign ∈ signs) :
    sign = '*' ∨ sign = '/' ∨ sign = '_' := by
  rwa [signs,List.mem_cons,List.mem_cons,List.mem_singleton] at sort

theorem escapeChar_sign {sign : Char} (sort : sign ∈ signs) : escapeChar sign = [sign] := by
  rcases sign_cases sort with rfl | rfl | rfl
  · rfl
  · rfl
  · rfl

theorem solid_escapeChar {sign c : Char} (sort : sign ∈ signs) (other : c ≠ sign) :
    Solid sign (escapeChar c) := by
  rw [escapeChar]
  split
  · rename_i e given
    have all : ∀ e ∈ entities, ∀ q ∈ e.toList.tails, q ≠ [sign] ∧ ¬ doubled sign <+: q := by
      rcases sign_cases sort with rfl | rfl | rfl
      · decide
      · decide
      · decide
    exact all e (entity?_listed given)
  · exact solid_singleton other

theorem trim_literal {text : List Char} (solid : ∀ c ∈ text.getLast?, Text.isBlank c = false) :
    Text.Chars.trim (literal text) = literal text := by
  refine Text.Chars.trim_solid_ends ?_ ?_
  · intro c first
    cases text with
    | nil => cases first
    | cons d text =>
      cases first
      decide
  · intro c last
    rcases List.eq_nil_or_concat text with rfl | ⟨front,d,rfl⟩
    · cases last
    · rw [List.concat_eq_append] at solid last
      rw [literal,List.flatMap_append,List.flatMap_singleton] at last
      have same : d = c := by simpa using last
      rw [←same]
      exact solid d (by simp)

section Shown
variable {s : String} (oneLine : '\n' ∉ s.toList)
  (solid : ∀ c ∈ s.toList.getLast?, Text.isBlank c = false)
include oneLine solid

theorem plainText_literal : (Cell.literal s).plainText = s := by
  have taken : ∀ c ∈ s.toList, ∃ d tail, [c] = d :: tail ∧ d ≠ '\n' ∧ '~' ∉ tail := by
    intro c member
    refine ⟨c,[],rfl,?_,by simp⟩
    rintro rfl
    exact oneLine member
  have chars : plainChars (literal s.toList) = s.toList := by
    rw [plainChars,trim_literal solid]
    refine (applyAll_tildes (fun c => [c]) ?_ (fun _ _ => rfl)
      (fun _ _ _ other => solid_singleton other) taken).trans (List.flatMap_singleton' _)
    decide
  rw [Cell.plainText,Cell.literal,String.toList_ofList,chars,String.ofList_toList]

theorem richText_literal : (Cell.literal s).richText = String.ofList (escape s.toList) := by
  have escaped : escape (literal s.toList) =
      s.toList.flatMap (fun c => '~' :: escapeChar c) := by
    rw [escape,literal,List.flatMap_assoc]
    refine congrArg s.toList.flatMap (funext fun c => ?_)
    rw [List.flatMap_cons,List.flatMap_singleton]
    rfl
  have taken : ∀ c ∈ s.toList, ∃ d tail, escapeChar c = d :: tail ∧ d ≠ '\n' ∧ '~' ∉ tail := by
    intro c member
    have piece := escapeChar_piece c
    obtain ⟨d,tail,written⟩ := List.exists_cons_of_ne_nil piece.nonempty
    refine ⟨d,tail,written,?_,?_⟩
    · rintro rfl
      rw [escapeChar] at written
      split at written
      · rename_i e given
        have all : ∀ e ∈ entities, e.toList.head? ≠ some '\n' := by decide
        exact all e (entity?_listed given) (by rw [written]; rfl)
      · cases written
        exact oneLine member
    · have free := piece.tail_not_mem (c := '~') (by simp)
      rwa [written] at free
  have chars : richChars (literal s.toList) = escape s.toList := by
    rw [richChars,trim_literal solid,escaped]
    refine applyAll_tildes escapeChar (by decide) (fun _ => escapeChar_sign) ?_ taken
    intro sign sort c other
    exact solid_escapeChar sort other
  rw [Cell.richText,Cell.literal,String.toList_ofList,chars]

end Shown

end Inline

namespace Row

theorem closed_literal (text : List Char) : closed (Inline.literal text) = true := by
  induction text with
  | nil => rfl
  | cons c text ih => exact ih

theorem ofChars_literal (text : List Char) :
    Cell.ofChars (Inline.literal text) = ⟨false,String.ofList (Inline.literal text)⟩ := by
  cases text <;> rfl

end Row

namespace Document

theorem mem_trimmedLines {lines : List (List Char)} (whole : ∀ line ∈ lines, '\n' ∉ line)
    {line : List Char} (member : line ∈ lines) (some : line ≠ []) :
    Text.Chars.trim line ∈ trimmedLines (joined lines) := by
  have pieces : Text.Chars.splitOn '\n' (joined lines).toList = lines := by
    rw [joined,String.toList_ofList,Text.Chars.splitOn_eq,
      List.splitOn_intercalate '\n' whole (List.ne_nil_of_mem member)]
  rw [trimmedLines,Text.Chars.lines,pieces]
  rcases Text.Chars.mem_endLines member some with kept | ended
  · exact List.mem_map_of_mem kept
  · rw [←Text.Chars.trim_dropReturn]
    exact List.mem_map_of_mem ended

theorem told_row {line : List Char} (row : startsRow line = true) (depth : Nat)
    {lines : List (List Char)} (member : line ∈ lines) :
    ∃ t, Block.table t ∈ told depth lines ∧ Row.ofChars line.tail ∈ t.rows := by
  have notHere {other : List Char} {rest : List (List Char)} (noRow : ¬ startsRow other = true)
      (member : line ∈ other :: rest) : line ∈ rest := by
    rcases List.mem_cons.mp member with rfl | later
    · exact absurd row noRow
    · exact later
  induction depth,lines using told.induct with
  | case1 depth => cases member
  | case2 depth first rest begun ih =>
    rw [told,if_pos begun]
    by_cases inRun : line ∈ first :: rest.takeWhile startsRow
    · exact ⟨_,List.mem_cons_self,List.mem_map_of_mem inRun⟩
    · have later : line ∈ rest.dropWhile startsRow := by
        rw [List.mem_cons,not_or] at inRun
        have inRest := (List.mem_cons.mp member).resolve_left inRun.1
        rw [←List.takeWhile_append_dropWhile (p := startsRow) (l := rest)] at inRest
        exact (List.mem_append.mp inRest).resolve_left inRun.2
      obtain ⟨t,listed,there⟩ := ih later
      exact ⟨t,List.mem_cons_of_mem _ listed,there⟩
  | case3 depth rest other ih =>
    rw [told,if_neg other,if_pos rfl]
    exact ih (notHere other member)
  | case4 depth first rest other notOpening closing ih =>
    rw [told,if_neg other,if_neg notOpening,if_pos closing]
    exact ih (notHere other member)
  | case5 depth rest other notOpening notClosing ih =>
    rw [told,if_neg other,if_neg notOpening,if_neg notClosing,if_pos rfl]
    exact ih (notHere other member)
  | case6 depth first rest other notOpening notClosing notEmpty ih =>
    rw [told,if_neg other,if_neg notOpening,if_neg notClosing,if_neg notEmpty]
    obtain ⟨t,listed,there⟩ := ih (notHere other member)
    exact ⟨t,List.mem_cons_of_mem _ listed,there⟩

end Document

theorem Row.around_cells {before : List (List Char)} (whole : ∀ cell ∈ before, closed cell = true)
    (s : String) (behind : List Char) :
    ∃ line others, Text.Chars.trim (around before s.toList behind) = '|' :: line ∧
      Row.ofChars line = before.map Cell.ofChars ++ Cell.literal s :: others := by
  have cells : ∀ cell ∈ before ++ [Inline.literal s.toList], closed cell = true := by
    rw [List.forall_mem_append,List.forall_mem_singleton]
    exact ⟨whole,closed_literal s.toList⟩
  have cut : around before s.toList behind =
      ('|' :: (before.flatMap (fun cell => cell ++ ['|']) ++ Inline.literal s.toList)) ++
        '|' :: behind := by
    simp [around]
  have trimmed : Text.Chars.trim (around before s.toList behind) =
      '|' :: ((before ++ [Inline.literal s.toList]).flatMap (fun cell => cell ++ ['|']) ++
        Text.Chars.trimEnd behind) := by
    have start : Text.Chars.trimStart (around before s.toList behind) =
        around before s.toList behind :=
      List.dropWhile_cons_of_neg (by decide)
    rw [Text.Chars.trim,start,cut,Text.Chars.trimEnd_append (by decide)]
    simp
  refine ⟨_,(contents [] false (Text.Chars.trimEnd behind)).map Cell.ofChars,trimmed,?_⟩
  rw [Row.ofChars,contents_whole cells (by simp),List.map_append,List.map_append,
    List.append_assoc,List.map_singleton,ofChars_literal]
  rfl

-- Wherever a row is written in a document, a text with tildes before its characters is a cell of
-- it: the cells before it are not touched, and it is shown and read as the text that it is.
theorem parse_literal (s : String) (before : List (List Char)) (behind : List Char)
    (above below : List (List Char)) (solid : ∀ c ∈ s.toList.getLast?, Text.isBlank c = false)
    (whole : ∀ cell ∈ before, Row.closed cell = true)
    (oneLine : ∀ line ∈ above ++ Row.around before s.toList behind :: below, '\n' ∉ line) :
    let document := joined (above ++ Row.around before s.toList behind :: below)
    ∃ t r others, Block.table t ∈ leaves (Document.parse document) ∧ r ∈ t.rows ∧
      r = before.map Cell.ofChars ++ Cell.literal s :: others ∧
      (Cell.literal s).header = false ∧ (Cell.literal s).plainText = s ∧
      (Cell.literal s).richText = String.ofList (Inline.escape s.toList) := by
  intro document
  have inDocument : Row.around before s.toList behind ∈
      above ++ Row.around before s.toList behind :: below := by simp
  have unbroken : '\n' ∉ s.toList := by
    have line := oneLine _ inDocument
    intro inside
    refine line (List.mem_cons_of_mem _ (List.mem_append_left _ (List.mem_flatMap.mpr ?_)))
    refine ⟨Inline.literal s.toList,by simp,List.mem_append_left _ ?_⟩
    exact List.mem_flatMap.mpr ⟨'\n',inside,by simp⟩
  obtain ⟨line,others,trimmed,cells⟩ := Row.around_cells whole s behind
  have listed := Document.mem_trimmedLines oneLine inDocument (List.cons_ne_nil _ _)
  rw [trimmed] at listed
  have row : Document.startsRow ('|' :: line) = true := rfl
  obtain ⟨t,told,there⟩ := Document.told_row row 0 listed
  rw [←Document.leaves_parse] at told
  exact ⟨t,_,others,told,there,cells,rfl,Inline.plainText_literal unbroken solid,
    Inline.richText_literal unbroken solid⟩

theorem parse_literal_marked :
    let s := " =~|**a**//<&>'\"__b__|"
    let before := ["=Name","x~|y",""].map String.toList
    let document := joined (["text","|a"].map String.toList ++
      Row.around before s.toList "|c ~\r ".toList :: ["|d".toList])
    ∃ t r others, Block.table t ∈ leaves (Document.parse document) ∧ r ∈ t.rows ∧
      r = [⟨true,"Name"⟩,⟨false,"x~|y"⟩,⟨false,""⟩] ++ Cell.literal s :: others ∧
      (Cell.literal s).plainText = s ∧
      (Cell.literal s).richText = " =~|**a**//&lt;&amp;&gt;&#39;&quot;__b__|" := by
  intro s before document
  have bar : s.toList.getLast? = some '|' := by decide
  have solid : ∀ c ∈ s.toList.getLast?, Text.isBlank c = false := by
    rw [bar]
    rintro c ⟨⟩
    decide
  obtain ⟨t,r,others,told,there,cells,_,plain,shown⟩ :=
    parse_literal s before "|c ~\r ".toList (["text","|a"].map String.toList) ["|d".toList]
      solid (by decide) (by decide)
  have front : before.map Cell.ofChars = [⟨true,"Name"⟩,⟨false,"x~|y"⟩,⟨false,""⟩] := by decide
  rw [front] at cells
  exact ⟨t,r,others,told,there,cells,plain,shown.trans (by decide)⟩

end TableView
