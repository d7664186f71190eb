import TableView.Text.Blank

namespace TableView

namespace Text.Chars

theorem dropWhile_solid {cs : List Char} (solid : ∀ c ∈ cs.head?, isBlank c = false) :
    cs.dropWhile isBlank = cs := by
  cases cs with
  | nil => rfl
  | cons c cs => exact List.dropWhile_cons_of_neg (by simp [solid c rfl])

theorem trim_between {before text behind : List Char} (blankBefore : ∀ c ∈ before, isBlank c = true)
    (blankBehind : ∀ c ∈ behind, isBlank c = true) (first : ∀ c ∈ text.head?, isBlank c = false)
    (last : ∀ c ∈ text.getLast?, isBlank c = false) :
    trim (before ++ text ++ behind) = text := by
  have blankReverse : ∀ c ∈ behind.reverse, isBlank c = true :=
    fun c member => blankBehind c (List.mem_reverse.mp member)
  rw [trim,trimStart,List.append_assoc,List.dropWhile_append_of_pos blankBefore]
  cases text with
  | nil =>
    have gone : (behind ++ []).dropWhile isBlank = [] := List.dropWhile_append_of_pos blankBehind
    rw [List.append_nil] at gone
    rw [List.nil_append,gone]
    rfl
  | cons c text =>
    have solid : ∀ d ∈ (c :: text).reverse.head?, isBlank d = false := by
      rw [List.head?_reverse]
      exact last
    have kept : (c :: text ++ behind).dropWhile isBlank = c :: text ++ behind :=
      dropWhile_solid first
    rw [kept,trimEnd,List.reverse_append,
      List.dropWhile_append_of_pos blankReverse,dropWhile_solid solid,List.reverse_reverse]

theorem trim_solid_ends {text : List Char} (first : ∀ c ∈ text.head?, isBlank c = false)
    (last : ∀ c ∈ text.getLast?, isBlank c = false) : trim text = text := by
  have none : ∀ c ∈ ([] : List Char), isBlank c = true := fun _ member => nomatch member
  have trimmed := trim_between none none first last
  rwa [List.nil_append,List.append_nil] at trimmed

theorem trim_last (cs : List Char) : ∀ c ∈ (trim cs).getLast?, isBlank c = false := by
  intro c last
  rw [trim,trimEnd,List.getLast?_reverse] at last
  have other := List.head?_dropWhile_not isBlank (trimStart cs).reverse
  rw [Option.mem_def.mp last] at other
  exact other

theorem trimEnd_isPrefix (cs : List Char) : trimEnd cs <+: cs := by
  rw [trimEnd,←List.reverse_suffix,List.reverse_reverse]
  exact List.dropWhile_suffix isBlank

theorem trim_isInfix (cs : List Char) : trim cs <:+: cs :=
  (trimEnd_isPrefix (trimStart cs)).isInfix.trans (List.dropWhile_suffix isBlank).isInfix

theorem trim_first (cs : List Char) : ∀ c ∈ (trim cs).head?, isBlank c = false := by
  intro c first
  obtain ⟨rest,whole⟩ := trimEnd_isPrefix (trimStart cs)
  rw [←trim] at whole
  have other := List.head?_dropWhile_not isBlank cs
  rw [trimStart] at whole
  rw [←whole,List.head?_append,Option.mem_def.mp first] at other
  exact other

theorem trim_margins {before text behind : List Char} (trimmed : trim text = text)
    (blankBefore : ∀ c ∈ before, isBlank c = true) (blankBehind : ∀ c ∈ behind, isBlank c = true) :
    trim (before ++ text ++ behind) = text := by
  have first := trim_first text
  have last := trim_last text
  rw [trimmed] at first last
  exact trim_between blankBefore blankBehind first last

theorem trimEnd_append {c : Char} (solid : isBlank c = false) (front behind : List Char) :
    trimEnd (front ++ c :: behind) = front ++ c :: trimEnd behind := by
  have kept : (c :: front.reverse).dropWhile isBlank = c :: front.reverse :=
    List.dropWhile_cons_of_neg (by simp [solid])
  rw [trimEnd,trimEnd,List.reverse_append,List.reverse_cons,List.append_assoc,
    List.singleton_append,List.dropWhile_append,kept]
  split
  · rename_i gone
    rw [List.isEmpty_iff.mp gone]
    simp
  · simp

-- Parts of a text that hold some items, with blanks around them and blank parts beside them.
inductive Spread : List (List Char) → List (List Char) → Prop where
  | nil : Spread [] []
  | blank {part : List Char} {items parts : List (List Char)}
      (all : ∀ c ∈ part, isBlank c = true) (rest : Spread items parts) :
      Spread items (part :: parts)
  | item {before item behind : List Char} {items parts : List (List Char)}
      (blankBefore : ∀ c ∈ before, isBlank c = true)
      (blankBehind : ∀ c ∈ behind, isBlank c = true) (rest : Spread items parts) :
      Spread (item :: items) ((before ++ item ++ behind) :: parts)

namespace Spread
variable {items parts : List (List Char)} (spread : Spread items parts)
include spread

theorem trimmed (whole : ∀ item ∈ items, trim item = item ∧ item ≠ []) :
    (parts.map trim).filter (fun part => !part.isEmpty) = items := by
  induction spread with
  | nil => rfl
  | @blank part _ _ all rest ih =>
    have gone : trim (part ++ [] ++ []) = [] := trim_between all (by simp) (by simp) (by simp)
    rw [List.append_nil,List.append_nil] at gone
    rw [List.map_cons,List.filter_cons_of_neg (by simp [gone]),ih whole]
  | item blankBefore blankBehind rest ih =>
    obtain ⟨⟨solid,some⟩,others⟩ := List.forall_mem_cons.mp whole
    rw [List.map_cons,trim_margins solid blankBefore blankBehind,
      List.filter_cons_of_pos (by simpa using some),ih others]

theorem not_mem {sep : Char} (solid : isBlank sep = false) (free : ∀ item ∈ items, sep ∉ item) :
    ∀ part ∈ parts, sep ∉ part := by
  have other {blanks : List Char} (all : ∀ c ∈ blanks, isBlank c = true) : sep ∉ blanks := by
    intro member
    rw [all sep member] at solid
    cases solid
  induction spread with
  | nil => simp
  | blank all rest ih =>
    rw [List.forall_mem_cons]
    exact ⟨other all,ih free⟩
  | item blankBefore blankBehind rest ih =>
    obtain ⟨item,others⟩ := List.forall_mem_cons.mp free
    rw [List.forall_mem_cons]
    refine ⟨?_,ih others⟩
    rw [List.mem_append,List.mem_append]
    rintro ((before | inside) | behind)
    · exact other blankBefore before
    · exact item inside
    · exact other blankBehind behind

theorem nonempty (some : items ≠ []) : parts ≠ [] := by
  cases spread with
  | nil => exact some
  | blank | item => exact List.cons_ne_nil _ _

end Spread

theorem splitOnce_iff {sep : Char} {cs front back : List Char} :
    splitOnce sep cs = some (front,back) ↔ cs = front ++ sep :: back ∧ sep ∉ front := by
  induction cs generalizing front with
  | nil => simp [splitOnce]
  | cons c cs ih =>
    rw [splitOnce]
    split
    · rename_i same
      subst same
      cases front with
      | nil => simp
      | cons d front =>
        constructor
        · rintro ⟨⟩
        · rintro ⟨whole,free⟩
          exact absurd (List.cons.inj whole).1 (fun same => free (same ▸ List.mem_cons_self))
    · rename_i other
      rw [Option.map_eq_some_iff]
      constructor
      · rintro ⟨⟨before,after⟩,cut,same⟩
        cases same
        obtain ⟨whole,free⟩ := ih.mp cut
        rw [whole,List.mem_cons]
        exact ⟨rfl,not_or.mpr ⟨fun same => other same.symm,free⟩⟩
      · rintro ⟨whole,free⟩
        cases front with
        | nil => exact absurd (List.cons.inj whole).1 other
        | cons d front =>
          obtain ⟨rfl,rest⟩ := List.cons.inj whole
          exact ⟨(front,back),ih.mpr ⟨rest,fun member => free (List.mem_cons_of_mem _ member)⟩,rfl⟩

theorem splitOnce_eq_none {sep : Char} {cs : List Char} : splitOnce sep cs = none ↔ sep ∉ cs := by
  induction cs with
  | nil => simp [splitOnce]
  | cons c cs ih =>
    rw [splitOnce,List.mem_cons,not_or,←ih]
    split
    · rename_i same
      simp [same]
    · rename_i other
      rw [Option.map_eq_none_iff]
      exact ⟨fun none => ⟨fun same => other same.symm,none⟩,And.right⟩

theorem splitLast_append {sep : Char} {front back : List Char} (free : sep ∉ back) :
    splitLast sep (front ++ sep :: back) = some (front,back) := by
  have cut : splitOnce sep (front ++ sep :: back).reverse = some (back.reverse,front.reverse) := by
    refine splitOnce_iff.mpr ⟨?_,fun member => free (List.mem_reverse.mp member)⟩
    rw [List.reverse_append,List.reverse_cons,List.append_assoc,List.singleton_append]
  rw [splitLast,cut,Option.map_some]
  simp only [List.reverse_reverse]

theorem splitLast_none {sep : Char} {cs : List Char} (free : sep ∉ cs) :
    splitLast sep cs = none := by
  have uncut : splitOnce sep cs.reverse = none :=
    splitOnce_eq_none.mpr (fun member => free (List.mem_reverse.mp member))
  rw [splitLast,uncut]
  rfl

theorem splitOn_eq (sep : Char) (cs : List Char) : splitOn sep cs = cs.splitOn sep := by
  induction cs with
  | nil => simp [splitOn]
  | cons c cs ih =>
    have pieces : (c :: cs).splitOn sep = if c = sep then [] :: cs.splitOn sep
        else (cs.splitOn sep).modifyHead (c :: ·) := by
      simp [List.splitOn_eq_splitOnP,List.splitOnP_cons_eq_if_modifyHead]
    rw [pieces,splitOn,ih]
    cases same : cs.splitOn sep with
    | nil => exact absurd same (List.splitOn_ne_nil sep cs)
    | cons piece pieces => rfl

theorem dropReturn_other {line : List Char} (other : line.getLast? ≠ some '\r') :
    dropReturn line = line := by
  unfold dropReturn
  split
  · rename_i front reversed
    refine absurd ?_ other
    rw [←List.head?_reverse,reversed]
    rfl
  · rfl

theorem trim_dropReturn (line : List Char) : trim (dropReturn line) = trim line := by
  unfold dropReturn
  split
  · rename_i front reversed
    have whole : line = front.reverse ++ ['\r'] := by
      rw [←List.reverse_reverse line,reversed,List.reverse_cons]
    rw [whole,trim,trim,trimStart,trimStart,List.dropWhile_append]
    split
    · rename_i gone
      rw [List.isEmpty_iff.mp gone]
      decide
    · rw [trimEnd,trimEnd,List.reverse_append,List.reverse_singleton,List.singleton_append,
        List.dropWhile_cons_of_pos (by decide)]
  · rfl

theorem mem_endLines {line : List Char} {pieces : List (List Char)} (member : line ∈ pieces)
    (some : line ≠ []) : line ∈ endLines pieces ∨ dropReturn line ∈ endLines pieces := by
  induction pieces with
  | nil => cases member
  | cons piece pieces ih =>
    cases pieces with
    | nil =>
      obtain rfl := List.mem_singleton.mp member
      rw [endLines,if_neg (mt List.isEmpty_iff.mp some)]
      exact .inl (List.mem_singleton.mpr rfl)
    | cons next pieces =>
      rw [endLines]
      · rcases List.mem_cons.mp member with rfl | later
        · exact .inr List.mem_cons_self
        · exact (ih later).imp (List.mem_cons_of_mem _) (List.mem_cons_of_mem _)
      · simp

theorem endLines_solid {lines : List (List Char)}
    (solid : ∀ l ∈ lines, l ≠ [] ∧ l.getLast? ≠ some '\r') : endLines lines = lines := by
  induction lines with
  | nil => rfl
  | cons line rest ih =>
    obtain ⟨⟨some,other⟩,solid⟩ := List.forall_mem_cons.mp solid
    cases rest with
    | nil => rw [endLines,if_neg (by simpa using some)]
    | cons next rest => rw [endLines,dropReturn_other other,ih solid]; simp

theorem lines_intercalate {lines : List (List Char)} (whole : ∀ l ∈ lines, '\n' ∉ l)
    (solid : ∀ l ∈ lines, l ≠ [] ∧ l.getLast? ≠ some '\r') :
    Chars.lines (['\n'].intercalate lines) = lines := by
  cases lines with
  | nil => rfl
  | cons line rest =>
    rw [Chars.lines,splitOn_eq,List.splitOn_intercalate '\n' whole (List.cons_ne_nil line rest),
      endLines_solid solid]

theorem not_mem_of_splitOn {sep : Char} {cs piece : List Char} (member : piece ∈ splitOn sep cs) :
    sep ∉ piece := by
  induction cs generalizing piece with
  | nil =>
    rw [List.mem_singleton.mp member]
    exact List.not_mem_nil
  | cons c cs ih =>
    rw [splitOn] at member
    split at member
    · rename_i none
      exact absurd none (splitOn_ne_nil sep cs)
    · rename_i first pieces cut
      rw [cut] at ih
      split at member
      · rcases List.mem_cons.mp member with rfl | later
        · exact List.not_mem_nil
        · exact ih later
      · rename_i other
        rcases List.mem_cons.mp member with rfl | later
        · rw [List.mem_cons,not_or]
          exact ⟨fun same => other same.symm,ih List.mem_cons_self⟩
        · exact ih (List.mem_cons_of_mem _ later)

theorem dropReturn_sublist (line : List Char) : (dropReturn line).Sublist line := by
  unfold dropReturn
  split
  · rename_i front reversed
    rw [←List.reverse_reverse line,reversed,List.reverse_cons]
    exact List.sublist_append_left _ _
  · exact List.Sublist.refl _

theorem trim_sublist (cs : List Char) : (trim cs).Sublist cs := (trim_isInfix cs).sublist

theorem endLines_sublist {pieces : List (List Char)} {line : List Char}
    (member : line ∈ endLines pieces) : ∃ piece ∈ pieces, line.Sublist piece := by
  induction pieces using endLines.induct with
  | case1 => cases member
  | case2 last empty =>
    rw [endLines,if_pos empty] at member
    cases member
  | case3 last some =>
    rw [endLines,if_neg some] at member
    exact ⟨line,member,List.Sublist.refl _⟩
  | case4 piece rest more ih =>
    rw [endLines.eq_3 piece rest more] at member
    rcases List.mem_cons.mp member with rfl | later
    · exact ⟨piece,List.mem_cons_self,dropReturn_sublist piece⟩
    · obtain ⟨other,listed,part⟩ := ih later
      exact ⟨other,List.mem_cons_of_mem _ listed,part⟩

theorem not_mem_of_lines {cs line : List Char} (member : line ∈ lines cs) : '\n' ∉ line := by
  obtain ⟨piece,cut,part⟩ := endLines_sublist member
  exact fun inside => not_mem_of_splitOn cut (part.subset inside)

theorem dropStart?_append (front rest : List Char) :
    dropStart? front (front ++ rest) = some rest := by
  induction front with
  | nil => rfl
  | cons c front ih => rw [List.cons_append,dropStart?,if_pos rfl,ih]

theorem dropStart?_iff {front s rest : List Char} :
    dropStart? front s = some rest ↔ s = front ++ rest := by
  constructor
  · intro given
    induction front generalizing s with
    | nil => exact Option.some.inj given
    | cons c front ih =>
      cases s with
      | nil => cases given
      | cons d s =>
        rw [dropStart?] at given
        split at given
        · rename_i same
          rw [same,ih given]
          rfl
        · cases given
  · rintro rfl
    exact dropStart?_append front rest

theorem dropStart?_absent {front s : List Char} (absent : ∀ rest, s ≠ front ++ rest) :
    dropStart? front s = none := by
  cases given : dropStart? front s with
  | none => rfl
  | some rest => exact absurd (dropStart?_iff.mp given) (absent rest)

end Text.Chars

structure Trimmed (s : String) : Prop where
  some : s ≠ ""
  trimmed : Text.trim s = s

theorem Trimmed.chars {s : String} (t : Trimmed s) : Text.Chars.trim s.toList = s.toList := by
  have same := congrArg String.toList t.trimmed
  rwa [Text.trim,String.toList_ofList] at same

theorem Trimmed.nonempty {s : String} (t : Trimmed s) : s.toList.isEmpty = false := by
  rw [Bool.eq_false_iff,Ne,List.isEmpty_iff]
  intro empty
  exact t.some (String.toList_inj.mp empty)

end TableView
