import TableView.Proofs.Markup.Outline
import TableView.View.Render

namespace TableView

mutual

def Block.leaves : Block → List Block
  | .table t => [.table t]
  | .group children => leaves children
  | .text s => [.text s]

def leaves : List Block → List Block
  | [] => []
  | b :: rest => b.leaves ++ leaves rest

end

theorem leaves_append (front back : List Block) :
    leaves (front ++ back) = leaves front ++ leaves back := by
  induction front with
  | nil => rfl
  | cons b front ih => rw [List.cons_append,leaves,ih,leaves,List.append_assoc]

theorem leaves_reverse_cons (b : Block) (blocks : List Block) :
    leaves (b :: blocks).reverse = leaves blocks.reverse ++ b.leaves := by
  rw [List.reverse_cons,leaves_append,leaves,leaves,List.append_nil]

mutual

theorem Block.table?_leaves : ∀ b : Block, b.table? = b.leaves.findSome? Block.table?
  | .table _ | .text _ => by simp [Block.table?,Block.leaves]
  | .group children => firstTable?_leaves children

theorem firstTable?_leaves :
    ∀ blocks : List Block, firstTable? blocks = (leaves blocks).findSome? Block.table?
  | [] => rfl
  | b :: rest => by
    rw [firstTable?,leaves,List.findSome?_append,Block.table?_leaves b,firstTable?_leaves rest]
    cases b.leaves.findSome? Block.table? <;> rfl

end

namespace Document

def trimmedLines (s : String) : List (List Char) :=
  (Text.Chars.lines s.toList).map Text.Chars.trim

def startsRow (line : List Char) : Bool := line.head? = some '|'

def tableOf (run : List (List Char)) : Table := ⟨run.map (fun line => Row.ofChars line.tail)⟩

-- What lines tell when so many groups are open: a table for every run of rows, which ends where the
-- next line is no row, and a text for every other line that is not blank and that does not open or
-- close a group. A line that would close a group where none is open is a text.
def told (depth : Nat) : List (List Char) → List Block
  | [] => []
  | line :: rest =>
    if startsRow line then
      .table (tableOf (line :: rest.takeWhile startsRow)) :: told depth (rest.dropWhile startsRow)
    else if line = Line.openingMark then told (depth + 1) rest
    else if line = Line.closingMark ∧ depth ≠ 0 then told (depth - 1) rest
    else if line = [] then told depth rest
    else .text (String.ofList line) :: told depth rest
termination_by lines => lines.length
decreasing_by
  · exact Nat.lt_succ_of_le (List.dropWhile_sublist _).length_le
  all_goals exact Nat.lt_succ_self _

def firstRun? (lines : List (List Char)) : Option (List (List Char)) :=
  match lines.dropWhile (fun line => !startsRow line) with
  | [] => none
  | rows => some (rows.takeWhile startsRow)

end Document

namespace Line

theorem ofTrimmed_startsRow {line : List Char} (row : Document.startsRow line = true) :
    ofTrimmed line = .row (Row.ofChars line.tail) := by
  rw [Document.startsRow,decide_eq_true_eq] at row
  obtain ⟨rest,rfl⟩ := List.head?_eq_some_iff.mp row
  exact ofTrimmed_row rest

theorem ofTrimmed_other {line : List Char} (other : Document.startsRow line = false) :
    (ofTrimmed line).isRow = false := by
  unfold ofTrimmed
  split
  · rfl
  split
  · rfl
  split
  · rfl
  · cases other
  · rfl

end Line

namespace Outline

def leavesAround : List (List Block) → List Block
  | [] => []
  | outer :: around => leavesAround around ++ leaves outer.reverse

def seen (o : Outline) : List Block := leavesAround o.around ++ leaves o.blocks.reverse

theorem leaves_closeAll (inner : List Block) (around : List (List Block)) :
    leaves (closeAll inner around) = leavesAround around ++ leaves inner.reverse := by
  induction around generalizing inner with
  | nil => rfl
  | cons outer around ih =>
    rw [closeAll,ih,leaves_reverse_cons,Block.leaves,leavesAround,List.append_assoc]

theorem leaves_finish (o : Outline) : leaves o.finish = o.endTable.seen := by
  rw [finish,leaves_closeAll,seen]

theorem seen_addText (o : Outline) (s : List Char) :
    (o.addText s).seen = o.seen ++ [.text (String.ofList s)] := by
  rw [seen,addText,leaves_reverse_cons,←List.append_assoc]
  rfl

theorem seen_openGroup (o : Outline) : o.openGroup.seen = o.seen := by
  rw [seen,openGroup,leavesAround,List.reverse_nil,leaves,List.append_nil]
  rfl

theorem seen_closeGroup {o : Outline} (inside : o.around ≠ []) :
    o.closeGroup.seen = o.seen ∧ o.closeGroup.around.length + 1 = o.around.length := by
  obtain ⟨outer,around,whole⟩ := List.exists_cons_of_ne_nil inside
  simp only [closeGroup,seen,whole,leaves_reverse_cons,Block.leaves,leavesAround]
  exact ⟨(List.append_assoc _ _ _).symm,rfl⟩

theorem closeGroup_outside {o : Outline} (outside : o.around = []) :
    o.closeGroup = o.addText Line.closingMark := by
  rw [closeGroup,outside]

theorem seen_endTable {o : Outline} (some : o.rows ≠ []) :
    o.endTable.seen = o.seen ++ [.table ⟨o.rows.reverse⟩] := by
  rw [seen,endTable_blocks some,endTable_around,leaves_reverse_cons,←List.append_assoc]
  rfl

open Document

theorem foldl_run {o : Outline} (none : o.rows = []) {line : List Char} {run : List (List Char)}
    (rows : ∀ l ∈ line :: run, startsRow l = true) :
    ∃ after : Outline, (((line :: run).map Line.ofTrimmed).foldl add o).endTable = after ∧
      after.rows = [] ∧ after.around = o.around ∧
      after.seen = o.seen ++ [.table (tableOf (line :: run))] := by
  have lines : (line :: run).map Line.ofTrimmed = (tableOf (line :: run)).rows.map Line.row := by
    rw [tableOf,List.map_map]
    exact List.map_congr_left (fun l member => Line.ofTrimmed_startsRow (rows l member))
  refine ⟨_,rfl,endTable_rows _,?_,?_⟩
  · rw [endTable_around,lines,foldl_rows]
  · rw [lines,foldl_rows,none,List.append_nil,seen_endTable (by simp [tableOf]),
      List.reverse_reverse]
    rfl

-- What is read of some lines comes behind what was seen, whatever groups are open. The induction is
-- along the lines as they are told, where a run of rows is one step.
theorem leaves_foldl (depth : Nat) (lines : List (List Char)) {o : Outline} (none : o.rows = [])
    (inside : o.around.length = depth) :
    leaves ((lines.map Line.ofTrimmed).foldl add o).finish = o.seen ++ told depth lines := by
  have ended : o.endTable = o := endTable_of_rows none
  induction depth,lines using told.induct generalizing o with
  | case1 depth =>
    rw [told,List.append_nil,List.map_nil,List.foldl_nil,leaves_finish,ended]
  | case2 depth line rest row ih =>
    have rows : ∀ l ∈ line :: rest.takeWhile startsRow, startsRow l = true :=
      List.forall_mem_cons.mpr ⟨row,List.all_eq_true.mp List.all_takeWhile⟩
    obtain ⟨after,read,clear,around,seen⟩ := foldl_run none rows
    have behind : ∀ l ∈ ((rest.dropWhile startsRow).map Line.ofTrimmed).head?,
        l.isRow = false := by
      intro l first
      have other := List.head?_dropWhile_not startsRow rest
      cases left : rest.dropWhile startsRow with
      | nil => rw [left] at first; cases first
      | cons next later =>
        rw [left] at first other
        cases first
        exact Line.ofTrimmed_other other
    have split : line :: rest = (line :: rest.takeWhile startsRow) ++ rest.dropWhile startsRow := by
      rw [List.cons_append,List.takeWhile_append_dropWhile]
    rw [told,if_pos row]
    calc leaves (((line :: rest).map Line.ofTrimmed).foldl add o).finish
        = leaves (((rest.dropWhile startsRow).map Line.ofTrimmed).foldl add after).finish := by
          rw [split,List.map_append,List.foldl_append,←finish_foldl_endTable _ behind,read]
      _ = after.seen ++ told depth (rest.dropWhile startsRow) :=
          ih clear (by rw [around,inside]) (endTable_of_rows clear)
      _ = _ := by rw [seen,List.append_assoc,List.singleton_append]
  | case3 depth rest other ih =>
    have opened := ih (o := o.openGroup) none (congrArg Nat.succ inside)
      (endTable_of_rows (o := o.openGroup) none)
    rw [seen_openGroup] at opened
    rw [told,if_neg other,if_pos rfl,List.map_cons,List.foldl_cons,←opened]
    have line : o.add (Line.ofTrimmed Line.openingMark) = o.openGroup := congrArg openGroup ended
    rw [line]
  | case4 depth line rest other notOpening closing ih =>
    obtain ⟨rfl,open_⟩ := closing
    have nonempty : o.around ≠ [] := by
      intro empty
      rw [empty] at inside
      exact open_ inside.symm
    obtain ⟨seen,closed⟩ := seen_closeGroup nonempty
    have none : o.closeGroup.rows = [] := by rw [closeGroup_rows,none]
    have later := ih none (by omega) (endTable_of_rows none)
    have line : o.add (Line.ofTrimmed Line.closingMark) = o.closeGroup := congrArg closeGroup ended
    rw [told,if_neg other,if_neg notOpening,if_pos ⟨rfl,open_⟩,List.map_cons,List.foldl_cons,line,
      later,seen]
  | case5 depth rest other notOpening notClosing ih =>
    have line : o.add (Line.ofTrimmed []) = o := ended
    rw [told,if_neg other,if_neg notOpening,if_neg notClosing,if_pos rfl,List.map_cons,
      List.foldl_cons,line]
    exact ih none inside ended
  | case6 depth line rest other notOpening notClosing notEmpty ih =>
    have added : o.add (Line.ofTrimmed line) = o.addText line := by
      by_cases closing : line = Line.closingMark
      · subst closing
        have outside : o.around = [] := by
          refine List.eq_nil_of_length_eq_zero (inside.trans ?_)
          exact Decidable.byContradiction (fun open_ => notClosing ⟨rfl,open_⟩)
        rw [←closeGroup_outside outside]
        exact congrArg closeGroup ended
      · have text := Line.ofTrimmed_text notEmpty (mt decide_eq_true other) ⟨notOpening,closing⟩
        rw [text,add,ended]
    have later := ih (o := o.addText line) none inside (endTable_of_rows (o := o.addText line) none)
    rw [told,if_neg other,if_neg notOpening,if_neg notClosing,if_neg notEmpty,List.map_cons,
      List.foldl_cons,added,later,seen_addText,List.append_assoc,List.singleton_append]

end Outline

namespace Document

theorem firstRun?_row {line : List Char} (row : startsRow line = true) (rest : List (List Char)) :
    firstRun? (line :: rest) = some (line :: rest.takeWhile startsRow) := by
  rw [firstRun?,List.dropWhile_cons_of_neg (by simp [row])]
  dsimp only
  rw [List.takeWhile_cons_of_pos row]

theorem firstRun?_other {line : List Char} (other : ¬ startsRow line = true)
    (rest : List (List Char)) : firstRun? (line :: rest) = firstRun? rest := by
  rw [firstRun?,List.dropWhile_cons_of_pos (by simpa using other),firstRun?]

theorem firstRun?_eq_none_iff {lines : List (List Char)} :
    firstRun? lines = none ↔ ∀ line ∈ lines, line.head? ≠ some '|' := by
  induction lines with
  | nil => exact ⟨fun _ _ member => (List.not_mem_nil member).elim,fun _ => rfl⟩
  | cons line rest ih =>
    rw [List.forall_mem_cons]
    by_cases row : startsRow line = true
    · rw [firstRun?_row row]
      constructor
      · intro none
        cases none
      · intro others
        exact absurd (of_decide_eq_true row) others.1
    · rw [firstRun?_other row,ih]
      exact ⟨fun others => ⟨fun first => row (decide_eq_true first),others⟩,And.right⟩

theorem told_firstTable (depth : Nat) (lines : List (List Char)) :
    (told depth lines).findSome? Block.table? = (firstRun? lines).map tableOf := by
  induction depth,lines using told.induct with
  | case1 depth => rw [told]; rfl
  | case2 depth line rest row ih =>
    rw [told,if_pos row,firstRun?_row row,List.findSome?_cons]
    rfl
  | case3 depth rest other ih => rw [told,if_neg other,if_pos rfl,ih,firstRun?_other other]
  | case4 depth line rest other notOpening closing ih =>
    rw [told,if_neg other,if_neg notOpening,if_pos closing,ih,firstRun?_other other]
  | case5 depth rest other notOpening notClosing ih =>
    rw [told,if_neg other,if_neg notOpening,if_neg notClosing,if_pos rfl,ih,
      firstRun?_other other]
  | case6 depth line rest other notOpening notClosing notEmpty ih =>
    rw [told,if_neg other,if_neg notOpening,if_neg notClosing,if_neg notEmpty,
      List.findSome?_cons,firstRun?_other other,←ih]
    rfl

theorem parse_trimmedLines (s : String) :
    parse s = (((trimmedLines s).map Line.ofTrimmed).foldl Outline.add .start).finish := by
  rw [parse,blocksOf,lines,trimmedLines,List.map_map]
  rfl

theorem leaves_parse (s : String) : leaves (parse s) = told 0 (trimmedLines s) := by
  rw [parse_trimmedLines]
  exact Outline.leaves_foldl 0 (trimmedLines s) rfl rfl

theorem firstTable?_parse (s : String) :
    firstTable? (parse s) = (firstRun? (trimmedLines s)).map tableOf := by
  rw [firstTable?_leaves,leaves_parse,told_firstTable]

end Document

theorem render_firstTable {a b : List Block} (same : firstTable? a = firstTable? b)
    (settings : RenderSettings) (cache : Option Cache) (p : ViewParameters) (now : Time) :
    render settings cache a p now = render settings cache b p now := by
  have parsed : parseTable a p = parseTable b p := by
    simp only [parseTable,normalizeDocument,same]
  rw [render,render,parsed]

open Document in
-- The tables and the texts of a document are those that its lines tell, in their order, and the
-- first table is that of the first run of rows. So a view shows that run only.
theorem parse_tells_runs (s : String) :
    leaves (parse s) = told 0 (trimmedLines s) ∧
      firstTable? (parse s) = (firstRun? (trimmedLines s)).map tableOf ∧
      (firstTable? (parse s) = none ↔ ∀ line ∈ trimmedLines s, line.head? ≠ some '|') ∧
      ∀ other : String, firstRun? (trimmedLines other) = firstRun? (trimmedLines s) →
        ∀ settings cache p now,
          render settings cache (parse other) p now = render settings cache (parse s) p now := by
  refine ⟨leaves_parse s,firstTable?_parse s,?_,?_⟩
  · rw [firstTable?_parse,Option.map_eq_none_iff,firstRun?_eq_none_iff]
  · intro other same settings cache p now
    refine render_firstTable ?_ settings cache p now
    rw [firstTable?_parse,firstTable?_parse,same]

open Document in
theorem parse_tells_runs_unbalanced :
    let s := "(((\n  |a|b\n|=c\n)))\n|d"
    let other := "x\n)))\n|a|b\n |=c\n\n|e\n((("
    firstRun? (trimmedLines other) = firstRun? (trimmedLines s) ∧
      firstTable? (parse s) = some ⟨[[⟨false,"a"⟩,⟨false,"b"⟩],[⟨true,"c"⟩]]⟩ ∧
      render .standard none (parse other) .standard 0 =
        render .standard none (parse s) .standard 0 := by
  intro s other
  obtain ⟨_,table,_,views⟩ := parse_tells_runs s
  have run : firstRun? (trimmedLines s) = some ["|a|b".toList,"|=c".toList] := by decide
  have same : firstRun? (trimmedLines other) = firstRun? (trimmedLines s) := by
    rw [run]
    decide
  refine ⟨same,?_,views other same .standard none .standard 0⟩
  rw [table,run]
  decide

end TableView
