import TableView.Markup.Document

namespace TableView

namespace Line

def isRow : Line → Bool
  | row _ => true
  | _ => false

theorem ofTrimmed_row (rest : List Char) : ofTrimmed ('|' :: rest) = .row (Row.ofChars rest) := rfl

theorem ofTrimmed_text {line : List Char} (nonempty : line ≠ []) (noRow : line.head? ≠ some '|')
    (noMark : line ≠ openingMark ∧ line ≠ closingMark) : ofTrimmed line = .text line := by
  obtain ⟨c,rest,rfl⟩ := List.exists_cons_of_ne_nil nonempty
  rw [ofTrimmed.eq_def,if_neg noMark.1,if_neg noMark.2]
  split
  · contradiction
  · rename_i same
    rw [same] at noRow
    exact absurd rfl noRow
  · rfl

end Line

namespace Outline

@[simp] theorem endTable_rows (o : Outline) : o.endTable.rows = [] := by
  rw [endTable]
  split
  · rename_i empty
    exact List.isEmpty_iff.mp empty
  · rfl

@[simp] theorem endTable_around (o : Outline) : o.endTable.around = o.around := by
  rw [endTable]
  split <;> rfl

theorem endTable_of_rows {o : Outline} (none : o.rows = []) : o.endTable = o := by
  rw [endTable,none]
  rfl

@[simp] theorem endTable_endTable (o : Outline) : o.endTable.endTable = o.endTable :=
  endTable_of_rows o.endTable_rows

theorem endTable_blocks {o : Outline} (some : o.rows ≠ []) :
    o.endTable.blocks = .table ⟨o.rows.reverse⟩ :: o.blocks := by
  rw [endTable,if_neg (mt List.isEmpty_iff.mp some)]

@[simp] theorem finish_endTable (o : Outline) : o.endTable.finish = o.finish := by
  rw [finish,endTable_endTable,finish]

theorem closeGroup_rows (o : Outline) : o.closeGroup.rows = o.rows := by
  rw [closeGroup]
  split <;> rfl

theorem add_endTable (o : Outline) {line : Line} (other : line.isRow = false) :
    o.endTable.add line = o.add line := by
  cases line with
  | row r => cases other
  | opening | closing | text | blank => simp only [add,endTable_endTable]

theorem foldl_rows (o : Outline) (rows : List Row) :
    (rows.map Line.row).foldl add o = { o with rows := rows.reverse ++ o.rows } := by
  induction rows generalizing o with
  | nil => rfl
  | cons r rows ih =>
    rw [List.map_cons,List.foldl_cons,ih,add,List.reverse_cons,List.append_assoc]
    rfl

-- Unless more rows follow, it makes no difference whether a table has been ended.
theorem foldl_endTable (o : Outline) {lines : List Line}
    (ended : ∀ line ∈ lines.head?, line.isRow = false) :
    (lines.foldl add o.endTable).endTable = (lines.foldl add o).endTable := by
  cases lines with
  | nil => exact o.endTable_endTable
  | cons line lines => rw [List.foldl_cons,add_endTable o (ended line rfl),List.foldl_cons]

theorem finish_foldl_endTable (o : Outline) {lines : List Line}
    (ended : ∀ line ∈ lines.head?, line.isRow = false) :
    (lines.foldl add o.endTable).finish = (lines.foldl add o).finish := by
  rw [←finish_endTable,foldl_endTable o ended,finish_endTable]

end Outline

end TableView
