import TableView.Proofs.Markup.Outline
import TableView.Proofs.Text.Blank

namespace TableView

def Cell.written (c : Cell) : List Char :=
  if c.header then '=' :: c.content.toList else c.content.toList

def Row.written (r : Row) : List Char := '|' :: r.flatMap (fun c => c.written ++ ['|'])

mutual

def Block.written : Block → List (List Char)
  | .table t => t.rows.map Row.written
  | .group children => Line.openingMark :: (writtenLines children ++ [Line.closingMark])
  | .text s => [s.toList]

def writtenLines : List Block → List (List Char)
  | [] => []
  | b :: rest => b.written ++ writtenLines rest

end

def joined (lines : List (List Char)) : String := String.ofList (['\n'].intercalate lines)

-- Every bar has a tilde that takes it, and every tilde has a character to take.
def Row.closed : List Char → Bool
  | [] => true
  | '~' :: [] => false
  | '~' :: _ :: rest => closed rest
  | '|' :: _ => false
  | _ :: rest => closed rest

structure Cell.Writable (c : Cell) : Prop where
  oneLine : '\n' ∉ c.content.toList
  closed : Row.closed c.content.toList = true
  unmarked : c.header = false → c.content.toList.head? ≠ some '='

instance (c : Cell) : Decidable c.Writable :=
  decidable_of_iff ('\n' ∉ c.content.toList ∧ Row.closed c.content.toList = true ∧
      (c.header = false → c.content.toList.head? ≠ some '='))
    ⟨fun ⟨oneLine,closed,unmarked⟩ => ⟨oneLine,closed,unmarked⟩,
      fun ⟨oneLine,closed,unmarked⟩ => ⟨oneLine,closed,unmarked⟩⟩

structure Table.Writable (t : Table) : Prop where
  rows : t.rows ≠ []
  cells : ∀ r ∈ t.rows, r ≠ [] ∧ ∀ c ∈ r, c.Writable

structure WritableText (text : List Char) : Prop where
  nonempty : text ≠ []
  trimmed : Text.Chars.trim text = text
  oneLine : '\n' ∉ text
  noRow : text.head? ≠ some '|'
  noMark : text ≠ Line.openingMark ∧ text ≠ Line.closingMark

def Block.isTable : Block → Bool
  | .table _ => true
  | _ => false

mutual

def Block.Writable : Block → Prop
  | .table t => t.Writable
  | .group children => WritableBlocks children
  | .text s => WritableText s.toList

-- Tables are told apart by what stands between them.
def WritableBlocks : List Block → Prop
  | [] => True
  | b :: rest => b.Writable ∧ (b.isTable = true → ∀ next ∈ rest.head?, next.isTable = false) ∧
      WritableBlocks rest

end

namespace Row

theorem contents_other {c : Char} (noTilde : c ≠ '~') (noBar : c ≠ '|') (cell : List Char)
    (open_ : Bool) (rest : List Char) :
    contents cell open_ (c :: rest) = contents (c :: cell) true rest := by
  rw [contents]
  · rintro rfl
    exact absurd rfl noTilde
  · rintro _ _ rfl
    exact absurd rfl noTilde
  · exact noBar

theorem contents_closed {content : List Char} (whole : closed content = true) (cell : List Char)
    (open_ : Bool) (rest : List Char) :
    contents cell open_ (content ++ '|' :: rest) =
      (cell.reverse ++ content) :: contents [] false rest := by
  induction content using closed.induct generalizing cell open_ with
  | case1 => rw [List.nil_append,contents,List.append_nil]
  | case2 => cases whole
  | case3 c later ih =>
    rw [List.cons_append,List.cons_append,contents,ih whole]
    simp
  | case4 => cases whole
  | case5 c later atEnd taking noBar ih =>
    have noTilde : c ≠ '~' := by
      intro tilde
      cases later with
      | nil => exact atEnd tilde rfl
      | cons d later => exact taking d later tilde rfl
    rw [closed] at whole
    · rw [List.cons_append,contents_other noTilde noBar,ih whole]
      simp
    · exact atEnd
    · exact taking
    · exact noBar

theorem closed_written {c : Cell} (content : closed c.content.toList = true) :
    closed c.written = true := by
  rw [Cell.written]
  split
  · exact content
  · exact content

theorem contents_whole {cells : List (List Char)} (whole : ∀ cell ∈ cells, closed cell = true)
    (some : cells ≠ []) (open_ : Bool) (behind : List Char) :
    contents [] open_ (cells.flatMap (fun cell => cell ++ ['|']) ++ behind) =
      cells ++ contents [] false behind := by
  induction cells generalizing open_ with
  | nil => exact absurd rfl some
  | cons cell cells ih =>
    obtain ⟨first,others⟩ := List.forall_mem_cons.mp whole
    rw [List.flatMap_cons,List.append_assoc,List.append_assoc,List.singleton_append,
      contents_closed first]
    cases cells with
    | nil => rfl
    | cons next cells =>
      rw [ih others (List.cons_ne_nil _ _)]
      rfl

end Row

theorem Cell.ofChars_written {c : Cell}
    (unmarked : c.header = false → c.content.toList.head? ≠ some '=') :
    Cell.ofChars c.written = c := by
  obtain ⟨header,content⟩ := c
  cases header with
  | true => exact congrArg (Cell.mk true) (String.ofList_toList)
  | false =>
    have other : ∀ rest, content.toList ≠ '=' :: rest := by
      intro rest same
      exact unmarked rfl (by rw [same]; rfl)
    have data : Cell.ofChars content.toList = ⟨false,String.ofList content.toList⟩ := by
      rw [Cell.ofChars]
      exact other
    exact data.trans (congrArg (Cell.mk false) String.ofList_toList)

namespace Row
variable {r : Row} (cells : ∀ c ∈ r, c.Writable)
include cells

theorem ofChars_written (some : r ≠ []) :
    Row.ofChars (r.flatMap (fun c => c.written ++ ['|'])) = r := by
  have whole : ∀ c ∈ r, closed c.written = true :=
    fun c member => closed_written (cells c member).closed
  have back : ∀ c ∈ r, Cell.ofChars c.written = c :=
    fun c member => Cell.ofChars_written (cells c member).unmarked
  have written : r.flatMap (fun c => c.written ++ ['|']) =
      (r.map Cell.written).flatMap (fun cell => cell ++ ['|']) ++ [] := by
    rw [List.flatMap_map,List.append_nil]
  have cut := contents_whole (List.forall_mem_map.mpr whole) (mt List.map_eq_nil_iff.mp some) true []
  have nothing : contents [] false [] = [] := rfl
  rw [Row.ofChars,written,cut,nothing,List.append_nil,List.map_map]
  exact (List.map_congr_left back).trans (List.map_id r)

end Row

theorem Row.written_last (r : Row) : r.written.getLast? = some '|' := by
  rw [Row.written]
  rcases List.eq_nil_or_concat r with rfl | ⟨front,c,rfl⟩
  · rfl
  · rw [List.concat_eq_append,List.flatMap_append,List.flatMap_singleton,←List.append_assoc,
      ←List.cons_append,List.getLast?_concat]

theorem Line.ofChars_row {r : Row} (some : r ≠ []) (cells : ∀ c ∈ r, c.Writable) :
    Line.ofChars r.written = .row r := by
  have bar : ∀ c ∈ Option.some '|', Text.isBlank c = false := by
    intro c here
    cases here
    rfl
  have trimmed : Text.Chars.trim r.written = r.written :=
    Text.Chars.trim_solid_ends bar (by rw [r.written_last]; exact bar)
  rw [Line.ofChars,trimmed,Row.written,Line.ofTrimmed_row,Row.ofChars_written cells some]

theorem Line.ofChars_text {text : List Char} (writable : WritableText text) :
    Line.ofChars text = .text text := by
  rw [Line.ofChars,writable.trimmed]
  exact Line.ofTrimmed_text writable.nonempty writable.noRow writable.noMark

theorem Line.ofChars_mark : Line.ofChars Line.openingMark = .opening ∧
    Line.ofChars Line.closingMark = .closing := by decide

namespace Outline

def readLines (o : Outline) (lines : List (List Char)) : Outline :=
  (lines.map Line.ofChars).foldl add o

theorem readLines_append (o : Outline) (front back : List (List Char)) :
    o.readLines (front ++ back) = (o.readLines front).readLines back := by
  rw [readLines,List.map_append,List.foldl_append]
  rfl

theorem readLines_cons (o : Outline) (line : List Char) (lines : List (List Char)) :
    o.readLines (line :: lines) = (o.add (Line.ofChars line)).readLines lines := rfl

theorem readLines_table (o : Outline) {t : Table} (writable : t.Writable) :
    o.readLines (t.rows.map Row.written) = { o with rows := t.rows.reverse ++ o.rows } := by
  have rows : (t.rows.map Row.written).map Line.ofChars = t.rows.map Line.row := by
    rw [List.map_map]
    refine List.map_congr_left ?_
    intro r member
    obtain ⟨some,cells⟩ := writable.cells r member
    exact Line.ofChars_row some cells
  rw [readLines,rows,foldl_rows]

theorem written_ends {blocks : List Block} (writable : WritableBlocks blocks)
    (apart : ∀ b ∈ blocks.head?, b.isTable = false) :
    ∀ line ∈ ((writtenLines blocks).map Line.ofChars).head?, line.isRow = false := by
  intro line first
  cases blocks with
  | nil => cases first
  | cons b rest =>
    cases b with
    | table t => cases apart _ rfl
    | group children =>
      cases first
      rw [Line.ofChars_mark.1]
      rfl
    | text s =>
      cases first
      rw [Line.ofChars_text writable.1]
      rfl

theorem ended_rows {b : Block} (writable : b.Writable) (apart : b.isTable = false) (o : Outline) :
    (o.readLines b.written).rows = [] := by
  cases b with
  | table t => cases apart
  | group children =>
    rw [Block.written,←List.cons_append,readLines_append,readLines_cons,Line.ofChars_mark.2]
    exact (closeGroup_rows _).trans (endTable_rows _)
  | text s =>
    rw [Block.written,readLines_cons,Line.ofChars_text writable]
    exact o.endTable_rows

mutual

theorem read_written : ∀ (b : Block) {o : Outline}, o.rows = [] → b.Writable →
    (o.readLines b.written).endTable = { o with blocks := b :: o.blocks }
  | .table t,o,clear,writable => by
    have some : ({ o with rows := t.rows.reverse ++ o.rows } : Outline).rows ≠ [] := by
      simp [writable.rows]
    rw [Block.written,readLines_table o writable,endTable,
      if_neg (mt List.isEmpty_iff.mp some)]
    simp [clear]
  | .text s,o,clear,writable => by
    have added : o.readLines [s.toList] = o.addText s.toList := by
      rw [readLines_cons,Line.ofChars_text writable,add,endTable_of_rows clear]
      rfl
    rw [Block.written,added,endTable_of_rows (o := o.addText s.toList) clear,addText,
      String.ofList_toList]
  | .group children,o,clear,writable => by
    have opened : o.add (Line.ofChars Line.openingMark) = o.openGroup := by
      rw [Line.ofChars_mark.1,add,endTable_of_rows clear]
    have inside := read_writtenLines children (o := o.openGroup) clear writable
    have closed := congrArg closeGroup inside
    rw [Block.written,readLines_cons,opened,readLines_append,readLines_cons,Line.ofChars_mark.2]
    change (closeGroup _).endTable = _
    rw [closed]
    simp [openGroup,closeGroup,endTable,clear]

theorem read_writtenLines : ∀ (blocks : List Block) {o : Outline}, o.rows = [] →
    WritableBlocks blocks →
    (o.readLines (writtenLines blocks)).endTable = { o with blocks := blocks.reverse ++ o.blocks }
  | [],o,clear,_ => endTable_of_rows clear
  | b :: rest,o,clear,⟨writable,apart,others⟩ => by
    have first := read_written b clear writable
    have ended : ((o.readLines b.written).readLines (writtenLines rest)).endTable =
        ((o.readLines b.written).endTable.readLines (writtenLines rest)).endTable := by
      cases table : b.isTable with
      | true => exact (foldl_endTable _ (written_ends others (apart table))).symm
      | false => rw [endTable_of_rows (ended_rows writable table o)]
    rw [writtenLines,readLines_append,ended,first,
      read_writtenLines rest (o := { o with blocks := b :: o.blocks }) clear others]
    simp

end

-- To close a group is the same as to leave it open at the end.
theorem finish_closing {o : Outline} (inside : o.around ≠ []) :
    (o.add .closing).finish = o.finish := by
  obtain ⟨outer,around,whole⟩ := List.exists_cons_of_ne_nil inside
  have closed : o.add .closing =
      ⟨[],.group o.endTable.blocks.reverse :: outer,around⟩ := by
    rw [add,closeGroup,endTable_around,whole,endTable_rows]
  rw [closed,finish,endTable_of_rows rfl,finish,endTable_around,whole,closeAll]

theorem finish_closings (k : Nat) (o : Outline) :
    ((List.replicate k Line.closing).foldl add o).finish = o.finish ∨
      .text (String.ofList Line.closingMark) ∈
        ((List.replicate k Line.closing).foldl add o).finish := by
  induction k generalizing o with
  | zero => exact .inl rfl
  | succ k ih =>
    rw [List.replicate_succ,List.foldl_cons]
    by_cases outside : o.around = []
    · have stray : .text (String.ofList Line.closingMark) ∈ (o.add .closing).finish := by
        rw [add,closeGroup,endTable_around,outside,finish,endTable_of_rows (by simp [addText])]
        simp [addText,outside,closeAll]
      rcases ih (o.add .closing) with same | stands
      · exact .inr (same ▸ stray)
      · exact .inr stands
    · rw [←finish_closing outside]
      exact ih _

end Outline

structure Standing (line : List Char) : Prop where
  oneLine : '\n' ∉ line
  solid : line ≠ [] ∧ line.getLast? ≠ some '\r'

theorem WritableText.standing {text : List Char} (writable : WritableText text) :
    Standing text := by
  refine ⟨writable.oneLine,writable.nonempty,?_⟩
  intro last
  have visible := Text.Chars.trim_last text '\r' (by rw [writable.trimmed]; exact last)
  cases visible

theorem Row.written_standing {r : Row} (cells : ∀ c ∈ r, c.Writable) : Standing r.written := by
  refine ⟨?_,List.cons_ne_nil _ _,by rw [r.written_last]; decide⟩
  rw [Row.written,List.mem_cons,List.mem_flatMap,not_or]
  refine ⟨by decide,?_⟩
  rintro ⟨c,member,inside⟩
  have whole := (cells c member).oneLine
  rw [Cell.written] at inside
  split at inside
  all_goals simp [whole] at inside

mutual

theorem Block.written_standing : ∀ b : Block, b.Writable → ∀ line ∈ b.written, Standing line
  | .table t,writable,line,member => by
    obtain ⟨r,listed,rfl⟩ := List.mem_map.mp member
    exact Row.written_standing (writable.cells r listed).2
  | .group children,writable,line,member => by
    rcases List.mem_cons.mp member with rfl | inside
    · exact ⟨by decide,by decide⟩
    rcases List.mem_append.mp inside with inside | last
    · exact writtenLines_standing children writable line inside
    · obtain rfl := List.mem_singleton.mp last
      exact ⟨by decide,by decide⟩
  | .text s,writable,line,member => by
    obtain rfl := List.mem_singleton.mp member
    exact writable.standing

theorem writtenLines_standing : ∀ blocks : List Block, WritableBlocks blocks →
    ∀ line ∈ writtenLines blocks, Standing line
  | [],_,_,member => nomatch member
  | b :: rest,writable,line,member => by
    rcases List.mem_append.mp member with first | later
    · exact Block.written_standing b writable.1 line first
    · exact writtenLines_standing rest writable.2.2 line later

end

theorem WritableBlocks.of_mem {blocks : List Block} (writable : WritableBlocks blocks) {b : Block}
    (member : b ∈ blocks) : b.Writable := by
  induction blocks with
  | nil => cases member
  | cons first rest ih =>
    rcases List.mem_cons.mp member with rfl | later
    · exact writable.1
    · exact ih writable.2.2 later

theorem parse_joined {lines : List (List Char)} (standing : ∀ line ∈ lines, Standing line) :
    Document.parse (joined lines) = (Outline.start.readLines lines).finish := by
  rw [Document.parse,Document.lines,joined,String.toList_ofList,
    Text.Chars.lines_intercalate (fun l member => (standing l member).oneLine)
      (fun l member => (standing l member).solid)]
  rfl

theorem read_document {blocks : List Block} (writable : WritableBlocks blocks) :
    (Outline.start.readLines (writtenLines blocks)).finish = blocks := by
  have read := Outline.read_writtenLines blocks (o := .start) rfl writable
  rw [←Outline.finish_endTable,read]
  simp [Outline.finish,Outline.start,Outline.endTable,Outline.closeAll]

-- A document comes back from its lines. At the end, marks that close groups may be left out, as
-- many of them as there are.
theorem parse_written {blocks : List Block} (writable : WritableBlocks blocks) :
    Document.parse (joined (writtenLines blocks)) = blocks ∧
      ∀ (kept : List (List Char)) (k : Nat),
        writtenLines blocks = kept ++ List.replicate k Line.closingMark →
        Document.parse (joined kept) = blocks := by
  have standing := writtenLines_standing blocks writable
  have whole := read_document writable
  refine ⟨(parse_joined standing).trans whole,?_⟩
  intro kept k cut
  have left : ∀ line ∈ kept, Standing line := by
    intro line member
    exact standing line (by rw [cut]; exact List.mem_append_left _ member)
  have marks : (List.replicate k Line.closingMark).map Line.ofChars =
      List.replicate k Line.closing := by rw [List.map_replicate,Line.ofChars_mark.2]
  rw [cut,Outline.readLines_append,Outline.readLines.eq_def _ (List.replicate k _),marks] at whole
  rw [parse_joined left]
  rcases Outline.finish_closings k (Outline.start.readLines kept) with same | stray
  · exact same.symm.trans whole
  · rw [whole] at stray
    have text : WritableText (String.ofList Line.closingMark).toList := writable.of_mem stray
    rw [String.toList_ofList] at text
    exact absurd rfl text.noMark.2

theorem parse_written_unclosed :
    let t : Table := ⟨[[⟨true,"=a"⟩,⟨false,"b~|~~"⟩],[⟨false,""⟩]]⟩
    let blocks : List Block := [.text "before",.group [.table t,.group []]]
    let kept := ["before","(((","|==a|b~|~~|","||","((("].map String.toList
    WritableBlocks blocks ∧ writtenLines blocks = kept ++ List.replicate 2 Line.closingMark ∧
      Document.parse (joined (writtenLines blocks)) = blocks ∧
      Document.parse (joined kept) = blocks := by
  intro t blocks kept
  have table : t.Writable := ⟨by decide,by decide⟩
  have text : WritableText "before".toList := ⟨by decide,by decide,by decide,by decide,by decide⟩
  have inner : WritableBlocks [.table t,.group []] :=
    ⟨table,by simp [Block.isTable],trivial,by simp,trivial⟩
  have writable : WritableBlocks blocks := ⟨text,by simp [Block.isTable],inner,by simp,trivial⟩
  have cut : writtenLines blocks = kept ++ List.replicate 2 Line.closingMark := by decide
  obtain ⟨whole,unclosed⟩ := parse_written writable
  exact ⟨writable,cut,whole,unclosed kept 2 cut⟩

end TableView
