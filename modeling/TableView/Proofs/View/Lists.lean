import TableView.Proofs.Pattern.Split
import TableView.View.Parameters

namespace TableView

open Text.Chars (Spread)

namespace Pattern

theorem items_trimmed (p : Pattern) (text : String) : ∀ item ∈ p.items text, Trimmed item := by
  intro item member
  obtain ⟨chars,kept,rfl⟩ := List.mem_map.mp member
  obtain ⟨cut,visible⟩ := List.mem_filter.mp kept
  obtain ⟨piece,_,rfl⟩ := List.mem_map.mp cut
  refine ⟨?_,?_⟩
  · intro empty
    have none : Text.Chars.trim piece = [] := String.ofList_eq_empty_iff.mp empty
    rw [none] at visible
    cases visible
  · rw [Text.trim,String.toList_ofList,Text.Chars.trim_solid_ends (Text.Chars.trim_first piece)
      (Text.Chars.trim_last piece)]

theorem itemChars_spread {p : Pattern} {text : List Char} {items parts : List (List Char)}
    (cut : p.split text = parts) (spread : Spread items parts)
    (whole : ∀ item ∈ items, Text.Chars.trim item = item ∧ item ≠ []) :
    p.itemChars text = items := by
  rw [itemChars,cut,spread.trimmed whole]

section Words
variable {c : Char} {word : List Char}

theorem items_free (text : String) :
    ∀ item ∈ (ofWord (c :: word)).items text, ¬ c :: word <:+: item.toList := by
  intro item member inside
  obtain ⟨chars,kept,rfl⟩ := List.mem_map.mp member
  obtain ⟨piece,cut,rfl⟩ := List.mem_map.mp (List.mem_filter.mp kept).1
  have free := (split_pieces (List.cons_ne_nil c word) text.toList).free (List.cons_ne_nil c word)
  rw [String.toList_ofList] at inside
  exact free piece cut (inside.trans (Text.Chars.trim_isInfix piece))

theorem itemChars_joined (solid : Text.isBlank c = false) {items parts : List (List Char)}
    (spread : Spread items parts)
    (whole : ∀ item ∈ items, Text.Chars.trim item = item ∧ item ≠ [])
    (free : ∀ item ∈ items, c ∉ item) :
    (ofWord (c :: word)).itemChars ((c :: word).intercalate parts) = items := by
  by_cases some : parts = []
  · subst some
    cases spread
    have cut : (ofWord (c :: word)).split ((c :: word).intercalate [[]]) = [[]] :=
      split_joined (by simp) (List.cons_ne_nil _ _)
    exact itemChars_spread cut (.blank (by simp) .nil) whole
  · exact itemChars_spread (split_joined (spread.not_mem solid free) some) spread whole

end Words

end Pattern

def bars : List Char := ['|','|']

theorem standardSeparator_bars : Pattern.ofString? standardSeparator = some (.ofWord bars) := by
  decide

-- Items that are not blank and hold no bar are read back from a list of them, with blanks around
-- them and blank parts beside them. Of any text, the items are not blank, have no blanks at their
-- ends and do not hold two bars in a row.
theorem standardSeparator_items :
    ∃ separator, Pattern.ofString? standardSeparator = some separator ∧
      (∀ (items : List String) (parts : List (List Char)),
        Spread (items.map String.toList) parts →
        (∀ item ∈ items, Trimmed item ∧ '|' ∉ item.toList) →
        separator.items (String.ofList (bars.intercalate parts)) = items) ∧
      ∀ text, ∀ item ∈ separator.items text, Trimmed item ∧ ¬ bars <:+: item.toList := by
  refine ⟨_,standardSeparator_bars,?_,?_⟩
  · intro items parts spread whole
    have read : (Pattern.ofWord bars).itemChars (bars.intercalate parts) =
        items.map String.toList := by
      refine Pattern.itemChars_joined (by decide) spread ?_ ?_
      · intro chars listed
        obtain ⟨item,member,rfl⟩ := List.mem_map.mp listed
        exact ⟨(whole item member).1.chars,
          List.isEmpty_eq_false_iff.mp (whole item member).1.nonempty⟩
      · intro chars listed
        obtain ⟨item,member,rfl⟩ := List.mem_map.mp listed
        exact (whole item member).2
    rw [Pattern.items,String.toList_ofList,read,List.map_map]
    simp
  · intro text item member
    exact ⟨Pattern.items_trimmed _ text item member,Pattern.items_free text item member⟩

theorem standardSeparator_items_formats :
    let text := " ||\t%Y-%m-%d||\u00a0 ||||%d/%m/%Y ||"
    ∃ separator, Pattern.ofString? standardSeparator = some separator ∧
      separator.items text = ["%Y-%m-%d","%d/%m/%Y"] ∧
      "%d/%m/%Y" ∈ separator.items text ∧ Trimmed "%d/%m/%Y" ∧ ¬ bars <:+: "%d/%m/%Y".toList := by
  intro text
  obtain ⟨separator,read,written,plain⟩ := standardSeparator_items
  let items := ["%Y-%m-%d","%d/%m/%Y"]
  let parts := [" ".toList,"\t".toList ++ "%Y-%m-%d".toList ++ [],"\u00a0 ".toList,[],
    [] ++ "%d/%m/%Y".toList ++ " ".toList,[]]
  have blank {cs : List Char} (all : cs.all Text.isBlank = true) :
      ∀ c ∈ cs, Text.isBlank c = true :=
    List.all_eq_true.mp all
  have spread : Spread (items.map String.toList) parts :=
    .blank (blank rfl) (.item (blank rfl) (blank rfl) (.blank (blank rfl)
      (.blank (blank rfl) (.item (blank rfl) (blank rfl) (.blank (blank rfl) .nil)))))
  have whole : ∀ item ∈ items, Trimmed item ∧ '|' ∉ item.toList := by
    rw [List.forall_mem_cons,List.forall_mem_singleton]
    exact ⟨⟨⟨by decide,by decide⟩,by decide⟩,⟨by decide,by decide⟩,by decide⟩
  have joined : text = String.ofList (bars.intercalate parts) := by decide
  have found : separator.items text = items := by
    rw [joined]
    exact written items parts spread whole
  have last : "%d/%m/%Y" ∈ separator.items text := by
    rw [found]
    exact List.mem_of_getLast? rfl
  exact ⟨separator,read,found,last,plain text _ last⟩

end TableView
