import TableView.Pattern.Basic
import TableView.Proofs.Text.Blank

namespace TableView.Pattern

open Text.Chars (dropStart? dropStart?_iff)

def ofWord : List Char → Pattern
  | [] => .empty
  | [c] => .one (.single c)
  | c :: d :: word => .seq (.one (.single c)) (ofWord (d :: word))

theorem contains_single {c d : Char} : (CharClass.single c).contains d = true ↔ c = d := by
  rw [CharClass.single,CharClass.contains,Bool.and_eq_true,decide_eq_true_iff,
    decide_eq_true_iff,←Char.toNat_inj]
  omega

theorem follow_nowhere (before : Option Char) (text : List Char) :
    follow before [] none text = none := by
  cases text <;> rfl

theorem follow_single {row next : List Pattern} {c : Char}
    (takes : ∀ place, rowOutcomes place row = [.take (.single c) next]) (before : Option Char)
    (d : Char) (rest : List Char) :
    follow before [row] none (d :: rest) =
      if c = d then follow (some d) [next] none rest else none := by
  have onward : follow before [row] none (d :: rest) =
      follow (some d) (advance d [(.single c,next)]) none rest := by
    simp [follow,takes,survivors]
  rw [onward]
  split
  · rename_i same
    have taken : advance d [(.single c,next)] = [next] := by
      simp [advance,contains_single.mpr same,List.eraseDups_cons]
    rw [taken]
  · rename_i other
    have refused : advance d [(.single c,next)] = [] := by
      simp [advance,mt contains_single.mp other]
    rw [refused,follow_nowhere]

theorem follow_single_end {row next : List Pattern} {c : Char}
    (takes : ∀ place, rowOutcomes place row = [.take (.single c) next]) (before : Option Char) :
    follow before [row] none [] = none := by
  simp [follow,takes,survivors]

-- A match that ends here is found here, and nothing is preferred to it.
theorem follow_passed {row : List Pattern} (passes : ∀ place, rowOutcomes place row = [.pass])
    (before : Option Char) (text : List Char) : follow before [row] none text = some text := by
  cases text <;> simp [follow,passes,survivors]

theorem follow_word (word : List Char) (before : Option Char) (text : List Char) :
    follow before [[ofWord word]] none text = dropStart? word text := by
  induction word using ofWord.induct generalizing before text with
  | case1 =>
    rw [follow_passed (fun _ => rfl)]
    rfl
  | case2 c =>
    have takes (place : Place) : rowOutcomes place [ofWord [c]] = [.take (.single c) []] := rfl
    cases text with
    | nil => exact follow_single_end takes before
    | cons d rest =>
      rw [follow_single takes,dropStart?,follow_passed (fun _ => rfl)]
      rfl
  | case3 c d word ih =>
    have takes (place : Place) :
        rowOutcomes place [ofWord (c :: d :: word)] = [.take (.single c) [ofWord (d :: word)]] := rfl
    cases text with
    | nil => exact follow_single_end takes before
    | cons e rest =>
      rw [follow_single takes,dropStart?,ih]

theorem afterMatch_word {word text rest : List Char} {before : Option Char} :
    afterMatch (ofWord word) before text = some rest ↔ text = word ++ rest := by
  rw [afterMatch,follow_word,dropStart?_iff]

def Unmet (word text : List Char) (places : Nat) : Prop := ∀ i < places, ¬ word <+: text.drop i

theorem unmet_nowhere (word text : List Char) : Unmet word text 0 :=
  fun i small => absurd small (Nat.not_lt_zero i)

-- The pieces of a text beside a word that is looked for from left to right, each time behind the
-- place where it was found before.
inductive Pieces (word : List Char) : List Char → List (List Char) → Prop where
  | last {text : List Char} (unmet : ¬ word <:+: text) : Pieces word text [text]
  | next {front rest : List Char} {pieces : List (List Char)}
      (unmet : Unmet word (front ++ (word ++ rest)) front.length)
      (behind : Pieces word rest pieces) : Pieces word (front ++ (word ++ rest)) (front :: pieces)

section Words
variable {word : List Char} (nonempty : word ≠ [])
include nonempty

theorem afterMatch_shorter {before : Option Char} {text rest : List Char}
    (found : afterMatch (ofWord word) before text = some rest) : rest.length < text.length := by
  have length : 0 < word.length := List.length_pos_iff.mpr nonempty
  rw [afterMatch_word.mp found,List.length_append]
  omega

theorem not_infix_of_unmet {front rest : List Char}
    (unmet : Unmet word (front ++ rest) front.length) : ¬ word <:+: front := by
  rintro ⟨before,behind,rfl⟩
  have length : 0 < word.length := List.length_pos_iff.mpr nonempty
  have place : before.length < (before ++ word ++ behind).length := by
    simp only [List.length_append]
    omega
  refine unmet before.length place ?_
  rw [List.append_assoc,List.append_assoc,List.drop_left]
  exact List.prefix_append _ _

theorem splitFrom_pieces (before : Option Char) (piece : List Char) (fresh : Bool)
    (text : List Char) (unmet : Unmet word (piece.reverse ++ text) piece.length) :
    Pieces word (piece.reverse ++ text) (splitFrom (ofWord word) before piece fresh text) := by
  fun_induction splitFrom (ofWord word) before piece fresh text with
  | case1 before piece fresh text rest found shorter ih =>
    obtain rfl := afterMatch_word.mp found
    rw [←List.length_reverse] at unmet
    exact .next unmet (ih (unmet_nowhere word rest))
  | case2 before piece rest stuck found => exact absurd (afterMatch_shorter nonempty found) stuck
  | case3 before piece fresh rest stuck _ found =>
    exact absurd (afterMatch_shorter nonempty found) stuck
  | case4 before piece rest c text stuck found =>
    exact absurd (afterMatch_shorter nonempty found) stuck
  | case5 before piece fresh rest c text stuck _ found =>
    exact absurd (afterMatch_shorter nonempty found) stuck
  | case6 before piece fresh missed =>
    rw [←List.length_reverse] at unmet
    rw [List.append_nil]
    exact .last (not_infix_of_unmet nonempty unmet)
  | case7 before piece fresh c text missed ih =>
    rw [List.reverse_cons,List.append_assoc,List.singleton_append] at ih
    refine ih (fun i small => ?_)
    -- The only new place is that of the character that has just been passed.
    rcases Nat.lt_succ_iff_lt_or_eq.mp small with earlier | rfl
    · exact unmet i earlier
    · rw [←List.length_reverse,List.drop_left]
      rintro ⟨rest,here⟩
      rw [afterMatch_word.mpr here.symm] at missed
      cases missed

theorem split_pieces (text : List Char) : Pieces word text ((ofWord word).split text) :=
  splitFrom_pieces nonempty none [] false text (unmet_nowhere word text)

theorem Pieces.free {text : List Char} {pieces : List (List Char)}
    (cut : Pieces word text pieces) : ∀ piece ∈ pieces, ¬ word <:+: piece := by
  induction cut with
  | last unmet =>
    rw [List.forall_mem_singleton]
    exact unmet
  | next unmet behind ih =>
    rw [List.forall_mem_cons]
    exact ⟨not_infix_of_unmet nonempty unmet,ih⟩

end Words

theorem Unmet.length_le {word front other rest beyond : List Char}
    (unmet : Unmet word (front ++ (word ++ rest)) front.length)
    (same : front ++ (word ++ rest) = other ++ (word ++ beyond)) : front.length ≤ other.length := by
  refine Nat.le_of_not_lt (fun longer => unmet other.length longer ?_)
  rw [same,List.drop_left]
  exact List.prefix_append _ _

theorem Pieces.unique {word text : List Char} {pieces others : List (List Char)}
    (first : Pieces word text pieces) (second : Pieces word text others) : pieces = others := by
  induction first generalizing others with
  | last unmet =>
    cases second with
    | last _ => rfl
    | next _ _ => exact absurd (List.infix_append' _ _ _) unmet
  | @next front rest pieces unmet behind ih =>
    generalize whole : front ++ (word ++ rest) = text at second
    cases second with
    | last clear =>
      rw [←whole] at clear
      exact absurd (List.infix_append' _ _ _) clear
    | @next other beyond others clear later =>
      have length : front.length = other.length :=
        Nat.le_antisymm (unmet.length_le whole) (clear.length_le whole.symm)
      obtain ⟨rfl,tails⟩ := List.append_inj whole length
      obtain rfl := List.append_cancel_left tails
      rw [ih later]

theorem pieces_joined {c : Char} {word : List Char} {parts : List (List Char)}
    (free : ∀ part ∈ parts, c ∉ part) (some : parts ≠ []) :
    Pieces (c :: word) ((c :: word).intercalate parts) parts := by
  induction parts with
  | nil => exact absurd rfl some
  | cons part parts ih =>
    obtain ⟨clear,others⟩ := List.forall_mem_cons.mp free
    cases parts with
    | nil =>
      rw [List.intercalate_singleton]
      exact .last (fun inside => clear (inside.subset List.mem_cons_self))
    | cons next parts =>
      rw [List.intercalate_cons_cons,List.append_assoc]
      refine .next ?_ (ih others (List.cons_ne_nil _ _))
      intro i small met
      rw [List.drop_append_of_le_length (Nat.le_of_lt small),List.drop_eq_getElem_cons small] at met
      have same := (List.cons_prefix_cons.mp met).1
      exact clear (same ▸ List.getElem_mem small)

theorem split_joined {c : Char} {word : List Char} {parts : List (List Char)}
    (free : ∀ part ∈ parts, c ∉ part) (some : parts ≠ []) :
    (ofWord (c :: word)).split ((c :: word).intercalate parts) = parts :=
  (split_pieces (List.cons_ne_nil c word) _).unique (pieces_joined free some)

end TableView.Pattern
