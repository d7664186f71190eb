import TableView.Proofs.Text.LowerCase
import TableView.Query.Matching

namespace TableView.Constraint

open Text (Recased)
open Text.LowerCase (Settled)

theorem kind_of (op : Operator) (value : String) : (Constraint.of op value).kind = op := by
  cases op <;> rfl

theorem admits_kind {c : Constraint} (text : c.kind ≠ .between) {property : String} {e : Entry}
    {whole : String} (told : e.text? property = some whole) :
    c.admits property e = textMatches whole c.value c.kind := by
  rw [admits,told]
  cases kind : c.kind with
  | between => exact absurd kind text
  | startsWith | equals | contains => rfl

theorem admits_text {op : Operator} (text : op ≠ .between) {value property : String} {e : Entry}
    {whole : String} (told : e.text? property = some whole) :
    (Constraint.of op value).admits property e = textMatches whole value op := by
  have matched := admits_kind (c := .of op value) (by rwa [kind_of]) told
  rwa [kind_of] at matched

-- A part of a text is found anywhere in it when it is settled there, and at the beginning of it in
-- no other case. A part without a capital sigma is settled in every text.
theorem finds_part (e : Entry) (property y z : String) :
    (∀ x, e.text? property = some (x ++ y ++ z) → Settled x.toList y.toList z.toList →
      (Constraint.of .contains y).admits property e = true) ∧
    (e.text? property = some (y ++ z) →
      ((Constraint.of .startsWith y).admits property e = true ↔ Settled [] y.toList z.toList)) ∧
    (Text.LowerCase.sigma ∉ y.toList → ∀ x : String, Settled x.toList y.toList z.toList) := by
  refine ⟨?_,?_,fun free x => Text.LowerCase.settled_of_not_mem free _ _⟩
  · intro x told settled
    have found := Text.LowerCase.ofChars_infix settled
    rw [admits_text (by decide) told]
    change Text.Chars.occursIn (lower y) (lower (x ++ y ++ z)) = true
    rw [Text.Chars.occursIn_iff,lower,lower,String.toList_append,String.toList_append]
    exact found
  · intro told
    rw [admits_text (by decide) told]
    change (lower y).isPrefixOf (lower (y ++ z)) = true ↔ _
    rw [List.isPrefixOf_iff_prefix,lower,lower,String.toList_append]
    exact Text.LowerCase.ofChars_prefix_iff

theorem finds_part_settled :
    let e : Entry := ⟨0,OrderedMap.ofList [("text.0",.text "abΣc'Σ d")]⟩
    e.text? "0" = some ("ab" ++ "Σc'Σ" ++ " d") ∧
      (Constraint.of .contains "Σc'Σ").admits "0" e = true ∧
      (Constraint.of .startsWith "abΣc").admits "0" e = true := by
  intro e
  have told : e.text? "0" = some ("ab" ++ "Σc'Σ" ++ " d") := by decide
  have start : e.text? "0" = some ("abΣc" ++ "'Σ d") := by decide
  exact ⟨told,(finds_part e "0" "Σc'Σ" " d").1 "ab" told (by decide),
    ((finds_part e "0" "abΣc" "'Σ d").2.1 start).mpr (by decide)⟩

-- A word that goes on behind a sigma does not contain its own beginning up to it.
theorem sigma_not_found :
    let e : Entry := ⟨0,OrderedMap.ofList [("0",.text "aΣb")]⟩
    e.text? "0" = some ("" ++ "aΣ" ++ "b") ∧
      (Constraint.of .contains "aΣ").admits "0" e = false ∧
      (Constraint.of .startsWith "aΣ").admits "0" e = false := by
  decide

theorem textMatches_recased {op : Operator} (lowered : op = .contains ∨ op = .startsWith)
    {text other value respelled : String} (texts : Recased text other)
    (values : Recased value respelled) :
    textMatches text value op = textMatches other respelled op := by
  have sameText : lower text = lower other := texts.ofChars
  have sameValue : lower value = lower respelled := values.ofChars
  rcases lowered with rfl | rfl
  · rw [textMatches,textMatches,sameText,sameValue]
  · rw [textMatches,textMatches,sameText,sameValue]

theorem kind_lowered {op : String} (lowered : op = Operator.contains.name ∨
    op = Operator.startsWith.name ∨ Operator.ofName? op = none) (value : String) :
    (Constraint.mk op value).kind = .contains ∨ (Constraint.mk op value).kind = .startsWith := by
  rcases lowered with rfl | rfl | unknown
  · exact .inl (kind_of .contains value)
  · exact .inr (kind_of .startsWith value)
  · refine .inl ?_
    rw [kind,unknown]
    rfl

-- Whether a constraint on a part or on a beginning is met does not change with the case of basic
-- letters in the text or in the value, whatever other characters stand between them.
theorem admits_recased {op : String} (lowered : op = Operator.contains.name ∨
    op = Operator.startsWith.name ∨ Operator.ofName? op = none)
    {text other value respelled : String} (texts : Recased text other)
    (values : Recased value respelled) {property : String} {e f : Entry}
    (told : e.text? property = some text) (toldOther : f.text? property = some other) :
    (Constraint.mk op value).admits property e = true ↔
      (Constraint.mk op respelled).admits property f = true := by
  have byText (v : String) : (Constraint.mk op v).kind ≠ .between := by
    rcases kind_lowered lowered v with part | beginning
    · simp [part]
    · simp [beginning]
  -- The kind of a constraint does not depend on its value.
  have same : textMatches text value (Constraint.mk op value).kind =
      textMatches other respelled (Constraint.mk op respelled).kind :=
    textMatches_recased (kind_lowered lowered value) texts values
  rw [admits_kind (byText value) told,admits_kind (byText respelled) toldOther,same]

theorem admits_recased_sigma :
    let e : Entry := ⟨0,OrderedMap.ofList [("0",.text "İaΣ.B")]⟩
    let f : Entry := ⟨7,OrderedMap.ofList [("0",.text "shown"),("text.0",.text "İAΣ.b")]⟩
    Operator.ofName? "like" = none ∧ Recased "İaΣ.B" "İAΣ.b" ∧ Recased "Aσ.B" "aσ.b" ∧
      e.text? "0" = some "İaΣ.B" ∧ f.text? "0" = some "İAΣ.b" ∧
      (Constraint.mk "like" "Aσ.B").admits "0" e = true ∧
      (Constraint.mk "like" "aσ.b").admits "0" f = true ∧
      (Constraint.mk "startsWith" "Aσ.B").admits "0" e = false ∧
      (Constraint.mk "startsWith" "aσ.b").admits "0" f = false := by
  intro e f
  have told : e.text? "0" = some "İaΣ.B" := by decide
  have toldOther : f.text? "0" = some "İAΣ.b" := by decide
  have unknown : Operator.ofName? "like" = none := by decide
  have texts : Recased "İaΣ.B" "İAΣ.b" := by decide
  have values : Recased "Aσ.B" "aσ.b" := by decide
  have part : (Constraint.mk "like" "Aσ.B").admits "0" e = true := by decide
  have beginning : (Constraint.mk "startsWith" "Aσ.B").admits "0" e = false := by decide
  have samePart := admits_recased (.inr (.inr unknown)) texts values told toldOther
  have sameBeginning := admits_recased (.inr (.inl rfl)) texts values told toldOther
  exact ⟨unknown,texts,values,told,toldOther,part,samePart.mp part,beginning,
    (Bool.eq_iff_iff.mpr sameBeginning).symm.trans beginning⟩

end TableView.Constraint
