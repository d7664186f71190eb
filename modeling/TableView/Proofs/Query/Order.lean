import TableView.Query.Matching

namespace TableView.Entry

inductive Standing where
  | dated (seconds : Int)
  | undated (text : String)
  | absent
deriving DecidableEq,Repr

namespace Standing

def compare : Standing → Standing → Ordering
  | dated x,dated y => Ord.compare x y
  | dated _,_ => .lt
  | undated _,dated _ => .gt
  | undated x,undated y => Ord.compare x y
  | undated _,absent => .lt
  | absent,absent => .eq
  | absent,_ => .gt

instance : Std.TransCmp compare where
  eq_swap {a b} := by
    cases a <;> cases b
    case dated.dated => exact Std.OrientedOrd.eq_swap
    case undated.undated => exact Std.OrientedOrd.eq_swap
    all_goals rfl
  isLE_trans {a b c} ab bc := by
    cases a <;> cases b <;> cases c
    case dated.dated.dated => exact Std.TransOrd.isLE_trans ab bc
    case undated.undated.undated => exact Std.TransOrd.isLE_trans ab bc
    all_goals first
      | rfl
      | exact absurd ab Bool.false_ne_true
      | exact absurd bc Bool.false_ne_true

end Standing

def standing (property : String) (e : Entry) : Standing :=
  if e.has property then
    match e.seconds? property with
    | some seconds => .dated seconds
    | none => .undated (e.textOrEmpty property)
  else .absent

-- Two entries without the column are not ordered by it, and their standings are equal.
theorem compareOn_standing (a b : Entry) (property : String) :
    (compareOn a b property).getD .eq =
      (a.standing property).compare (b.standing property) := by
  unfold compareOn standing
  cases a.has property <;> cases b.has property
  · rfl
  · cases b.seconds? property <;> rfl
  · cases a.seconds? property <;> rfl
  · cases a.seconds? property <;> cases b.seconds? property <;> rfl

theorem compareBy_standing (a b : Entry) (key : SortEntry) :
    compareBy a b key =
      if key.descending then (b.standing key.property).compare (a.standing key.property)
      else (a.standing key.property).compare (b.standing key.property) := by
  have ordered := compareOn_standing a b key.property
  have turned : (b.standing key.property).compare (a.standing key.property) =
      ((compareOn a b key.property).getD .eq).swap := by
    rw [ordered]; exact Std.OrientedCmp.eq_swap
  rw [turned,←ordered]
  unfold compareBy
  cases compareOn a b key.property with
  | none => cases key.descending <;> rfl
  | some o => rfl

instance transBy (key : SortEntry) : Std.TransCmp (fun a b => compareBy a b key) where
  eq_swap {a b} := by
    simp only [compareBy_standing]
    split <;> exact Std.OrientedCmp.eq_swap
  isLE_trans {a b c} ab bc := by
    simp only [compareBy_standing] at ab bc ⊢
    split at ab
    · rename_i down
      rw [if_pos down] at bc ⊢
      exact Std.TransCmp.isLE_trans bc ab
    · rename_i up
      rw [if_neg up] at bc ⊢
      exact Std.TransCmp.isLE_trans ab bc

instance transAll (keys : List SortEntry) : Std.TransCmp (fun a b => compareAll a b keys) := by
  induction keys with
  | nil => exact { eq_swap := rfl, isLE_trans := fun _ _ => rfl }
  | cons key rest ih =>
    exact inferInstanceAs (Std.TransCmp
      (compareLex (fun a b => compareBy a b key) (fun a b => compareAll a b rest)))

theorem compareAll_trans (keys : List SortEntry) (a b c : Entry)
    (ab : (compareAll a b keys).isLE = true) (bc : (compareAll b c keys).isLE = true) :
    (compareAll a c keys).isLE = true :=
  (transAll keys).isLE_trans ab bc

theorem compareAll_swap (keys : List SortEntry) (a b : Entry) :
    compareAll b a keys = (compareAll a b keys).swap :=
  (transAll keys).toOrientedCmp.eq_swap

theorem compareAll_total (keys : List SortEntry) (a b : Entry) :
    ((compareAll a b keys).isLE || (compareAll b a keys).isLE) = true := by
  rw [compareAll_swap keys a b]
  cases compareAll a b keys <;> rfl

-- Under any keys the comparison is a total preorder, though a key passes over two entries that do
-- not tell its column, compares dates and texts by different rules, and may go the other way round.
-- Entries that compare equal stand at the same place among all others.
theorem compareAll_preorder (keys : List SortEntry) (a b c : Entry) :
    compareAll a a keys = .eq ∧
    compareAll b a keys = (compareAll a b keys).swap ∧
    (compareAll a b keys ≠ .gt → compareAll b c keys ≠ .gt → compareAll a c keys ≠ .gt) ∧
    (compareAll a b keys = .eq →
      compareAll a c keys = compareAll b c keys ∧ compareAll c a keys = compareAll c b keys) := by
  have total := transAll keys
  have reflexive : Std.ReflCmp (fun a b => compareAll a b keys) := inferInstance
  refine ⟨reflexive.compare_self,compareAll_swap keys a b,?_,?_⟩
  · intro ab bc
    exact Ordering.isLE_iff_ne_gt.mp (compareAll_trans keys a b c
      (Ordering.isLE_iff_ne_gt.mpr ab) (Ordering.isLE_iff_ne_gt.mpr bc))
  · intro equal
    have left : compareAll a c keys = compareAll b c keys := total.congr_left equal
    refine ⟨left,?_⟩
    rw [compareAll_swap keys a c,compareAll_swap keys b c,left]

theorem compareAll_preorder_mixed :
    let keys : List SortEntry := [⟨"1",false⟩,⟨"0",true⟩]
    let dated : Entry := ⟨0,.ofList [("date.0",.number (.integer 5))]⟩
    let undated : Entry := ⟨1,.ofList [("0",.text "x"),("date.0",.text "soon")]⟩
    let absent : Entry := ⟨2,.empty⟩
    compareAll absent undated keys ≠ .gt ∧ compareAll undated dated keys ≠ .gt ∧
      compareAll absent dated keys ≠ .gt := by
  intro keys dated undated absent
  have first : compareAll absent undated keys ≠ .gt := by decide
  have second : compareAll undated dated keys ≠ .gt := by decide
  obtain ⟨_,_,trans,_⟩ := compareAll_preorder keys absent undated dated
  exact ⟨first,second,trans first second⟩

end TableView.Entry
