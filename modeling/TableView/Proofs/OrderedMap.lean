import Mathlib.Data.List.Forall2
import Mathlib.Data.List.Nodup
import TableView.OrderedMap

namespace TableView.OrderedMap

section Pairs

variable {α : Type u} {β : Type v} [BEq α]

theorem find?_cons (p : α × β) (pairs : List (α × β)) (key : α) :
    find? (p :: pairs) key = if p.1 == key then some p.2 else find? pairs key := by
  rw [find?,List.find?_cons]
  cases p.1 == key <;> rfl

theorem find?_append (front back : List (α × β)) (key : α) :
    find? (front ++ back) key = (find? front key).or (find? back key) := by
  induction front with
  | nil => rfl
  | cons p front ih =>
    rw [List.cons_append,find?_cons,find?_cons,ih]
    split <;> rfl

variable [LawfulBEq α]

theorem mem_of_find? {pairs : List (α × β)} {key : α} {value : β}
    (found : find? pairs key = some value) : (key,value) ∈ pairs := by
  induction pairs with
  | nil => cases found
  | cons p pairs ih =>
    rw [find?_cons] at found
    split at found
    · rename_i same
      cases found
      exact eq_of_beq same ▸ List.mem_cons_self
    · exact List.mem_cons_of_mem _ (ih found)

theorem find?_eq_none {pairs : List (α × β)} {key : α} :
    find? pairs key = none ↔ key ∉ pairs.map (·.1) := by
  induction pairs with
  | nil => simp [find?]
  | cons p pairs ih =>
    rw [find?_cons,List.map_cons,List.mem_cons]
    by_cases same : p.1 = key
    · simp [same]
    · simp [same,Ne.symm same,ih]

theorem find?_of_mem {pairs : List (α × β)} (distinct : (pairs.map (·.1)).Nodup) {key : α}
    {value : β} (member : (key,value) ∈ pairs) : find? pairs key = some value := by
  induction pairs with
  | nil => cases member
  | cons p pairs ih =>
    rw [List.map_cons,List.nodup_cons] at distinct
    rw [find?_cons]
    rcases List.mem_cons.mp member with rfl | inRest
    · rw [if_pos BEq.rfl]
    · have other : p.1 ≠ key := by
        rintro rfl
        exact distinct.1 (List.mem_map.mpr ⟨_,inRest,rfl⟩)
      rw [if_neg (by simp [other])]
      exact ih distinct.2 inRest

end Pairs

variable {α : Type u} {β : Type v} [Ord α]

theorem keys_nodup [Std.LawfulEqOrd α] {pairs : List (α × β)} (ascending : Ascending pairs) :
    (pairs.map (·.1)).Nodup := by
  refine List.pairwise_map.mpr (ascending.imp ?_)
  rintro a b less same
  rw [same,Std.ReflOrd.compare_self] at less
  cases less

theorem ext_perm [Std.TransOrd α] {m n : OrderedMap α β} (perm : m.toList.Perm n.toList) : m = n := by
  apply ext
  refine perm.eq_of_pairwise ?_ m.ascending n.ascending
  intro a b _ _ less more
  rw [Std.OrientedCmp.gt_of_lt less] at more
  cases more

variable [Std.LawfulEqOrd α]

theorem toList_nodup (m : OrderedMap α β) : m.toList.Nodup :=
  List.Nodup.of_map _ (keys_nodup m.ascending)

variable [BEq α] [LawfulBEq α]

theorem mem_toList {m : OrderedMap α β} {key : α} {value : β} :
    (key,value) ∈ m.toList ↔ m.get? key = some value :=
  ⟨find?_of_mem (keys_nodup m.ascending),mem_of_find?⟩

variable [Std.TransOrd α]

theorem find?_place (key other : α) (value : β) (pairs : List (α × β)) :
    find? (place key value pairs) other =
      if key == other then some value else find? pairs other := by
  induction pairs with
  | nil => exact find?_cons _ _ _
  | cons p pairs ih =>
    rw [place]
    split
    · exact find?_cons _ _ _
    · rename_i equal
      have same := Std.LawfulEqOrd.eq_of_compare equal
      rw [find?_cons,find?_cons,←same]
      split <;> rfl
    · rename_i greater
      have differ : key ≠ p.1 := by
        rintro rfl
        rw [Std.ReflOrd.compare_self] at greater
        cases greater
      rw [find?_cons,ih,find?_cons]
      by_cases front : p.1 = other
      · simp [front,front ▸ differ]
      · simp [front]

theorem get?_insert (m : OrderedMap α β) (key other : α) (value : β) :
    (m.insert key value).get? other = if key == other then some value else m.get? other :=
  find?_place key other value m.toList

theorem ext_get? {m n : OrderedMap α β} (same : ∀ key, m.get? key = n.get? key) : m = n := by
  refine ext_perm ((List.perm_ext_iff_of_nodup m.toList_nodup n.toList_nodup).mpr ?_)
  rintro ⟨key,value⟩
  rw [mem_toList,mem_toList,same]

theorem get?_insert_self (m : OrderedMap α β) (key : α) (value : β) :
    (m.insert key value).get? key = some value := by
  rw [get?_insert,if_pos BEq.rfl]

theorem get?_insert_other (m : OrderedMap α β) {key other : α} (differ : key ≠ other)
    (value : β) : (m.insert key value).get? other = m.get? other := by
  rw [get?_insert,if_neg (by simp [differ])]

theorem insert_insert (m : OrderedMap α β) (key : α) (value last : β) :
    (m.insert key value).insert key last = m.insert key last := by
  apply ext_get?
  intro other
  simp only [get?_insert]
  split <;> rfl

theorem insert_comm (m : OrderedMap α β) {key other : α} (differ : key ≠ other)
    (value last : β) : (m.insert key value).insert other last =
      (m.insert other last).insert key value := by
  apply ext_get?
  intro wanted
  simp only [get?_insert]
  by_cases first : key = wanted
  · subst first
    simp [Ne.symm differ]
  · simp [first]

theorem get?_foldl_insert (pairs : List (α × β)) (m : OrderedMap α β) (key : α) :
    (pairs.foldl (fun m p => m.insert p.1 p.2) m).get? key =
      (find? pairs.reverse key).or (m.get? key) := by
  induction pairs generalizing m with
  | nil => rfl
  | cons p pairs ih =>
    rw [List.foldl_cons,ih,get?_insert,List.reverse_cons,find?_append,find?_cons]
    cases find? pairs.reverse key with
    | some value => rfl
    | none => cases p.1 == key <;> rfl

theorem mem_of_mem_ofList {pairs : List (α × β)} {p : α × β}
    (member : p ∈ (ofList pairs).toList) : p ∈ pairs := by
  have empty : (empty : OrderedMap α β).get? p.1 = none := rfl
  rw [mem_toList,ofList,get?_foldl_insert,empty,Option.or_none] at member
  exact List.mem_reverse.mp (mem_of_find? member)

theorem get?_ofList {pairs : List (α × β)} (distinct : (pairs.map (·.1)).Nodup) (key : α) :
    (ofList pairs).get? key = find? pairs key := by
  have empty : (empty : OrderedMap α β).get? key = none := rfl
  rw [ofList,get?_foldl_insert,empty,Option.or_none]
  cases found : find? pairs key with
  | none =>
    rw [find?_eq_none,List.map_reverse,List.mem_reverse]
    exact find?_eq_none.mp found
  | some value =>
    refine find?_of_mem ?_ (List.mem_reverse.mpr (mem_of_find? found))
    rw [List.map_reverse]
    exact List.nodup_reverse.mpr distinct

theorem ofList_perm {pairs : List (α × β)} (distinct : (pairs.map (·.1)).Nodup) :
    (ofList pairs).toList.Perm pairs := by
  refine (List.perm_ext_iff_of_nodup (toList_nodup _) (List.Nodup.of_map _ distinct)).mpr ?_
  rintro ⟨key,value⟩
  rw [mem_toList,get?_ofList distinct]
  exact ⟨mem_of_find?,find?_of_mem distinct⟩

theorem ofList_toList (m : OrderedMap α β) : ofList m.toList = m :=
  ext_perm (ofList_perm (keys_nodup m.ascending))

section Along

omit [BEq α] [LawfulBEq α]

variable {γ : Type w} {R : β → γ → Prop}

def Along (R : β → γ → Prop) : List (α × β) → List (α × γ) → Prop :=
  List.Forall₂ (fun p q => p.1 = q.1 ∧ R p.2 q.2)

omit [Std.LawfulEqOrd α] [Std.TransOrd α] in
theorem place_along {pairs : List (α × β)} {others : List (α × γ)} (along : Along R pairs others)
    (key : α) {value : β} {other : γ} (one : R value other) :
    Along R (place key value pairs) (place key other others) := by
  induction along with
  | nil => exact .cons ⟨rfl,one⟩ .nil
  | @cons p q pairs others same rest ih =>
    rw [place,place,same.1]
    split
    · exact .cons ⟨rfl,one⟩ (.cons same rest)
    · exact .cons ⟨rfl,one⟩ rest
    · exact .cons same ih

theorem ofList_along {pairs : List (α × β)} {others : List (α × γ)}
    (along : Along R pairs others) : Along R (ofList pairs).toList (ofList others).toList := by
  have run {m : OrderedMap α β} {n : OrderedMap α γ} (start : Along R m.toList n.toList) :
      Along R (pairs.foldl (fun m p => m.insert p.1 p.2) m).toList
        (others.foldl (fun n q => n.insert q.1 q.2) n).toList := by
    induction along generalizing m n with
    | nil => exact start
    | @cons p q pairs others same rest ih =>
      rw [List.foldl_cons,List.foldl_cons]
      apply ih
      rw [toList_insert,toList_insert,same.1]
      exact place_along start q.1 same.2
  exact run .nil

end Along

end TableView.OrderedMap
