namespace TableView

def Ascending [Ord α] (pairs : List (α × β)) : Prop :=
  pairs.Pairwise (fun a b => compare a.1 b.1 = .lt)

-- Two maps with the same pairs are the same value, so the order in which keys were inserted leaves
-- no trace.
structure OrderedMap (α : Type u) (β : Type v) [Ord α] where
  toList : List (α × β)
  ascending : Ascending toList

namespace OrderedMap

variable {α : Type u} {β : Type v} [Ord α]

@[ext] theorem ext {m n : OrderedMap α β} (h : m.toList = n.toList) : m = n := by
  cases m; cases n; cases h; rfl

instance [DecidableEq α] [DecidableEq β] : DecidableEq (OrderedMap α β) := fun m n =>
  decidable_of_iff (m.toList = n.toList) ⟨ext,fun h => h ▸ rfl⟩

instance [Repr α] [Repr β] : Repr (OrderedMap α β) := ⟨fun m p => reprPrec m.toList p⟩

def empty : OrderedMap α β := ⟨[],List.Pairwise.nil⟩

def keys (m : OrderedMap α β) : List α := m.toList.map (·.1)

def find? [BEq α] (pairs : List (α × β)) (key : α) : Option β :=
  (pairs.find? (fun p => p.1 == key)).map (·.2)

def get? [BEq α] (m : OrderedMap α β) (key : α) : Option β := find? m.toList key

def place (key : α) (value : β) : List (α × β) → List (α × β)
  | [] => [(key,value)]
  | p :: rest =>
    match compare key p.1 with
    | .lt => (key,value) :: p :: rest
    | .eq => (key,value) :: rest
    | .gt => p :: place key value rest

theorem mem_place {key : α} {value : β} {pairs : List (α × β)} {q : α × β}
    (h : q ∈ place key value pairs) : q = (key,value) ∨ q ∈ pairs := by
  induction pairs with
  | nil => exact Or.inl (by simpa [place] using h)
  | cons p rest ih =>
    rw [place] at h
    split at h
    · simpa using h
    · rcases List.mem_cons.1 h with rfl | tail
      · exact Or.inl rfl
      · exact Or.inr (List.mem_cons_of_mem _ tail)
    · rcases List.mem_cons.1 h with rfl | tail
      · exact Or.inr (List.mem_cons_self ..)
      · exact (ih tail).imp_right (List.mem_cons_of_mem _)

theorem place_ascending [Std.LawfulEqOrd α] [Std.TransOrd α] (key : α) (value : β)
    {pairs : List (α × β)} (h : Ascending pairs) : Ascending (place key value pairs) := by
  induction pairs with
  | nil => exact List.pairwise_singleton _ _
  | cons p rest ih =>
    obtain ⟨above,tail⟩ := List.pairwise_cons.1 h
    rw [place]
    split
    · rename_i lt
      refine List.pairwise_cons.2 ⟨fun q hq => ?_,h⟩
      rcases List.mem_cons.1 hq with rfl | inRest
      · exact lt
      · exact Std.TransCmp.lt_trans lt (above q inRest)
    · rename_i eq
      have same := Std.LawfulEqOrd.eq_of_compare eq
      exact List.pairwise_cons.2 ⟨fun q hq => same ▸ above q hq,tail⟩
    · rename_i gt
      refine List.pairwise_cons.2 ⟨fun q hq => ?_,ih tail⟩
      rcases mem_place hq with rfl | inRest
      · exact Std.OrientedCmp.lt_of_gt gt
      · exact above q inRest

variable [Std.LawfulEqOrd α] [Std.TransOrd α]

def insert (m : OrderedMap α β) (key : α) (value : β) : OrderedMap α β :=
  ⟨place key value m.toList,place_ascending key value m.ascending⟩

-- Later pairs win over earlier ones with the same key.
def ofList (pairs : List (α × β)) : OrderedMap α β :=
  pairs.foldl (fun m p => m.insert p.1 p.2) empty

@[simp] theorem toList_insert (m : OrderedMap α β) (key : α) (value : β) :
    (m.insert key value).toList = place key value m.toList := rfl

end OrderedMap

end TableView
