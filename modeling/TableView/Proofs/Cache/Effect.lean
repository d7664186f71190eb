import TableView.Proofs.Cache.Recency

namespace TableView.Cache

structure Looked (c : Cache) (key : String) (now : Time) (next : Cache) : Prop where
  limits : next.maxEntries = c.maxEntries ∧ next.maxIdle = c.maxIdle
  -- No key is new and no value another; what is used is a live entry under the key.
  kept : ∀ new ∈ next.slots, ∃ old ∈ c.slots, new.key = old.key ∧ new.value = old.value ∧
    (new = old ∨ old.key = key ∧ c.Fresh old.lastUse now ∧ new.lastUse = now)
  used : ∀ old ∈ c.slots, old.key = key → c.Fresh old.lastUse now →
    next.slots.head? = some { old with lastUse := now }
  gone : ∀ old ∈ c.slots, old.key ∉ next.slots.map CacheSlot.key →
    old.key = key ∧ ¬c.Fresh old.lastUse now
  others : next.others key = c.others key

structure Stored (c : Cache) (key value : String) (now : Time) (next : Cache) : Prop where
  limits : next.maxEntries = c.maxEntries ∧ next.maxIdle = c.maxIdle
  first : next.slots.head? = some ⟨key,value,now⟩
  -- All other entries are as they were, and in their order.
  kept : (next.others key).Sublist (c.others key)
  gone : ∀ old ∈ c.slots, old.key ∉ next.slots.map CacheSlot.key →
    ¬c.Fresh old.lastUse now ∨
      (c.unexpired now).slots.getLast? = some old ∧ (c.unexpired now).size = c.capacity ∧
        key ∉ (c.unexpired now).slots.map CacheSlot.key ∧
        ∀ s ∈ (c.unexpired now).slots, old.lastUse ≤ s.lastUse

theorem mem_others_iff {c : Cache} {key : String} {s : CacheSlot} :
    s ∈ c.others key ↔ s ∈ c.slots ∧ s.key ≠ key := by
  simp [others]

theorem others_others (c : Cache) (key : String) :
    ({ c with slots := c.others key } : Cache).others key = c.others key := by
  simp [others]

theorem other_named {c : Cache} {key : String} {s : CacheSlot} (stored : s ∈ c.slots)
    (lost : s.key ∉ (c.others key).map CacheSlot.key) : s.key = key := by
  by_contra differs
  exact lost (List.mem_map_of_mem (mem_others_iff.mpr ⟨stored,differs⟩))

theorem get_looked {c : Cache} {asked : Time} (inOrder : InOrder c.slots asked) (key : String)
    (now : Time) : c.Looked key now (c.get key now).2 := by
  have one {s t : CacheSlot} (stored : s ∈ c.slots) (member : t ∈ c.slots)
      (same : t.key = s.key) : t = s :=
    List.inj_on_of_nodup_map inOrder.distinct member stored same
  rcases c.get_cases key now with ⟨absent,missed⟩ | ⟨s,stored,rfl,expired,missed⟩ |
    ⟨s,stored,rfl,live,hit⟩
  · rw [missed]
    refine ⟨⟨rfl,rfl⟩,?_,?_,?_,rfl⟩
    · intro new stored
      exact ⟨new,stored,rfl,rfl,Or.inl rfl⟩
    · intro old stored same
      exact absurd same (absent old stored)
    · intro old stored lost
      exact absurd (List.mem_map_of_mem stored) lost
  · rw [missed]
    have idle : ¬c.Fresh s.lastUse now := by
      intro fresh
      rw [not_expired_iff.mpr fresh] at expired
      cases expired
    refine ⟨⟨rfl,rfl⟩,?_,?_,?_,c.others_others s.key⟩
    · intro new member
      exact ⟨new,mem_others member,rfl,rfl,Or.inl rfl⟩
    · intro old member same fresh
      rw [one stored member same] at fresh
      exact absurd fresh idle
    · intro old member lost
      have same := other_named member lost
      rw [one stored member same]
      exact ⟨rfl,idle⟩
  · rw [hit]
    have fresh : c.Fresh s.lastUse now := not_expired_iff.mp live
    refine ⟨⟨rfl,rfl⟩,?_,?_,?_,?_⟩
    · intro new member
      rcases List.mem_cons.mp member with rfl | other
      · exact ⟨s,stored,rfl,rfl,Or.inr ⟨rfl,fresh,rfl⟩⟩
      · exact ⟨new,mem_others other,rfl,rfl,Or.inl rfl⟩
    · intro old member same _
      rw [one stored member same]
      rfl
    · intro old member lost
      rw [List.map_cons,List.mem_cons,not_or] at lost
      exact absurd (other_named member lost.2) lost.1
    · simp [others]

theorem getLast?_of_not_mem_take {α : Type} {l : List α} {n : Nat} (length : l.length = n + 1)
    {a : α} (member : a ∈ l) (lost : a ∉ l.take n) : l.getLast? = some a := by
  have whole : l.dropLast = l.take n := by rw [List.dropLast_eq_take,length]; rfl
  have nonempty : l ≠ [] := by
    rintro rfl
    cases member
  rw [←whole] at lost
  rw [←List.dropLast_append_getLast nonempty] at member
  rcases List.mem_append.mp member with front | last
  · exact absurd front lost
  · rw [List.getLast?_eq_some_getLast nonempty,List.mem_singleton.mp last]

theorem InOrder.last_least {slots : List CacheSlot} {now : Time} (inOrder : InOrder slots now)
    {old : CacheSlot} (last : slots.getLast? = some old) :
    ∀ s ∈ slots, old.lastUse ≤ s.lastUse := by
  obtain ⟨front,rfl⟩ := List.getLast?_eq_some_iff.mp last
  intro s member
  rcases List.mem_append.mp member with before | self
  · exact (List.pairwise_append.mp inOrder.recent).2.2 s before old List.mem_cons_self
  · rw [List.mem_singleton.mp self]

theorem cut_last {c : Cache} {now : Time} (inOrder : InOrder c.slots now) {room : Nat}
    (fits : c.size ≤ room + 1) {key : String} {old : CacheSlot} (stored : old ∈ c.others key)
    (cut : old ∉ (c.others key).take room) :
    c.slots.getLast? = some old ∧ c.size = room + 1 ∧ key ∉ c.slots.map CacheSlot.key ∧
      ∀ s ∈ c.slots, old.lastUse ≤ s.lastUse := by
  -- There is room for all others when the key has a slot, or when the cache is not full.
  have more : room < (c.others key).length := by
    by_contra few
    rw [List.take_of_length_le (Nat.not_lt.mp few)] at cut
    exact cut stored
  have absent : key ∉ c.slots.map CacheSlot.key := by
    intro named
    obtain ⟨s,member,rfl⟩ := List.mem_map.mp named
    have fewer := others_length member
    omega
  have same : c.others key = c.slots := by
    refine List.filter_eq_self.mpr ?_
    intro s member
    have differs : s.key ≠ key := fun named => absent (named ▸ List.mem_map_of_mem member)
    simpa using differs
  rw [same] at stored cut more
  have full : c.slots.length = room + 1 := Nat.le_antisymm fits more
  have last := getLast?_of_not_mem_take full stored cut
  exact ⟨last,full,absent,inOrder.last_least last⟩

theorem put_stored {c : Cache} {now : Time} (kept : c.Kept now) (key value : String) :
    c.Stored key value now (c.put key value now) := by
  have slots : (c.put key value now).slots =
      (⟨key,value,now⟩ :: (c.unexpired now).others key).take c.capacity := by
    rw [put,sweep_unexpired kept.toInOrder]
  obtain ⟨room,capacity⟩ : ∃ room, c.capacity = room + 1 :=
    ⟨c.capacity - 1,by have := c.capacity_positive; omega⟩
  rw [capacity,List.take_succ_cons] at slots
  have within : (c.unexpired now).slots.Sublist c.slots := List.filter_sublist
  refine ⟨⟨rfl,rfl⟩,by rw [slots]; rfl,?_,?_⟩
  · have others : (c.put key value now).others key =
        (((c.unexpired now).others key).take room).filter (fun s => s.key != key) := by
      rw [others,slots,List.filter_cons_of_neg (by simp)]
    rw [others]
    refine List.filter_sublist.trans ((List.take_sublist _ _).trans ?_)
    exact within.filter _
  · intro old stored lost
    by_cases fresh : c.Fresh old.lastUse now
    · right
      rw [slots,List.map_cons,List.mem_cons,not_or] at lost
      have other : old ∈ (c.unexpired now).others key :=
        mem_others_iff.mpr ⟨mem_unexpired.mpr ⟨stored,fresh⟩,lost.1⟩
      have fits : (c.unexpired now).size ≤ room + 1 := by
        rw [←capacity]
        exact Nat.le_trans within.length_le kept.fits
      rw [capacity]
      exact cut_last (kept.toInOrder.sublist within) fits other
        (fun member => lost.2 (List.mem_map_of_mem member))
    · exact Or.inl fresh

end TableView.Cache
