import Mathlib.Data.List.Dedup
import Mathlib.Data.List.Perm.Subperm
import TableView.Cache.Store

namespace TableView.Cache

def Holds (c : Cache) (key payload : String) : Prop :=
  ∀ s ∈ c.slots, s.key = key → s.value = payload

-- Between two uses of a key its slot only moves back: every slot that overtakes it belongs to a key
-- that was used since, and no two of them to the same key.
def Behind (since : List String) (slot : CacheSlot) (slots : List CacheSlot) : Prop :=
  ∃ front rest, slots = front ++ slot :: rest ∧
    (front.map CacheSlot.key).Nodup ∧ ∀ s ∈ front, s.key ∈ since

def Resident (c : Cache) (key payload : String) (last : Time) (since : List String) : Prop :=
  Behind since ⟨key,payload,last⟩ c.slots

def Fresh (c : Cache) (last now : Time) : Prop := now - last ≤ c.maxIdle

theorem Fresh.earlier {c : Cache} {last now asked : Time} (fresh : c.Fresh last asked)
    (early : now ≤ asked) : c.Fresh last now :=
  Nat.le_trans (Nat.sub_le_sub_right early last) fresh

theorem Fresh.newer {c : Cache} {last next now : Time} (fresh : c.Fresh last now)
    (newer : last ≤ next) : c.Fresh next now :=
  Nat.le_trans (Nat.sub_le_sub_left newer now) fresh

theorem not_expired_iff {c : Cache} {now : Time} {s : CacheSlot} :
    c.expired now s = false ↔ c.Fresh s.lastUse now :=
  decide_eq_false_iff_not.trans Nat.not_lt

theorem get_cases (c : Cache) (key : String) (now : Time) :
    ((∀ s ∈ c.slots, s.key ≠ key) ∧ c.get key now = (none,c)) ∨
    (∃ s ∈ c.slots, s.key = key ∧ c.expired now s = true ∧
      c.get key now = (none,{ c with slots := c.others key })) ∨
    (∃ s ∈ c.slots, s.key = key ∧ c.expired now s = false ∧
      c.get key now =
        (some s.value,{ c with slots := { s with lastUse := now } :: c.others key })) := by
  unfold get
  split
  · rename_i missing
    refine Or.inl ⟨?_,rfl⟩
    intro s stored same
    have passed := List.find?_eq_none.mp missing s stored
    simp [same] at passed
  · rename_i s found
    have stored := List.mem_of_find?_eq_some found
    have named : s.key = key := by simpa using List.find?_some found
    split
    · rename_i gone
      exact Or.inr (Or.inl ⟨s,stored,named,gone,rfl⟩)
    · rename_i fresh
      exact Or.inr (Or.inr ⟨s,stored,named,by simpa using fresh,rfl⟩)

theorem capacity_positive (c : Cache) : 0 < c.capacity := Nat.le_max_left ..

@[simp] theorem get_maxIdle (c : Cache) (key : String) (now : Time) :
    (c.get key now).2.maxIdle = c.maxIdle := by
  rcases c.get_cases key now with ⟨_,found⟩ | ⟨_,_,_,_,found⟩ | ⟨_,_,_,_,found⟩
  all_goals rw [found]

@[simp] theorem get_capacity (c : Cache) (key : String) (now : Time) :
    (c.get key now).2.capacity = c.capacity := by
  rcases c.get_cases key now with ⟨_,found⟩ | ⟨_,_,_,_,found⟩ | ⟨_,_,_,_,found⟩
  all_goals simp only [found,capacity]

theorem mem_others {c : Cache} {key : String} {s : CacheSlot} (member : s ∈ c.others key) :
    s ∈ c.slots := (List.mem_filter.mp member).1

theorem mem_sweep {c : Cache} {now : Time} {s : CacheSlot} (member : s ∈ (c.sweep now).slots) :
    s ∈ c.slots := by
  have reversed := List.mem_reverse.mp member
  exact List.mem_reverse.mp ((List.dropWhile_sublist _).subset reversed)

theorem mem_put {c : Cache} {key value : String} {now : Time} {s : CacheSlot}
    (member : s ∈ (c.put key value now).slots) :
    s = ⟨key,value,now⟩ ∨ s ∈ c.slots ∧ s.key ≠ key := by
  rcases List.mem_cons.mp (List.take_subset _ _ member) with new | old
  · exact Or.inl new
  · have other := (List.mem_filter.mp old).2
    exact Or.inr ⟨mem_sweep (mem_others old),by simpa using other⟩

theorem get_holds {c : Cache} {key payload : String} (holds : c.Holds key payload)
    (other : String) (now : Time) : (c.get other now).2.Holds key payload := by
  rcases c.get_cases other now with ⟨_,missed⟩ | ⟨_,_,_,_,missed⟩ | ⟨s,stored,_,_,hit⟩
  · rw [missed]
    exact holds
  · rw [missed]
    exact fun t member => holds t (mem_others member)
  · rw [hit]
    intro t member same
    rcases List.mem_cons.mp member with rfl | old
    · exact holds s stored same
    · exact holds t (mem_others old) same

theorem put_holds {c : Cache} {key payload : String} (holds : c.Holds key payload)
    {other value : String} (agrees : other = key → value = payload) (now : Time) :
    (c.put other value now).Holds key payload := by
  intro s member same
  rcases mem_put member with rfl | ⟨old,_⟩
  · exact agrees same
  · exact holds s old same

theorem put_holds_self (c : Cache) (key payload : String) (now : Time) :
    (c.put key payload now).Holds key payload := by
  intro s member same
  rcases mem_put member with rfl | ⟨_,other⟩
  · rfl
  · exact absurd same other

theorem behind_front (slot : CacheSlot) (rest : List CacheSlot) :
    Behind [] slot (slot :: rest) :=
  ⟨[],rest,rfl,List.nodup_nil,fun _ member => absurd member List.not_mem_nil⟩

theorem behind_filter {since : List String} {slot : CacheSlot} {slots : List CacheSlot}
    (behind : Behind since slot slots) {key : String} (other : slot.key ≠ key) :
    ∃ front rest, slots.filter (fun s => s.key != key) = front ++ slot :: rest ∧
      (front.map CacheSlot.key).Nodup ∧ ∀ s ∈ front, s.key ∈ since ∧ s.key ≠ key := by
  obtain ⟨front,rest,rfl,distinct,used⟩ := behind
  refine ⟨front.filter (fun s => s.key != key),rest.filter (fun s => s.key != key),?_,?_,?_⟩
  · rw [List.filter_append,List.filter_cons_of_pos (by simpa using other)]
  · exact distinct.sublist (List.filter_sublist.map _)
  · intro s member
    obtain ⟨inFront,differs⟩ := List.mem_filter.mp member
    exact ⟨used s inFront,by simpa using differs⟩

theorem behind_others {since : List String} {slot : CacheSlot} {slots : List CacheSlot}
    (behind : Behind since slot slots) {key : String} (other : slot.key ≠ key) :
    Behind since slot (slots.filter (fun s => s.key != key)) := by
  obtain ⟨front,rest,whole,distinct,used⟩ := behind_filter behind other
  exact ⟨front,rest,whole,distinct,fun s member => (used s member).1⟩

theorem behind_overtaken {since : List String} {slot new : CacheSlot} {slots : List CacheSlot}
    (behind : Behind since slot slots) (other : slot.key ≠ new.key) :
    Behind (since ++ [new.key]) slot (new :: slots.filter (fun s => s.key != new.key)) := by
  obtain ⟨front,rest,whole,distinct,used⟩ := behind_filter behind other
  refine ⟨new :: front,rest,by rw [whole,List.cons_append],?_,?_⟩
  · refine List.nodup_cons.mpr ⟨?_,distinct⟩
    intro member
    obtain ⟨s,inFront,same⟩ := List.mem_map.mp member
    exact (used s inFront).2 same
  · intro s member
    rcases List.mem_cons.mp member with rfl | inFront
    · exact List.mem_append_right _ List.mem_cons_self
    · exact List.mem_append_left _ (used s inFront).1

theorem behind_place {since : List String} {front : List CacheSlot}
    (distinct : (front.map CacheSlot.key).Nodup) (used : ∀ s ∈ front, s.key ∈ since) :
    front.length ≤ since.dedup.length := by
  have within : front.map CacheSlot.key ⊆ since.dedup := by
    intro key member
    obtain ⟨s,inFront,rfl⟩ := List.mem_map.mp member
    exact List.mem_dedup.mpr (used s inFront)
  have bound := (List.subperm_of_subset distinct within).length_le
  rwa [List.length_map] at bound

-- What does not fit is dropped behind the slot when there is room for the keys used since.
theorem behind_take {since : List String} {slot : CacheSlot} {slots : List CacheSlot}
    (behind : Behind since slot slots) {n : Nat} (room : since.dedup.length < n) :
    Behind since slot (slots.take n) := by
  obtain ⟨front,rest,rfl,distinct,used⟩ := behind
  have place := behind_place distinct used
  obtain ⟨k,left⟩ : ∃ k, n - front.length = k + 1 := ⟨n - front.length - 1,by omega⟩
  refine ⟨front,rest.take k,?_,distinct,used⟩
  rw [List.take_append,List.take_of_length_le (by omega),left,List.take_succ_cons]

theorem behind_sweep {since : List String} {slot : CacheSlot} {c : Cache}
    (behind : Behind since slot c.slots) {now : Time} (fresh : c.expired now slot = false) :
    Behind since slot (c.sweep now).slots := by
  obtain ⟨front,rest,whole,distinct,used⟩ := behind
  refine ⟨front,(rest.reverse.dropWhile (c.expired now)).reverse,?_,distinct,used⟩
  have kept (l : List CacheSlot) : (l ++ slot :: front.reverse).dropWhile (c.expired now) =
      l.dropWhile (c.expired now) ++ slot :: front.reverse := by
    induction l with
    | nil => exact List.dropWhile_cons_of_neg (by simp [fresh])
    | cons s l ih =>
      rw [List.cons_append,List.dropWhile_cons,List.dropWhile_cons]
      split
      · exact ih
      · rfl
  show ((c.slots.reverse).dropWhile (c.expired now)).reverse = _
  rw [whole,List.reverse_append,List.reverse_cons,List.append_assoc,List.singleton_append,kept]
  simp

theorem put_resident_self (c : Cache) (key payload : String) (now : Time) :
    (c.put key payload now).Resident key payload now [] :=
  behind_take (behind_front ⟨key,payload,now⟩ _) c.capacity_positive

theorem put_resident {c : Cache} {key payload : String} {last : Time} {since : List String}
    (resident : c.Resident key payload last since) {other : String} (differs : key ≠ other)
    {now : Time} (fresh : c.Fresh last now)
    (room : (since ++ [other]).dedup.length < c.capacity) (value : String) :
    (c.put other value now).Resident key payload last (since ++ [other]) := by
  have swept := behind_sweep resident (not_expired_iff.mpr fresh)
  have overtaken : Behind (since ++ [other]) ⟨key,payload,last⟩
      (⟨other,value,now⟩ :: (c.sweep now).others other) := behind_overtaken swept differs
  exact behind_take overtaken room

theorem get_resident_self {c : Cache} {key payload : String} {now : Time}
    (holds : c.Holds key payload) (hit : (c.get key now).1.isSome = true) :
    (c.get key now).2.Resident key payload now [] := by
  rcases c.get_cases key now with ⟨_,missed⟩ | ⟨_,_,_,_,missed⟩ | ⟨s,stored,named,_,found⟩
  · rw [missed] at hit
    cases hit
  · rw [missed] at hit
    cases hit
  · have slot : (⟨key,payload,now⟩ : CacheSlot) = { s with lastUse := now } := by
      rw [←named,←holds s stored named]
    rw [found,Resident,slot]
    exact behind_front _ _

theorem get_resident {c : Cache} {key payload : String} {last : Time} {since : List String}
    (resident : c.Resident key payload last since) {other : String} (differs : key ≠ other)
    (now : Time) : (c.get other now).2.Resident key payload last
      (if (c.get other now).1.isSome then since ++ [other] else since) := by
  rcases c.get_cases other now with ⟨_,missed⟩ | ⟨_,_,_,_,missed⟩ | ⟨s,_,rfl,_,hit⟩
  · rw [missed]
    exact resident
  · rw [missed]
    exact behind_others resident differs
  · have moved : Behind (since ++ [s.key]) ⟨key,payload,last⟩
        ({ s with lastUse := now } :: c.others s.key) := behind_overtaken resident differs
    rw [hit]
    exact moved

theorem get_of_resident {c : Cache} {key payload : String} {last : Time} {since : List String}
    (resident : c.Resident key payload last since) (unused : key ∉ since) {now : Time}
    (fresh : c.Fresh last now) : (c.get key now).1 = some payload := by
  obtain ⟨front,rest,whole,_,used⟩ := resident
  have found : c.slot? key = some ⟨key,payload,last⟩ := by
    rw [slot?,whole,List.find?_append]
    have passed : front.find? (fun s => s.key == key) = none := by
      refine List.find?_eq_none.mpr ?_
      intro s member same
      have named : s.key = key := by simpa using same
      exact unused (named ▸ used s member)
    rw [passed]
    simp
  rw [get,found]
  have there : c.expired now ⟨key,payload,last⟩ = false := not_expired_iff.mpr fresh
  simp only [there,Bool.false_eq_true,if_false]

theorem last_use {log old back : List (String × Time)} {use : String × Time} {key : String}
    {last : Time} (split : log ++ [use] = old ++ (key,last) :: back) :
    (back = [] ∧ use = (key,last)) ∨
      ∃ front, back = front ++ [use] ∧ log = old ++ (key,last) :: front := by
  rcases List.eq_nil_or_concat back with rfl | ⟨front,u,rfl⟩
  · have ends := List.append_inj_right' split rfl
    exact Or.inl ⟨rfl,(List.cons.inj ends).1⟩
  · rw [List.concat_eq_append,←List.cons_append,←List.append_assoc] at split
    have starts := List.append_inj_left' split rfl
    have ends := (List.cons.inj (List.append_inj_right' split rfl)).1
    refine Or.inr ⟨front,?_,starts⟩
    rw [List.concat_eq_append,ends]

theorem dedup_length_le {a b : List String} (within : a ⊆ b) :
    a.dedup.length ≤ b.dedup.length := by
  have subset : a.dedup ⊆ b.dedup := fun key member =>
    List.mem_dedup.mpr (within (List.mem_dedup.mp member))
  exact (List.subperm_of_subset (List.nodup_dedup a) subset).length_le

-- What a log of uses says of a key at a later time: its slot is there when the last use is not too
-- long ago and few enough other keys were used since.
structure Tracks (c : Cache) (key payload : String) (log : List (String × Time)) (asked : Time) :
    Prop where
  holds : c.Holds key payload
  resident : ∀ old last back, log = old ++ (key,last) :: back → key ∉ back.map (·.1) →
    c.Fresh last asked → (back.map (·.1)).dedup.length < c.capacity →
      c.Resident key payload last (back.map (·.1))

theorem tracks_put_self (c : Cache) (log : List (String × Time)) (key payload : String)
    (now asked : Time) :
    (c.put key payload now).Tracks key payload (log ++ [(key,now)]) asked := by
  refine ⟨c.put_holds_self key payload now,?_⟩
  intro old last back split unused _ _
  rcases last_use split with ⟨rfl,use⟩ | ⟨front,rfl,_⟩
  · cases use
    exact c.put_resident_self key payload now
  · have used : (key,now) ∈ front ++ [(key,now)] := List.mem_append_right _ List.mem_cons_self
    exact absurd (List.mem_map_of_mem used) unused

theorem tracks_start (c : Cache) (key payload : String) (now asked : Time) :
    (c.put key payload now).Tracks key payload [(key,now)] asked :=
  c.tracks_put_self [] key payload now asked

-- One more use: either it is of the key itself, or it comes behind the last use of the key.
theorem tracks_use {c next : Cache} {key payload other : String} {log : List (String × Time)}
    {now asked : Time} (tracks : c.Tracks key payload log asked)
    (idle : next.maxIdle = c.maxIdle) (room : next.capacity = c.capacity)
    (holds : next.Holds key payload)
    (self : other = key → next.Resident key payload now [])
    (overtaken : ∀ last since, key ≠ other → c.Fresh last asked →
      (since ++ [other]).dedup.length < c.capacity → c.Resident key payload last since →
        next.Resident key payload last (since ++ [other])) :
    next.Tracks key payload (log ++ [(other,now)]) asked := by
  refine ⟨holds,?_⟩
  intro old last back split unused fresh few
  rw [Fresh,idle] at fresh
  rw [room] at few
  rcases last_use split with ⟨rfl,use⟩ | ⟨front,rfl,before⟩
  · cases use
    exact self rfl
  · rw [List.map_append] at unused few ⊢
    have differs : key ≠ other := by
      rintro rfl
      exact unused (List.mem_append_right _ List.mem_cons_self)
    have fewer := dedup_length_le (List.subset_append_left (front.map (·.1)) [other])
    have resident := tracks.resident old last front before
      (fun member => unused (List.mem_append_left _ member)) fresh (Nat.lt_of_le_of_lt fewer few)
    exact overtaken last _ differs fresh few resident

theorem tracks_put {c : Cache} {key payload : String} {log : List (String × Time)} {asked : Time}
    (tracks : c.Tracks key payload log asked) {other value : String}
    (agrees : other = key → value = payload) {now : Time} (early : now ≤ asked) :
    (c.put other value now).Tracks key payload (log ++ [(other,now)]) asked := by
  refine tracks_use tracks rfl rfl (put_holds tracks.holds agrees now) ?_ ?_
  · rintro rfl
    rw [agrees rfl]
    exact c.put_resident_self other payload now
  · intro last since differs fresh few resident
    exact put_resident resident differs (fresh.earlier early) few value

theorem tracks_get {c : Cache} {key payload : String} {log : List (String × Time)} {asked : Time}
    (tracks : c.Tracks key payload log asked) (other : String) {now : Time} (early : now ≤ asked) :
    (c.get other now).2.Tracks key payload
      (log ++ (if (c.get other now).1.isSome then [(other,now)] else [])) asked := by
  have holds := get_holds tracks.holds other now
  have moved {last : Time} {since : List String} (differs : key ≠ other)
      (resident : c.Resident key payload last since) := get_resident resident differs now
  split
  · rename_i hit
    simp only [hit,if_true] at moved
    refine tracks_use tracks (get_maxIdle ..) (get_capacity ..) holds ?_ ?_
    · rintro rfl
      exact get_resident_self tracks.holds hit
    · intro last since differs _ _ resident
      exact moved differs resident
  · rename_i miss
    simp only [miss] at moved
    refine ⟨holds,?_⟩
    intro old last back split unused fresh few
    rw [List.append_nil] at split
    rw [Fresh,get_maxIdle] at fresh
    rw [get_capacity] at few
    have resident := tracks.resident old last back split unused fresh few
    have differs : key ≠ other := by
      rintro rfl
      rw [get_of_resident resident unused (Fresh.earlier fresh early)] at miss
      exact miss rfl
    exact moved differs resident

theorem tracks_sweep {c : Cache} {key payload : String} {log : List (String × Time)}
    {asked : Time} (tracks : c.Tracks key payload log asked) {now : Time} (early : now ≤ asked) :
    (c.sweep now).Tracks key payload log asked := by
  refine ⟨fun s member => tracks.holds s (mem_sweep member),?_⟩
  intro old last back split unused fresh few
  exact behind_sweep (tracks.resident old last back split unused fresh few)
    (not_expired_iff.mpr (fresh.earlier early))

end TableView.Cache
