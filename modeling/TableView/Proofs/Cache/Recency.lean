import Mathlib.Data.List.DropRight
import TableView.Proofs.Cache.Store

namespace TableView.Cache

inductive Operation where
  | put (key value : String)
  | get (key : String)
  | purge
deriving DecidableEq,Repr

def perform (c : Cache) (op : Operation) (now : Time) : Cache :=
  match op with
  | .put key value => c.put key value now
  | .get key => (c.get key now).2
  | .purge => (c.purge now).2

def after (c : Cache) : List (Operation × Time) → Cache
  | [] => c
  | (op,now) :: rest => (c.perform op now).after rest

def Chronological (run : List (Operation × Time)) : Prop := (run.map (·.2)).Pairwise (· ≤ ·)

theorem after_append (c : Cache) (before later : List (Operation × Time)) :
    c.after (before ++ later) = (c.after before).after later := by
  induction before generalizing c with
  | nil => rfl
  | cons step before ih => exact ih _

theorem chronological_last {run : List (Operation × Time)} {op : Operation} {now : Time}
    (ordered : Chronological (run ++ [(op,now)])) :
    Chronological run ∧ ∀ step ∈ run, step.2 ≤ now := by
  rw [Chronological,List.map_append] at ordered
  obtain ⟨before,_,across⟩ := List.pairwise_append.mp ordered
  exact ⟨before,fun step member => across step.2 (List.mem_map_of_mem member) now
    List.mem_cons_self⟩

theorem run_ends (run : List (Operation × Time)) : ∃ asked, ∀ step ∈ run, step.2 ≤ asked := by
  induction run with
  | nil => exact ⟨0,fun _ member => absurd member List.not_mem_nil⟩
  | cons step run ih =>
    obtain ⟨asked,early⟩ := ih
    refine ⟨max step.2 asked,?_⟩
    intro later member
    rcases List.mem_cons.mp member with rfl | member
    · exact Nat.le_max_left ..
    · exact Nat.le_trans (early later member) (Nat.le_max_right ..)

@[simp] theorem perform_maxIdle (c : Cache) (op : Operation) (now : Time) :
    (c.perform op now).maxIdle = c.maxIdle := by
  cases op with
  | get key => exact get_maxIdle ..
  | put | purge => rfl

@[simp] theorem perform_capacity (c : Cache) (op : Operation) (now : Time) :
    (c.perform op now).capacity = c.capacity := by
  cases op with
  | get key => exact get_capacity ..
  | put | purge => rfl

@[simp] theorem after_maxIdle (c : Cache) (run : List (Operation × Time)) :
    (c.after run).maxIdle = c.maxIdle := by
  induction run generalizing c with
  | nil => rfl
  | cons step run ih => exact (ih _).trans (perform_maxIdle ..)

@[simp] theorem after_capacity (c : Cache) (run : List (Operation × Time)) :
    (c.after run).capacity = c.capacity := by
  induction run generalizing c with
  | nil => rfl
  | cons step run ih => exact (ih _).trans (perform_capacity ..)

def used? (c : Cache) (op : Operation) (now : Time) : Option String :=
  match op with
  | .put key _ => some key
  | .get key => if (c.get key now).1.isSome then some key else none
  | .purge => none

def Given (c : Cache) (op : Operation) (new : CacheSlot) : Prop :=
  op = .put new.key new.value ∨
    op = .get new.key ∧ ∃ s ∈ c.slots, s.key = new.key ∧ s.value = new.value

theorem sweep_front (c : Cache) (now : Time) : (c.sweep now).slots <+: c.slots :=
  List.rdropWhile_prefix (c.expired now) (l := c.slots)

-- All that an operation does to the slots: it brings a slot to the front, from where it was or as a
-- new one, it takes out one that has expired, or it does neither. It may also drop slots from the
-- end.
theorem perform_slots (c : Cache) (op : Operation) (now : Time) :
    (∃ new : CacheSlot, new.lastUse = now ∧ c.used? op now = some new.key ∧ c.Given op new ∧
      (c.perform op now).slots <+: new :: c.others new.key) ∨
    (∃ s ∈ c.slots, c.used? op now = none ∧ c.expired now s = true ∧
      (c.perform op now).slots = c.others s.key) ∨
    (c.used? op now = none ∧ (c.perform op now).slots <+: c.slots) := by
  cases op with
  | put key value =>
    refine Or.inl ⟨⟨key,value,now⟩,rfl,rfl,Or.inl rfl,?_⟩
    have swept : (c.sweep now).others key <+: c.others key := (c.sweep_front now).filter _
    exact (List.take_prefix _ _).trans ((List.prefix_cons_inj _).mpr swept)
  | get key =>
    rcases c.get_cases key now with ⟨_,missed⟩ | ⟨s,stored,rfl,gone,missed⟩ |
      ⟨s,stored,rfl,_,hit⟩
    · have same : (c.perform (.get key) now).slots = c.slots := by rw [perform,missed]
      exact Or.inr (Or.inr ⟨by rw [used?,missed]; rfl,same ▸ List.prefix_rfl⟩)
    · exact Or.inr (Or.inl ⟨s,stored,by rw [used?,missed]; rfl,gone,by rw [perform,missed]⟩)
    · have moved : (c.perform (.get s.key) now).slots =
          { s with lastUse := now } :: c.others s.key := by rw [perform,hit]
      exact Or.inl ⟨{ s with lastUse := now },rfl,by rw [used?,hit]; rfl,
        Or.inr ⟨rfl,s,stored,rfl,rfl⟩,moved ▸ List.prefix_rfl⟩
  | purge => exact Or.inr (Or.inr ⟨rfl,c.sweep_front now⟩)

-- Slots with different keys, the latest use first, and no use in the future.
structure InOrder (slots : List CacheSlot) (now : Time) : Prop where
  distinct : (slots.map CacheSlot.key).Nodup
  recent : slots.Pairwise (fun a b => b.lastUse ≤ a.lastUse)
  past : ∀ s ∈ slots, s.lastUse ≤ now

namespace InOrder

theorem sublist {slots fewer : List CacheSlot} {now : Time} (inOrder : InOrder slots now)
    (within : fewer.Sublist slots) : InOrder fewer now :=
  ⟨inOrder.distinct.sublist (within.map _),inOrder.recent.sublist within,
    fun s member => inOrder.past s (within.subset member)⟩

theorem later {slots : List CacheSlot} {now asked : Time} (inOrder : InOrder slots now)
    (late : now ≤ asked) : InOrder slots asked :=
  ⟨inOrder.distinct,inOrder.recent,fun s member => Nat.le_trans (inOrder.past s member) late⟩

theorem use {c : Cache} {new : CacheSlot} (inOrder : InOrder c.slots new.lastUse) :
    InOrder (new :: c.others new.key) new.lastUse := by
  have rest := inOrder.sublist (List.filter_sublist (p := fun s => s.key != new.key))
  refine ⟨List.nodup_cons.mpr ⟨?_,rest.distinct⟩,List.pairwise_cons.mpr ⟨rest.past,rest.recent⟩,
    ?_⟩
  · intro again
    obtain ⟨s,member,same⟩ := List.mem_map.mp again
    have other := (List.mem_filter.mp member).2
    simp [same] at other
  · intro s member
    rcases List.mem_cons.mp member with rfl | old
    · exact Nat.le_refl _
    · exact rest.past s old

end InOrder

structure Kept (c : Cache) (now : Time) : Prop extends InOrder c.slots now where
  fits : c.size ≤ c.capacity

theorem create_kept (maxEntries : Nat) (maxIdle now : Time) :
    (create maxEntries maxIdle).Kept now :=
  ⟨⟨List.nodup_nil,.nil,fun _ member => absurd member List.not_mem_nil⟩,Nat.zero_le _⟩

theorem others_length {c : Cache} {s : CacheSlot} (stored : s ∈ c.slots) :
    (c.others s.key).length < c.size :=
  List.length_filter_lt_length_iff_exists.mpr ⟨s,stored,by simp⟩

theorem perform_fits {c : Cache} (fits : c.size ≤ c.capacity) (op : Operation) (now : Time) :
    (c.perform op now).size ≤ c.capacity := by
  cases op with
  | put key value => exact List.length_take_le _ _
  | get key =>
    rcases c.get_cases key now with ⟨_,missed⟩ | ⟨s,stored,rfl,_,missed⟩ | ⟨s,stored,rfl,_,hit⟩
    · rw [perform,missed]
      exact fits
    · rw [perform,missed]
      exact Nat.le_trans (List.length_filter_le _ _) fits
    · rw [perform,hit]
      exact Nat.le_trans (others_length stored) fits
  | purge => exact Nat.le_trans (c.sweep_front now).length_le fits

theorem perform_kept {c : Cache} {now : Time} (kept : c.Kept now) (op : Operation) :
    (c.perform op now).Kept now := by
  refine ⟨?_,by rw [perform_capacity]; exact perform_fits kept.fits op now⟩
  rcases c.perform_slots op now with ⟨new,rfl,_,_,front⟩ | ⟨s,_,_,_,taken⟩ | ⟨_,front⟩
  · exact kept.toInOrder.use.sublist front.sublist
  · rw [taken]
    exact kept.toInOrder.sublist List.filter_sublist
  · exact kept.toInOrder.sublist front.sublist

theorem after_kept {c : Cache} (start : ∀ now, c.Kept now) {run : List (Operation × Time)}
    (ordered : Chronological run) {asked : Time} (early : ∀ step ∈ run, step.2 ≤ asked) :
    (c.after run).Kept asked := by
  induction run using List.reverseRecOn generalizing asked with
  | nil => exact start asked
  | append_singleton run step ih =>
    obtain ⟨op,now⟩ := step
    obtain ⟨before,past⟩ := chronological_last ordered
    have late : now ≤ asked := early (op,now) (List.mem_append_right _ List.mem_cons_self)
    have kept := perform_kept (ih before past) op
    rw [after_append]
    exact ⟨kept.toInOrder.later late,kept.fits⟩

-- What is dropped from the end, up to the first that stays, is all there is to drop when nothing
-- that goes stands in front of something that stays.
theorem rdropWhile_exact {α : Type} {goes : α → Bool} {l : List α}
    (ordered : l.Pairwise (fun a b => goes b = false → goes a = false)) :
    l.rdropWhile goes = l.filter (fun a => !goes a) := by
  induction l using List.reverseRecOn with
  | nil => rfl
  | append_singleton l last ih =>
    obtain ⟨before,_,across⟩ := List.pairwise_append.mp ordered
    rw [List.rdropWhile_concat,List.filter_append]
    cases ends : goes last with
    | true => simp [ih before,ends]
    | false =>
      have whole : l.filter (fun a => !goes a) = l := by
        refine List.filter_eq_self.mpr ?_
        intro a member
        rw [across a member last List.mem_cons_self ends]
        rfl
      simp [whole,ends]

def unexpired (c : Cache) (now : Time) : Cache :=
  { c with slots := c.slots.filter (fun s => now - s.lastUse ≤ c.maxIdle) }

theorem mem_unexpired {c : Cache} {now : Time} {s : CacheSlot} :
    s ∈ (c.unexpired now).slots ↔ s ∈ c.slots ∧ c.Fresh s.lastUse now := by
  simp [unexpired,Fresh]

theorem sweep_unexpired {c : Cache} {asked : Time} (inOrder : InOrder c.slots asked)
    (now : Time) : c.sweep now = c.unexpired now := by
  have swept : (c.sweep now).slots = (c.unexpired now).slots := by
    refine (rdropWhile_exact (inOrder.recent.imp ?_)).trans (List.filter_congr ?_)
    · intro a b newer stays
      exact not_expired_iff.mpr ((not_expired_iff.mp stays).newer newer)
    · intro s _
      simp only [expired,←Nat.not_le,decide_not,Bool.not_not]
  exact congrArg (fun slots => { c with slots := slots }) swept

theorem purge_unexpired {c : Cache} {asked : Time} (inOrder : InOrder c.slots asked)
    (now : Time) :
    c.purge now = (c.slots.countP (fun s => c.maxIdle < now - s.lastUse),c.unexpired now) := by
  have parts := List.length_eq_countP_add_countP (fun s => decide (c.maxIdle < now - s.lastUse))
    (l := c.slots)
  have live : (c.unexpired now).size =
      c.slots.countP (fun s => ¬ (decide (c.maxIdle < now - s.lastUse)) = true) := by
    rw [List.countP_eq_length_filter]
    exact congrArg List.length (List.filter_congr (fun s _ => by simp))
  rw [purge,sweep_unexpired inOrder]
  refine Prod.ext ?_ rfl
  show c.size - (c.unexpired now).size = _
  rw [live,size]
  omega

-- What a run of a new cache leaves: different keys, no more entries than there is room for, and the
-- entries in the order of their last uses. Whenever it is swept then, exactly the entries that have
-- been idle for too long go, and all others stay as they are and in their order; a payload is
-- stored in front of them.
theorem run_sweeps_exactly (maxEntries : Nat) (maxIdle : Time) (run : List (Operation × Time))
    (ordered : Chronological run) :
    let c := (create maxEntries maxIdle).after run
    (c.slots.map CacheSlot.key).Nodup ∧ c.size ≤ max 1 maxEntries ∧
      (c.slots.map CacheSlot.lastUse).Pairwise (· ≥ ·) ∧
      ∀ now,
        let live := c.slots.filter (fun s => now - s.lastUse ≤ maxIdle)
        c.purge now =
          (c.slots.countP (fun s => maxIdle < now - s.lastUse),{ c with slots := live }) ∧
        c.sweep now = { c with slots := live } ∧
        ∀ key value, c.put key value now = { c with
          slots := (⟨key,value,now⟩ :: live.filter (fun s => s.key != key)).take
            (max 1 maxEntries) } := by
  intro c
  have idle : c.maxIdle = maxIdle := after_maxIdle ..
  have room : c.capacity = max 1 maxEntries := after_capacity ..
  obtain ⟨asked,early⟩ := run_ends run
  have kept : c.Kept asked := after_kept (create_kept maxEntries maxIdle) ordered early
  rw [←idle,←room]
  refine ⟨kept.distinct,kept.fits,List.pairwise_map.mpr kept.recent,?_⟩
  intro now
  have swept : c.sweep now = c.unexpired now := sweep_unexpired kept.toInOrder now
  refine ⟨purge_unexpired kept.toInOrder now,swept,?_⟩
  intro key value
  rw [put,swept]
  rfl

theorem run_sweeps_exactly_found :
    let run : List (Operation × Time) :=
      [(.put "a" "1",0),(.put "b" "2",5),(.get "a",8),(.put "c" "3",9)]
    let c := (create 2 10).after run
    Chronological run ∧ c.slots = [⟨"c","3",9⟩,⟨"a","1",8⟩] ∧
      c.purge 19 = (1,{ c with slots := [⟨"c","3",9⟩] }) := by
  intro run c
  have ordered : Chronological run := show [0,5,8,9].Pairwise (· ≤ ·) by decide
  have slots : c.slots = [⟨"c","3",9⟩,⟨"a","1",8⟩] := by decide
  obtain ⟨_,_,_,swept⟩ := run_sweeps_exactly 2 10 run ordered
  have purged := (swept 19).1
  rw [show (create 2 10).after run = c from rfl,slots] at purged
  exact ⟨ordered,slots,purged⟩

end TableView.Cache
