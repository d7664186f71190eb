import TableView.Proofs.Cache.Recency

namespace TableView.Cache

def uses (c : Cache) : List (Operation × Time) → List (String × Time)
  | [] => []
  | (op,now) :: rest =>
    ((c.used? op now).map (fun key => (key,now))).toList ++ (c.perform op now).uses rest

def Operation.stored? (key : String) : Operation → Option String
  | .put other value => if other = key then some value else none
  | _ => none

def latest? (key : String) (run : List (Operation × Time)) : Option String :=
  run.reverse.findSome? (fun step => step.1.stored? key)

def LastUse (log : List (String × Time)) (key : String) (last : Time) (since : List String) :
    Prop :=
  ∃ old back, log = old ++ (key,last) :: back ∧ back.map (·.1) = since ∧ key ∉ since

theorem uses_append (c : Cache) (before later : List (Operation × Time)) :
    c.uses (before ++ later) = c.uses before ++ (c.after before).uses later := by
  induction before generalizing c with
  | nil => rfl
  | cons step before ih =>
    obtain ⟨op,now⟩ := step
    rw [List.cons_append,uses,ih,uses,List.append_assoc]
    rfl

theorem uses_last (c : Cache) (run : List (Operation × Time)) (op : Operation) (now : Time) :
    c.uses (run ++ [(op,now)]) =
      c.uses run ++ (((c.after run).used? op now).map (fun key => (key,now))).toList := by
  rw [uses_append,uses,uses,List.append_nil]

theorem latest?_last (key : String) (run : List (Operation × Time)) (op : Operation) (now : Time) :
    latest? key (run ++ [(op,now)]) = (op.stored? key).or (latest? key run) := by
  rw [latest?,List.reverse_append,List.reverse_singleton,List.singleton_append,
    List.findSome?_cons]
  cases stored : op.stored? key <;> rfl

theorem lastUse_self (log : List (String × Time)) (key : String) (now : Time) :
    LastUse (log ++ [(key,now)]) key now [] :=
  ⟨log,[],rfl,rfl,List.not_mem_nil⟩

theorem lastUse_other {log : List (String × Time)} {key other : String} {last : Time}
    {since : List String} (used : LastUse log key last since) (differs : key ≠ other)
    (now : Time) : LastUse (log ++ [(other,now)]) key last (since ++ [other]) := by
  obtain ⟨old,back,rfl,rfl,latest⟩ := used
  refine ⟨old,back ++ [(other,now)],?_,List.map_append,?_⟩
  · rw [List.append_assoc,List.cons_append]
  · intro member
    rcases List.mem_append.mp member with again | again
    · exact latest again
    · exact differs (List.mem_singleton.mp again)

theorem after_tracks (c : Cache) {key value : String} {run : List (Operation × Time)}
    (stored : latest? key run = some value) {asked : Time}
    (early : ∀ step ∈ run, step.2 ≤ asked) :
    (c.after run).Tracks key value (c.uses run) asked := by
  induction run using List.reverseRecOn generalizing value with
  | nil => cases stored
  | append_singleton run step ih =>
    obtain ⟨op,now⟩ := step
    have late : now ≤ asked := early (op,now) (List.mem_append_right _ List.mem_cons_self)
    have before {v : String} (given : latest? key run = some v) :=
      ih given (fun step member => early step (List.mem_append_left _ member))
    rw [latest?_last] at stored
    rw [after_append,uses_last]
    cases op with
    | put other v =>
      by_cases same : other = key
      · subst same
        rw [Operation.stored?,if_pos rfl] at stored
        cases stored
        exact tracks_put_self _ _ _ _ _ _
      · rw [Operation.stored?,if_neg same] at stored
        exact tracks_put (before stored) (fun named => absurd named same) late
    | get other =>
      have looked := tracks_get (before stored) other late
      simp only [used?,after,perform]
      split at looked
      · rename_i hit
        rw [if_pos hit]
        exact looked
      · rename_i miss
        rw [if_neg miss]
        exact looked
    | purge =>
      have swept := tracks_sweep (before stored) late
      rwa [←List.append_nil (c.uses run)] at swept

-- Every slot tells of the last use of its key. All keys that were used since are in front of it, as
-- long as it has not expired.
def Follows (c : Cache) (log : List (String × Time)) (now : Time) : Prop :=
  ∀ front s rest, c.slots = front ++ s :: rest →
    ∃ since, LastUse log s.key s.lastUse since ∧
      (c.Fresh s.lastUse now → ∀ key ∈ since, key ∈ front.map CacheSlot.key)

theorem follows_later {c : Cache} {log : List (String × Time)} {now asked : Time}
    (follows : c.Follows log now) (early : now ≤ asked) : c.Follows log asked := by
  intro front s rest whole
  obtain ⟨since,used,overtaken⟩ := follows front s rest whole
  exact ⟨since,used,fun fresh => overtaken (fresh.earlier early)⟩

theorem others_split {c : Cache} {key : String} {front rest : List CacheSlot} {s : CacheSlot}
    (split : c.others key = front ++ s :: rest) :
    ∃ before behind, c.slots = before ++ s :: behind ∧
      before.filter (fun s => s.key != key) = front ∧ s.key ≠ key := by
  obtain ⟨before,most,whole,filtered,left⟩ := List.filter_eq_append_iff.mp split
  obtain ⟨gone,behind,rfl,none,differs,_⟩ := List.filter_eq_cons_iff.mp left
  refine ⟨before ++ gone,behind,by rw [whole,List.append_assoc],?_,by simpa using differs⟩
  rw [List.filter_append,filtered,List.filter_eq_nil_iff.mpr none,List.append_nil]

theorem follows_front {c next : Cache} {log : List (String × Time)} {now : Time}
    (follows : c.Follows log now) (idle : next.maxIdle = c.maxIdle)
    (front : next.slots <+: c.slots) : next.Follows log now := by
  obtain ⟨dropped,kept⟩ := front
  intro front s rest whole
  rw [whole,List.append_assoc] at kept
  obtain ⟨since,used,inFront⟩ := follows front s (rest ++ dropped) kept.symm
  exact ⟨since,used,by rwa [Fresh,idle]⟩

theorem follows_use {c next : Cache} {log : List (String × Time)} {new : CacheSlot}
    (follows : c.Follows log new.lastUse) (idle : next.maxIdle = c.maxIdle)
    (front : next.slots <+: new :: c.others new.key) :
    next.Follows (log ++ [(new.key,new.lastUse)]) new.lastUse := by
  obtain ⟨dropped,kept⟩ := front
  intro front s rest whole
  rw [whole,List.append_assoc,List.cons_append] at kept
  cases front with
  | nil =>
    obtain ⟨rfl,_⟩ := List.cons.inj kept
    exact ⟨[],lastUse_self log s.key s.lastUse,fun _ key member => absurd member
      List.not_mem_nil⟩
  | cons first front =>
    obtain ⟨rfl,others⟩ := List.cons.inj kept
    obtain ⟨before,behind,split,filtered,differs⟩ := others_split others.symm
    obtain ⟨since,used,inFront⟩ := follows before s behind split
    refine ⟨since ++ [first.key],lastUse_other used differs first.lastUse,?_⟩
    intro fresh key member
    rw [Fresh,idle] at fresh
    by_cases named : key = first.key
    · rw [named]
      exact List.mem_cons_self
    · have earlier : key ∈ since := by simpa [named] using member
      obtain ⟨t,passed,rfl⟩ := List.mem_map.mp (inFront fresh key earlier)
      rw [←filtered]
      exact List.mem_cons_of_mem _
        (List.mem_map_of_mem (List.mem_filter.mpr ⟨passed,by simpa using named⟩))

-- A slot that has expired is in front of none that has not.
theorem follows_taken {c next : Cache} {log : List (String × Time)} {now : Time}
    (inOrder : InOrder c.slots now) (follows : c.Follows log now)
    (idle : next.maxIdle = c.maxIdle) {gone : CacheSlot} (stored : gone ∈ c.slots)
    (expired : c.expired now gone = true) (taken : next.slots = c.others gone.key) :
    next.Follows log now := by
  intro front s rest whole
  rw [taken] at whole
  obtain ⟨before,behind,split,filtered,_⟩ := others_split whole
  obtain ⟨since,used,inFront⟩ := follows before s behind split
  refine ⟨since,used,?_⟩
  intro fresh key member
  rw [Fresh,idle] at fresh
  obtain ⟨t,passed,rfl⟩ := List.mem_map.mp (inFront fresh key member)
  have recent := inOrder.recent
  rw [split] at recent
  have newer : s.lastUse ≤ t.lastUse :=
    (List.pairwise_append.mp recent).2.2 t passed s List.mem_cons_self
  have other : t.key ≠ gone.key := by
    intro named
    have inSlots : t ∈ c.slots := split ▸ List.mem_append_left _ passed
    have one : t = gone := List.inj_on_of_nodup_map inOrder.distinct inSlots stored named
    have stays : c.expired now t = false := not_expired_iff.mpr (Fresh.newer fresh newer)
    rw [one,expired] at stays
    cases stays
  rw [←filtered]
  exact List.mem_map_of_mem (List.mem_filter.mpr ⟨passed,by simpa using other⟩)

theorem perform_follows {c : Cache} {log : List (String × Time)} {now : Time}
    (inOrder : InOrder c.slots now) (follows : c.Follows log now) (op : Operation) :
    (c.perform op now).Follows
      (log ++ ((c.used? op now).map (fun key => (key,now))).toList) now := by
  have idle : (c.perform op now).maxIdle = c.maxIdle := perform_maxIdle ..
  rcases c.perform_slots op now with ⟨new,rfl,used,_,front⟩ | ⟨gone,stored,unused,expired,taken⟩ |
    ⟨unused,front⟩
  · rw [used]
    exact follows_use follows idle front
  · rw [unused,Option.map_none,Option.toList_none,List.append_nil]
    exact follows_taken inOrder follows idle stored expired taken
  · rw [unused,Option.map_none,Option.toList_none,List.append_nil]
    exact follows_front follows idle front

theorem after_follows (maxEntries : Nat) (maxIdle : Time) {run : List (Operation × Time)}
    (ordered : Chronological run) {asked : Time} (early : ∀ step ∈ run, step.2 ≤ asked) :
    ((create maxEntries maxIdle).after run).Follows ((create maxEntries maxIdle).uses run)
      asked := by
  induction run using List.reverseRecOn generalizing asked with
  | nil => exact fun front s rest whole => absurd whole (by cases front <;> simp [after,create])
  | append_singleton run step ih =>
    obtain ⟨op,now⟩ := step
    obtain ⟨before,past⟩ := chronological_last ordered
    have kept := after_kept (create_kept maxEntries maxIdle) before past
    have late : now ≤ asked := early (op,now) (List.mem_append_right _ List.mem_cons_self)
    rw [after_append,uses_last]
    exact follows_later (perform_follows kept.toInOrder (ih before past) op) late

theorem stored?_unused {c : Cache} {op : Operation} {now : Time} (unused : c.used? op now = none)
    (key : String) : op.stored? key = none := by
  cases op with
  | put other value => cases unused
  | get | purge => rfl

theorem after_latest (maxEntries : Nat) (maxIdle : Time) (run : List (Operation × Time)) :
    ∀ s ∈ ((create maxEntries maxIdle).after run).slots, latest? s.key run = some s.value := by
  induction run using List.reverseRecOn with
  | nil => exact fun _ member => absurd member List.not_mem_nil
  | append_singleton run step ih =>
    obtain ⟨op,now⟩ := step
    intro s member
    rw [after_append] at member
    rw [latest?_last]
    have old (stored : s ∈ ((create maxEntries maxIdle).after run).slots)
        (other : op.stored? s.key = none) :
        (op.stored? s.key).or (latest? s.key run) = some s.value := by
      rw [other]
      exact ih s stored
    rcases perform_slots _ op now with ⟨new,_,_,given,front⟩ | ⟨gone,_,unused,_,taken⟩ |
      ⟨unused,front⟩
    · rcases List.mem_cons.mp (front.subset member) with rfl | kept
      · rcases given with rfl | ⟨rfl,t,stored,named,value⟩
        · simp [Operation.stored?]
        · rw [←named,←value]
          exact ih t stored
      · obtain ⟨stored,differs⟩ := List.mem_filter.mp kept
        have other : new.key ≠ s.key := Ne.symm (by simpa using differs)
        rcases given with rfl | ⟨rfl,_⟩
        · exact old stored (if_neg other)
        · exact old stored rfl
    · exact old (mem_others (taken ▸ member)) (stored?_unused unused _)
    · exact old (front.subset member) (stored?_unused unused _)

theorem few_since {c : Cache} {front rest : List CacheSlot} {s : CacheSlot} {since : List String}
    (whole : c.slots = front ++ s :: rest) (fits : c.size ≤ c.capacity)
    (inFront : ∀ key ∈ since, key ∈ front.map CacheSlot.key) :
    since.dedup.length < c.capacity := by
  have within : since.dedup ⊆ front.map CacheSlot.key := fun key member =>
    inFront key (List.mem_dedup.mp member)
  have bound := (List.subperm_of_subset (List.nodup_dedup since) within).length_le
  rw [List.length_map] at bound
  rw [size,whole,List.length_append,List.length_cons] at fits
  omega

theorem put_full {c : Cache} {now : Time} (kept : c.Kept now) (key value : String) {s : CacheSlot}
    (stored : s ∈ c.slots) (differs : s.key ≠ key) (fresh : c.Fresh s.lastUse now)
    (evicted : s ∉ (c.put key value now).slots) :
    (c.put key value now).size = c.capacity ∧
      ∀ t ∈ (c.put key value now).slots, c.Fresh t.lastUse now := by
  have swept : c.sweep now = c.unexpired now := sweep_unexpired kept.toInOrder now
  have inFront : s ∈ ⟨key,value,now⟩ :: (c.unexpired now).others key :=
    List.mem_cons_of_mem _
      (List.mem_filter.mpr ⟨mem_unexpired.mpr ⟨stored,fresh⟩,by simpa using differs⟩)
  rw [put,swept] at evicted ⊢
  constructor
  · rw [size,List.length_take,Nat.min_eq_left]
    by_contra short
    exact evicted (by rwa [List.take_of_length_le (by omega)])
  · intro t member
    rcases List.mem_cons.mp (List.take_subset _ _ member) with rfl | old
    · simp [Fresh]
    · exact (mem_unexpired.mp (mem_others old)).2

theorem get_slot {c : Cache} {key value : String} {now : Time}
    (found : (c.get key now).1 = some value) :
    ∃ s ∈ c.slots, s.key = key ∧ s.value = value ∧ c.Fresh s.lastUse now := by
  rcases c.get_cases key now with ⟨_,missed⟩ | ⟨s,_,_,_,missed⟩ | ⟨s,stored,named,fresh,hit⟩
  · rw [missed] at found
    cases found
  · rw [missed] at found
    cases found
  · rw [hit] at found
    exact ⟨s,stored,named,Option.some.inj found,not_expired_iff.mp fresh⟩

theorem found_recent {maxEntries : Nat} {maxIdle : Time} {run : List (Operation × Time)}
    (ordered : Chronological run) {asked : Time} (early : ∀ step ∈ run, step.2 ≤ asked)
    {key value : String}
    (found : (((create maxEntries maxIdle).after run).get key asked).1 = some value) :
    latest? key run = some value ∧ ∃ last since,
      LastUse ((create maxEntries maxIdle).uses run) key last since ∧
      ((create maxEntries maxIdle).after run).Fresh last asked ∧
      since.dedup.length < ((create maxEntries maxIdle).after run).capacity := by
  obtain ⟨s,stored,rfl,rfl,fresh⟩ := get_slot found
  obtain ⟨front,rest,whole⟩ := List.append_of_mem stored
  obtain ⟨since,used,inFront⟩ := after_follows maxEntries maxIdle ordered early front s rest whole
  have kept := after_kept (create_kept maxEntries maxIdle) ordered early
  exact ⟨after_latest maxEntries maxIdle run s stored,s.lastUse,since,used,fresh,
    few_since whole kept.fits (inFront fresh)⟩

theorem recent_found (c : Cache) {run : List (Operation × Time)} {asked : Time}
    (early : ∀ step ∈ run, step.2 ≤ asked) {key value : String}
    (stored : latest? key run = some value) {last : Time} {since : List String}
    (used : LastUse (c.uses run) key last since) (recent : (c.after run).Fresh last asked)
    (few : since.dedup.length < (c.after run).capacity) :
    ((c.after run).get key asked).1 = some value := by
  obtain ⟨old,back,split,rfl,latest⟩ := used
  have tracks := after_tracks c stored early
  exact get_of_resident (tracks.resident old last back split latest recent few) latest recent

-- After a run of a new cache something is found under a key exactly when it was stored last under
-- the key, the key was used not too long ago, and fewer other keys were used since than there is
-- room for. What is put then is found as long as it is not idle for too long, and when it drives
-- out an entry that has not expired, that is for as many others that have not.
theorem get_finds_recent (maxEntries : Nat) (maxIdle : Time) (run : List (Operation × Time))
    (ordered : Chronological run) (key : String) (asked : Time)
    (early : ∀ step ∈ run, step.2 ≤ asked) :
    let c := (create maxEntries maxIdle).after run
    (∀ value, (c.get key asked).1 = some value ↔
      latest? key run = some value ∧
      ∃ last since, LastUse ((create maxEntries maxIdle).uses run) key last since ∧
        asked - last ≤ maxIdle ∧ since.dedup.length < max 1 maxEntries) ∧
    (∀ value later, later - asked ≤ maxIdle →
      ((c.put key value asked).get key later).1 = some value) ∧
    (∀ value, ∀ s ∈ c.slots, s.key ≠ key → asked - s.lastUse ≤ maxIdle →
      s ∉ (c.put key value asked).slots →
        (c.put key value asked).size = max 1 maxEntries ∧
          ∀ t ∈ (c.put key value asked).slots, asked - t.lastUse ≤ maxIdle) := by
  intro c
  have room : c.capacity = max 1 maxEntries := after_capacity ..
  have fresh_iff (last now : Time) : c.Fresh last now ↔ now - last ≤ maxIdle := by
    rw [Fresh,after_maxIdle]
    rfl
  simp only [←room,←fresh_iff]
  refine ⟨?_,?_,?_⟩
  · intro value
    constructor
    · exact found_recent ordered early
    · rintro ⟨stored,last,since,used,recent,few⟩
      exact recent_found _ early stored used recent few
  · intro value later recent
    exact get_of_resident (c.put_resident_self key value asked) List.not_mem_nil recent
  · intro value s stored differs recent evicted
    have kept : c.Kept asked := after_kept (create_kept maxEntries maxIdle) ordered early
    exact put_full kept key value stored differs recent evicted

theorem get_finds_recent_overtaken :
    let run : List (Operation × Time) :=
      [(.put "a" "1",0),(.put "b" "2",5),(.get "a",10),(.put "c" "3",15),(.put "a" "4",20)]
    let log := (create 2 60).uses run
    Chronological run ∧ (∀ step ∈ run, step.2 ≤ 75) ∧ latest? "c" run = some "3" ∧
      LastUse log "c" 15 ["a"] ∧ (((create 2 60).after run).get "c" 75).1 = some "3" := by
  intro run log
  have ordered : Chronological run := show [0,5,10,15,20].Pairwise (· ≤ ·) by decide
  have early : ∀ step ∈ run, step.2 ≤ 75 := by decide
  have used : LastUse log "c" 15 ["a"] :=
    ⟨[("a",0),("b",5),("a",10)],[("a",20)],by decide,rfl,by decide⟩
  have found := (get_finds_recent 2 60 run ordered "c" 75 early).1 "3"
  exact ⟨ordered,early,by decide,used,found.mpr ⟨by decide,15,["a"],used,by decide,by decide⟩⟩

end TableView.Cache
