import Mathlib.Data.Nat.Find
import TableView.Cache.Registry
import TableView.Proofs.Text.Blank
import TableView.Proofs.Text.Numeral

namespace TableView

open Text (Chars.splitLast Chars.splitLast_append)
open Text.Numeral (ofNat digit)

namespace CacheSettings

def front (attempt : Nat) : List Char := if attempt = 0 then [] else ".cache".toList

def back (attempt : Nat) : List Char := if attempt = 0 then "cache".toList else ofNat attempt

theorem back_pointless (n : Nat) : '.' ∉ back n := by
  rw [back]
  split
  · decide
  · intro member
    have digit := Text.Numeral.isDigit_ofNat n _ member
    cases digit

theorem numeral_ne_cache (n : Nat) : ofNat n ≠ "cache".toList := by
  obtain ⟨d,tail,written,small,_⟩ := Text.Numeral.ofNat_head n
  have all : ∀ d < 10, digit d ≠ 'c' := by decide
  rw [written]
  exact fun same => all d small (List.cons.inj same).1

theorem back_injective {m n : Nat} (same : back m = back n) : m = n := by
  unfold back at same
  split at same
  · rename_i first
    split at same
    · rename_i also
      rw [first,also]
    · exact absurd same.symm (numeral_ne_cache n)
  · split at same
    · exact absurd same (numeral_ne_cache m)
    · exact Text.Numeral.ofNat_injective same

theorem cacheId_chars (s : CacheSettings) (n : Nat) :
    (s.cacheId n).toList = (s.space.toList ++ front n) ++ '.' :: back n := by
  rw [cacheId,front,back]
  split
  · simp
  · simp [Text.Numeral.natText]

-- A name tells its namespace and the attempt at it, also where a namespace is itself such a name.
theorem cacheId_eq_iff {s t : CacheSettings} {m n : Nat} :
    s.cacheId m = t.cacheId n ↔ s.space = t.space ∧ m = n := by
  constructor
  · intro same
    have cut := congrArg (fun id => Chars.splitLast '.' id.toList) same
    simp only [cacheId_chars,Chars.splitLast_append (back_pointless _),Option.some.injEq,
      Prod.mk.injEq] at cut
    obtain ⟨before,behind⟩ := cut
    obtain rfl := back_injective behind
    exact ⟨String.toList_inj.mp (List.append_cancel_right before),rfl⟩
  · rintro ⟨space,rfl⟩
    rw [cacheId,cacheId,space]

end CacheSettings

namespace CacheRegistry

open CacheSettings (cacheId_eq_iff)

def FirstFree (s : CacheSettings) (taken : CacheRegistry) (n : Nat) : Prop :=
  n ≤ maxAttempt ∧ s.cacheId n ∉ taken ∧ ∀ m < n, s.cacheId m ∈ taken

section
variable {s : CacheSettings} {taken : CacheRegistry}

theorem tryNames_free {n : Nat} (free : s.cacheId n ∉ taken) (rest : List Nat)
    (last : CacheFault) : tryNames create s taken (n :: rest) last =
      .ok (s.cacheId n,s.cacheId n :: taken) := by
  have granted : create (s.cacheId n) taken = .ok (s.cacheId n :: taken) := by simp [create,free]
  rw [tryNames,granted]

theorem tryNames_taken {n : Nat} (known : s.cacheId n ∈ taken) (rest : List Nat)
    (last : CacheFault) : tryNames create s taken (n :: rest) last =
      tryNames create s taken rest (.alreadyExists (s.cacheId n)) := by
  have refused : create (s.cacheId n) taken = .error (.alreadyExists (s.cacheId n)) := by
    simp [create,known]
  rw [tryNames,refused]

theorem tryNames_first {before : List Nat} (known : ∀ m ∈ before, s.cacheId m ∈ taken) {n : Nat}
    (free : s.cacheId n ∉ taken) (behind : List Nat) (last : CacheFault) :
    tryNames create s taken (before ++ n :: behind) last =
      .ok (s.cacheId n,s.cacheId n :: taken) := by
  induction before generalizing last with
  | nil => exact tryNames_free free behind last
  | cons m before ih =>
    obtain ⟨here,known⟩ := List.forall_mem_cons.mp known
    rw [List.cons_append,tryNames_taken here]
    exact ih known _

theorem tryNames_refused {before : List Nat} (known : ∀ m ∈ before, s.cacheId m ∈ taken) {n : Nat}
    (also : s.cacheId n ∈ taken) (last : CacheFault) :
    tryNames create s taken (before ++ [n]) last =
      .error (.exhausted (s.cacheId 0) (maxAttempt + 1) (.alreadyExists (s.cacheId n))) := by
  induction before generalizing last with
  | nil =>
    rw [List.nil_append,tryNames_taken also]
    rfl
  | cons m before ih =>
    obtain ⟨here,known⟩ := List.forall_mem_cons.mp known
    rw [List.cons_append,tryNames_taken here]
    exact ih known _

theorem FirstFree.granted {n : Nat} (first : FirstFree s taken n) :
    initCache s taken = .ok (s.cacheId n,s.cacheId n :: taken) := by
  obtain ⟨bound,free,known⟩ := first
  obtain ⟨more,whole⟩ := Nat.exists_eq_add_of_le bound
  have attempts : List.range (maxAttempt + 1) =
      List.range n ++ n :: ((List.range more).map (n + 1 + ·)) := by
    rw [whole,Nat.add_assoc,List.range_add,List.range_succ_eq_map]
    simp [Function.comp_def,Nat.add_right_comm,Nat.add_assoc]
  rw [initCache,initCacheIn,attempts]
  exact tryNames_first (fun m member => known m (List.mem_range.mp member)) free _ _

theorem initCache_refused (known : ∀ n ≤ maxAttempt, s.cacheId n ∈ taken) :
    initCache s taken = .error (.exhausted (s.cacheId 0) (maxAttempt + 1)
      (.alreadyExists (s.cacheId maxAttempt))) := by
  rw [initCache,initCacheIn,List.range_succ]
  exact tryNames_refused (fun m member => known m (Nat.le_of_lt (List.mem_range.mp member)))
    (known _ (Nat.le_refl _)) _

theorem firstFree_or_taken (s : CacheSettings) (taken : CacheRegistry) :
    (∃ n, FirstFree s taken n) ∨ ∀ n ≤ maxAttempt, s.cacheId n ∈ taken := by
  by_cases free : ∃ n, n ≤ maxAttempt ∧ s.cacheId n ∉ taken
  · obtain ⟨bound,first⟩ := Nat.find_spec free
    refine .inl ⟨Nat.find free,bound,first,fun m less => ?_⟩
    have not_first := Nat.find_min free less
    exact Classical.not_not.mp (fun other => not_first ⟨by omega,other⟩)
  · exact .inr (fun n bound => Classical.not_not.mp (fun other => free ⟨n,bound,other⟩))

end

def request (s : CacheSettings) (taken : CacheRegistry) :
    Except CacheFault String × CacheRegistry :=
  match initCache s taken with
  | .ok (id,after) => (.ok id,after)
  | .error f => (.error f,taken)

def requests : List CacheSettings → CacheRegistry → List (CacheSettings × Except CacheFault String)
  | [],_ => []
  | s :: calls,taken => (s,(request s taken).1) :: requests calls (request s taken).2

def granted (calls : List CacheSettings) (taken : CacheRegistry) : List String :=
  (requests calls taken).filterMap (fun call => call.2.toOption)

theorem FirstFree.request {s : CacheSettings} {taken : CacheRegistry} {n : Nat}
    (first : FirstFree s taken n) :
    request s taken = (.ok (s.cacheId n),s.cacheId n :: taken) := by
  rw [CacheRegistry.request,first.granted]

theorem request_refused {s : CacheSettings} {taken : CacheRegistry}
    (known : ∀ n ≤ maxAttempt, s.cacheId n ∈ taken) :
    request s taken = (.error (.exhausted (s.cacheId 0) (maxAttempt + 1)
      (.alreadyExists (s.cacheId maxAttempt))),taken) := by
  rw [request,initCache_refused known]

theorem granted_new (calls : List CacheSettings) (taken : CacheRegistry) :
    (granted calls taken).Nodup ∧ ∀ id ∈ granted calls taken, id ∉ taken := by
  induction calls generalizing taken with
  | nil => exact ⟨List.nodup_nil,List.forall_mem_nil _⟩
  | cons s calls ih =>
    rcases firstFree_or_taken s taken with ⟨n,first⟩ | known
    · obtain ⟨distinct,new⟩ := ih (s.cacheId n :: taken)
      have given : granted (s :: calls) taken =
          s.cacheId n :: granted calls (s.cacheId n :: taken) := by
        rw [granted,requests,first.request]
        rfl
      rw [given,List.nodup_cons,List.forall_mem_cons]
      refine ⟨⟨fun again => new _ again List.mem_cons_self,distinct⟩,first.2.1,?_⟩
      exact fun id member before => new id member (List.mem_cons_of_mem _ before)
    · have given : granted (s :: calls) taken = granted calls taken := by
        rw [granted,requests,request_refused known]
        rfl
      rw [given]
      exact ih taken

def Agree (space : String) (taken other : CacheRegistry) : Prop :=
  ∀ s : CacheSettings, s.space = space → ∀ n, s.cacheId n ∈ taken ↔ s.cacheId n ∈ other

section
variable {space : String} {taken other : CacheRegistry} (agree : Agree space taken other)
  {s : CacheSettings}
include agree

theorem Agree.firstFree (own : s.space = space) {n : Nat} (first : FirstFree s taken n) :
    FirstFree s other n := by
  obtain ⟨bound,free,known⟩ := first
  exact ⟨bound,fun member => free ((agree s own n).mpr member),
    fun m less => (agree s own m).mp (known m less)⟩

theorem Agree.own (own : s.space = space) : (request s taken).1 = (request s other).1 ∧
    Agree space (request s taken).2 (request s other).2 := by
  rcases firstFree_or_taken s taken with ⟨n,first⟩ | known
  · rw [first.request,(agree.firstFree own first).request]
    refine ⟨rfl,fun t space m => ?_⟩
    rw [List.mem_cons,List.mem_cons,agree t space m]
  · rw [request_refused known,
      request_refused (fun n bound => (agree s own n).mp (known n bound))]
    exact ⟨rfl,agree⟩

-- A call in another namespace does not change which names of this one are taken.
theorem Agree.foreign (foreign : s.space ≠ space) : Agree space (request s taken).2 other := by
  rcases firstFree_or_taken s taken with ⟨n,first⟩ | known
  · rw [first.request]
    intro t own m
    have apart : t.cacheId m ≠ s.cacheId n := fun same =>
      foreign ((cacheId_eq_iff.mp same).1.symm.trans own)
    rw [List.mem_cons,or_iff_right apart]
    exact agree t own m
  · rw [request_refused known]
    exact agree

theorem Agree.requests (calls : List CacheSettings) :
    (requests calls taken).filter (fun call => call.1.space = space) =
      requests (calls.filter (fun s => s.space = space)) other := by
  induction calls generalizing taken other with
  | nil => rfl
  | cons s calls ih =>
    rw [CacheRegistry.requests]
    by_cases own : s.space = space
    · obtain ⟨answer,after⟩ := agree.own own
      rw [List.filter_cons_of_pos (by simpa using own),
        List.filter_cons_of_pos (by simpa using own),CacheRegistry.requests,answer,ih after]
    · rw [List.filter_cons_of_neg (by simpa using own),
        List.filter_cons_of_neg (by simpa using own),ih (agree.foreign own)]

end

-- A call is given the name of the least free attempt, and the registry that name in addition; when
-- no attempt is free it is refused, and the registry stays as it is. The names given by a sequence
-- of calls are new and distinct, and the calls in one namespace are answered as they are without
-- the others, by the names of that namespace alone.
theorem initCache_first (s : CacheSettings) (taken : CacheRegistry) :
    ((∃ n ≤ 100, (s.cacheId n ∉ taken ∧ ∀ m < n, s.cacheId m ∈ taken) ∧
        initCache s taken = .ok (s.cacheId n,s.cacheId n :: taken)) ∨
      (∀ n ≤ 100, s.cacheId n ∈ taken) ∧
        initCache s taken = .error (.exhausted (s.cacheId 0) 101
          (.alreadyExists (s.cacheId 100))) ∧ (request s taken).2 = taken) ∧
    (∀ calls, (granted calls taken).Nodup ∧ ∀ id ∈ granted calls taken, id ∉ taken) ∧
    (∀ other, (∀ n, s.cacheId n ∈ taken ↔ s.cacheId n ∈ other) → ∀ calls,
      (requests calls taken).filter (fun call => call.1.space = s.space) =
        requests (calls.filter (fun t => t.space = s.space)) other) ∧
    ∀ (t : CacheSettings) (m n : Nat), s.cacheId m = t.cacheId n ↔ s.space = t.space ∧ m = n := by
  refine ⟨?_,fun calls => granted_new calls taken,fun other same calls => ?_,
    fun t m n => cacheId_eq_iff⟩
  · rcases firstFree_or_taken s taken with ⟨n,first⟩ | known
    · exact .inl ⟨n,first.1,first.2,first.granted⟩
    · have kept : (request s taken).2 = taken := by rw [request_refused known]
      exact .inr ⟨known,initCache_refused known,kept⟩
  · have agree : Agree s.space taken other := by
      intro t own n
      have name : t.cacheId n = s.cacheId n := cacheId_eq_iff.mpr ⟨own,rfl⟩
      rw [name]
      exact same n
    exact agree.requests calls

theorem initCache_first_nested :
    let s : CacheSettings := ⟨"a",1,1⟩
    let t : CacheSettings := ⟨"a.cache",1,1⟩
    let taken := [s.cacheId 1,t.cacheId 0,s.cacheId 0]
    (∀ n, s.cacheId n ∈ taken ↔ s.cacheId n ∈ [s.cacheId 0,s.cacheId 1]) ∧
      (requests [t,s,t,s] taken).filter (fun call => call.1.space = s.space) =
        requests [s,s] [s.cacheId 0,s.cacheId 1] ∧
      requests [s,s] [s.cacheId 0,s.cacheId 1] =
        [(s,.ok "a.cache.2"),(s,.ok "a.cache.3")] := by
  intro s t taken
  have foreign (n : Nat) : s.cacheId n ≠ t.cacheId 0 := fun same =>
    absurd (cacheId_eq_iff.mp same).1 (by decide)
  have same (n : Nat) : s.cacheId n ∈ taken ↔ s.cacheId n ∈ [s.cacheId 0,s.cacheId 1] := by
    simp only [taken,List.mem_cons,foreign n,List.not_mem_nil,false_or,or_false]
    exact or_comm
  have second : FirstFree s [s.cacheId 0,s.cacheId 1] 2 :=
    ⟨by decide,by decide +kernel,by decide +kernel⟩
  have third : FirstFree s [s.cacheId 2,s.cacheId 0,s.cacheId 1] 3 :=
    ⟨by decide,by decide +kernel,by decide +kernel⟩
  have names : s.cacheId 2 = "a.cache.2" ∧ s.cacheId 3 = "a.cache.3" := by decide +kernel
  have answers : requests [s,s] [s.cacheId 0,s.cacheId 1] =
      [(s,.ok "a.cache.2"),(s,.ok "a.cache.3")] := by
    rw [requests,second.request,requests,third.request,names.1,names.2]
    rfl
  exact ⟨same,(initCache_first s taken).2.2.1 _ same [t,s,t,s],answers⟩

end CacheRegistry

end TableView
