import TableView.Proofs.Outcome
import TableView.Proofs.View.Render
import TableView.Session.Session

namespace TableView

namespace Session

def after (s : Session) : List (Request × Time) → Session
  | [] => s
  | (r,now) :: rest => (s.handle r now).2.after rest

def inline (s : Session) : Session := { s with cache := none }

def Chronological (run : List (Request × Time)) (asked : Time) : Prop :=
  (run.map (·.2) ++ [asked]).Pairwise (· ≤ ·)

def stored? (s : Session) : Request → Option String
  | .render content p =>
    (rowsPayload s.settings (Document.parse content) (s.parameters p)).toOption
  | _ => none

def used? (s : Session) (r : Request) (now : Time) : Option String :=
  match r with
  | .render .. => (s.stored? r).map payloadKey
  | .query entries fields q =>
    match s.resolved fields q with
    | .ok _ => if (lookUp s.cache entries now).1.isSome then some entries else none
    | .error _ => none
  | .configuration _ => none

def stores (s : Session) (run : List (Request × Time)) : List String :=
  run.filterMap (fun step => s.stored? step.1)

def uses (s : Session) : List (Request × Time) → List (String × Time)
  | [] => []
  | (r,now) :: rest =>
    ((s.used? r now).map (fun key => (key,now))).toList ++ (s.handle r now).2.uses rest

theorem after_append (s : Session) (before later : List (Request × Time)) :
    s.after (before ++ later) = (s.after before).after later := by
  induction before generalizing s with
  | nil => rfl
  | cons step before ih => exact ih _

theorem uses_append (s : Session) (before later : List (Request × Time)) :
    s.uses (before ++ later) = s.uses before ++ (s.after before).uses later := by
  induction before generalizing s with
  | nil => rfl
  | cons step before ih =>
    obtain ⟨r,now⟩ := step
    rw [List.cons_append,uses,ih,uses,List.append_assoc]
    rfl

theorem chronological_bound {run : List (Request × Time)} {asked : Time}
    (ordered : Chronological run asked) : ∀ step ∈ run, step.2 ≤ asked := by
  intro step member
  obtain ⟨_,_,across⟩ := List.pairwise_append.mp ordered
  exact across step.2 (List.mem_map_of_mem member) asked List.mem_cons_self

theorem handle_inline (s : Session) (r : Request) (now : Time) :
    (s.handle r now).2.inline = s.inline := by
  cases r with
  | render content p => rfl
  | query entries fields q =>
    simp only [handle,query]
    cases s.resolved fields q <;> rfl
  | configuration fields => rfl

theorem after_inline (s : Session) (run : List (Request × Time)) :
    (s.after run).inline = s.inline := by
  induction run generalizing s with
  | nil => rfl
  | cons step run ih => exact (ih _).trans (handle_inline s step.1 step.2)

theorem inline_after (s : Session) (run : List (Request × Time)) : s.inline.after run = s.inline := by
  induction run with
  | nil => rfl
  | cons step run ih =>
    have unchanged : (s.inline.handle step.1 step.2).2 = s.inline := by
      cases step.1 with
      | render content p =>
        simp only [handle,render,TableView.render]
        split <;> rfl
      | query entries fields q =>
        simp only [handle,query]
        cases s.inline.resolved fields q <;> rfl
      | configuration fields => rfl
    rw [after,unchanged]
    exact ih

theorem stored?_inline (s : Session) (r : Request) : s.inline.stored? r = s.stored? r := by
  cases r <;> rfl

theorem stored?_after (s : Session) (run : List (Request × Time)) (r : Request) :
    (s.after run).stored? r = s.stored? r := by
  rw [←stored?_inline (s.after run),after_inline,stored?_inline]

theorem stores_after (s : Session) (before run : List (Request × Time)) :
    (s.after before).stores run = s.stores run := by
  simp only [stores,stored?_after]

theorem resolved_after (s : Session) (run : List (Request × Time)) (fields : Option String)
    (q : Query) : (s.after run).resolved fields q = s.resolved fields q := by
  have same : (s.after run).inline.resolved fields q = s.inline.resolved fields q := by
    rw [after_inline]
  exact same

theorem stored?_render (s : Session) (content : String) (p : ViewParameters) (now : Time) :
    s.stored? (.render content p) = none ∧ (s.handle (.render content p) now).2 = s ∨
    ∃ payload, s.stored? (.render content p) = some payload ∧
      (s.handle (.render content p) now).2.cache = (storeEntries s.cache payload now).2 := by
  simp only [stored?,rowsPayload,handle,render,TableView.render]
  cases parseTable (Document.parse content) (s.parameters p) with
  | error e => exact Or.inl ⟨rfl,rfl⟩
  | ok table => exact Or.inr ⟨_,rfl,rfl⟩

theorem handle_cache {s : Session} {c : Cache} (cached : s.cache = some c) (r : Request)
    (now : Time) :
    ((s.handle r now).2.cache = some c ∧ s.used? r now = none) ∨
    (∃ key, (s.handle r now).2.cache = some (c.get key now).2 ∧
      s.used? r now = if (c.get key now).1.isSome then some key else none) ∨
    (∃ payload, s.stored? r = some payload ∧
      (s.handle r now).2.cache = some (c.put (payloadKey payload) payload now) ∧
      s.used? r now = some (payloadKey payload)) := by
  cases r with
  | render content p =>
    rcases s.stored?_render content p now with ⟨missing,same⟩ | ⟨payload,given,stored⟩
    · exact Or.inl ⟨by rw [same,cached],by rw [used?,missing]; rfl⟩
    · rw [cached] at stored
      exact Or.inr (Or.inr ⟨payload,given,stored,by rw [used?,given]; rfl⟩)
  | query entries fields q =>
    simp only [handle,query,used?]
    cases s.resolved fields q with
    | error e => exact Or.inl ⟨cached,rfl⟩
    | ok q => exact Or.inr (Or.inl ⟨entries,by rw [cached]; rfl,by rw [cached]; rfl⟩)
  | configuration fields => exact Or.inl ⟨cached,rfl⟩

theorem handle_cached {s : Session} {c : Cache} (cached : s.cache = some c) (r : Request)
    (now : Time) : ∃ next, (s.handle r now).2.cache = some next ∧ next.maxIdle = c.maxIdle ∧
      next.capacity = c.capacity := by
  rcases handle_cache cached r now with ⟨same,_⟩ | ⟨key,found,_⟩ | ⟨payload,_,stored,_⟩
  · exact ⟨c,same,rfl,rfl⟩
  · exact ⟨_,found,Cache.get_maxIdle ..,Cache.get_capacity ..⟩
  · exact ⟨_,stored,rfl,rfl⟩

theorem after_cached {s : Session} {c : Cache} (cached : s.cache = some c)
    (run : List (Request × Time)) : ∃ next, (s.after run).cache = some next ∧
      next.maxIdle = c.maxIdle ∧ next.capacity = c.capacity := by
  induction run generalizing s c with
  | nil => exact ⟨c,cached,rfl,rfl⟩
  | cons step run ih =>
    obtain ⟨middle,cachedMiddle,idle,room⟩ := handle_cached cached step.1 step.2
    obtain ⟨next,cachedNext,idleNext,roomNext⟩ := ih cachedMiddle
    exact ⟨next,cachedNext,idleNext.trans idle,roomNext.trans room⟩

theorem handle_query (s : Session) (entries : String) (fields : Option String) (q : Query)
    (now : Time) {decoded : List Fields} (resolves : Resolves s.cache entries now decoded) :
    (s.handle (.query entries fields q) now).1 = (s.resolved fields q).map
      (fun q => (q.run (Entry.numbered decoded)).toJson.sorted) := by
  simp only [handle,query]
  cases s.resolved fields q with
  | error e => rfl
  | ok q =>
    exact congrArg (Except.map (fun v : QueryResult => v.toJson.sorted))
      (execute_resolved resolves q)

end Session

end TableView
