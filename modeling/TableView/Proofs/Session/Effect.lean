import TableView.Proofs.Cache.Effect
import TableView.Proofs.Session.Trace

namespace TableView.Session

-- The cache after a request. A query whose columns cannot be read does not come to its entries,
-- and a view that is not given stores nothing.
def Leaves (s : Session) (c : Cache) (now : Time) (next : Cache) : Request → Prop
  | .configuration _ => next = c
  | .query entries fields _ =>
    (∃ f e, fields = some f ∧ Payload.decodeColumns f = .error e) ∧ next = c ∨
    (∀ f, fields = some f → ∃ columns, Payload.decodeColumns f = .ok columns) ∧
      c.Looked entries now next
  | .render content p =>
    (∃ e, (s.render content p now).1 = .error e) ∧ next = c ∨
    ∃ view payload, (s.render content p now).1 = .ok view ∧
      rowsPayload s.settings (Document.parse content) (s.parameters p) = .ok payload ∧
      view.liveData.query.source.entries = payloadKey payload ∧
      c.Stored (payloadKey payload) payload now next

theorem render_leaves {s : Session} {c : Cache} (cached : s.cache = some c) {now : Time}
    (kept : c.Kept now) (content : String) (p : ViewParameters) :
    ∃ next, (s.render content p now).2 = { s with cache := some next } ∧
      s.Leaves c now next (.render content p) := by
  cases rendered : (s.render content p now).1 with
  | error e =>
    refine ⟨c,?_,Or.inl ⟨⟨e,rendered⟩,rfl⟩⟩
    have same : (s.render content p now).2 = s := by
      simp only [render,TableView.render] at rendered ⊢
      split at rendered
      · rfl
      · cases rendered
    rw [same,←cached]
  | ok view =>
    obtain ⟨payload,given,reference,after⟩ := render_ok rendered
    rw [cached] at reference
    refine ⟨c.put (payloadKey payload) payload now,?_,Or.inr ⟨view,payload,rendered,given,
      reference,Cache.put_stored kept (payloadKey payload) payload⟩⟩
    have stored : (s.render content p now).2 = { s with cache :=
        (TableView.render s.settings s.cache (Document.parse content) (s.parameters p) now).2 } :=
      rfl
    rw [stored,after,cached]
    rfl

theorem query_leaves {s : Session} {c : Cache} (cached : s.cache = some c) {now : Time}
    (kept : c.Kept now) (entries : String) (fields : Option String) (q : Query) :
    ∃ next, (s.query entries fields q now).2 = { s with cache := some next } ∧
      s.Leaves c now next (.query entries fields q) := by
  have looked := Cache.get_looked kept.toInOrder entries now
  have asked {resolved : Query} (read : s.resolved fields q = .ok resolved) :
      (s.query entries fields q now).2 = { s with cache := some (c.get entries now).2 } := by
    rw [query,read,cached]
    rfl
  cases fields with
  | none =>
    refine ⟨(c.get entries now).2,asked rfl,Or.inr ⟨?_,looked⟩⟩
    intro f none
    cases none
  | some f =>
    cases columns : Payload.decodeColumns f with
    | error e =>
      refine ⟨c,?_,Or.inl ⟨⟨f,e,rfl,columns⟩,rfl⟩⟩
      have failed : s.resolved (some f) q = .error (.payload e) := by rw [resolved,columns]
      rw [query,failed,←cached]
    | ok cs =>
      refine ⟨(c.get entries now).2,asked (by rw [resolved,columns]),Or.inr ⟨?_,looked⟩⟩
      intro f' same
      cases same
      exact ⟨cs,columns⟩

theorem handle_leaves {s : Session} {c : Cache} (cached : s.cache = some c) {now : Time}
    (kept : c.Kept now) (r : Request) :
    ∃ next, (s.handle r now).2 = { s with cache := some next } ∧ s.Leaves c now next r := by
  cases r with
  | render content p => exact render_leaves cached kept content p
  | query entries fields q => exact query_leaves cached kept entries fields q
  | configuration fields => exact ⟨c,by rw [←cached]; rfl,rfl⟩

-- A line that is answered by a session with a cache, in whatever state a run left that cache.
-- Nothing but the cache changes; a line that is no request leaves it as it is, and so do the
-- requests that fail before they reach it.
theorem line_leaves_cache {maxEntries : Nat} {maxIdle : Time}
    {run : List (Cache.Operation × Time)} (ordered : Cache.Chronological run) {now : Time}
    (early : ∀ step ∈ run, step.2 ≤ now) {s : Session}
    (cached : s.cache = some ((Cache.create maxEntries maxIdle).after run)) (line : String) :
    let c := (Cache.create maxEntries maxIdle).after run
    ∃ next, (s.handleLine line now).2 = { s with cache := some next } ∧
      (∀ e, Request.decoder.read line = .error e → next = c) ∧
      ∀ r, Request.decoder.read line = .ok r → s.Leaves c now next r := by
  intro c
  have kept : c.Kept now := Cache.after_kept (Cache.create_kept maxEntries maxIdle) ordered early
  cases read : Request.decoder.read line with
  | error e =>
    refine ⟨c,?_,fun _ _ => rfl,?_⟩
    · rw [handleLine,read,←cached]
    · intro r given
      cases given
  | ok r =>
    obtain ⟨next,after,leaves⟩ := handle_leaves cached kept r
    refine ⟨next,?_,?_,?_⟩
    · rw [handleLine,read]
      exact after
    · intro e given
      cases given
    · intro r' same
      cases same
      exact leaves

theorem line_leaves_cache_expired :
    let s (run : List (Cache.Operation × Time)) : Session :=
      ⟨⟨.gzip,10⟩,some ((Cache.create 2 10).after run),[]⟩
    let run : List (Cache.Operation × Time) := [(.put "a" "1",0),(.put "b" "2",5)]
    let line := "\x7b\"op\":\"query\",\"entries\":\"a\"\x7d"
    Cache.Chronological run ∧ (∀ step ∈ run, step.2 ≤ 11) ∧
      ∃ next, ((s run).handleLine line 11).2 = { s run with cache := some next } ∧
        ((Cache.create 2 10).after run).Looked "a" 11 next ∧ next.slots = [⟨"b","2",5⟩] := by
  intro s run line
  have ordered : Cache.Chronological run := show [0,5].Pairwise (· ≤ ·) by decide
  have early : ∀ step ∈ run, step.2 ≤ 11 := by decide
  obtain ⟨next,after,_,leaves⟩ := line_leaves_cache ordered early
    (show (s run).cache = some ((Cache.create 2 10).after run) from rfl) line
  have given : (Request.decoder.read line).toOption = some (.query "a" none .standard) := by
    decide +kernel
  have read := ok_of_toOption given
  have ends : ((s run).handleLine line 11).2.cache.map Cache.slots = some [⟨"b","2",5⟩] := by
    decide +kernel
  refine ⟨ordered,early,next,after,?_,?_⟩
  · rcases leaves _ read with ⟨⟨f,e,none,_⟩,_⟩ | ⟨_,looked⟩
    · cases none
    · exact looked
  · rw [after] at ends
    exact Option.some.inj ends

end TableView.Session
