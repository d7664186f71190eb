import TableView.Proofs.Session.Trace

namespace TableView.Session

theorem handle_tracks {s : Session} {c next : Cache} (cached : s.cache = some c)
    {key payload : String} {log : List (String × Time)} {asked : Time}
    (tracks : c.Tracks key payload log asked) {r : Request} {now : Time} (early : now ≤ asked)
    (alone : ∀ v, s.stored? r = some v → payloadKey v = key → v = payload)
    (moved : (s.handle r now).2.cache = some next) :
    next.Tracks key payload (log ++ ((s.used? r now).map (fun key => (key,now))).toList)
      asked := by
  rcases handle_cache cached r now with ⟨same,unused⟩ | ⟨other,found,used⟩ |
    ⟨v,given,stored,used⟩
  · cases moved.symm.trans same
    rw [unused]
    simpa using tracks
  · cases moved.symm.trans found
    have looked := Cache.tracks_get tracks other early
    rw [used]
    split at looked
    · rename_i hit
      rw [if_pos hit]
      exact looked
    · rename_i miss
      rw [if_neg miss]
      exact looked
  · cases moved.symm.trans stored
    rw [used]
    exact Cache.tracks_put tracks (alone v given) early

theorem after_tracks {s : Session} {c next : Cache} (cached : s.cache = some c)
    {key payload : String} {log : List (String × Time)} {asked : Time}
    (tracks : c.Tracks key payload log asked) {run : List (Request × Time)}
    (early : ∀ step ∈ run, step.2 ≤ asked)
    (alone : ∀ v ∈ s.stores run, payloadKey v = key → v = payload)
    (moved : (s.after run).cache = some next) :
    next.Tracks key payload (log ++ s.uses run) asked := by
  induction run generalizing s c log with
  | nil =>
    cases moved.symm.trans cached
    rw [uses,List.append_nil]
    exact tracks
  | cons step run ih =>
    obtain ⟨r,now⟩ := step
    have first (v : String) (given : s.stored? r = some v) : v ∈ s.stores ((r,now) :: run) :=
      List.mem_filterMap.mpr ⟨(r,now),List.mem_cons_self,given⟩
    have rest : ∀ v ∈ (s.handle r now).2.stores run, v ∈ s.stores ((r,now) :: run) := by
      intro v member
      have later : v ∈ s.stores run := (s.stores_after [(r,now)] run) ▸ member
      exact (List.sublist_cons_self (r,now) run).filterMap _ |>.subset later
    obtain ⟨middle,cachedMiddle,_,_⟩ := handle_cached cached r now
    have tracksMiddle := handle_tracks cached tracks (early (r,now) List.mem_cons_self)
      (fun v given => alone v (first v given)) cachedMiddle
    rw [uses,←List.append_assoc]
    exact ih cachedMiddle tracksMiddle
      (fun later member => early later (List.mem_cons_of_mem _ member))
      (fun v member => alone v (rest v member)) moved

theorem last_use_behind {front rest old back : List (String × Time)} {key : String}
    {stored last : Time} (split : front ++ (key,stored) :: rest = old ++ (key,last) :: back)
    (latest : key ∉ back.map (·.1)) : ∃ between, (key,stored) :: rest =
      between ++ (key,last) :: back := by
  rcases List.append_eq_append_iff.mp split with ⟨between,_,whole⟩ | ⟨between,_,whole⟩
  · exact ⟨between,whole⟩
  · cases between with
    | nil => exact ⟨[],whole.symm⟩
    | cons use between =>
      obtain ⟨_,rfl⟩ := List.cons.inj whole
      have again : (key,stored) ∈ between ++ (key,stored) :: rest :=
        List.mem_append_right _ List.mem_cons_self
      exact absurd (List.mem_map_of_mem again) latest

theorem put_found {s : Session} {c : Cache} {key payload : String} {stored asked : Time}
    (cached : s.cache = some (c.put key payload stored)) {run : List (Request × Time)}
    (early : ∀ step ∈ run, step.2 ≤ asked)
    (alone : ∀ v ∈ s.stores run, payloadKey v = key → v = payload)
    {old back : List (String × Time)} {last : Time}
    (used : (key,stored) :: s.uses run = old ++ (key,last) :: back)
    (latest : key ∉ back.map (·.1)) (fresh : asked - last ≤ c.maxIdle)
    (few : (back.map (·.1)).dedup.length < c.capacity) :
    (lookUp (s.after run).cache key asked).1 = some payload := by
  obtain ⟨next,cachedNext,idle,room⟩ := after_cached cached run
  have start := c.tracks_start key payload stored asked
  have tracks := after_tracks cached start early alone cachedNext
  have freshNext : next.Fresh last asked := by
    rw [Cache.Fresh,idle]
    exact fresh
  have fewNext : (back.map (·.1)).dedup.length < next.capacity := by
    rw [room]
    exact few
  have resident := tracks.resident old last back used latest freshNext fewNext
  rw [cachedNext,lookUp_cache]
  exact Cache.get_of_resident resident latest freshNext

theorem render_inline {s : Session} {c : Cache} (cached : s.cache = some c) {content : String}
    {p : ViewParameters} {now : Time} {view : RenderedView}
    (viewed : (s.render content p now).1 = .ok view) :
    ∃ payload, s.stored? (.render content p) = some payload ∧
      view.liveData.query.source.entries = payloadKey payload ∧
      (s.handle (.render content p) now).2.cache =
        some (c.put (payloadKey payload) payload now) ∧
      ∃ inlined, (s.inline.render content p now).1 = .ok inlined ∧
        inlined.liveData.query.source.entries = payload := by
  have rendered : (TableView.render s.settings s.cache (Document.parse content) (s.parameters p)
      now).1 = .ok view := viewed
  obtain ⟨payload,given,reference,stored⟩ := render_ok rendered
  rw [cached] at reference
  refine ⟨payload,?_,reference,?_,?_⟩
  · rw [stored?,given]
    rfl
  · refine Eq.trans (b := (storeEntries s.cache payload now).2) stored ?_
    rw [cached]
    rfl
  · exact render_given given none now

theorem stored_decodes {s : Session} {r : Request} {payload : String}
    (given : s.stored? r = some payload)
    (fits : Payload.Storable s.settings.compression payload) :
    ∃ decoded, Payload.decodeEntries payload = .ok decoded := by
  cases r with
  | render content p =>
    cases rows : rowsPayload s.settings (Document.parse content) (s.parameters p) with
    | error e => rw [stored?,rows] at given; cases given
    | ok v =>
      rw [stored?,rows] at given
      cases given
      obtain ⟨table,parsed,rfl⟩ := rowsPayload_ok rows
      exact ⟨_,decodeEntries_rowsPayload parsed fits⟩
  | query entries fields q => cases given
  | configuration fields => cases given

-- A view is given by a session with a cache, and after any requests in between it is queried by its
-- key: the answer is the one that the session without a cache gives when it is queried by the
-- payload that it gives for the same view. The key must have been used not too long ago, and fewer
-- other keys since than the cache has room for; no other payload may have come under the key.
theorem key_answers_as_payload {s : Session} {c : Cache} (cached : s.cache = some c)
    {before later : List (Request × Time)} {content : String} {p : ViewParameters}
    {stored asked : Time}
    (ordered : Chronological (before ++ (.render content p,stored) :: later) asked)
    {view : RenderedView} (viewed : ((s.after before).render content p stored).1 = .ok view)
    {key : String} (reference : view.liveData.query.source.entries = key)
    {old back : List (String × Time)} {last : Time}
    (used : s.uses (before ++ (.render content p,stored) :: later) = old ++ (key,last) :: back)
    (latest : key ∉ back.map (·.1)) (fresh : asked - last ≤ c.maxIdle)
    (few : (back.map (·.1)).dedup.length < c.capacity)
    (alone : ∀ v ∈ s.stores later, payloadKey v = key → s.stored? (.render content p) = some v)
    (fits : ∀ v ∈ s.stored? (.render content p), Payload.Storable s.settings.compression v)
    (fields : Option String) (q : Query) :
    ∃ inlined, ((s.inline.after before).render content p stored).1 = .ok inlined ∧
      ((s.after (before ++ (.render content p,stored) :: later)).handle
        (.query key fields q) asked).1 =
      ((s.inline.after (before ++ (.render content p,stored) :: later)).handle
        (.query inlined.liveData.query.source.entries fields q) asked).1 := by
  obtain ⟨first,cachedFirst,idleFirst,roomFirst⟩ := after_cached cached before
  obtain ⟨payload,given,named,kept,inlined,viewedInline,referenceInline⟩ :=
    render_inline cachedFirst viewed
  rw [stored?_after] at given
  rw [reference] at named
  subst named
  rw [after_inline,←inline_after s before] at viewedInline
  refine ⟨inlined,viewedInline,?_⟩
  -- The run goes on from where the view was stored, and so does its log.
  have goesOn : s.after (before ++ (.render content p,stored) :: later) =
      ((s.after before).handle (.render content p) stored).2.after later := after_append ..
  have logged : s.uses before ++ (payloadKey payload,stored) ::
      ((s.after before).handle (.render content p) stored).2.uses later =
        old ++ (payloadKey payload,last) :: back := by
    rw [←used,uses_append,uses,used?,stored?_after,given]
    rfl
  obtain ⟨between,split⟩ := last_use_behind logged latest
  have early : ∀ step ∈ later, step.2 ≤ asked := fun step member =>
    chronological_bound ordered step (List.mem_append_right _ (List.mem_cons_of_mem _ member))
  have stays : ∀ v ∈ ((s.after before).handle (.render content p) stored).2.stores later,
      payloadKey v = payloadKey payload → v = payload := by
    intro v member same
    have inLater : v ∈ s.stores later := by
      rwa [←stores_after s (before ++ [(.render content p,stored)]),after_append]
    exact Option.some.inj ((alone v inLater same).symm.trans given)
  have found := put_found kept early stays split latest (by rwa [idleFirst]) (by rwa [roomFirst])
  obtain ⟨decoded,decodes⟩ := stored_decodes given (fits payload given)
  have bySession : Resolves (s.after (before ++ (.render content p,stored) :: later)).cache
      (payloadKey payload) asked decoded := by
    rw [goesOn,Resolves,found]
    exact decodes
  have byPayload : Resolves s.inline.cache payload asked decoded := decodes
  rw [inline_after,referenceInline,handle_query _ _ _ _ _ bySession,
    handle_query _ _ _ _ _ byPayload,resolved_after]
  rfl

theorem key_answers_as_payload_kept :
    let s : Session := ⟨⟨.gzip,10⟩,some (.create 1 60),["%Y-%m-%d"]⟩
    let content := "|=Name|=Made\n|007|2024-02-29"
    ∃ view inlined : RenderedView, (s.render content .standard 5).1 = .ok view ∧
      (s.inline.render content .standard 5).1 = .ok inlined ∧
      let key := view.liveData.query.source.entries
      let run := [(.render content .standard,5),(.query key none .standard,30)]
      ((s.after run).handle (.query key none .standard) 90).1 =
        ((s.inline.after run).handle
          (.query inlined.liveData.query.source.entries none .standard) 90).1 := by
  intro s content
  obtain ⟨separator,read⟩ := standardSeparator_read
  have parsed : ∃ table, parseTable (Document.parse content) (s.parameters .standard) =
      .ok table := by
    have same : Pattern.ofString? (s.parameters .standard).separator = some separator := read
    rw [parseTable,ViewParameters.normalizeOptions,same]
    exact ⟨_,rfl⟩
  have viewed : ∃ view, (s.render content .standard 5).1 = .ok view := by
    obtain ⟨table,parsed⟩ := parsed
    rw [render,TableView.render,parsed]
    exact ⟨_,rfl⟩
  obtain ⟨view,viewed⟩ := viewed
  have cached : s.cache = some (.create 1 60) := rfl
  obtain ⟨payload,given,named,kept,_⟩ := render_inline cached viewed
  have hit : (lookUp (s.handle (.render content .standard) 5).2.cache (payloadKey payload) 30).1 =
      some payload := by
    rw [kept,lookUp_cache]
    exact Cache.get_of_resident (Cache.put_resident_self ..) List.not_mem_nil
      (show 30 - 5 ≤ 60 by decide)
  have second : (s.handle (.render content .standard) 5).2.used?
      (.query (payloadKey payload) none .standard) 30 = some (payloadKey payload) := by
    show (if (lookUp _ _ _).1.isSome then _ else _) = _
    rw [hit]
    rfl
  have used : s.uses [(.render content .standard,5),
      (.query view.liveData.query.source.entries none .standard,30)] =
        [(view.liveData.query.source.entries,5)] ++
          (view.liveData.query.source.entries,30) :: [] := by
    rw [named,uses,used?,given,uses,second]
    rfl
  have ordered : Chronological ([] ++ (.render content .standard,5) ::
      [(.query view.liveData.query.source.entries none .standard,30)]) 90 :=
    show [5,30,90].Pairwise (· ≤ ·) by decide
  obtain ⟨inlined,viewedInline,same⟩ := key_answers_as_payload cached ordered viewed rfl
    used List.not_mem_nil (by decide) (by decide) (fun v member => by cases member)
    (fun v _ xz => by cases xz) none .standard
  exact ⟨view,inlined,viewed,viewedInline,same⟩

end TableView.Session
