import TableView.Proofs.Session.Response
import TableView.Proofs.View.Render
import TableView.CommandLine.Program

namespace TableView

theorem Settings.check_ok {s : Settings} (accepted : s.check = .ok ()) :
    (∃ policy, s.table.policy = .ok policy) ∧
      (∃ separator, Pattern.ofString? s.table.separator = some separator) ∧
      ∃ format, s.payload.format = .ok format := by
  rw [check] at accepted
  split at accepted
  · cases accepted
  obtain ⟨_,_,accepted⟩ := ok_of_bind accepted
  obtain ⟨_,table,accepted⟩ := ok_of_bind accepted
  obtain ⟨format,payload,_⟩ := ok_of_bind accepted
  obtain ⟨policy,named,separated⟩ := ok_of_bind table
  refine ⟨⟨policy,named⟩,?_,format,payload⟩
  cases found : Pattern.ofString? s.table.separator with
  | none =>
    rw [found] at separated
    cases separated
  | some separator => exact ⟨separator,rfl⟩

section Parameters

variable (t : TableSection) (policy : HeaderPolicy)

-- Parameters that tell of a table what the settings do, and ask for nothing else.
def TableSection.told (separator : String) (formats : List String) : ViewParameters :=
  ⟨none,policy,none,none,separator,t.sorting,t.filtering,formats⟩

def TableSection.view (settings : RenderSettings) (blocks : List Block) : RenderedView :=
  let table := normalizeDocument ⟨policy,t.dateFormats,[]⟩ blocks
  describe settings (t.told policy t.separator t.dateFormats) table
    (Payload.encodeRows settings.compression table.entries)

theorem TableSection.render_told {text : String} {separator : Pattern}
    (readable : Pattern.ofString? text = some separator) (settings : RenderSettings)
    (blocks : List Block) (now : Time) :
    (render settings none blocks (t.told policy text t.dateFormats) now).1 =
      .ok (t.view policy settings blocks) := by
  have parsed : parseTable blocks (t.told policy text t.dateFormats) =
      .ok (normalizeDocument ⟨policy,t.dateFormats,[]⟩ blocks) := by
    rw [parseTable,(t.told policy text t.dateFormats).normalizeOptions_unlisted readable rfl rfl]
    rfl
  simp only [render,parsed]
  rfl

theorem TableSection.view_exact {settings : RenderSettings} (limit : settings.limit < 2 ^ 64)
    (blocks : List Block) (depth : Nat) :
    Json.Exact (depth + 6) (t.view policy settings blocks).toJson :=
  RenderedView.within Json.Number.exact_words (Nat.two_pow_pos 64) limit depth

theorem TableSection.told_standard (sorting : t.sorting = true) (filtering : t.filtering = true) :
    t.told .standard standardSeparator [] = .standard := by
  rw [told,sorting,filtering]
  rfl

theorem Session.parameters_told (s : Session) (text : String) :
    s.parameters (t.told policy text []) = t.told policy text s.dateFormats := rfl

theorem Session.parameters_unformatted {s : Session} (unformatted : s.dateFormats = [])
    (p : ViewParameters) : s.parameters p = p := by
  rw [parameters,unformatted]
  split
  · rename_i empty
    rw [←List.isEmpty_iff.mp empty]
  · rfl

theorem TableSection.handleLine_told {s : Session} (uncached : s.cache = none)
    (same : s.dateFormats = t.dateFormats) {line document : String}
    (read : Request.decoder.read line =
      .ok (.render document (t.told policy standardSeparator []))) (now : Time) :
    (s.handleLine line now).1 =
      (Session.resultResponse
        (t.view policy s.settings (Document.parse document)).toJson.sorted).compact := by
  obtain ⟨separator,readable⟩ := standardSeparator_read
  have rendered : (s.render document (t.told policy standardSeparator []) now).1 =
      .ok (t.view policy s.settings (Document.parse document)) := by
    simp only [Session.render,uncached,s.parameters_told,same]
    exact t.render_told policy readable s.settings (Document.parse document) now
  simp only [Session.handleLine,read,Session.handle,rendered]
  rfl

theorem TableSection.response_told {s : Session} (uncached : s.cache = none)
    (same : s.dateFormats = t.dateFormats) (limit : s.settings.limit < 2 ^ 64)
    {line document : String} (read : Request.decoder.read line =
      .ok (.render document (t.told policy standardSeparator []))) (now : Time) :
    Json.parse (s.handleLine line now).1 = .ok (Session.resultResponse
      (t.view policy s.settings (Document.parse document)).toJson.sorted) := by
  rw [t.handleLine_told policy uncached same read]
  refine Json.parse_compact (Json.within_object ?_)
  simp only [List.forall_mem_singleton]
  exact Json.within_sorted _ (t.view_exact policy limit _ 121)

theorem TableSection.printed_view {settings : RenderSettings} (limit : settings.limit < 2 ^ 64)
    (blocks : List Block) :
    Json.parse ((t.view policy settings blocks).toJson.compact ++ "\n") =
      .ok (t.view policy settings blocks).toJson :=
  Json.parse_line (t.view_exact policy limit blocks 122)

end Parameters

namespace CommandLine

def RenderArguments.plain (path : String) : RenderArguments :=
  ⟨path,none,none,none,none,none,false,false,none,false⟩

def ServeArguments.uncached : ServeArguments := ⟨true,none⟩

example : Arguments.ofWords ["render","page"] = .ok ⟨false,false,some (.render (.plain "page"))⟩ ∧
    Arguments.ofWords ["serve","--no-cache"] = .ok ⟨false,false,some (.serve .uncached)⟩ := by
  decide

variable {s : Settings} {policy : HeaderPolicy} {format : Compression.Format}

theorem renderDocument_plain (named : s.table.policy = .ok policy)
    (payload : s.payload.format = .ok format) {separator : Pattern}
    (readable : Pattern.ofString? s.table.separator = some separator) (path document : String) :
    renderDocument (.plain path) s document = .ok ((s.table.view policy
      ⟨format,s.query.defaultLimit⟩ (Document.parse document)).toJson.compact ++ "\n") := by
  have chosen : formatOr (RenderArguments.plain path).compression s = .ok format := by
    simp only [RenderArguments.plain,formatOr,payload,Except.mapError]
  have params : (RenderArguments.plain path).parameters s =
      .ok (s.table.told policy s.table.separator s.table.dateFormats) := by
    simp only [RenderArguments.parameters,RenderArguments.plain,policyOr,named,Except.mapError,
      bind,Except.bind,pure,Except.pure,Bool.not_false,Bool.and_true,Option.getD_none]
    rfl
  have rendered : ((oneShot format s).render document
      (s.table.told policy s.table.separator s.table.dateFormats) 0).1 =
      .ok (s.table.view policy ⟨format,s.query.defaultLimit⟩ (Document.parse document)) := by
    have unformatted : (oneShot format s).dateFormats = [] := rfl
    simp only [Session.render,Session.parameters_unformatted unformatted]
    exact s.table.render_told policy readable _ _ 0
  rw [renderDocument,chosen,params]
  simp only [bind,Except.bind,rendered]
  rfl

theorem serveSession_uncached (payload : s.payload.format = .ok format) :
    serveSession .uncached s = .ok ⟨⟨format,s.query.defaultLimit⟩,none,s.table.dateFormats⟩ := by
  have cache : serveCache .uncached s.cache = .ok none := by
    rw [serveCache,ServeArguments.uncached,if_neg (by simp)]
  have chosen : formatOr ServeArguments.uncached.compression s = .ok format := by
    simp only [ServeArguments.uncached,formatOr,payload,Except.mapError]
  rw [serveSession,cache,chosen]
  rfl

section Commands

variable {m : Type → Type} [Monad m] [LawfulMonad m]

theorem render_plain (named : s.table.policy = .ok policy) (payload : s.payload.format = .ok format)
    {separator : Pattern} (readable : Pattern.ofString? s.table.separator = some separator)
    {around : Surroundings m} {path document : String}
    (found : readDocument around path = pure (.ok document)) :
    (Command.render (.plain path)).run around s = pure (.printed ((s.table.view policy
      ⟨format,s.query.defaultLimit⟩ (Document.parse document)).toJson.compact ++ "\n")) := by
  have given := renderDocument_plain named payload readable path document
  change readDocument around path >>= (fun read =>
    pure (printOr (read.bind (renderDocument (.plain path) s)))) = _
  rw [found,pure_bind,Except.bind,given,printOr]

omit [LawfulMonad m] in
theorem serve_uncached (payload : s.payload.format = .ok format) (around : Surroundings m) :
    (Command.serve .uncached).run around s =
      pure (.serving ⟨⟨format,s.query.defaultLimit⟩,none,s.table.dateFormats⟩) := by
  rw [Command.run,serveSession_uncached payload]

end Commands

-- For every configuration that is accepted and every document, the view that is printed is the
-- value of the answer to a request that tells of the table what the settings do; and of the answer
-- to a request without parameters, where the settings leave the policy, sorting and filtering
-- standard.
theorem served_as_printed {m : Type → Type} [Monad m] [LawfulMonad m] {s : Settings}
    (accepted : s.check = .ok ()) (limit : s.query.defaultLimit < 2 ^ 64)
    (around : Surroundings m) {path document : String}
    (found : readDocument around path = pure (.ok document)) :
    ∃ (policy : HeaderPolicy) (printed : String) (value : Json) (session : Session),
      s.table.policy = .ok policy ∧
      (Command.render (.plain path)).run around s = pure (.printed printed) ∧
      Json.parse printed = .ok value ∧
      (Command.serve .uncached).run around s = pure (.serving session) ∧
      (∀ line now, Request.decoder.read line =
          .ok (.render document (s.table.told policy standardSeparator [])) →
        Json.parse (session.handleLine line now).1 =
          .ok (Session.resultResponse value.sorted)) ∧
      (policy = .standard → s.table.sorting = true → s.table.filtering = true →
        ∀ line now, Request.decoder.read line = .ok (.render document .standard) →
        Json.parse (session.handleLine line now).1 =
          .ok (Session.resultResponse value.sorted)) := by
  obtain ⟨⟨policy,named⟩,⟨separator,readable⟩,format,payload⟩ := s.check_ok accepted
  refine ⟨policy,_,_,_,named,render_plain named payload readable found,
    s.table.printed_view policy limit _,serve_uncached payload around,
    fun line now read => s.table.response_told policy rfl rfl limit read now,?_⟩
  rintro rfl sorting filtering line now read
  refine s.table.response_told .standard rfl rfl limit ?_ now
  rw [s.table.told_standard sorting filtering]
  exact read

theorem served_as_printed_dated :
    let table : TableSection := ⟨"Remove",["%Y-%m-%d"],",",true,true⟩
    let s : Settings := { Settings.standard with table := table }
    let around : Surroundings Id := ⟨"",none,fun _ => .ok "",.ok "|=Born\n|2024-02-29"⟩
    let line := "\x7b\"op\":\"render\",\"content\":\"|=Born\\n|2024-02-29\"\x7d"
    ∃ (printed : String) (value : Json) (session : Session),
      (Command.render (.plain "-")).run around s = .printed printed ∧
      Json.parse printed = .ok value ∧
      (Command.serve .uncached).run around s = .serving session ∧
      Json.parse (session.handleLine line 0).1 = .ok (Session.resultResponse value.sorted) := by
  intro table s around line
  have accepted : s.check = .ok () := by decide +kernel
  have read : Request.decoder.read line = .ok (.render "|=Born\n|2024-02-29" .standard) :=
    ok_of_toOption (by decide +kernel)
  have named : s.table.policy = .ok .standard := by decide +kernel
  obtain ⟨policy,printed,value,session,same,shown,parsed,served,_,answered⟩ :=
    served_as_printed accepted (by decide) around
      (show readDocument around "-" = pure (.ok "|=Born\n|2024-02-29") from rfl)
  cases named.symm.trans same
  exact ⟨printed,value,session,shown,parsed,served,answered rfl rfl rfl line 0 read⟩

-- With columns that must not be sorted the session lets them be.
theorem served_sortable :
    let s : Settings := { Settings.standard with table := { TableSection.standard with
      sorting := false } }
    let around : Surroundings Id := ⟨"",none,fun _ => .ok "",.ok "|a"⟩
    let line := "\x7b\"op\":\"render\",\"content\":\"|a\"\x7d"
    s.check = .ok () ∧ Request.decoder.read line = .ok (.render "|a" .standard) ∧
    ∃ (printed : String) (value answer : Json) (session : Session),
      (Command.render (.plain "-")).run around s = .printed printed ∧
      Json.parse printed = .ok value ∧
      (Command.serve .uncached).run around s = .serving session ∧
      Json.parse (session.handleLine line 0).1 = .ok answer ∧
      answer ≠ Session.resultResponse value.sorted := by
  intro s around line
  have read : Request.decoder.read line = .ok (.render "|a" .standard) :=
    ok_of_toOption (by decide +kernel)
  obtain ⟨separator,readable⟩ := standardSeparator_read
  have named : s.table.policy = .ok .standard := by decide +kernel
  have payload : s.payload.format = .ok .standard := by decide +kernel
  have limit : s.query.defaultLimit < 2 ^ 64 := by decide
  refine ⟨by decide +kernel,read,_,_,_,_,render_plain named payload readable rfl,
    s.table.printed_view .standard limit _,serve_uncached payload around,
    TableSection.standard.response_told .standard rfl rfl limit read 0,?_⟩
  intro same
  have members := List.cons.inj (Json.object.inj same)
  have values := congrArg Prod.snd members.1
  change (TableSection.view _ _ ⟨.standard,10⟩ _).toJson.sorted =
    (TableSection.view _ _ ⟨.standard,10⟩ _).toJson.sorted at values
  exact absurd (congrArg Json.write values) (by decide +kernel)

end CommandLine

end TableView
