import TableView.Proofs.Payload.Codec
import TableView.Proofs.Payload.Faults
import TableView.Proofs.Text.Blank
import TableView.Report

namespace TableView

def CacheFault.texts : CacheFault → List String
  | alreadyExists id => [id]
  | unavailable reason => [reason]
  | exhausted id _ last => id :: last.texts

theorem CacheFault.message_broken (f : CacheFault) :
    Broken f.message ↔ ∃ t ∈ f.texts, Broken t := by
  induction f with
  | alreadyExists id =>
    change Broken ("cache '" ++ id ++ "' already exists") ↔ ∃ t ∈ [id], Broken t
    simp [Broken]
  | unavailable reason =>
    change Broken ("cache backend unavailable: " ++ reason) ↔ ∃ t ∈ [reason], Broken t
    simp [Broken]
  | exhausted id attempts last ih =>
    have number : '\n' ∉ (Text.Numeral.natText attempts).toList := natText_unbroken attempts
    change Broken ("could not create cache '" ++ id ++ "' after " ++
        Text.Numeral.natText attempts ++ " attempts: " ++ last.message) ↔
      ∃ t ∈ id :: last.texts, Broken t
    rw [broken_append,ih]
    simp [Broken,number]

def RequestFault.texts : RequestFault → List String
  | unresolvedReference cause | corruptCachedData cause | payload cause => cause.texts
  | cacheBackend cause => cause.texts
  | descriptor reason => [reason]
  | invalidParameter name reason => [name,reason]

theorem RequestFault.withCause_broken {f : RequestFault} (wording : ¬Broken f.message)
    (cause : PayloadFault) :
    Broken (f.withCause cause) ↔ ∃ t ∈ cause.texts, Broken t := by
  have opened : ¬Broken " (" := by decide
  have closed : ¬Broken ")" := by decide
  rw [withCause,broken_append,broken_append,broken_append,cause.message_broken]
  simp [wording,opened,closed]

theorem RequestFault.userMessage_broken (f : RequestFault) :
    Broken f.userMessage ↔ ∃ t ∈ f.texts, Broken t := by
  cases f with
  | unresolvedReference cause =>
    have wording : ¬Broken (unresolvedReference cause).message := by
      change ¬Broken
        "Failed to retrieve entries. The entries reference is not in cache or is not valid."
      decide
    exact withCause_broken wording cause
  | corruptCachedData cause =>
    have wording : ¬Broken (corruptCachedData cause).message := by
      change ¬Broken "Failed to retrieve entries. The data was found in cache but is not valid."
      decide
    exact withCause_broken wording cause
  | payload cause => exact cause.message_broken
  | cacheBackend cause => exact cause.message_broken
  | descriptor reason =>
    change Broken ("Failed to serialize the live-data descriptor: " ++ reason) ↔
      ∃ t ∈ [reason], Broken t
    simp [Broken]
  | invalidParameter name reason =>
    change Broken ("Invalid parameter '" ++ name ++ "': " ++ reason) ↔
      ∃ t ∈ [name,reason], Broken t
    simp [Broken]

def InputFault.texts (f : InputFault) : List String :=
  match f.kind with
  | .other => [f.text]
  | _ => []

theorem InputFault.message_broken (f : InputFault) :
    Broken f.message ↔ ∃ t ∈ f.texts, Broken t := by
  obtain ⟨kind,text⟩ := f
  cases kind with
  | other => simp [message,texts]
  | _ => simp [Broken,message,texts]

-- The texts that a message tells as they are: none of a plain failure, which is cut.
def ReportCause.texts : ReportCause → List String
  | request f => f.texts
  | cache f => f.texts
  | input f => f.texts
  | plain _ => []

namespace Report

theorem headline_unbroken (text : String) : ¬Broken (headline text) := by
  unfold headline
  split
  · decide
  · rename_i line rest cut
    have member : line ∈ (Text.Chars.lines text.toList).map String.ofList := by
      rw [←Text.lines,cut]
      exact List.mem_cons_self
    obtain ⟨cs,listed,rfl⟩ := List.mem_map.mp member
    rw [Broken,Text.trim,String.toList_ofList,String.toList_ofList]
    exact fun inside => Text.Chars.not_mem_of_lines listed
      ((Text.Chars.trim_sublist cs).subset inside)

theorem userMessage_broken (r : Report) :
    Broken r.userMessage ↔ ∃ t ∈ r.cause.texts, Broken t := by
  obtain ⟨cause,contexts⟩ := r
  cases cause with
  | request f => exact f.userMessage_broken
  | cache f =>
    have wording : ¬Broken "Cache setup failed: " := by decide
    simp [userMessage,ReportCause.texts,broken_append,wording,f.message_broken]
  | input f => exact f.message_broken
  | plain text => simp [userMessage,ReportCause.texts,headline_unbroken]

theorem refused_key :
    Payload.decodeRows (Payload.encode .gzip (.array [.object [("a\nb",Json.ofInt 1)]])) =
      .error (.shape (.unexpectedKey "a\nb")) := by
  have listed : Payload.decodeList
      (Payload.encode .gzip (.array [.object [("a\nb",Json.ofInt 1)]])) =
        .ok [.object [("a\nb",Json.ofInt 1)]] := by
    apply Payload.decodeList_encode
    · rw [List.forall_mem_singleton]
      exact ⟨by decide,⟨by decide,by decide⟩,True.intro⟩
    · rw [List.forall_mem_singleton]
      rfl
    · rintro ⟨⟩
  rw [Payload.decodeRows,listed]
  rfl

-- A message has several lines just when a text that its cause carries as it is has several.
-- Payloads have two such texts at most: what a reader of streams tells, and a key that names no
-- place in a row.
theorem userMessage_lines (r : Report) (payload : String) :
    (Broken r.userMessage ↔ ∃ t ∈ r.cause.texts, Broken t) ∧
    ∀ f : PayloadFault, Broken f.message →
      (Payload.decodeEntries payload = .error f → ∃ c, f = .compression c) ∧
      (Payload.decodeColumns payload = .error f → ∃ c, f = .compression c) ∧
      (Payload.decodeRows payload = .error f →
        (∃ c, f = .compression c) ∨ ∃ key, f = .shape (.unexpectedKey key) ∧ Broken key) := by
  refine ⟨r.userMessage_broken,fun f broken => ⟨fun refused => ?_,fun refused => ?_,
    fun refused => ?_⟩⟩
  · exact Payload.decodeEntries_whole payload f refused broken
  · exact Payload.decodeColumns_whole payload f refused broken
  · exact Payload.decodeRows_key payload f refused broken

-- A key of two lines in a payload of rows. The context has two lines as well, and is not told.
theorem userMessage_lines_key :
    let f : PayloadFault := .shape (.unexpectedKey "a\nb")
    let r : Report := ⟨.request (.payload f),["a\nb"]⟩
    Broken f.message ∧
      Payload.decodeRows (Payload.encode .gzip (.array [.object [("a\nb",Json.ofInt 1)]])) =
        .error f ∧
      ((∃ c, f = .compression c) ∨ ∃ key, f = .shape (.unexpectedKey key) ∧ Broken key) ∧
      (Broken r.userMessage ↔ ∃ t ∈ r.cause.texts, Broken t) := by
  intro f r
  have broken : Broken f.message := by decide +kernel
  obtain ⟨told,refusals⟩ := userMessage_lines r
    (Payload.encode .gzip (.array [.object [("a\nb",Json.ofInt 1)]]))
  exact ⟨broken,refused_key,(refusals f broken).2.2 refused_key,told⟩

theorem key_breaks_message :
    Payload.decodeRows (Payload.encode .gzip (.array [.object [("a\nb",Json.ofInt 1)]])) =
        .error (.shape (.unexpectedKey "a\nb")) ∧
      Broken (of (.request (.payload (.shape (.unexpectedKey "a\nb"))))).userMessage :=
  ⟨refused_key,by decide +kernel⟩

end Report
end TableView
