import TableView.Proofs.Session.Response
import TableView.Session.Session

namespace TableView

def endLine (piece : List UInt8) : List UInt8 :=
  if piece.getLast? = some 13 then piece.dropLast else piece

def linesOf (pieces : List (List UInt8)) : List (List UInt8) :=
  pieces.dropLast.map endLine ++ pieces.getLast?.toList.filter (fun last => !last.isEmpty)

theorem linesOf_cons (piece : List UInt8) {pieces : List (List UInt8)} (more : pieces ≠ []) :
    linesOf (piece :: pieces) = endLine piece :: linesOf pieces := by
  obtain ⟨next,rest,rfl⟩ := List.exists_cons_of_ne_nil more
  rw [linesOf,List.dropLast_cons_cons,List.getLast?_cons_cons,List.map_cons,List.cons_append]
  rfl

-- The accumulator is the beginning of the first piece, backwards.
theorem byteLines_linesOf (line input : List UInt8) :
    byteLines line input = linesOf ((input.splitOn 10).modifyHead (line.reverse ++ ·)) := by
  induction input generalizing line with
  | nil =>
    rw [byteLines,List.splitOn_nil,List.modifyHead_cons,List.append_nil]
    cases line with
    | nil => rfl
    | cons b line => simp [linesOf]
  | cons b rest ih =>
    have pieces : (b :: rest).splitOn 10 = if b = 10 then [] :: rest.splitOn 10
        else (rest.splitOn 10).modifyHead (b :: ·) := by
      simp [List.splitOn_eq_splitOnP,List.splitOnP_cons_eq_if_modifyHead]
    rw [pieces,byteLines.eq_def]
    dsimp only
    split
    · have behind := ih []
      rw [List.reverse_nil] at behind
      have same : (rest.splitOn 10).modifyHead ([] ++ ·) = rest.splitOn 10 := by
        cases rest.splitOn 10 <;> rfl
      rw [same] at behind
      rw [List.modifyHead_cons,List.append_nil,linesOf_cons _ (List.splitOn_ne_nil _ _),←behind]
      split
      · rw [endLine,if_pos (by simp)]
        simp
      · rename_i other
        rw [endLine,if_neg]
        rw [List.getLast?_reverse]
        intro first
        obtain ⟨rest,rfl⟩ := List.head?_eq_some_iff.mp first
        exact other rest rfl
    · rw [ih,List.modifyHead_modifyHead]
      congr 2
      funext piece
      simp

def inputLines (input : List UInt8) : List (List UInt8) := linesOf (input.splitOn 10)

theorem byteLines_input (input : List UInt8) : byteLines [] input = inputLines input := by
  rw [byteLines_linesOf,inputLines]
  congr 1
  cases input.splitOn 10 <;> rfl

def asked (clock : Nat → Time) (n : Nat) (texts : List String) : List (String × Time) :=
  ((texts.zipIdx n).filter (fun line => !Text.allBlank line.1)).map
    (fun line => (line.1,clock line.2))

theorem asked_cons (clock : Nat → Time) (n : Nat) (text : String) (texts : List String) :
    asked clock n (text :: texts) = if Text.allBlank text then asked clock (n + 1) texts
      else (text,clock n) :: asked clock (n + 1) texts := by
  rw [asked,List.zipIdx_cons,List.filter_cons]
  split
  · rename_i shown
    rw [if_neg (by simpa using shown)]
    rfl
  · rename_i blank
    rw [if_pos (by simpa using blank)]
    rfl

namespace Session

def afterLines (s : Session) : List (String × Time) → Session
  | [] => s
  | (line,now) :: rest => (s.handleLine line now).2.afterLines rest

def answers (s : Session) : List (String × Time) → List String
  | [] => []
  | (line,now) :: rest => (s.handleLine line now).1 :: (s.handleLine line now).2.answers rest

theorem answers_length (s : Session) (lines : List (String × Time)) :
    (s.answers lines).length = lines.length := by
  induction lines generalizing s with
  | nil => rfl
  | cons line lines ih => exact congrArg Nat.succ (ih _)

theorem answers_getElem? (s : Session) {lines : List (String × Time)} {i : Nat} {line : String}
    {now : Time} (given : lines[i]? = some (line,now)) :
    (s.answers lines)[i]? = some ((s.afterLines (lines.take i)).handleLine line now).1 := by
  induction lines generalizing s i with
  | nil => cases given
  | cons first lines ih =>
    cases i with
    | zero =>
      cases given
      rfl
    | succ i => exact ih _ given

structure Answers (clock : Nat → Time) (n : Nat) (s : Session) (texts : List String)
    (unread : List (List UInt8)) (run : SessionRun) : Prop where
  responses : run.responses = s.answers (asked clock n texts)
  session : run.session = s.afterLines (asked clock n texts)
  fault : ∀ f, run.fault = some f ↔ ∃ line ∈ unread.head?, Text.Utf8.toString? line = .error f
  stops : ∀ line ∈ unread.head?, ∀ text, Text.Utf8.ofString text ≠ line

theorem Answers.fault_eq_none_iff {clock : Nat → Time} {n : Nat} {s : Session}
    {texts : List String} {unread : List (List UInt8)} {run : SessionRun}
    (answers : Answers clock n s texts unread run) : run.fault = none ↔ unread = [] := by
  constructor
  · intro whole
    cases unread with
    | nil => rfl
    | cons line unread =>
      cases read : Text.Utf8.toString? line with
      | error f =>
        have ended := (answers.fault f).mpr ⟨line,rfl,read⟩
        rw [whole] at ended
        cases ended
      | ok text => exact absurd (Text.Utf8.toString?_iff.mp read) (answers.stops line rfl text)
  · rintro rfl
    refine Option.eq_none_iff_forall_ne_some.mpr ?_
    intro f ended
    obtain ⟨line,none,_⟩ := (answers.fault f).mp ended
    cases none

theorem runLines_answers (clock : Nat → Time) (n : Nat) (s : Session)
    (lines : List (List UInt8)) :
    ∃ texts unread, lines = texts.map Text.Utf8.ofString ++ unread ∧
      Answers clock n s texts unread (s.runLines clock n lines) := by
  induction lines generalizing n s with
  | nil =>
    refine ⟨[],[],rfl,rfl,rfl,?_,?_⟩
    · intro f
      simp [runLines]
    · intro line none
      cases none
  | cons line lines ih =>
    cases read : Text.Utf8.toString? line with
    | error f =>
      -- The run ends here, and the line is the first that is not read.
      refine ⟨[],line :: lines,rfl,?_⟩
      rw [runLines,read]
      refine ⟨rfl,rfl,?_,?_⟩
      · intro g
        simp [read]
      · intro bad first text same
        cases first
        rw [Text.Utf8.toString?_iff.mpr same] at read
        cases read
    | ok text =>
      have bytes := Text.Utf8.toString?_iff.mp read
      by_cases blank : Text.allBlank text = true
      · obtain ⟨texts,unread,rfl,run⟩ := ih (n + 1) s
        refine ⟨text :: texts,unread,by rw [List.map_cons,bytes]; rfl,?_⟩
        obtain ⟨responses,session,fault,stops⟩ := run
        simp only [runLines,read,if_pos blank]
        refine ⟨?_,?_,fault,stops⟩
        · rw [responses,asked_cons,if_pos blank]
        · rw [session,asked_cons,if_pos blank]
      · obtain ⟨texts,unread,rfl,run⟩ := ih (n + 1) (s.handleLine text (clock n)).2
        refine ⟨text :: texts,unread,by rw [List.map_cons,bytes]; rfl,?_⟩
        obtain ⟨responses,session,fault,stops⟩ := run
        simp only [runLines,read,if_neg blank]
        refine ⟨?_,?_,fault,stops⟩
        · rw [responses,asked_cons,if_neg blank]
          rfl
        · rw [session,asked_cons,if_neg blank]
          rfl

theorem readable_unique {texts others : List String} {unread rest : List (List UInt8)}
    (same : texts.map Text.Utf8.ofString ++ unread = others.map Text.Utf8.ofString ++ rest)
    (stops : ∀ line ∈ unread.head?, ∀ text, Text.Utf8.ofString text ≠ line)
    (ends : ∀ line ∈ rest.head?, ∀ text, Text.Utf8.ofString text ≠ line) :
    texts = others ∧ unread = rest := by
  induction texts generalizing others with
  | nil =>
    cases others with
    | nil => exact ⟨rfl,same⟩
    | cons other others =>
      rw [List.map_nil,List.nil_append] at same
      exact absurd rfl (stops _ (by rw [same]; rfl) other)
  | cons text texts ih =>
    cases others with
    | nil =>
      rw [List.map_nil,List.nil_append] at same
      exact absurd rfl (ends _ (by rw [←same]; rfl) text)
    | cons other others =>
      obtain ⟨first,behind⟩ := List.cons.inj same
      obtain ⟨rfl,rfl⟩ := ih behind
      exact ⟨by rw [Text.Utf8.ofString_injective first],rfl⟩

-- A run over any input answers the lines in front of the first that is no text, blank ones
-- excepted, one after another and each in the state that the answers before it have left; it ends
-- with a fault exactly when there is such a line. Every answer is a line by itself. It holds one
-- object with one member, the result or the error message, as long as the numbers in it fit into a
-- word.
theorem run_answers_lines (clock : Nat → Time) (s : Session) (input : List UInt8) :
    ∃ (texts : List String) (unread : List (List UInt8)),
      inputLines input = texts.map Text.Utf8.ofString ++ unread ∧
      (∀ line ∈ unread.head?, ∀ text, Text.Utf8.ofString text ≠ line) ∧
      (∀ f, (s.run clock input).fault = some f ↔
        ∃ line ∈ unread.head?, Text.Utf8.toString? line = .error f) ∧
      ((s.run clock input).fault = none ↔ unread = []) ∧
      let lines := asked clock 0 texts
      (s.run clock input).session = s.afterLines lines ∧
      (s.run clock input).responses.length = lines.length ∧
      (s.run clock input).output =
        String.join ((s.run clock input).responses.map (fun response => response ++ "\n")) ∧
      ∀ i line now, lines[i]? = some (line,now) →
        ∃ response, (s.run clock input).responses[i]? = some response ∧
          response = ((s.afterLines (lines.take i)).handleLine line now).1 ∧
          (∀ c ∈ response.toList, 32 ≤ c.toNat) ∧
          ((∀ r, Request.decoder.read line = .ok r →
              (s.afterLines (lines.take i)).Addressable r now) →
            ∃ name value, (name = "result" ∨ name = "error") ∧
              Json.parse response = .ok (.object [(name,value)])) := by
  obtain ⟨texts,unread,cut,run⟩ := runLines_answers clock 0 s (byteLines [] input)
  rw [byteLines_input] at cut
  refine ⟨texts,unread,cut,run.stops,run.fault,run.fault_eq_none_iff,run.session,?_,rfl,?_⟩
  · have length := congrArg List.length run.responses
    rw [answers_length] at length
    exact length
  · intro i line now given
    have answered := s.answers_getElem? given
    refine ⟨_,?_,rfl,handleLine_printable _ _ _,handleLine_parses⟩
    rw [←answered,←run.responses]
    rfl

theorem run_answers_lines_broken :
    let s : Session := ⟨⟨.gzip,10⟩,none,[]⟩
    let line := "\x7b\"op\":\"query\",\"entries\":\"W3t9XQ\"\x7d"
    let input := Text.Utf8.ofString (" \n" ++ line ++ "\r\n") ++ [255,10,121]
    ∃ response name value, (s.run (fun _ => 0) input).responses = [response] ∧
      (s.run (fun _ => 0) input).fault = some ⟨0,some 1⟩ ∧
      (name = "result" ∨ name = "error") ∧
      Json.parse response = .ok (.object [(name,value)]) := by
  intro s line input
  have fault : (s.run (fun _ => 0) input).fault = some ⟨0,some 1⟩ := by decide +kernel
  have single : (s.run (fun _ => 0) input).responses.length = 1 := by decide +kernel
  have pieces : inputLines input =
      [" ",line].map Text.Utf8.ofString ++ [[255],[121]] := by decide +kernel
  have broken : ∀ last ∈ [([255] : List UInt8),[121]].head?, ∀ text,
      Text.Utf8.ofString text ≠ last := by
    rintro last found text same
    cases found
    have none : (Text.Utf8.toString? [255]).toOption = none := by decide +kernel
    rw [Text.Utf8.toString?_iff.mpr same] at none
    cases none
  obtain ⟨texts,unread,cut,stops,_,_,_,_,_,each⟩ := run_answers_lines (fun _ => 0) s input
  obtain ⟨rfl,rfl⟩ := readable_unique (cut.symm.trans pieces) stops broken
  have query : asked (fun _ => 0) 0 [" ",line] = [(line,0)] := by decide +kernel
  rw [query] at each
  obtain ⟨response,given,_,_,parses⟩ := each 0 line 0 rfl
  have only : (s.run (fun _ => 0) input).responses = [response] := by
    obtain ⟨answer,alone⟩ := List.length_eq_one_iff.mp single
    rw [alone] at given ⊢
    cases given
    rfl
  have fits : ∀ r, Request.decoder.read line = .ok r → s.Addressable r 0 := by
    intro r read
    have asks : (Request.decoder.read line).toOption = some (.query "W3t9XQ" none .standard) := by
      decide +kernel
    rw [read] at asks
    cases asks
    refine ⟨by decide,?_⟩
    intro entries fields q decoded request resolves
    cases request
    have row : (Payload.decodeEntries "W3t9XQ").toOption = some [.ofList []] := by
      decide +kernel
    cases (ok_of_toOption row).symm.trans resolves
    decide
  obtain ⟨name,value,named,parsed⟩ := parses fits
  exact ⟨response,name,value,only,fault,named,parsed⟩

end Session

end TableView
