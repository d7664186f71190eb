import TableView.Json.Decoder
import TableView.Proofs.Json.Writer
import TableView.Proofs.Outcome

namespace TableView

abbrev Broken (s : String) : Prop := '\n' ∈ s.toList

theorem broken_append {a b : String} : Broken (a ++ b) ↔ Broken a ∨ Broken b := by
  rw [Broken,String.toList_append,List.mem_append]

theorem broken_intercalate {separator : String} (whole : ¬Broken separator)
    (parts : List String) :
    Broken (String.intercalate separator parts) ↔ ∃ part ∈ parts, Broken part := by
  induction parts with
  | nil => simp [Broken]
  | cons part parts ih =>
    cases parts with
    | nil => simp
    | cons next parts =>
      rw [String.intercalate_cons_cons,broken_append,broken_append,ih]
      simp [whole]

theorem unbroken_of_printable {cs : List Char} (printed : Printable cs) :
    ¬Broken (String.ofList cs) := by
  rw [Broken,String.toList_ofList]
  exact fun member => absurd (printed _ member) (by decide)

theorem natText_unbroken (n : Nat) : ¬Broken (Text.Numeral.natText n) :=
  unbroken_of_printable (printable_ofNat n)

theorem digits_unbroken (n : Nat) : '\n' ∉ Nat.toDigits 10 n := by
  intro member
  have digit := Nat.isDigit_of_mem_toDigits (by decide) (by decide) member
  cases digit

theorem quote_unbroken (s : String) : ¬Broken (Text.Quoted.quote s) := by
  have digits : ∀ n < 16, Text.Quoted.hexDigit n ≠ '\n' := by decide
  have hex (n : Nat) : '\n' ∉ Text.Quoted.hex n := by
    induction n using Text.Quoted.hex.induct with
    | case1 n single =>
      rw [Text.Quoted.hex,if_pos single]
      simpa using (digits n single).symm
    | case2 n several ih =>
      rw [Text.Quoted.hex,if_neg several,List.mem_append,List.mem_singleton,not_or]
      exact ⟨ih,(digits _ (Nat.mod_lt n (by decide))).symm⟩
  have escape (c : Char) : '\n' ∉ Text.Quoted.escape c := by
    unfold Text.Quoted.escape
    split
    · decide
    split
    · decide
    split
    · decide
    split
    · decide
    rename_i other
    split
    · decide
    split
    · decide
    split
    · simp [hex]
    · simpa using fun same => other same.symm
  rw [Text.Quoted.quote,Broken,String.toList_ofList]
  simp [escape]

namespace Json

theorem tick_broken (s : String) : Broken (tick s) ↔ Broken s := by
  simp [Broken,tick]

theorem Found.message_unbroken (f : Found) : ¬Broken f.message := by
  cases f with
  | null | sequence | map => decide
  | bool b => cases b <;> decide
  | integer i =>
    have number := unbroken_of_printable (printable_number (.integer i))
    change ¬Broken ("integer " ++ tick (Text.Numeral.intText i))
    rw [broken_append,tick_broken,not_or]
    exact ⟨by decide,number⟩
  | real x =>
    have number := unbroken_of_printable (printable_number (.real x))
    change ¬Broken ("floating point " ++ tick (String.ofList (TableView.Number.Shortest.write x)))
    rw [broken_append,tick_broken,not_or]
    exact ⟨by decide,number⟩
  | string s =>
    change ¬Broken ("string " ++ Text.Quoted.quote s)
    rw [broken_append,not_or]
    exact ⟨by decide,quote_unbroken s⟩

theorem oneOf_broken (names : List String) : Broken (oneOf names) ↔ ∃ n ∈ names, Broken n := by
  have separator : ¬Broken ", " := by decide
  unfold oneOf
  split
  · decide
  · simp [Broken,tick]
  · simp [Broken,tick]
  · rw [broken_append,broken_intercalate separator]
    simp [Broken,tick]

def Mismatch.texts : Mismatch → List String
  | .wrongType _ expected | .wrongValue _ expected | .wrongLength _ expected => [expected]
  | .unknownVariant name known => name :: known
  | .missingField name | .duplicateField name => [name]
  | .notScalar what => [what]

theorem Mismatch.message_broken (m : Mismatch) : Broken m.message ↔ ∃ t ∈ m.texts, Broken t := by
  cases m with
  | wrongType found expected =>
    have whole : '\n' ∉ found.message.toList := found.message_unbroken
    change Broken s!"invalid type: {found.message}, expected {expected}" ↔
      ∃ t ∈ [expected], Broken t
    simp [Broken,toString,whole]
  | wrongValue found expected =>
    have whole : '\n' ∉ found.message.toList := found.message_unbroken
    change Broken s!"invalid value: {found.message}, expected {expected}" ↔
      ∃ t ∈ [expected], Broken t
    simp [Broken,toString,whole]
  | wrongLength length expected =>
    have whole : '\n' ∉ (Text.Numeral.natText length).toList := natText_unbroken length
    change Broken s!"invalid length {Text.Numeral.natText length}, expected {expected}" ↔
      ∃ t ∈ [expected], Broken t
    simp [Broken,toString,whole]
  | unknownVariant name known =>
    change Broken s!"unknown variant {tick name}, expected {oneOf known}" ↔
      ∃ t ∈ name :: known, Broken t
    have choice : '\n' ∈ (oneOf known).toList ↔ ∃ n ∈ known, Broken n := oneOf_broken known
    simp [Broken,toString,tick,choice]
  | missingField name =>
    change Broken s!"missing field {tick name}" ↔ ∃ t ∈ [name], Broken t
    simp [Broken,toString,tick]
  | duplicateField name =>
    change Broken s!"duplicate field {tick name}" ↔ ∃ t ∈ [name], Broken t
    simp [Broken,toString,tick]
  | notScalar what =>
    change Broken s!"{what} must be a string, number or boolean" ↔ ∃ t ∈ [what], Broken t
    simp [Broken,toString]

def Cause.texts : Cause → List String
  | .mismatch m => m.texts
  | _ => []

theorem Cause.message_broken (c : Cause) : Broken c.message ↔ ∃ t ∈ c.texts, Broken t := by
  cases c with
  | mismatch m => exact m.message_broken
  | _ => decide

theorem ReadError.message_broken (e : ReadError) :
    Broken e.message ↔ ∃ t ∈ e.cause.texts, Broken t := by
  rw [←e.cause.message_broken]
  unfold message
  split
  · exact Iff.rfl
  · rename_i line column _
    have row : '\n' ∉ (Text.Numeral.natText line).toList := natText_unbroken line
    have place : '\n' ∉ (Text.Numeral.natText column).toList := natText_unbroken column
    simp [Broken,toString,row,place]

@[simp] def Cause.Textual : Cause → Prop
  | .mismatch _ => False
  | _ => True

theorem Cause.Textual.texts {c : Cause} (textual : c.Textual) : c.texts = [] := by
  cases c with
  | mismatch m => cases textual
  | _ => rfl

def Fault.Textual : Fault → Prop
  | .placed cause _ => cause.Textual
  | .unplaced _ _ => False

@[simp] theorem textual_here (cause : Cause) (rest : List Char) :
    (Fault.here cause rest).Textual ↔ cause.Textual := Iff.rfl

@[simp] theorem textual_next (cause : Cause) (rest : List Char) :
    (Fault.next cause rest).Textual ↔ cause.Textual := Iff.rfl

namespace Scan

theorem word_textual (ws s : List Char) : FailsBy Fault.Textual (word ws s) := by
  induction ws generalizing s with
  | nil => exact failsBy_ok s
  | cons w ws ih =>
    cases s with
    | nil => simp [word]
    | cons c s =>
      rw [word]
      split
      · exact ih s
      · simp

theorem hexFour_textual (s : List Char) : FailsBy Fault.Textual (hexFour s) := by
  have fault : (hexFault s).Textual := by
    unfold hexFault
    dsimp only
    split <;> exact True.intro
  unfold hexFour
  split
  · split
    · exact failsBy_ok _
    · exact failsBy_error.mpr fault
  · exact failsBy_error.mpr fault

theorem trailingHalf_textual (first : Nat) (s : List Char) :
    FailsBy Fault.Textual (trailingHalf first s) := by
  unfold trailingHalf
  split
  · simp
  · split
    · simp
    · refine (hexFour_textual _).bind fun read _ => ?_
      split
      split <;> simp
    · simp
  · simp

theorem codeEscape_textual (s : List Char) : FailsBy Fault.Textual (codeEscape s) := by
  refine (hexFour_textual s).bind fun read _ => ?_
  split
  split
  · simp
  · split
    · exact trailingHalf_textual _ _
    · exact failsBy_ok _

theorem escapeBody_textual (s : List Char) : FailsBy Fault.Textual (escapeBody s) := by
  unfold escapeBody
  split
  · simp
  · split
    · exact codeEscape_textual _
    · split <;> simp

theorem stringStep_textual (s : List Char) : FailsBy Fault.Textual (stringStep s) := by
  unfold stringStep
  split
  · simp
  · split
    · exact failsBy_ok _
    · split
      · rw [failsBy_map]
        exact escapeBody_textual _
      · split <;> simp

theorem stringChars_textual (read s : List Char) :
    FailsBy Fault.Textual (stringChars read s) := by
  induction read,s using stringChars.induct with
  | case1 read s f failed =>
    rw [stringChars,failed]
    exact failsBy_error.mpr (stringStep_textual s f failed)
  | case2 read s rest ended =>
    rw [stringChars,ended]
    exact failsBy_ok _
  | case3 read s c rest one ih =>
    rw [stringChars,one]
    exact ih

theorem stringBody_textual (s : List Char) : FailsBy Fault.Textual (stringBody s) :=
  (stringChars_textual [] s).bind fun _ _ => failsBy_ok _

theorem realOf_textual (negative : Bool) (digits : Nat) (exponent : Int) (rest : List Char) :
    FailsBy Fault.Textual (realOf negative digits exponent rest) := by
  unfold realOf
  dsimp only
  split <;> simp

theorem exponentPart_textual (negative : Bool) (digits : Nat) (start : Int) (s : List Char) :
    FailsBy Fault.Textual (exponentPart negative digits start s) := by
  unfold exponentPart
  split
  split
  · simp
  · split
    · simp
    · split
      · exact realOf_textual _ _ _ _
      · split <;> simp

theorem afterFraction_textual (negative : Bool) (digits : Nat) (exponent : Int) (s : List Char) :
    FailsBy Fault.Textual (afterFraction negative digits exponent s) := by
  unfold afterFraction
  split
  · split
    · exact exponentPart_textual _ _ _ _
    · exact realOf_textual _ _ _ _
  · exact realOf_textual _ _ _ _

theorem fractionPart_textual (negative : Bool) (digits : Nat) (exponent : Int) (s : List Char) :
    FailsBy Fault.Textual (fractionPart negative digits exponent s) := by
  unfold fractionPart
  split
  split
  · exact afterFraction_textual _ _ _ _
  · split
    · split <;> simp
    · exact afterFraction_textual _ _ _ _

theorem afterInteger_textual (negative : Bool) (digits : Nat) (s : List Char) :
    FailsBy Fault.Textual (afterInteger negative digits s) := by
  have whole (rest : List Char) : FailsBy Fault.Textual (integerOf negative digits rest) := by
    unfold integerOf
    split
    · exact failsBy_ok _
    · split
      · exact failsBy_ok _
      · exact realOf_textual _ _ _ _
  unfold afterInteger
  split
  · exact fractionPart_textual _ _ _ _
  · split
    · exact exponentPart_textual _ _ _ _
    · exact whole _
  · exact whole _

theorem longInteger_textual (negative : Bool) (digits : Nat) (s : List Char) :
    FailsBy Fault.Textual (longInteger negative digits s) := by
  unfold longInteger
  dsimp only
  split
  · exact fractionPart_textual _ _ _ _
  · exact afterFraction_textual _ _ _ _

theorem number_textual (s : List Char) : FailsBy Fault.Textual (number s) := by
  have unsigned (negative : Bool) (s : List Char) :
      FailsBy Fault.Textual (unsigned negative s) := by
    unfold Scan.unsigned
    split
    · simp
    · split
      · simp
      · split
        · simp
        · exact afterInteger_textual _ _ _
      · split
        split
        · exact longInteger_textual _ _ _
        · exact afterInteger_textual _ _ _
  unfold number
  split
  · exact unsigned _ _
  · exact unsigned _ _

end Scan

open Scan (word_textual stringBody_textual number_textual)

theorem nextItem_textual (first : Bool) (s : List Char) :
    FailsBy Fault.Textual (nextItem first s) := by
  unfold nextItem
  grind [Cause.Textual,failsBy_error,failsBy_ok,textual_next]

theorem nextName_textual (first : Bool) (s : List Char) :
    FailsBy Fault.Textual (nextName first s) := by
  unfold nextName
  grind [Cause.Textual,failsBy_error,failsBy_ok,textual_next,failsBy_map,stringBody_textual]

theorem colon_textual (s : List Char) : FailsBy Fault.Textual (colon s) := by
  unfold colon
  grind [Cause.Textual,failsBy_error,failsBy_ok,textual_next]

-- By the fuel, which each of the three hands on to the others.
theorem reads_textual (fuel : Nat) :
    (∀ depth s, FailsBy Fault.Textual (value fuel depth s)) ∧
    (∀ depth first s, FailsBy Fault.Textual (items fuel depth first s)) ∧
    ∀ depth first s, FailsBy Fault.Textual (members fuel depth first s) := by
  induction fuel with
  | zero => simp [value,items,members]
  | succ fuel ih =>
    obtain ⟨values,lists,objects⟩ := ih
    refine ⟨fun depth s => ?_,fun depth first s => ?_,fun depth first s => ?_⟩
    · rw [value]
      dsimp only
      grind [Cause.Textual,failsBy_error,failsBy_map,textual_next,word_textual,stringBody_textual,
        number_textual]
    · rw [items]
      refine (nextItem_textual first s).bind fun next _ => ?_
      split
      · exact failsBy_ok _
      · exact (values depth _).bind fun item _ =>
          (lists depth false item.2).bind fun rest _ => failsBy_ok _
    · rw [members]
      refine (nextName_textual first s).bind fun next _ => ?_
      split
      · exact failsBy_ok _
      · exact (colon_textual _).bind fun behind _ => (values depth behind).bind fun item _ =>
          (objects depth false item.2).bind fun rest _ => failsBy_ok _

theorem parse_textual (text : String) : FailsBy (fun e => e.cause.Textual) (parse text) := by
  have chars : FailsBy Fault.Textual (Decoder.any.readChars text.toList) := by
    refine ((reads_textual _).1 _ _).bind fun read _ => ?_
    obtain ⟨v,rest⟩ := read
    dsimp only
    split
    · exact failsBy_ok v
    · simp
  refine failsBy_mapError chars fun f textual => ?_
  cases f with
  | placed cause unread => exact textual
  | unplaced m rest => cases textual

end Json
end TableView
