import TableView.Entries.Normalize
import TableView.Fault
import TableView.Json.Decoder

namespace TableView

open Json (Decoder)
open Json.Decoder (field)

def standardSeparator : String := "\\|\\|"

structure ViewParameters where
  id : Option String
  headerDetection : HeaderPolicy
  header : Option String
  dateFormats : Option String
  separator : String
  sorting : Bool
  filtering : Bool
  defaultDateFormats : List String
deriving DecidableEq,Repr

namespace ViewParameters

def standard : ViewParameters := ⟨none,.standard,none,none,standardSeparator,true,true,[]⟩

def separatorName : String := "dateFormatsSeparator"

-- A pattern that cannot be read is described no further.
def patternReason : String := "regex parse error"

def normalizeOptions (p : ViewParameters) : Except RequestFault NormalizeOptions :=
  match Pattern.ofString? p.separator with
  | none => .error (.invalidParameter separatorName patternReason)
  | some separator =>
    .ok ⟨p.headerDetection,
      match p.dateFormats with
      | some list => separator.items list
      | none => p.defaultDateFormats,
      match p.header with
      | some list => separator.items list
      | none => []⟩

def policyNames : List (String × HeaderPolicy) := [("REMOVE",.remove),("remove",.remove),
  ("KEEP",.keep),("keep",.keep),("IGNORE",.ignore),("ignore",.ignore)]

def decoder : Decoder ViewParameters := .record "struct MacroParameters" [
  field "id" Decoder.text.optional (fun s p => { p with id := s }),
  field "headerDetection" (.variant policyNames) (fun h p => { p with headerDetection := h }),
  field "header" Decoder.text.optional (fun s p => { p with header := s }),
  field "dateFormats" Decoder.text.optional (fun s p => { p with dateFormats := s }),
  field separatorName .text (fun s p => { p with separator := s }),
  field "sorting" .flag (fun b p => { p with sorting := b }),
  field "filtering" .flag (fun b p => { p with filtering := b })] standard

end ViewParameters

end TableView
