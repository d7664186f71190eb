import TableView.Fault
import TableView.Text.Blank

namespace TableView

inductive InputFaultKind where
  | notFound
  | permissionDenied
  | invalidData
  | unexpectedEnd
  | interrupted
  | other
deriving DecidableEq,Repr

structure InputFault where
  kind : InputFaultKind
  text : String
deriving DecidableEq,Repr

namespace InputFault

def message (f : InputFault) : String :=
  match f.kind with
  | .notFound => "File or directory not found."
  | .permissionDenied => "Permission denied. Check read access."
  | .invalidData => "Invalid or corrupted data."
  | .unexpectedEnd => "Unexpected end of file."
  | .interrupted => "Operation interrupted."
  | .other => f.text

def messageIn (f : InputFault) (context : Option String) : String :=
  match context with
  | none => f.message
  | some c => if c.isEmpty then f.message else f.message ++ " " ++ c

end InputFault

inductive ReportCause where
  | request (f : RequestFault)
  | cache (f : CacheFault)
  | input (f : InputFault)
  | plain (text : String)
deriving Repr

structure Report where
  cause : ReportCause
  -- The innermost context first.
  contexts : List String
deriving Repr

def ReportCause.text : ReportCause → String
  | request f => f.message
  | cache f => f.message
  | input f => f.text
  | plain text => text

namespace Report

def of (cause : ReportCause) : Report := ⟨cause,[]⟩

def headline (text : String) : String :=
  match Text.lines text with
  | [] => "An error occurred"
  | line :: _ => Text.trim line

def outermost (r : Report) : String := r.contexts.getLast?.getD r.cause.text

-- Causes with a wording of their own are told by it, whatever their contexts; other causes by the
-- outermost text.
def userMessage (r : Report) : String :=
  match r.cause with
  | .request f => f.userMessage
  | .cache f => "Cache setup failed: " ++ f.message
  | .input f => f.message
  | .plain _ => headline r.outermost

end Report

end TableView
