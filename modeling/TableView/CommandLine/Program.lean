import TableView.CommandLine.Arguments
import TableView.Query.Expression
import TableView.Report
import TableView.Session.Session
import TableView.Settings.File

namespace TableView.CommandLine

structure Surroundings (m : Type → Type) where
  settingsPath : String
  settingsFile : m (Option String)
  fileText : String → m (Except InputFault String)
  inputText : m (Except InputFault String)

inductive Outcome where
  | halted (h : Halt)
  | generated (path text : String)
  | unsettled (f : SettingsFault)
  | printed (text : String)
  | failed (r : Report)
  | serving (s : Session)

namespace Outcome

def exitCode : Outcome → Nat
  | halted .usage => 2
  | unsettled _ | failed _ => 1
  | _ => 0

end Outcome

def Report.ofSettings (f : SettingsFault) : Report := .of (.plain f.message)

def formatOr (given : Option Compression.Format) (s : Settings) :
    Except Report Compression.Format :=
  match given with
  | some format => .ok format
  | none => s.payload.format.mapError Report.ofSettings

def policyOr (given : Option HeaderPolicy) (s : Settings) : Except Report HeaderPolicy :=
  match given with
  | some policy => .ok policy
  | none => s.table.policy.mapError Report.ofSettings

def RenderArguments.parameters (a : RenderArguments) (s : Settings) :
    Except Report ViewParameters := do
  let policy ← policyOr a.headerDetection s
  return { ViewParameters.standard with
    id := a.id
    headerDetection := policy
    header := a.header
    dateFormats := a.dateFormats
    separator := a.separator.getD s.table.separator
    sorting := s.table.sorting && !a.noSorting
    filtering := s.table.filtering && !a.noFiltering
    defaultDateFormats := s.table.dateFormats }

-- A session for one command; with nothing to share there is no cache.
def oneShot (format : Compression.Format) (s : Settings) : Session :=
  ⟨⟨format,s.query.defaultLimit⟩,none,[]⟩

def layOut (pretty : Bool) (value : Json) : String :=
  (if pretty then value.pretty else value.compact) ++ "\n"

def renderDocument (a : RenderArguments) (s : Settings) (document : String) :
    Except Report String := do
  let format ← formatOr a.compression s
  let params ← a.parameters s
  let view ← ((oneShot format s).render document params 0).1.mapError (fun f => .of (.request f))
  return layOut a.pretty view.toJson

def QueryArguments.ofText (a : QueryArguments) (text : String) : Except Report Query :=
  match Query.ofJson text with
  | .ok q => .ok { q with offset := a.offset.getD q.offset, limit := a.limit.or q.limit }
  | .error e => .error (.of (.plain ("Invalid query JSON: " ++ e.message)))

def QueryArguments.spelled (a : QueryArguments) : Except Report Query :=
  (Query.ofExpressions a.filters a.sorts (a.offset.getD 0) a.limit).mapError
    (fun f => .of (.plain f.message))

def runQuery (a : QueryArguments) (s : Settings) (q : Query) : Except Report String := do
  let result ← ((oneShot .standard s).query a.entries a.fields q 0).1.mapError
    (fun f => .of (.request f))
  return layOut a.pretty result.toJson

def serveCache (a : ServeArguments) (c : CacheSection) : Except Report (Option Cache) :=
  if c.enabled && !a.noCache then
    match initCache c.cacheSettings [] with
    | .ok _ => .ok (some (.create c.cacheSettings.maxEntries c.cacheSettings.maxIdle))
    | .error f => .error (.of (.cache f))
  else .ok none

def serveSession (a : ServeArguments) (s : Settings) : Except Report Session := do
  let cache ← serveCache a s.cache
  let format ← formatOr a.compression s
  return ⟨⟨format,s.query.defaultLimit⟩,cache,s.table.dateFormats⟩

def printOr : Except Report String → Outcome
  | .ok text => .printed text
  | .error r => .failed r

variable {m : Type → Type} [Monad m]

-- A file that cannot be read is told along with what is wrong with it.
def readNamedFile (around : Surroundings m) (path : String) : m (Except Report String) := do
  match ← around.fileText path with
  | .ok text => return .ok text
  | .error f =>
    return .error (.of (.plain (f.messageIn (some ("Could not read " ++ path ++ ".")))))

def readDocument (around : Surroundings m) (path : String) : m (Except Report String) := do
  if path = "-" then return (← around.inputText).mapError (fun f => .of (.input f))
  else readNamedFile around path

def readQueryFile (around : Surroundings m) (a : QueryArguments) : m (Except Report Query) := do
  match a.file with
  | some path => return (← readNamedFile around path).bind a.ofText
  | none => return a.spelled

def Command.run (around : Surroundings m) (s : Settings) : Command → m Outcome
  | .render a => do return printOr ((← readDocument around a.path).bind (renderDocument a s))
  | .query a => do return printOr ((← readQueryFile around a).bind (runQuery a s))
  | .serve a => return match serveSession a s with
    | .ok session => .serving session
    | .error r => .failed r

def writeSettings (around : Surroundings m) (force : Bool) : m Outcome := do
  match Settings.generate around.settingsPath force (← around.settingsFile).isSome with
  | .ok text => return .generated around.settingsPath text
  | .error f => return .unsettled f

-- Without a command there is help, but only for those whose settings can be read.
def Arguments.run (around : Surroundings m) (a : Arguments) : m Outcome := do
  if a.generate then writeSettings around a.force
  else
    match Settings.load around.settingsPath (← around.settingsFile) with
    | .error f => return .unsettled f
    | .ok s =>
      match a.command with
      | some c => c.run around s
      | none => return .halted .help

def run (around : Surroundings m) (words : List String) : m Outcome :=
  match Arguments.ofWords words with
  | .ok a => a.run around
  | .error h => return .halted h

def generatedLine (path : String) : String := "Default configuration written to " ++ path ++ "\n"

def versionLine : String := programSpec.name ++ " " ++ version ++ "\n"

def errorLine (r : Report) : String := "Error: " ++ r.userMessage ++ "\n"

end TableView.CommandLine
