import TableView.CommandLine.Program

namespace TableView

def faultOf : IO.Error → InputFault
  | .noFileOrDirectory .. => ⟨.notFound,""⟩
  | .permissionDenied .. => ⟨.permissionDenied,""⟩
  | .interrupted .. => ⟨.interrupted,""⟩
  | e => ⟨.other,toString e⟩

def textOf (bytes : ByteArray) : Except InputFault String :=
  (Text.Utf8.toString? bytes.toList).mapError (fun f => ⟨.invalidData,f.message⟩)

def fileText (path : String) : IO (Except InputFault String) := do
  match ← (IO.FS.readBinFile path).toBaseIO with
  | .ok bytes => return textOf bytes
  | .error e => return .error (faultOf e)

def configFolder : IO String := do
  match ← IO.getEnv "XDG_CONFIG_HOME" with
  | some folder => if folder.startsWith "/" then return folder else homeFolder
  | none => homeFolder
where
  homeFolder : IO String := do
    return ((← IO.getEnv "HOME").getD "") ++ "/.config"

def surroundings : IO (CommandLine.Surroundings IO) := do
  let path := (← configFolder) ++ "/" ++ CommandLine.programSpec.name ++ "/" ++ Settings.fileName
  return {
    settingsPath := path
    settingsFile := return (← fileText path).toOption
    fileText := fileText
    inputText := return textOf (← (← IO.getStdin).readBinToEnd) }

partial def readLine (input : IO.FS.Stream) (line : ByteArray) : IO ByteArray := do
  let next ← input.read 1
  if next.isEmpty || next.toList = [10] then return line ++ next
  else readLine input (line ++ next)

partial def serve (input output : IO.FS.Stream) (s : Session) : IO UInt32 := do
  let line ← readLine input .empty
  if line.isEmpty then return 0
  let now ← IO.monoMsNow
  let run := s.run (fun _ => now) line.toList
  output.putStr run.output
  output.flush
  match run.fault with
  | some f =>
    IO.eprint (CommandLine.errorLine (.of (.input ⟨.invalidData,f.message⟩)))
    return 1
  | none => serve input output run.session

def writeSettings (path text : String) : IO Unit := do
  let folder := String.ofList (path.toList.take
    (path.length - Settings.fileName.length))
  IO.FS.createDirAll folder
  IO.FS.writeFile path text

def finish (outcome : CommandLine.Outcome) : IO UInt32 := do
  match outcome with
  | .halted .usage => IO.eprint CommandLine.overview
  | .halted .help => IO.print CommandLine.overview
  | .halted .version => IO.print CommandLine.versionLine
  | .generated path text =>
    writeSettings path text
    IO.print (CommandLine.generatedLine path)
  | .unsettled f => IO.eprint (CommandLine.errorLine (.of (.plain f.message)))
  | .printed text => IO.print text
  | .failed r => IO.eprint (CommandLine.errorLine r)
  | .serving s => return ← serve (← IO.getStdin) (← IO.getStdout) s
  return UInt32.ofNat outcome.exitCode

end TableView

def main (words : List String) : IO UInt32 := do
  let outcome ← TableView.CommandLine.run (← TableView.surroundings) words
  TableView.finish outcome
