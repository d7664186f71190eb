import TableView.CommandLine.Reader

namespace TableView.CommandLine

structure RenderArguments where
  path : String
  id : Option String
  headerDetection : Option HeaderPolicy
  header : Option String
  dateFormats : Option String
  separator : Option String
  noSorting : Bool
  noFiltering : Bool
  compression : Option Compression.Format
  pretty : Bool
deriving DecidableEq,Repr

structure QueryArguments where
  entries : String
  fields : Option String
  filters : List String
  sorts : List String
  offset : Option Nat
  limit : Option Nat
  file : Option String
  pretty : Bool
deriving DecidableEq,Repr

structure ServeArguments where
  noCache : Bool
  compression : Option Compression.Format
deriving DecidableEq,Repr

inductive Command where
  | render (a : RenderArguments)
  | query (a : QueryArguments)
  | serve (a : ServeArguments)
deriving DecidableEq,Repr

structure Arguments where
  generate : Bool
  force : Bool
  command : Option Command
deriving DecidableEq,Repr

namespace Given

def natural? (g : Given) (o : OptionSpec) : Option Nat := (g.value? o).bind naturalOf?

def compression? (g : Given) : Option Compression.Format :=
  (g.value? (compressionOption "")).bind compressionOf?

def render (g : Given) : RenderArguments where
  path := g.operand.getD ""
  id := g.value? idOption
  headerDetection := (g.value? headerDetectionOption).bind headerPolicyOf?
  header := g.value? headerOption
  dateFormats := g.value? dateFormatsOption
  separator := g.value? separatorOption
  noSorting := g.has noSortingFlag
  noFiltering := g.has noFilteringFlag
  compression := g.compression?
  pretty := g.has prettyFlag

def query (g : Given) : QueryArguments where
  entries := g.operand.getD ""
  fields := g.value? fieldsOption
  filters := g.all filterOption
  sorts := g.all sortOption
  offset := g.natural? offsetOption
  limit := g.natural? limitOption
  file := g.value? queryFileOption
  pretty := g.has prettyFlag

def serve (g : Given) : ServeArguments := ⟨g.has noCacheFlag,g.compression?⟩

-- A query in a file leaves no room for filters and sort keys.
def conflicts (g : Given) : Bool :=
  g.has queryFileOption && (g.has filterOption || g.has sortOption)

end Given

def readQuery (words : List String) : Except Halt Command := do
  let g ← readCommand querySpec words
  if g.conflicts then .error .usage else .ok (.query g.query)

def readHelp : List String → Except Halt Command
  | [] => .error .help
  | [name] =>
    if name = "help" || (commandSpecs.map CommandSpec.name).contains name then .error .help
    else .error .usage
  | _ => .error .usage

def readNamed (name : String) (words : List String) : Except Halt Command :=
  match name with
  | "render" => (readCommand renderSpec words).map (fun g => .render g.render)
  | "query" => readQuery words
  | "serve" => (readCommand serveSpec words).map (fun g => .serve g.serve)
  | "help" => readHelp words
  | _ => .error .usage

def readProgram : Given → List String → Except Halt (Given × Option Command)
  | g,[] => .ok (g,none)
  | g,word :: rest =>
    if word = "--" then if rest.isEmpty then .ok (g,none) else .error .usage
    else if asksForHelp word then .error .help
    else if asksForVersion word then .error .version
    else if isOption word then
      match takeOption programSpec.options g word with
      | .ok (.given g) => readProgram g rest
      | .ok (.wants _ _) => .error .usage
      | .error h => .error h
    else (readNamed word rest).map (fun c => (g,some c))

-- Overwriting is asked for only along with writing.
def Arguments.ofWords (words : List String) : Except Halt Arguments := do
  let (g,command) ← readProgram .start words
  if g.has forceFlag && !g.has generateFlag then .error .usage
  else .ok ⟨g.has generateFlag,g.has forceFlag,command⟩

end TableView.CommandLine
