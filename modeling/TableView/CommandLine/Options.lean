import TableView.Compression.Format
import TableView.Entries.Normalize

namespace TableView.CommandLine

inductive ValueKind where
  | text
  | path
  | natural
  | headerPolicy
  | compression
deriving DecidableEq,Repr

structure OptionSpec where
  name : String
  value : Option (ValueKind × String)
  repeated : Bool
  description : String
deriving DecidableEq,Repr

structure OperandSpec where
  kind : ValueKind
  placeholder : String
  description : String
deriving DecidableEq,Repr

structure CommandSpec where
  name : String
  description : String
  operand : Option OperandSpec
  options : List OptionSpec
deriving DecidableEq,Repr

def flag (name description : String) : OptionSpec := ⟨name,none,false,description⟩

def valued (name : String) (kind : ValueKind) (placeholder description : String) : OptionSpec :=
  ⟨name,some (kind,placeholder),false,description⟩

def OptionSpec.withRepetition (o : OptionSpec) : OptionSpec := { o with repeated := true }

def debugFlag : OptionSpec := flag "--debug"
  "Enable debug logging (overrides config [logging] level; RUST_LOG still wins)"

def generateFlag : OptionSpec := flag "--generate-config"
  "Generate default configuration file at ~/.config/livetab/config.toml"

def forceFlag : OptionSpec := flag "--force"
  "Force overwrite existing config file when using --generate-config"

def idOption : OptionSpec := valued "--id" .text "ID"
  "Identifier of the generated live-data view"

def headerDetectionOption : OptionSpec :=
  valued "--header-detection" .headerPolicy "HEADER_DETECTION"
    "How a leading header row is handled (overrides config [table] header_detection)"

def headerOption : OptionSpec := valued "--header" .text "NAMES" (
  "Explicit column names, split with the date formats separator. " ++
  "Example: \"Name||Born\"")

def dateFormatsOption : OptionSpec := valued "--date-formats" .text "FORMATS" (
  "Date formats (chrono strftime) probed against every cell, split with the separator. " ++
  "Example: \"%Y-%m-%d||%d/%m/%Y\"")

def separatorOption : OptionSpec := valued "--date-formats-separator" .text "REGEX"
  "Regular expression separating date formats and header names (default: \\|\\|)"

def noSortingFlag : OptionSpec := flag "--no-sorting"
  "Mark columns as not sortable in the descriptor"

def noFilteringFlag : OptionSpec := flag "--no-filtering"
  "Mark columns as not filterable in the descriptor"

def compressionOption (description : String) : OptionSpec :=
  valued "--compression" .compression "COMPRESSION" description

def prettyFlag : OptionSpec := flag "--pretty" "Pretty-print the JSON output"

def fieldsOption : OptionSpec := valued "--fields" .text "PAYLOAD"
  "Encoded column names payload, used to resolve filter/sort columns given by name"

def filterOption : OptionSpec := (valued "--filter" .text "COL:OP:VALUE" (
  "Filter constraint COL:OP:VALUE (OP: contains, startsWith, equals, between). " ++
  "Repeatable")).withRepetition

def sortOption : OptionSpec := (valued "--sort" .text "COL[:DIR]"
  "Sort key COL[:asc|:desc], applied in the order given. Repeatable").withRepetition

def offsetOption : OptionSpec := valued "--offset" .natural "OFFSET"
  "Number of matching entries to skip"

def limitOption : OptionSpec := valued "--limit" .natural "LIMIT"
  "Maximum number of entries to return (default: config [query] default_limit)"

def queryFileOption : OptionSpec := valued "--query-json" .path "FILE"
  "Read the query (filters, sort, offset, limit) from a JSON file instead"

def noCacheFlag : OptionSpec := flag "--no-cache" (
  "Inline payloads in rendered descriptors instead of caching them " ++
  "(overrides config [cache] enabled)")

def renderSpec : CommandSpec where
  name := "render"
  description := "Read table markup and print the live-data descriptor for it"
  operand := some ⟨.path,"PATH","Path to the document holding the table, or \"-\" for stdin"⟩
  options := [idOption,headerDetectionOption,headerOption,dateFormatsOption,separatorOption,
    noSortingFlag,noFilteringFlag,
    compressionOption "Compression used for the payload (gzip, zstd, bzip2, xz)",prettyFlag,
    debugFlag]

def querySpec : CommandSpec where
  name := "query"
  description := "Run a filter/sort/pagination query against an encoded payload"
  operand := some ⟨.text,"ENTRIES",
    "Encoded entries payload (or a cache key, which falls back to being read as the payload)"⟩
  options := [fieldsOption,filterOption,sortOption,offsetOption,limitOption,queryFileOption,
    prettyFlag,debugFlag]

def serveSpec : CommandSpec where
  name := "serve"
  description :=
    "Answer newline-delimited JSON render/query requests on stdin, sharing one payload cache"
  operand := none
  options := [noCacheFlag,
    compressionOption "Compression used for rendered payloads (gzip, zstd, bzip2, xz)",debugFlag]

def programSpec : CommandSpec where
  name := "livetab"
  description := "Live-data views over tables embedded in documents"
  operand := none
  options := [debugFlag,generateFlag,forceFlag]

def commandSpecs : List CommandSpec := [renderSpec,querySpec,serveSpec]

def version : String := "0.1.0-dev"

namespace Overview

-- A bar would end the cell of a table, and a line break its row.
def escapeCell (s : String) : String :=
  String.ofList (s.toList.flatMap (fun c =>
    if c = '|' then ['\\','|'] else if c = '\n' || c = '\r' then [' '] else [c]))

def row (usage description : String) : String :=
  "| `" ++ usage ++ "` | " ++ escapeCell description ++ " |\n"

def ofOption (o : OptionSpec) : String :=
  match o.value with
  | some (_,placeholder) => row (o.name ++ " <" ++ placeholder ++ ">") o.description
  | none => row o.name o.description

def ofOperand (o : OperandSpec) : String := row ("<" ++ o.placeholder ++ ">") o.description

def table (c : CommandSpec) : String :=
  "| Option | Description |\n|--------|-------------|\n" ++
    String.join (c.operand.toList.map ofOperand) ++ String.join (c.options.map ofOption)

def ofCommand (c : CommandSpec) : String :=
  "\n## `" ++ c.name ++ "`\n\n" ++ c.description ++ "\n\n" ++ table c

end Overview

def overview : String :=
  "# Command Line Options\n\n## Usage\n\n```\nUsage: " ++ programSpec.name ++
    " [OPTIONS] [COMMAND]\n```\n\n## Options\n\n" ++ Overview.table programSpec ++
    String.join (commandSpecs.map Overview.ofCommand)

end TableView.CommandLine
