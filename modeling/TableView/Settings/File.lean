import TableView.Settings.Check
import TableView.Settings.Json

namespace TableView

namespace Settings

def template : String := String.join ([
  "# livetab configuration",
  "#",
  "# Generated with `livetab --generate-config`. Every value shown is the",
  "# default; delete a line to keep following the built-in default.",
  "",
  "# Configuration format version",
  "version = \"0.1\"",
  "",
  "[cache]",
  "# Store rendered entries payloads behind short keys instead of inlining them",
  "enabled = true",
  "# Cache identifiers are \"<namespace>.cache\", then \"<namespace>.cache.1\", ...",
  "namespace = \"livetab\"",
  "# Least-recently-used entries are evicted beyond this many entries",
  "max_entries = 100000000",
  "# Entries unused for this many seconds expire",
  "max_idle_secs = 3600",
  "",
  "[table]",
  "# First row made of header cells: \"remove\" (names columns, row dropped),",
  "# \"keep\" (names columns, row kept) or \"ignore\" (same as keep)",
  "header_detection = \"remove\"",
  "# chrono strftime patterns probed in order against every cell, e.g.",
  "# date_formats = [\"%Y-%m-%d\", \"%d/%m/%Y\"]",
  "date_formats = []",
  "# Regular expression separating list parameters given on the command line",
  "date_formats_separator = \"\\\\|\\\\|\"",
  "# Mark columns as sortable / filterable in the generated descriptor",
  "sorting = true",
  "filtering = true",
  "",
  "[payload]",
  "# Compression of encoded payloads: \"gzip\", \"zstd\", \"bzip2\" or \"xz\".",
  "# Decoding detects the format, so this only affects newly rendered views.",
  "compression = \"gzip\"",
  "",
  "[query]",
  "# Page size of rendered views and of queries run without --limit",
  "default_limit = 10",
  "",
  "[logging]",
  "# Log level written to stderr: \"trace\", \"debug\", \"info\", \"warn\", \"error\" or \"off\".",
  "# RUST_LOG takes precedence when set.",
  "level = \"warn\""].map (· ++ "\n"))

def fileName : String := "config.toml"

def ofFile (path : String) : Option String → Except SettingsFault Settings
  | none => .ok standard
  | some text =>
    match ofToml? text with
    | some s => .ok s
    | none => .error (.malformed path)

def load (path : String) (file : Option String) : Except SettingsFault Settings := do
  let settings := standard.merge (← ofFile path file)
  settings.check
  return settings

-- The text that is written; a file that is there is overwritten only by force.
def generate (path : String) (force present : Bool) : Except SettingsFault String :=
  if present && !force then .error (.present path) else .ok template

end Settings

end TableView
