import TableView.Pattern.Reader
import TableView.Settings.Basic

namespace TableView

inductive SettingsFault where
  | malformed (path : String)
  | present (path : String)
  | version (version : String)
  | emptySpace
  | noEntries
  | noIdleTime
  | headerDetection (name : String)
  | separator (pattern : String)
  | compression (name : String)
  | noLimit
  | level (name : String)
deriving DecidableEq,Repr

namespace Settings

def levels : List String := ["trace","debug","info","warn","error","off"]

end Settings

def SettingsFault.message : SettingsFault → String
  | malformed path => "Failed to parse config file at " ++ path
  | present path =>
    "Config file already exists at " ++ path ++ ". Use --force to overwrite."
  | version v => "Unsupported config version: " ++ v ++ ". Expected 0.1.x"
  | emptySpace => "cache.namespace must not be empty"
  | noEntries => "cache.max_entries must be greater than 0"
  | noIdleTime => "cache.max_idle_secs must be greater than 0"
  | headerDetection name =>
    "Invalid table.header_detection: " ++ name ++ ". Must be 'remove', 'keep', or 'ignore'"
  | separator pattern =>
    "Invalid table.date_formats_separator '" ++ pattern ++ "': " ++ ViewParameters.patternReason
  | compression name =>
    "Invalid payload.compression: " ++ name ++ ". Must be 'gzip', 'zstd', 'bzip2', or 'xz'"
  | noLimit => "query.default_limit must be greater than 0"
  | level name =>
    "Invalid logging.level: " ++ name ++ ". Must be one of " ++
      String.intercalate ", " Settings.levels

namespace CacheSection

def check (c : CacheSection) : Except SettingsFault Unit :=
  if Text.allBlank c.space then .error .emptySpace
  else if c.maxEntries = 0 then .error .noEntries
  else if c.maxIdleSeconds = 0 then .error .noIdleTime
  else .ok ()

end CacheSection

namespace TableSection

def policy (t : TableSection) : Except SettingsFault HeaderPolicy :=
  match HeaderPolicy.all.find? (fun p => p.name == Text.lowerCase t.headerDetection) with
  | some p => .ok p
  | none => .error (.headerDetection t.headerDetection)

def check (t : TableSection) : Except SettingsFault Unit := do
  let _ ← t.policy
  if (Pattern.ofString? t.separator).isNone then .error (.separator t.separator)

end TableSection

def PayloadSection.format (p : PayloadSection) : Except SettingsFault Compression.Format :=
  match Compression.Format.ofName? p.compression with
  | some format => .ok format
  | none => .error (.compression p.compression)

namespace Settings

def versionStart : String := "0.1"

-- The first fault, section by section.
def check (s : Settings) : Except SettingsFault Unit := do
  if (Text.dropStart? versionStart s.version).isNone then throw (.version s.version)
  s.cache.check
  s.table.check
  let _ ← s.payload.format
  if s.query.defaultLimit = 0 then throw .noLimit
  if !levels.contains (Text.lowerCase s.logging.level) then throw (.level s.logging.level)

end Settings

end TableView
