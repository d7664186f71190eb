import TableView.Json.Writer
import TableView.Settings.Basic
import TableView.Toml.Document

namespace TableView

open Json (Decoder)
open Json.Decoder (field)

namespace CacheSection

def toJson (c : CacheSection) : Json :=
  .object [("enabled",.bool c.enabled),("namespace",.string c.space),
    ("max_entries",.ofNat c.maxEntries),("max_idle_secs",.ofNat c.maxIdleSeconds)]

def decoder : Decoder CacheSection := .record "struct CacheConfig" [
  field "enabled" .flag (fun b c => { c with enabled := b }),
  field "namespace" .text (fun s c => { c with space := s }),
  field "max_entries" .size (fun n c => { c with maxEntries := n }),
  field "max_idle_secs" .duration (fun n c => { c with maxIdleSeconds := n })] standard

end CacheSection

namespace TableSection

def toJson (t : TableSection) : Json :=
  .object [("header_detection",.string t.headerDetection),
    ("date_formats",.array (t.dateFormats.map .string)),
    ("date_formats_separator",.string t.separator),("sorting",.bool t.sorting),
    ("filtering",.bool t.filtering)]

def decoder : Decoder TableSection := .record "struct TableConfig" [
  field "header_detection" .text (fun s t => { t with headerDetection := s }),
  field "date_formats" Decoder.text.list (fun fs t => { t with dateFormats := fs }),
  field "date_formats_separator" .text (fun s t => { t with separator := s }),
  field "sorting" .flag (fun b t => { t with sorting := b }),
  field "filtering" .flag (fun b t => { t with filtering := b })] standard

end TableSection

namespace PayloadSection

def toJson (p : PayloadSection) : Json := .object [("compression",.string p.compression)]

def decoder : Decoder PayloadSection := .record "struct PayloadConfig" [
  field "compression" .text (fun s _ => ⟨s⟩)] standard

end PayloadSection

namespace QuerySection

def toJson (q : QuerySection) : Json := .object [("default_limit",.ofNat q.defaultLimit)]

def decoder : Decoder QuerySection := .record "struct QueryConfig" [
  field "default_limit" .size (fun n _ => ⟨n⟩)] standard

end QuerySection

namespace LoggingSection

def toJson (l : LoggingSection) : Json := .object [("level",.string l.level)]

def decoder : Decoder LoggingSection := .record "struct LoggingConfig" [
  field "level" .text (fun s _ => ⟨s⟩)] standard

end LoggingSection

namespace Settings

def toJson (s : Settings) : Json :=
  .object [("version",.string s.version),("cache",s.cache.toJson),("table",s.table.toJson),
    ("payload",s.payload.toJson),("query",s.query.toJson),("logging",s.logging.toJson)]

def decoder : Decoder Settings := .record "struct AppConfig" [
  field "version" .text (fun v s => { s with version := v }),
  field "cache" CacheSection.decoder (fun c s => { s with cache := c }),
  field "table" TableSection.decoder (fun t s => { s with table := t }),
  field "payload" PayloadSection.decoder (fun p s => { s with payload := p }),
  field "query" QuerySection.decoder (fun q s => { s with query := q }),
  field "logging" LoggingSection.decoder (fun l s => { s with logging := l })] standard

def sectionSize : String → Option Nat
  | "cache" => some 4
  | "table" => some 5
  | "payload" | "query" | "logging" => some 1
  | _ => none

-- A section given as a list is its fields in order; what lies behind them does not count.
def trimSection (name : String) (value : Json) : Json :=
  match sectionSize name,value with
  | some n,.array items => .array (items.take n)
  | _,_ => value

def ofToml? (text : String) : Option Settings :=
  match Toml.parse? text with
  | some (.object members) =>
    (decoder.ofValue (.object (members.map (fun (name,v) => (name,trimSection name v))))).toOption
  | _ => none

end Settings

end TableView
