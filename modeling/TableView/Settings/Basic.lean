import TableView.Cache.Registry
import TableView.View.Descriptor
import TableView.View.Parameters

namespace TableView

structure CacheSection where
  enabled : Bool
  space : String
  maxEntries : Nat
  maxIdleSeconds : Nat
deriving DecidableEq,Repr

structure TableSection where
  headerDetection : String
  dateFormats : List String
  separator : String
  sorting : Bool
  filtering : Bool
deriving DecidableEq,Repr

structure PayloadSection where
  compression : String
deriving DecidableEq,Repr

structure QuerySection where
  defaultLimit : Nat
deriving DecidableEq,Repr

structure LoggingSection where
  level : String
deriving DecidableEq,Repr

structure Settings where
  version : String
  cache : CacheSection
  table : TableSection
  payload : PayloadSection
  query : QuerySection
  logging : LoggingSection
deriving DecidableEq,Repr

-- A layer speaks only where it differs from the standard, so a value that it sets to the standard
-- leaves the layer below it as it is.
def layer [DecidableEq α] (standard lower upper : α) : α :=
  if upper = standard then lower else upper

@[simp] theorem layer_standard [DecidableEq α] (standard lower : α) :
    layer standard lower standard = lower := by simp [layer]

@[simp] theorem standard_layer [DecidableEq α] (standard upper : α) :
    layer standard standard upper = upper := by
  unfold layer; split <;> simp_all

theorem layer_assoc [DecidableEq α] (standard a b c : α) :
    layer standard (layer standard a b) c = layer standard a (layer standard b c) := by
  unfold layer; split <;> simp_all

namespace CacheSection

def standard : CacheSection where
  enabled := true
  space := CacheSettings.standard.space
  maxEntries := CacheSettings.standard.maxEntries
  maxIdleSeconds := CacheSettings.standard.maxIdle / 1000

def merge (lower upper : CacheSection) : CacheSection where
  enabled := layer standard.enabled lower.enabled upper.enabled
  space := layer standard.space lower.space upper.space
  maxEntries := layer standard.maxEntries lower.maxEntries upper.maxEntries
  maxIdleSeconds := layer standard.maxIdleSeconds lower.maxIdleSeconds upper.maxIdleSeconds

def cacheSettings (c : CacheSection) : CacheSettings :=
  ⟨c.space,c.maxEntries,1000 * c.maxIdleSeconds⟩

end CacheSection

namespace TableSection

def standard : TableSection where
  headerDetection := HeaderPolicy.standard.name
  dateFormats := []
  separator := standardSeparator
  sorting := true
  filtering := true

def merge (lower upper : TableSection) : TableSection where
  headerDetection := layer standard.headerDetection lower.headerDetection upper.headerDetection
  dateFormats := layer standard.dateFormats lower.dateFormats upper.dateFormats
  separator := layer standard.separator lower.separator upper.separator
  sorting := layer standard.sorting lower.sorting upper.sorting
  filtering := layer standard.filtering lower.filtering upper.filtering

end TableSection

namespace PayloadSection

def standard : PayloadSection := ⟨Compression.Format.standard.name⟩

def merge (lower upper : PayloadSection) : PayloadSection :=
  ⟨layer standard.compression lower.compression upper.compression⟩

end PayloadSection

namespace QuerySection

def standard : QuerySection := ⟨TableView.defaultLimit⟩

def merge (lower upper : QuerySection) : QuerySection :=
  ⟨layer standard.defaultLimit lower.defaultLimit upper.defaultLimit⟩

end QuerySection

namespace LoggingSection

def standard : LoggingSection := ⟨"warn"⟩

def merge (lower upper : LoggingSection) : LoggingSection :=
  ⟨layer standard.level lower.level upper.level⟩

end LoggingSection

namespace Settings

def standard : Settings := ⟨"0.1",.standard,.standard,.standard,.standard,.standard⟩

def merge (lower upper : Settings) : Settings where
  version := layer standard.version lower.version upper.version
  cache := lower.cache.merge upper.cache
  table := lower.table.merge upper.table
  payload := lower.payload.merge upper.payload
  query := lower.query.merge upper.query
  logging := lower.logging.merge upper.logging

end Settings

end TableView
