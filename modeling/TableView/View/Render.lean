import TableView.Cache.Store
import TableView.Markup.Document
import TableView.View.Json
import TableView.View.Parameters

namespace TableView

structure RenderedView where
  id : Option String
  liveData : LiveDataDescriptor
deriving DecidableEq,Repr

namespace RenderedView

def toJson (v : RenderedView) : Json :=
  .object (optionalMember "id" .string v.id ++ [("liveData",v.liveData.toJson)])

end RenderedView

structure RenderSettings where
  compression : Compression.Format
  limit : Nat
deriving DecidableEq,Repr

def RenderSettings.standard : RenderSettings := ⟨.standard,defaultLimit⟩

def parseTable (blocks : List Block) (p : ViewParameters) : Except RequestFault ParsedTable := do
  let options ← p.normalizeOptions
  return normalizeDocument options blocks

def storeEntries (cache : Option Cache) (entries : String) (now : Time) :
    String × Option Cache :=
  match cache with
  | some c => (payloadKey entries,some (c.put (payloadKey entries) entries now))
  | none => (entries,none)

def describe (settings : RenderSettings) (p : ViewParameters) (table : ParsedTable)
    (reference : String) : RenderedView :=
  let fields := Payload.encodeColumns settings.compression table.columns
  ⟨p.id,.ofColumns table.columns reference (some fields) ⟨p.sorting,p.filtering,settings.limit⟩⟩

def render (settings : RenderSettings) (cache : Option Cache) (blocks : List Block)
    (p : ViewParameters) (now : Time) : Except RequestFault RenderedView × Option Cache :=
  match parseTable blocks p with
  | .error e => (.error e,cache)
  | .ok table =>
    let entries := Payload.encodeRows settings.compression table.entries
    let (reference,cache) := storeEntries cache entries now
    (.ok (describe settings p table reference),cache)

end TableView
