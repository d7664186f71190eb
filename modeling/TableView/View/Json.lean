import TableView.View.Descriptor

namespace TableView

open Json (Decoder)
open Json.Decoder (field requiredField)

def optionalMember (name : String) (write : α → Json) : Option α → List (String × Json)
  | some a => [(name,write a)]
  | none => []

namespace PropertyDescriptor

def descriptionMember (p : PropertyDescriptor) : List (String × Json) :=
  if p.description.isEmpty then [] else [("description",.string p.description)]

def toJson (p : PropertyDescriptor) : Json :=
  .object ([("id",.string p.id),("name",.string p.name)] ++ p.descriptionMember ++
    optionalMember "type" .string p.propertyType ++
    [("sortable",.bool p.sortable),("filterable",.bool p.filterable)] ++
    optionalMember "visible" .bool p.visible ++ optionalMember "editable" .bool p.editable)

def blank : PropertyDescriptor := ⟨"","","",none,false,false,none,none⟩

def decoder : Decoder PropertyDescriptor := .record "struct PropertyDescriptor" [
  requiredField "id" .text (fun s p => { p with id := s }),
  requiredField "name" .text (fun s p => { p with name := s }),
  field "description" .text (fun s p => { p with description := s }),
  field "type" Decoder.text.optional (fun t p => { p with propertyType := t }),
  requiredField "sortable" .flag (fun b p => { p with sortable := b }),
  requiredField "filterable" .flag (fun b p => { p with filterable := b }),
  field "visible" Decoder.flag.optional (fun b p => { p with visible := b }),
  field "editable" Decoder.flag.optional (fun b p => { p with editable := b })] blank

end PropertyDescriptor

namespace DescriptorMeta

def paginationJson (shown : Bool) : Json := .object [("showPageSizeDropdown",.bool shown)]

def paginationDecoder : Decoder Bool := .record "struct PaginationConfiguration" [
  requiredField "showPageSizeDropdown" .flag (fun b _ => b)] false

def entryJson (idProperty : String) : Json := .object [("idProperty",.string idProperty)]

def entryDecoder : Decoder String := .record "struct EntryDescriptor" [
  requiredField "idProperty" .text (fun s _ => s)] ""

def toJson (m : DescriptorMeta) : Json :=
  .object (optionalMember "defaultDisplayer" .string m.defaultDisplayer ++
    optionalMember "pagination" paginationJson m.pagination ++
    optionalMember "entryDescriptor" entryJson m.entryDescriptor ++
    [("propertyDescriptors",.array (m.propertyDescriptors.map (·.toJson)))])

def blank : DescriptorMeta := ⟨none,none,none,[]⟩

def decoder : Decoder DescriptorMeta := .record "struct DescriptorMeta" [
  field "defaultDisplayer" Decoder.text.optional (fun s m => { m with defaultDisplayer := s }),
  field "pagination" paginationDecoder.optional (fun p m => { m with pagination := p }),
  field "entryDescriptor" entryDecoder.optional (fun e m => { m with entryDescriptor := e }),
  field "propertyDescriptors" PropertyDescriptor.decoder.list
    (fun ps m => { m with propertyDescriptors := ps })] blank

end DescriptorMeta

namespace SourceDescriptor

def toJson (s : SourceDescriptor) : Json :=
  .object ([("id",.string s.id),("entries",.string s.entries)] ++
    optionalMember "fields" .string s.fields)

def decoder : Decoder SourceDescriptor := .record "struct SourceDescriptor" [
  requiredField "id" .text (fun t s => { s with id := t }),
  requiredField "entries" .text (fun t s => { s with entries := t }),
  field "fields" Decoder.text.optional (fun t s => { s with fields := t })] ⟨"","",none⟩

end SourceDescriptor

namespace DescriptorQuery

def toJson (q : DescriptorQuery) : Json :=
  .object [("properties",.array (q.properties.map .string)),("source",q.source.toJson),
    ("offset",.ofNat q.offset),("limit",.ofNat q.limit)]

def decoder : Decoder DescriptorQuery := .record "struct DescriptorQuery" [
  requiredField "properties" Decoder.text.list (fun ps q => { q with properties := ps }),
  requiredField "source" SourceDescriptor.decoder (fun s q => { q with source := s }),
  requiredField "offset" .size (fun n q => { q with offset := n }),
  requiredField "limit" .size (fun n q => { q with limit := n })] ⟨[],⟨"","",none⟩,0,0⟩

end DescriptorQuery

namespace LiveDataDescriptor

def toJson (d : LiveDataDescriptor) : Json :=
  .object [("query",d.query.toJson),("meta",d.described.toJson)]

def blank : LiveDataDescriptor := ⟨⟨[],⟨"","",none⟩,0,0⟩,.blank⟩

def decoder : Decoder LiveDataDescriptor := .record "struct LiveDataDescriptor" [
  requiredField "query" DescriptorQuery.decoder (fun q d => { d with query := q }),
  requiredField "meta" DescriptorMeta.decoder (fun m d => { d with described := m })] blank

def write (d : LiveDataDescriptor) (pretty : Bool) : String :=
  if pretty then d.toJson.pretty else d.toJson.compact

end LiveDataDescriptor

namespace LiveDataConfiguration

def toJson (c : LiveDataConfiguration) : Json := .object [("meta",c.described.toJson)]

def decoder : Decoder LiveDataConfiguration := .record "struct LiveDataConfiguration" [
  requiredField "meta" DescriptorMeta.decoder (fun m _ => ⟨m⟩)] ⟨.blank⟩

end LiveDataConfiguration

end TableView
