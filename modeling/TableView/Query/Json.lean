import TableView.Json.Decoder
import TableView.Json.Writer
import TableView.Query.Basic

namespace TableView

open Json (Decoder)
open Json.Decoder (field requiredField)

namespace Constraint

def toJson (c : Constraint) : Json :=
  .object [("operator",.string c.operator),("value",.string c.value)]

def decoder : Decoder Constraint := .record "struct Constraint" [
  field "operator" .text (fun s c => { c with operator := s }),
  field "value" (.scalar "constraint value") (fun s c => { c with value := s })] .standard

end Constraint

namespace Filter

def toJson (f : Filter) : Json :=
  .object [("property",.string f.property),("constraints",.array (f.constraints.map (·.toJson)))]

def decoder : Decoder Filter := .record "struct Filter" [
  requiredField "property" .text (fun s f => { f with property := s }),
  field "constraints" Constraint.decoder.list (fun cs f => { f with constraints := cs })] ⟨"",[]⟩

end Filter

namespace SortEntry

def toJson (s : SortEntry) : Json :=
  .object [("property",.string s.property),("descending",.bool s.descending)]

def decoder : Decoder SortEntry := .record "struct SortEntry" [
  requiredField "property" .text (fun p s => { s with property := p }),
  field "descending" .flag (fun b s => { s with descending := b })] ⟨"",false⟩

end SortEntry

namespace Query

def limitMember : Option Nat → List (String × Json)
  | some n => [("limit",.ofNat n)]
  | none => []

def toJson (q : Query) : Json :=
  .object ([("filters",.array (q.filters.map (·.toJson))),("sort",.array (q.sort.map (·.toJson))),
    ("offset",.ofNat q.offset)] ++ limitMember q.limit)

def decoder : Decoder Query := .record "struct Query" [
  field "filters" Filter.decoder.list (fun fs q => { q with filters := fs }),
  field "sort" SortEntry.decoder.list (fun ss q => { q with sort := ss }),
  field "offset" .size (fun n q => { q with offset := n }),
  field "limit" Decoder.size.optional (fun n q => { q with limit := n })] .standard

def ofJson (text : String) : Except Json.ReadError Query := decoder.read text

end Query

end TableView
