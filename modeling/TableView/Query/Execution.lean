import TableView.Cache.Store
import TableView.Fault
import TableView.Query.Matching

namespace TableView

structure QueryResult where
  entries : List Entry
  count : Nat
deriving DecidableEq,Repr

namespace QueryResult

def toJson (r : QueryResult) : Json :=
  .object [("entries",.array (r.entries.map (·.toJson))),("count",.ofNat r.count)]

end QueryResult

namespace Query

def matching (q : Query) (entries : List Entry) : List Entry := entries.filter q.admits

-- Entries that no key tells apart keep their order.
def sorted (q : Query) (entries : List Entry) : List Entry :=
  entries.mergeSort (fun a b => (Entry.compareAll a b q.sort).isLE)

def page (q : Query) (entries : List Entry) : List Entry :=
  let rest := entries.drop q.offset
  match q.limit with
  | some n => rest.take n
  | none => rest

def run (q : Query) (entries : List Entry) : QueryResult :=
  let matching := q.matching entries
  ⟨q.page (q.sorted matching),matching.length⟩

end Query

-- The payload behind a reference: what is stored under it, or else the reference itself.
def lookUp (cache : Option Cache) (reference : String) (now : Time) :
    Option String × Option Cache :=
  match cache with
  | none => (none,none)
  | some c =>
    let (found,c) := c.get reference now
    (found,some c)

def loadEntries (found : Option String) (reference : String) :
    Except RequestFault (List Entry) :=
  match found with
  | some payload =>
    ((Payload.decodeEntries payload).mapError .corruptCachedData).map Entry.numbered
  | none =>
    ((Payload.decodeEntries reference).mapError .unresolvedReference).map Entry.numbered

def execute (cache : Option Cache) (reference : String) (q : Query) (now : Time) :
    Except RequestFault QueryResult × Option Cache :=
  let (found,cache) := lookUp cache reference now
  ((loadEntries found reference).map q.run,cache)

end TableView
