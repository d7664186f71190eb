import TableView.Payload.Rows
import TableView.Query.Matching

namespace TableView

structure PropertyDescriptor where
  id : String
  name : String
  description : String
  propertyType : Option String
  sortable : Bool
  filterable : Bool
  visible : Option Bool
  editable : Option Bool
deriving DecidableEq,Repr

structure DescriptorMeta where
  defaultDisplayer : Option String
  pagination : Option Bool
  entryDescriptor : Option String
  propertyDescriptors : List PropertyDescriptor
deriving DecidableEq,Repr

structure SourceDescriptor where
  id : String
  -- The key of a cached payload, or the payload itself.
  entries : String
  fields : Option String
deriving DecidableEq,Repr

structure DescriptorQuery where
  properties : List String
  source : SourceDescriptor
  offset : Nat
  limit : Nat
deriving DecidableEq,Repr

structure LiveDataDescriptor where
  query : DescriptorQuery
  described : DescriptorMeta
deriving DecidableEq,Repr

structure LiveDataConfiguration where
  described : DescriptorMeta
deriving DecidableEq,Repr

structure DescriptorOptions where
  sortable : Bool
  filterable : Bool
  limit : Nat
deriving DecidableEq,Repr

def sourceId : String := "livetab"
def defaultDisplayer : String := "html"
def defaultLimit : Nat := 10
def defaultPropertyCount : Nat := 100

namespace PropertyDescriptor

def ofColumn (sortable filterable : Bool) (c : Column) : PropertyDescriptor :=
  ⟨c.key,c.name,"",none,sortable,filterable,none,none⟩

def generic (id name : String) : PropertyDescriptor :=
  ⟨id,name,"",some "String",false,true,some true,some false⟩

end PropertyDescriptor

def LiveDataDescriptor.ofColumns (columns : List Column) (entries : String)
    (fields : Option String) (options : DescriptorOptions) : LiveDataDescriptor where
  query := ⟨columns.map Column.key,⟨sourceId,entries,fields⟩,0,options.limit⟩
  described := ⟨some defaultDisplayer,none,none,
    columns.map (.ofColumn options.sortable options.filterable)⟩

def defaultConfiguration : LiveDataConfiguration where
  described := ⟨some defaultDisplayer,some true,some rowIdName,
    (List.range defaultPropertyCount).map (fun i =>
      .generic (Text.Numeral.natText i) (Text.Numeral.natText i))⟩

def propertyDescriptors (fields : String) : Except PayloadFault (List PropertyDescriptor) := do
  let columns ← Payload.decodeColumns fields
  return columns.map (fun c => .generic c.key c.name)

end TableView
