import TableView.Base64
import TableView.Digest.Sha256
import TableView.Text.Utf8

namespace TableView

-- Times are counted from some start, all in one unit, and do not decrease.
abbrev Time := Nat

structure CacheSlot where
  key : String
  value : String
  lastUse : Time
deriving DecidableEq,Repr

-- The slots are kept with the latest use first.
structure Cache where
  maxEntries : Nat
  maxIdle : Time
  slots : List CacheSlot
deriving DecidableEq,Repr

namespace Cache

def create (maxEntries : Nat) (maxIdle : Time) : Cache := ⟨maxEntries,maxIdle,[]⟩

def size (c : Cache) : Nat := c.slots.length

def isEmpty (c : Cache) : Bool := c.slots.isEmpty

-- At least one entry always fits.
def capacity (c : Cache) : Nat := max 1 c.maxEntries

def expired (c : Cache) (now : Time) (s : CacheSlot) : Bool := c.maxIdle < now - s.lastUse

def slot? (c : Cache) (key : String) : Option CacheSlot := c.slots.find? (fun s => s.key == key)

def others (c : Cache) (key : String) : List CacheSlot := c.slots.filter (fun s => s.key != key)

def get (c : Cache) (key : String) (now : Time) : Option String × Cache :=
  match c.slot? key with
  | none => (none,c)
  | some s =>
    if c.expired now s then (none,{ c with slots := c.others key })
    else (some s.value,{ c with slots := { s with lastUse := now } :: c.others key })

def sweep (c : Cache) (now : Time) : Cache :=
  { c with slots := (c.slots.reverse.dropWhile (c.expired now)).reverse }

def purge (c : Cache) (now : Time) : Nat × Cache :=
  let swept := c.sweep now
  (c.size - swept.size,swept)

def put (c : Cache) (key value : String) (now : Time) : Cache :=
  let swept := c.sweep now
  { c with slots := (⟨key,value,now⟩ :: swept.others key).take c.capacity }

end Cache

def keyBytes : Nat := 12

def payloadKey (payload : String) : String :=
  Base64.encode ((Digest.sha256 (Text.Utf8.ofString payload)).take keyBytes)

end TableView
