import TableView.Text.Numeral

namespace TableView

inductive CacheFault where
  | alreadyExists (id : String)
  | unavailable (reason : String)
  | exhausted (id : String) (attempts : Nat) (last : CacheFault)
deriving DecidableEq,Repr

def CacheFault.message : CacheFault → String
  | alreadyExists id => "cache '" ++ id ++ "' already exists"
  | unavailable reason => "cache backend unavailable: " ++ reason
  | exhausted id attempts last =>
    "could not create cache '" ++ id ++ "' after " ++ Text.Numeral.natText attempts ++
      " attempts: " ++ last.message

structure CacheSettings where
  space : String
  maxEntries : Nat
  -- In milliseconds.
  maxIdle : Nat
deriving DecidableEq,Repr

namespace CacheSettings

def standard : CacheSettings := ⟨"livetab",100000000,3600000⟩

def cacheId (s : CacheSettings) (attempt : Nat) : String :=
  if attempt = 0 then s.space ++ ".cache"
  else s.space ++ ".cache." ++ Text.Numeral.natText attempt

end CacheSettings

def maxAttempt : Nat := 100

-- The creation of a named cache in some surroundings, which it may change.
abbrev CacheCreation (σ : Type) := String → σ → Except CacheFault σ

def tryNames (create : CacheCreation σ) (s : CacheSettings) (surroundings : σ) :
    List Nat → CacheFault → Except CacheFault (String × σ)
  | [],last => .error (.exhausted (s.cacheId 0) (maxAttempt + 1) last)
  | n :: rest,_ =>
    match create (s.cacheId n) surroundings with
    | .ok after => .ok (s.cacheId n,after)
    | .error e => tryNames create s surroundings rest e

def noAttempt : CacheFault := .unavailable "no attempt made"

def initCacheIn (create : CacheCreation σ) (s : CacheSettings) (surroundings : σ) :
    Except CacheFault (String × σ) :=
  tryNames create s surroundings (List.range (maxAttempt + 1)) noAttempt

abbrev CacheRegistry := List String

namespace CacheRegistry

def create : CacheCreation CacheRegistry := fun id taken =>
  if taken.contains id then .error (.alreadyExists id) else .ok (id :: taken)

end CacheRegistry

def initCache (s : CacheSettings) (taken : CacheRegistry) :
    Except CacheFault (String × CacheRegistry) :=
  initCacheIn CacheRegistry.create s taken

end TableView
