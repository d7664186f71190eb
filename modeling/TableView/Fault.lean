import TableView.Base64
import TableView.Cache.Registry
import TableView.Compression.Format
import TableView.Json.Fault

namespace TableView

inductive ShapeFault where
  | notArray (found : String)
  | notObject (found : String)
  | unexpectedKey (key : String)
  | notScalar (found : String)
  | notTimestamp (key : String)
  | other (reason : String)
deriving DecidableEq,Repr

def ShapeFault.message : ShapeFault → String
  | notArray found => "expected an array, found " ++ found
  | notObject found => "expected an object per entry, found " ++ found
  | unexpectedKey key => "unexpected entry key '" ++ key ++ "'"
  | notScalar found => "expected a scalar value, found " ++ found
  | notTimestamp key => "'" ++ key ++ "' is not an integer timestamp"
  | other reason => reason

inductive PayloadFault where
  | base64 (f : Base64.Fault)
  | compression (f : Compression.Fault)
  | utf8 (f : Text.Utf8.Fault)
  | json (e : Json.ReadError)
  | shape (f : ShapeFault)
deriving Repr

namespace PayloadFault

def isEncoding : PayloadFault → Bool
  | base64 _ | compression _ | utf8 _ => true
  | json _ | shape _ => false

def message : PayloadFault → String
  | base64 f => "not valid encoded data: " ++ f.message
  | compression f => "not valid encoded data: " ++ f.message
  | utf8 f => "not valid encoded data: " ++ f.message
  | json e => "malformed payload: " ++ e.message
  | shape f => "malformed payload: " ++ f.message

end PayloadFault

inductive RequestFault where
  | unresolvedReference (cause : PayloadFault)
  | corruptCachedData (cause : PayloadFault)
  | payload (cause : PayloadFault)
  | cacheBackend (cause : CacheFault)
  | descriptor (reason : String)
  | invalidParameter (name reason : String)
deriving Repr

namespace RequestFault

def message : RequestFault → String
  | unresolvedReference _ =>
    "Failed to retrieve entries. The entries reference is not in cache or is not valid."
  | corruptCachedData _ =>
    "Failed to retrieve entries. The data was found in cache but is not valid."
  | payload cause => cause.message
  | cacheBackend cause => cause.message
  | descriptor reason => "Failed to serialize the live-data descriptor: " ++ reason
  | invalidParameter name reason => "Invalid parameter '" ++ name ++ "': " ++ reason

def withCause (e : RequestFault) (cause : PayloadFault) : String :=
  e.message ++ " (" ++ cause.message ++ ")"

def userMessage (e : RequestFault) : String :=
  match e with
  | unresolvedReference cause => e.withCause cause
  | corruptCachedData cause => e.withCause cause
  | _ => e.message

end RequestFault

end TableView
