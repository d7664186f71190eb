import TableView.Json.Tagged
import TableView.Query.Execution
import TableView.Query.Json
import TableView.View.Parameters
import TableView.View.Render

namespace TableView

open Json (Decoder)
open Json.Decoder (field requiredField)

inductive Request where
  | render (content : String) (params : ViewParameters)
  | query (entries : String) (fields : Option String) (query : Query)
  | configuration (fields : Option String)
deriving DecidableEq,Repr

namespace Request

def renderDecoder : Decoder Request :=
  (Decoder.record "struct variant Request::Render" [
    requiredField "content" .text (fun s (r : String × ViewParameters) => (s,r.2)),
    field "params" ViewParameters.decoder (fun p r => (r.1,p))] ("",.standard)).map
  (fun (content,params) => .render content params)

structure QueryParts where
  entries : String
  fields : Option String
  query : Query

def queryDecoder : Decoder Request :=
  (Decoder.record "struct variant Request::Query" [
    requiredField "entries" .text (fun s (q : QueryParts) => { q with entries := s }),
    field "fields" Decoder.text.optional (fun s q => { q with fields := s }),
    field "query" Query.decoder (fun v q => { q with query := v })] ⟨"",none,.standard⟩).map
  (fun q => .query q.entries q.fields q.query)

def configurationDecoder : Decoder Request :=
  (Decoder.record "struct variant Request::Configuration" [
    field "fields" Decoder.text.optional (fun s (_ : Option String) => s)] none).map
  .configuration

def decoder : Decoder Request := .tagged "internally tagged enum Request" "op" [
  ("render",renderDecoder),("query",queryDecoder),("configuration",configurationDecoder)]

end Request

structure Session where
  settings : RenderSettings
  cache : Option Cache
  dateFormats : List String
deriving DecidableEq,Repr

namespace Session

def parameters (s : Session) (p : ViewParameters) : ViewParameters :=
  if p.defaultDateFormats.isEmpty then { p with defaultDateFormats := s.dateFormats } else p

def render (s : Session) (content : String) (p : ViewParameters) (now : Time) :
    Except RequestFault RenderedView × Session :=
  let (view,cache) := TableView.render s.settings s.cache (Document.parse content)
    (s.parameters p) now
  (view,{ s with cache := cache })

-- Without a limit a query wants one page.
def limited (s : Session) (q : Query) : Query :=
  { q with limit := some (q.limit.getD s.settings.limit) }

def resolved (s : Session) (fields : Option String) (q : Query) : Except RequestFault Query :=
  match fields with
  | none => .ok (s.limited q)
  | some f =>
    match Payload.decodeColumns f with
    | .ok columns => .ok ((s.limited q).resolve columns)
    | .error e => .error (.payload e)

def query (s : Session) (entries : String) (fields : Option String) (q : Query) (now : Time) :
    Except RequestFault QueryResult × Session :=
  match s.resolved fields q with
  | .error e => (.error e,s)
  | .ok q =>
    let (result,cache) := execute s.cache entries q now
    (result,{ s with cache := cache })

def configuration (fields : Option String) : Except RequestFault LiveDataConfiguration :=
  match fields with
  | none => .ok defaultConfiguration
  | some f =>
    match propertyDescriptors f with
    | .ok ps =>
      .ok { defaultConfiguration with
        described := { defaultConfiguration.described with propertyDescriptors := ps } }
    | .error e => .error (.payload e)

-- The value that answers a request, with the members of objects in order; of two members with
-- one name the later one stands.
def handle (s : Session) (r : Request) (now : Time) : Except RequestFault Json × Session :=
  match r with
  | .render content params =>
    let (view,s) := s.render content params now
    (view.map (fun v => v.toJson.sorted),s)
  | .query entries fields q =>
    let (result,s) := s.query entries fields q now
    (result.map (fun v => v.toJson.sorted),s)
  | .configuration fields => ((configuration fields).map (fun v => v.toJson.sorted),s)

def errorResponse (message : String) : Json := .object [("error",.string message)]

def resultResponse (result : Json) : Json := .object [("result",result)]

def respond : Except RequestFault Json → Json
  | .ok result => resultResponse result
  | .error e => errorResponse e.userMessage

def handleLine (s : Session) (line : String) (now : Time) : String × Session :=
  match Request.decoder.read line with
  | .ok r =>
    let (answer,s) := s.handle r now
    ((respond answer).compact,s)
  | .error e => ((errorResponse ("Invalid request: " ++ e.message)).compact,s)

end Session

-- Lines of bytes. A line break takes a carriage return before it along; the bytes behind the
-- last line break are a line if there are any.
def byteLines (line : List UInt8) : List UInt8 → List (List UInt8)
  | [] => if line.isEmpty then [] else [line.reverse]
  | b :: rest =>
    if b = 10 then
      match line with
      | 13 :: line => line.reverse :: byteLines [] rest
      | line => line.reverse :: byteLines [] rest
    else byteLines (b :: line) rest

structure SessionRun where
  responses : List String
  fault : Option Text.Utf8.Fault
  session : Session

namespace Session

def runLines (clock : Nat → Time) : Nat → Session → List (List UInt8) → SessionRun
  | _,s,[] => ⟨[],none,s⟩
  | n,s,line :: rest =>
    match Text.Utf8.toString? line with
    | .error f => ⟨[],some f,s⟩
    | .ok text =>
      if Text.allBlank text then runLines clock (n + 1) s rest
      else
        let (response,s) := s.handleLine text (clock n)
        let run := runLines clock (n + 1) s rest
        { run with responses := response :: run.responses }

def run (clock : Nat → Time) (s : Session) (input : List UInt8) : SessionRun :=
  runLines clock 0 s (byteLines [] input)

end Session

def SessionRun.output (r : SessionRun) : String :=
  String.join (r.responses.map (fun response => response ++ "\n"))

end TableView
