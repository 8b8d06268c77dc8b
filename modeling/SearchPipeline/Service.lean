import SearchPipeline.Page
import SearchPipeline.Pipeline

/-!
# The search service

The service compiles a search and asks an engine once: for a page, for all rows,
or for their number.  A search that does not compile never reaches the engine.
-/

namespace SearchPipeline

/-- What is wanted of the rows that match. -/
inductive SearchMode where
  | page
  | count
  | rows
deriving DecidableEq

/-- What the service asks the engine. -/
inductive EngineCall where
  | aggregate (pipeline : List Document)
  | paginate (pipeline : List Document) (paging : Paging)
  | count (pipeline : List Document)

/-- Why a search gives nothing; the engine tells a reason of its own in words. -/
inductive SearchFailure where
  | invalid (problem : InvalidRequest)
  | engine (reason : String)
deriving DecidableEq

namespace SearchFailure

/-- What is told about a failure. -/
def message : SearchFailure → String
  | .invalid problem => problem.message
  | .engine reason => "executor error: " ++ reason

/-- Whether the client made the mistake. -/
def isInvalidRequest : SearchFailure → Bool
  | .invalid _ => true
  | .engine _ => false

end SearchFailure

/-- How an engine answers. -/
structure Engine where
  aggregate : List Document → Except SearchFailure (List Document)
  paginate : List Document → Paging → Except SearchFailure Page
  count : List Document → Except SearchFailure UInt64

namespace Engine

/-- An engine that holds some rows and finds all of them with every pipeline. -/
def ofRows (rows : List Document) : Engine where
  aggregate _ := .ok rows
  paginate _ paging := .ok (Page.ofAllRows rows paging)
  count _ := .ok (UInt64.ofNat rows.length)

/-- An engine that only fails, for a reason of its own. -/
def failing (reason : String) : Engine where
  aggregate _ := .error (.engine reason)
  paginate _ _ := .error (.engine reason)
  count _ := .error (.engine reason)

end Engine

/-- What a search gives. -/
inductive SearchOutcome where
  | page (page : Page)
  | count (rows : UInt64)
  | rows (rows : List Document)

/-- The JSON of what a search gives. -/
def SearchOutcome.toJson : SearchOutcome → Json
  | .page found => found.toJson
  | .count found => .object [("searchCount", .integer found.toNat)]
  | .rows found => .array (found.map Document.toJson)

/-- A search as the service is asked for it. -/
structure SearchRequest where
  search : Search
  joins : List Document
  extras : Conditions
  mode : SearchMode := .page

namespace SearchRequest

/-- The pipeline of a request; rows that are only counted are not sorted. -/
def compile
    (settings : Settings)
    (request : SearchRequest) :
    Compiled (List Document) :=
  request.search.compile settings request.joins request.extras (request.mode = .count)

/-- The page that a request wants. -/
def paging (request : SearchRequest) : Paging :=
  ⟨request.search.limit, request.search.page, request.search.offset⟩

/-- What the engine is asked for a request with a pipeline. -/
def call
    (request : SearchRequest)
    (pipeline : List Document) :
    EngineCall :=
  match request.mode with
  | .page => .paginate pipeline request.paging
  | .count => .count pipeline
  | .rows => .aggregate pipeline

end SearchRequest

/-- What an engine answers to a call; its failure is passed on as it is. -/
def Engine.answer
    (engine : Engine) :
    EngineCall → Except SearchFailure SearchOutcome
  | .aggregate pipeline => (engine.aggregate pipeline).map .rows
  | .paginate pipeline paging => (engine.paginate pipeline paging).map .page
  | .count pipeline => (engine.count pipeline).map .count

/-- A service that keeps what it has asked its engine so far, in order. -/
structure Service where
  settings : Settings
  calls : List EngineCall := []

/-- What the service says to one request. -/
structure Reply where
  reversed : List String
  outcome : Except SearchFailure SearchOutcome

namespace Service

/-- Serves one request, with the engine as it is at that time. -/
def run
    (service : Service)
    (engine : Engine)
    (request : SearchRequest) :
    Reply × Service :=
  let compiled := request.compile service.settings
  match compiled.outcome with
  | .error problem => (⟨compiled.reversed, .error (.invalid problem)⟩, service)
  | .ok pipeline =>
    let call := request.call pipeline
    (⟨compiled.reversed, engine.answer call⟩, { service with calls := service.calls ++ [call] })

end Service

end SearchPipeline
