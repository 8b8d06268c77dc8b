import SearchPipeline.Join
import SearchPipeline.Pipeline

/-!
# Compile requests

A compile request holds a search, its joins, further stages that follow the joins
as they stand, and extra conditions.
-/

namespace SearchPipeline

/-- Everything a pipeline is compiled from, apart from the settings. -/
structure Request where
  search : Search := {}
  joins : List JoinTree := []
  stages : List Document := []
  extras : Conditions := {}
  skipsSort : Bool := false

namespace Request

open Json.Reader in
/-- Reads a request; a list has to give the extra conditions, an object may leave them out. -/
def read (levels : Nat) : Json.Reader Request :=
  enter levels fun levels =>
    record true
      [omissible "query" fun request => return { request with search := ← Search.read levels },
        omissible "lookups" fun request =>
          return { request with
            joins := ← enter levels fun levels => list (JoinTree.read levels) },
        omissible "stages" fun request =>
          return { request with
            stages := ← enter levels fun levels => list (Document.read levels) },
        namedOnly "extraPre" fun request =>
          return { request with
            extras := { request.extras with before := ← optional (Document.read levels) } },
        namedOnly "extraPost" fun request =>
          return { request with
            extras := { request.extras with after := ← optional (Document.read levels) } },
        omissible "skipSort" fun request =>
          return { request with skipsSort := ← readBoolean }]
      {}

/-- The request that a text describes. -/
def ofText (text : String) : Except Json.Refusal Request :=
  Json.Reader.run (read Json.Reader.maxLevels) text

/-- The stages between the two matches: those of the joins, then the further ones. -/
def joinSection (request : Request) : List Document :=
  JoinTree.listStages request.search "" request.joins ++ request.stages

/-- The pipeline of a request. -/
def compile
    (settings : Settings)
    (request : Request) :
    Compiled (List Document) :=
  request.search.compile settings request.joinSection request.extras request.skipsSort

end Request

end SearchPipeline
