import SearchPipeline.Search
import SearchPipeline.Stage

/-!
# The projection of a search

A search that selects fields starts with a projection.  Besides the selected
fields it keeps whatever later stages read: the fields that joins read, and the
first segments of the paths that conditions and the sort look at.
-/

namespace SearchPipeline

/-- What all pipelines of a compiler have in common. -/
structure Settings where
  /-- The fields that every projection keeps. -/
  alwaysProjected : List String := ["createdBy", "updatedBy"]
deriving DecidableEq

namespace Settings

open Json.Reader in
/-- Reads settings; what a text leaves out is as in the default settings. -/
def read : Json.Reader Settings :=
  enter maxLevels fun levels =>
    record true
      [omissible "alwaysProjected" fun settings =>
        return { settings with alwaysProjected := ← enter levels fun _ => list readString }]
      {}

/-- The settings that a text describes. -/
def ofText (text : String) : Except Json.Refusal Settings :=
  Json.Reader.run read text

end Settings

namespace Projection

/-- The fields that a selection and the stages after the projection need, in order. -/
def neededFields
    (settings : Settings)
    (search : Search)
    (select : List SelectedField)
    (stages : List Document) :
    List String :=
  (select.filter (!·.isExternal)).map (·.field) ++
    (select.filter (·.isExternal)).map (FieldPath.root ·.field) ++
    settings.alwaysProjected ++
    Stage.joinLocalFields stages ++
    search.filterPaths.map FieldPath.root ++
    (search.sortKey.map FieldPath.root).toList

/-- The projection in front of some stages: none for a search that selects nothing. -/
def stages
    (settings : Settings)
    (search : Search)
    (following : List Document) :
    List Document :=
  match search.select with
  | none => []
  | some select =>
    [Stage.project (FieldPath.collapse (neededFields settings search select following))]

end Projection

end SearchPipeline
