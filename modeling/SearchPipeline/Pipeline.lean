import SearchPipeline.Filter.Conditions
import SearchPipeline.Projection
import SearchPipeline.QuickSearch.Conditions

/-!
# Pipelines

The pipeline of a search projects, matches, joins, matches again and sorts.
-/

namespace SearchPipeline

namespace Search

/--
The conditions of a search with extra ones.  The extra ones are used once: with
the filter, else with the quick search, else by themselves.
-/
def compileConditions
    (search : Search)
    (extras : Conditions) :
    Compiled Conditions :=
  match search.filter, search.quick with
  | none, none => .result extras
  | some filter, none => filter.compile extras
  | none, some quick => quick.compile extras
  | some filter, some quick =>
    (filter.compile extras).andThen fun filtered =>
      (quick.compile {}).andThen fun found => .result (filtered.merge found)

/-- The sort of a search, unless it is left out or the search names no key. -/
def sortStages
    (search : Search)
    (skipsSort : Bool) :
    List Document :=
  match search.sortKey with
  | none => []
  | some key =>
    if skipsSort || key = "" then [] else [Stage.sort key search.sortDirection.sign]

/-- The stages that follow the projection. -/
def stagesAfterProjection
    (search : Search)
    (joins : List Document)
    (conditions : Conditions)
    (skipsSort : Bool) :
    List Document :=
  Stage.matching (conditions.before.getD []) :: joins ++
    Stage.matching (conditions.after.getD []) :: search.sortStages skipsSort

/-- The pipeline of a search with some stages for its joins. -/
def compile
    (settings : Settings)
    (search : Search)
    (joins : List Document)
    (extras : Conditions)
    (skipsSort : Bool) :
    Compiled (List Document) :=
  (search.compileConditions extras).andThen fun conditions =>
    let stages := search.stagesAfterProjection joins conditions skipsSort
    .result (Projection.stages settings search stages ++ stages)

end Search

end SearchPipeline
