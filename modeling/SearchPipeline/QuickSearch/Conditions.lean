import SearchPipeline.Compiled
import SearchPipeline.Conditions
import SearchPipeline.FieldPath
import SearchPipeline.QuickSearch

/-!
# The conditions of a quick search

The text has to be found in any of the fields.  As that is one condition, it waits
for the joins as soon as the path of one of the fields is nested.
-/

namespace SearchPipeline

namespace QuickSearch

/-- The text is found in any of the fields. -/
def expression (quick : QuickSearch) : Expression :=
  .any (quick.fields.map fun field => .pattern field quick.value)

/-- Whether the search has to wait for the joins. -/
def waitsForJoins (quick : QuickSearch) : Bool :=
  quick.fields.any FieldPath.isNested

/-- The search as a member of the groups before the joins and after them. -/
def members (quick : QuickSearch) : List Expression × List Expression :=
  if quick.fields.isEmpty then ([], [])
  else if quick.waitsForJoins then ([], [quick.expression])
  else ([quick.expression], [])

/-- The conditions of a quick search, with extra ones after them on each side. -/
def compile
    (quick : QuickSearch)
    (extras : Conditions) :
    Compiled Conditions :=
  if quick.value = "" then .problem .emptySearchValue
  else
    .result <| .ofGroups
      (quick.members.1 ++ Conditions.asMember extras.before)
      (quick.members.2 ++ Conditions.asMember extras.after)

/-- The conditions of a quick search that has to be there. -/
def compileRequired
    (quick : Option QuickSearch)
    (extras : Conditions) :
    Compiled Conditions :=
  match quick with
  | some quick => quick.compile extras
  | none => .problem .missingQuickSearch

end QuickSearch

end SearchPipeline
