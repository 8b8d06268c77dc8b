import SearchPipeline.Condition.Expression
import SearchPipeline.Conditions
import SearchPipeline.FieldPath
import SearchPipeline.Filter

/-!
# The conditions of a filter

The conditions on a field go together, before the joins or after them.  They go
after them if the field's path is nested or one of them looks into the objects of
a list, since joins are what usually puts those there.
-/

namespace SearchPipeline

namespace Filter

/-- The groups of a field's conditions: all required ones, and any of the others. -/
def groups (required optional : List Expression) : List Expression :=
  (if required.isEmpty then [] else [.all required]) ++
    (if optional.isEmpty then [] else [.any optional])

/-- The expression of a field's groups, if there are any. -/
def combine : List Expression → Option Expression
  | [] => none
  | [group] => some group
  | groups => some (.all groups)

/-- The expression of a field's conditions; a field without conditions has none. -/
def compileField
    (field : String)
    (conditions : List Condition) :
    Compiled (Option Expression) :=
  (Compiled.each (Condition.compile field) conditions).andThen fun expressions =>
    let marked := conditions.zip expressions
    let required := (marked.filter (·.1.isRequired)).map (·.2)
    let optional := (marked.filter (!·.1.isRequired)).map (·.2)
    .result (combine (groups required optional))

/-- Whether a field's conditions have to wait for the joins. -/
def waitsForJoins
    (field : String)
    (conditions : List Condition) :
    Bool :=
  FieldPath.isNested field || conditions.any (·.mode.isStructural)

/-- The expressions of a filter's fields that have one, and whether they wait for the joins. -/
def compileFields
    (filter : Filter) :
    Compiled (List (Bool × Expression)) :=
  (Compiled.each (fun entry => compileField entry.1 entry.2) filter.entries).andThen fun compiled =>
    .result <| (filter.entries.zip compiled).filterMap fun (entry, expression) =>
      expression.map (waitsForJoins entry.1 entry.2, ·)

/-- The conditions of a filter, with extra ones after them on each side. -/
def compile
    (filter : Filter)
    (extras : Conditions) :
    Compiled Conditions :=
  filter.compileFields.andThen fun members =>
    let before := (members.filter (!·.1)).map (·.2)
    let after := (members.filter (·.1)).map (·.2)
    .result <| .ofGroups
      (before ++ Conditions.asMember extras.before) (after ++ Conditions.asMember extras.after)

/-- The conditions of a filter that has to be there. -/
def compileRequired
    (filter : Option Filter)
    (extras : Conditions) :
    Compiled Conditions :=
  match filter with
  | some filter => filter.compile extras
  | none => .problem .missingFilter

end Filter

end SearchPipeline
