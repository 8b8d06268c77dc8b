import SearchPipeline.Bson.Merge
import SearchPipeline.Expression

/-!
# Conditions before and after the joins

A match before the joins sees only the fields of a row itself; one after them
sees joined documents too.
-/

namespace SearchPipeline

/-- The document of the match before the joins and of the one after them, if there is any. -/
structure Conditions where
  before : Option Document := none
  after : Option Document := none

namespace Conditions

/-- The document that asks for all members of a group; an empty group asks for nothing. -/
def conjunction : List Expression → Option Document
  | [] => none
  | member :: members => some (Expression.all (member :: members)).toDocument

/-- The conditions of a group before the joins and one after them. -/
def ofGroups (before after : List Expression) : Conditions :=
  ⟨conjunction before, conjunction after⟩

/-- Conditions as members of a group, in which each stands as a whole. -/
def asMember : Option Document → List Expression
  | some condition => [.given condition]
  | none => []

/-- Both of two pairs of conditions. -/
def merge (left right : Conditions) : Conditions :=
  ⟨Document.mergeOptional left.before right.before, Document.mergeOptional left.after right.after⟩

end Conditions

end SearchPipeline
