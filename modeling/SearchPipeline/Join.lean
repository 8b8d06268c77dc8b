import SearchPipeline.Search
import SearchPipeline.Stage

/-!
# Joins

A join puts documents of another collection into each row: those whose foreign
field equals the row's local field.  Unless the join is array-valued, the first of
them takes the place of their list.  A join that a selection narrows keeps only
the fields that the search looks at.
-/

namespace SearchPipeline

/-- Which documents are joined, and where they are put. -/
structure Join where
  collection : String
  localField : String
  foreignField : String
  target : String
  /-- Whether the joined documents stay a list. -/
  isArray : Bool := false
deriving DecidableEq

namespace Join

/-- The stages within a join: those of nested joins, then the fields that are kept, if any are named. -/
def innerStages
    (nested : List Document)
    (kept : List String) :
    List Document :=
  nested ++ if kept.isEmpty then [] else [Stage.project kept]

/-- The description of a join with some stages within it. -/
def lookup
    (join : Join)
    (inner : List Document) :
    Document :=
  [("from", .string join.collection), ("localField", .string join.localField),
    ("foreignField", .string join.foreignField), ("as", .string join.target)] ++
    if inner.isEmpty then [] else [("pipeline", .array (inner.map .document))]

/-- Puts the first joined document in the place of their list. -/
def flatten (join : Join) : Document :=
  [("$set", Bson.entry join.target
    (Bson.entry "$arrayElemAt" (.array [.string ("$" ++ join.target), .int32 0])))]

/-- The stages of a join, with stages of nested joins in it and the fields that it keeps. -/
def stages
    (join : Join)
    (nested : List Document)
    (kept : List String) :
    List Document :=
  [("$lookup", .document (join.lookup (innerStages nested kept)))] ::
    if join.isArray then [] else [join.flatten]

/-- The name of a nested join that a path leads into, or else the path. -/
def reduce
    (targets : List String)
    (path : String) :
    String :=
  if targets.contains (FieldPath.root path) then FieldPath.root path else path

/--
The fields of a joined document that a search looks at, given the start that their
paths have.  None are named if the search selects nothing, or selects the joined
document whole.
-/
def keptFields
    (nested : List Document)
    (search : Search)
    (start : String) :
    List String :=
  match search.select with
  | none => []
  | some select =>
    if select.any (·.field = FieldPath.withoutFinalDots start) then []
    else
      let paths := select.map (·.field) ++ search.filterPaths ++ search.sortKey.toList
      let below := (paths.filterMap (FieldPath.after? start)).filter (· ≠ "")
      FieldPath.collapse (below.map (reduce (Stage.joinTargets nested)))

/-- The start of the paths into a joined document that lies at the top of a row. -/
def start (join : Join) : String :=
  join.target ++ "."

/-- The stages of a join that keeps what a search looks at; without a search it keeps everything. -/
def stagesFor
    (join : Join)
    (nested : List Document)
    (search : Option Search)
    (start : Option String) :
    List Document :=
  join.stages nested <|
    match search with
    | some search => keptFields nested search (start.getD join.start)
    | none => []

end Join

/-- A join with joins within it. -/
inductive JoinTree where
  | node (join : Join) (nested : List JoinTree)

namespace JoinTree

/-- The outermost join. -/
def join : JoinTree → Join
  | node join _ => join

mutual

/-- The stages of a join and those within it, given the start of the paths around it. -/
def stages
    (search : Search)
    (around : String) :
    JoinTree → List Document
  | node join nested =>
    let start := around ++ join.start
    join.stagesFor (listStages search start nested) (some search) (some start)
termination_by structural tree => tree

/-- The stages of several joins, in order. -/
def listStages
    (search : Search)
    (around : String) :
    List JoinTree → List Document
  | [] => []
  | tree :: trees => stages search around tree ++ listStages search around trees
termination_by structural trees => trees

end

/-- A join that nothing is known about. -/
def blank : JoinTree :=
  node { collection := "", localField := "", foreignField := "", target := "" } []

open Json.Reader in
/-- Reads the entries of a join, given how the joins within it are read. -/
def readEntries (nested : Json.Reader (List JoinTree)) : Json.Reader JoinTree :=
  record true
    [required "from" fun (node join trees) =>
        return node { join with collection := ← readString } trees,
      required "localField" fun (node join trees) =>
        return node { join with localField := ← readString } trees,
      required "foreignField" fun (node join trees) =>
        return node { join with foreignField := ← readString } trees,
      required "as" fun (node join trees) =>
        return node { join with target := ← readString } trees,
      omissible "lookups" fun (node join _) => return node join (← nested),
      omissible "isArray" fun (node join trees) =>
        return node { join with isArray := ← readBoolean } trees]
    blank

/-- Reads a join with joins within it; each takes two levels, its own and that of its list. -/
def read : (levels : Nat) → Json.Reader JoinTree
  | 0 => Json.Reader.malformed
  | 1 => readEntries Json.Reader.malformed
  | levels + 2 => readEntries (Json.Reader.list (read levels))

end JoinTree

end SearchPipeline
