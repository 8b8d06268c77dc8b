/-!
# Dotted field paths

A path names a field of a document by its segments, separated by dots.  One path
is an ancestor of another when the other goes on after it with a dot.
-/

namespace SearchPipeline.FieldPath

/-- Whether a path has a dot, so that it reaches into a nested or joined document. -/
def isNested (path : String) : Bool :=
  path.toList.contains '.'

/-- The first segment of a path. -/
def root (path : String) : String :=
  String.ofList (path.toList.takeWhile (· ≠ '.'))

/-- What remains of a path after the text it starts with, if it starts with it. -/
def after? (start path : String) : Option String :=
  if start.toList.isPrefixOf path.toList then
    some (String.ofList (path.toList.drop start.toList.length))
  else none

/-- The path without the dots it ends in. -/
def withoutFinalDots (path : String) : String :=
  String.ofList (path.toList.reverse.dropWhile (· = '.')).reverse

/-- Whether one path goes on after the other with a dot. -/
def isAncestor (ancestor path : String) : Bool :=
  (ancestor.toList ++ ['.']).isPrefixOf path.toList

/--
The paths that are needed to reach all of the given ones: each non-empty path
once, in order of first occurrence, and none below another.
-/
def collapse (paths : List String) : List String :=
  let distinct := (paths.filter (· ≠ "")).eraseDups
  distinct.filter fun path => !distinct.any (isAncestor · path)

theorem isAncestor_iff
    (ancestor path : String) :
    isAncestor ancestor path = true ↔
      ∃ rest, path.toList = ancestor.toList ++ '.' :: rest := by
  rw [isAncestor, List.isPrefixOf_iff_prefix]
  constructor
  · rintro ⟨rest, joined⟩
    exact ⟨rest, by rw [← joined]; simp⟩
  · rintro ⟨rest, joined⟩
    exact ⟨rest, by rw [joined]; simp⟩

/-- What is left is what is not empty and below no other path that is not empty. -/
theorem mem_collapse
    (paths : List String)
    (path : String) :
    path ∈ collapse paths ↔
      path ∈ paths ∧ path ≠ "" ∧
        ∀ other ∈ paths, other ≠ "" → isAncestor other path = false := by
  simp only [collapse, List.mem_filter, List.mem_eraseDups, decide_eq_true_eq,
    Bool.not_eq_true', List.any_eq_false, Bool.not_eq_true]
  constructor
  · rintro ⟨⟨member, nonempty⟩, alone⟩
    exact ⟨member, nonempty, fun other otherMember filled => alone other ⟨otherMember, filled⟩⟩
  · rintro ⟨member, nonempty, alone⟩
    exact ⟨⟨member, nonempty⟩, fun other otherMember => alone other otherMember.1 otherMember.2⟩

end SearchPipeline.FieldPath
