import SearchPipeline.FieldPath
import SearchPipeline.Filter
import SearchPipeline.QuickSearch

/-!
# Searches

A search says which rows are wanted, in which order, which page of them, and
which of their fields.
-/

namespace SearchPipeline

/-- A field whose value is wanted. -/
structure SelectedField where
  field : String
  /-- Whether the field lies in a joined document, whose name is the path's first segment. -/
  isExternal : Bool := false
deriving DecidableEq

/-- The order in which rows are sorted. -/
inductive SortDirection where
  | ascending
  | descending
deriving DecidableEq

namespace SortDirection

/-- Only the word `desc` asks for descending order. -/
def ofWord : Option String → SortDirection
  | some word => if word = "desc" then descending else ascending
  | none => ascending

/-- The number that stands for a direction in a sort. -/
def sign : SortDirection → Int32
  | ascending => 1
  | descending => -1

end SortDirection

/-- Which rows are wanted, in which order, which page of them, and which fields. -/
structure Search where
  limit : UInt64 := 10
  page : Option UInt64 := none
  offset : Option UInt64 := none
  sortKey : Option String := none
  sortOrder : Option String := none
  filter : Option Filter := none
  quick : Option QuickSearch := none
  select : Option (List SelectedField) := none

namespace SelectedField

open Json.Reader in
/-- Reads a selected field. -/
def read (levels : Nat) : Json.Reader SelectedField :=
  enter levels fun _ =>
    record true
      [required "field" fun selected => return { selected with field := ← readString },
        omissible "externalDocument" fun selected =>
          return { selected with isExternal := ← readBoolean }]
      { field := "" }

end SelectedField

namespace Search

/-- The direction in which rows are sorted. -/
def sortDirection (search : Search) : SortDirection :=
  SortDirection.ofWord search.sortOrder

/-- Every path that conditions look at: those of the filter, then those of the quick search. -/
def filterPaths (search : Search) : List String :=
  (search.filter.map Filter.paths).getD [] ++ (search.quick.map QuickSearch.fields).getD []

open Json.Reader in
/-- Reads a search; what a text leaves out is as in the default search. -/
def read (levels : Nat) : Json.Reader Search :=
  enter levels fun levels =>
    record true
      [omissible "limit" fun search => return { search with limit := ← readNatural },
        omissible "page" fun search => return { search with page := ← optional readNatural },
        omissible "offset" fun search => return { search with offset := ← optional readNatural },
        omissible "sortKey" fun search => return { search with sortKey := ← optional readString },
        omissible "sortOrder" fun search =>
          return { search with sortOrder := ← optional readString },
        omissible "query" fun search =>
          return { search with filter := ← optional (Filter.read levels) },
        omissible "searchQuery" fun search =>
          return { search with quick := ← optional (QuickSearch.read levels) },
        omissible "select" fun search =>
          return { search with
            select := ← optional (enter levels fun levels => list (SelectedField.read levels)) }]
      {}

/-- The search that a text describes. -/
def ofText (text : String) : Except Json.Refusal Search :=
  Json.Reader.run (read Json.Reader.maxLevels) text

end Search

end SearchPipeline
