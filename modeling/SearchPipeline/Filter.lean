import SearchPipeline.Bson.Reader
import SearchPipeline.Condition

/-!
# Filters

A filter gives each of some fields its conditions.  Fields are kept in the order
of their names, so that one filter always compiles to the same conditions.
-/

namespace SearchPipeline

/-- The conditions on each of some fields, in the order of the fields' names. -/
structure Filter where
  entries : List (String × List Condition)
  sorted : entries.Pairwise fun left right => left.1 < right.1

namespace Filter

/-- The filter on no field. -/
def empty : Filter := ⟨[], .nil⟩

/-- Puts a field's conditions in their place, instead of those the field had. -/
def insertEntry
    (field : String)
    (conditions : List Condition) :
    List (String × List Condition) → List (String × List Condition)
  | [] => [(field, conditions)]
  | (other, old) :: rest =>
    if field < other then (field, conditions) :: (other, old) :: rest
    else if field = other then (field, conditions) :: rest
    else (other, old) :: insertEntry field conditions rest

theorem mem_insertEntry
    {field : String}
    {conditions : List Condition}
    {entries : List (String × List Condition)}
    {entry : String × List Condition}
    (member : entry ∈ insertEntry field conditions entries) :
    entry = (field, conditions) ∨ entry ∈ entries := by
  induction entries with
  | nil => simpa [insertEntry] using member
  | cons head rest ih =>
    obtain ⟨other, old⟩ := head
    grind [insertEntry]

theorem insertEntry_sorted
    (field : String)
    (conditions : List Condition)
    {entries : List (String × List Condition)}
    (sorted : entries.Pairwise fun left right => left.1 < right.1) :
    (insertEntry field conditions entries).Pairwise fun left right => left.1 < right.1 := by
  induction entries with
  | nil => simp [insertEntry]
  | cons head rest ih =>
    obtain ⟨other, old⟩ := head
    rw [List.pairwise_cons] at sorted
    unfold insertEntry
    split
    · rename_i before
      refine List.pairwise_cons.2 ⟨?_, List.pairwise_cons.2 sorted⟩
      intro entry member
      rcases List.mem_cons.1 member with rfl | member
      · exact before
      · exact String.lt_trans before (sorted.1 entry member)
    · split
      · rename_i same
        exact List.pairwise_cons.2 ⟨fun entry member => same ▸ sorted.1 entry member, sorted.2⟩
      · rename_i notBefore notSame
        refine List.pairwise_cons.2 ⟨?_, ih sorted.2⟩
        intro entry member
        rcases mem_insertEntry member with rfl | member
        · refine Std.not_le.1 fun le => notSame ?_
          exact String.le_antisymm le (String.not_lt.1 notBefore)
        · exact sorted.1 entry member

/-- Gives a field its conditions, instead of those it had. -/
def insert
    (filter : Filter)
    (field : String)
    (conditions : List Condition) :
    Filter :=
  ⟨insertEntry field conditions filter.entries, insertEntry_sorted field conditions filter.sorted⟩

/-- The fields, in the order of their names. -/
def paths (filter : Filter) : List String :=
  filter.entries.map (·.1)

/-- The conditions that a value describes, for a field: a list with a document for each. -/
def conditionsOf
    (field : String) :
    Bson → Except InvalidRequest (List Condition)
  | .array items => items.mapM (Condition.ofBson field)
  | _ => .error (.conditionsNotAList field)

/-- The filter that a document describes, with an entry for each field. -/
def ofDocument (document : Document) : Except InvalidRequest Filter :=
  document.foldlM
    (fun filter entry => do
      return filter.insert entry.1 (← conditionsOf entry.1 entry.2))
    empty

/-- The filter that a value describes. -/
def ofBson : Bson → Except InvalidRequest Filter
  | .null => .error .missingFilter
  | .undefined => .error .missingFilter
  | .document entries => ofDocument entries
  | _ => .error (.notADocument "query")

/-- Reads a filter. -/
def read (levels : Nat) : Json.Reader Filter := do
  Json.Reader.orInvalid (ofDocument (← Document.read levels))

end Filter

end SearchPipeline
