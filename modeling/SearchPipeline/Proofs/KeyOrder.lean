import SearchPipeline.Bson.Json
import SearchPipeline.Proofs.Tokens
import Mathlib.Data.List.Basic

/-!
# The order of keys in what is printed

Printing sorts the keys of every object.  What is printed for a part of a value is
found at the same place in what is printed for the value; its keys are the document's
keys in order of the alphabet, whatever order the document has them in.
-/

namespace SearchPipeline

/-! ## Entries in the order of their keys -/

section Sorting

variable {α β : Type}

/-- Entries in the order of their keys. -/
def sortByKey (entries : List (String × α)) : List (String × α) :=
  entries.mergeSort fun left right => left.1 ≤ right.1

theorem sortByKey_perm
    (entries : List (String × α)) :
    (sortByKey entries).Perm entries :=
  List.mergeSort_perm entries _

@[simp]
theorem mem_sortByKey
    {entries : List (String × α)}
    {entry : String × α} :
    entry ∈ sortByKey entries ↔ entry ∈ entries :=
  List.mem_mergeSort

theorem keys_sortByKey
    (entries : List (String × α)) :
    (sortByKey entries).map (·.1) = (entries.map (·.1)).mergeSort (· ≤ ·) :=
  List.map_mergeSort fun _ _ _ _ => rfl

/-- Making something of each value does not touch the order of the keys. -/
theorem sortByKey_map
    (entries : List (String × α))
    (make : α → β) :
    sortByKey (entries.map fun entry => (entry.1, make entry.2)) =
      (sortByKey entries).map fun entry => (entry.1, make entry.2) := by
  rw [sortByKey, sortByKey, List.map_mergeSort]
  intro left _ right _
  rfl

theorem sortByKey_pairwise
    (entries : List (String × α)) :
    (sortByKey entries).Pairwise fun left right => left.1 ≤ right.1 := by
  have sorted :
      (sortByKey entries).Pairwise fun left right => decide (left.1 ≤ right.1) = true := by
    apply List.pairwise_mergeSort
    · intro left middle right first second
      simp only [decide_eq_true_eq] at first second ⊢
      exact String.le_trans first second
    · intro left right
      simp only [Bool.or_eq_true, decide_eq_true_eq]
      exact String.le_total left.1 right.1
  exact sorted.imp of_decide_eq_true

theorem sortByKey_of_pairwise
    {entries : List (String × α)}
    (sorted : entries.Pairwise fun left right => left.1 ≤ right.1) :
    sortByKey entries = entries :=
  List.mergeSort_of_pairwise (by simpa using sorted)

theorem sortByKey_sortByKey
    (entries : List (String × α)) :
    sortByKey (sortByKey entries) = sortByKey entries :=
  sortByKey_of_pairwise (sortByKey_pairwise entries)

/-- The order of the keys is the entries' own exactly if the keys are in order already. -/
theorem keys_sortByKey_eq_iff
    (entries : List (String × α)) :
    (sortByKey entries).map (·.1) = entries.map (·.1) ↔
      (entries.map (·.1)).Pairwise (· ≤ ·) := by
  constructor
  · intro same
    rw [← same, List.pairwise_map]
    exact sortByKey_pairwise entries
  · intro sorted
    rw [sortByKey_of_pairwise (List.pairwise_map.mp sorted)]

end Sorting

namespace Json

theorem sortItems_eq_map
    (items : List Json) :
    sortItems items = items.map sortKeys := by
  induction items with
  | nil => rfl
  | cons item items induction => rw [sortItems, induction, List.map_cons]

theorem sortEntries_eq_map
    (entries : List (String × Json)) :
    sortEntries entries = entries.map fun entry => (entry.1, entry.2.sortKeys) := by
  induction entries with
  | nil => rfl
  | cons entry entries induction => rw [sortEntries, induction, List.map_cons]

theorem itemTokens_eq_map
    (items : List Json) :
    itemTokens items = items.map tokens := by
  induction items with
  | nil => rfl
  | cons item items induction => rw [itemTokens, induction, List.map_cons]

theorem entryTokens_eq_map
    (entries : List (String × Json)) :
    entryTokens entries =
      entries.map fun entry => .string (TextUnit.ofText entry.1) :: .colon :: entry.2.tokens := by
  induction entries with
  | nil => rfl
  | cons entry entries induction => rw [entryTokens, induction, List.map_cons]

end Json

/-! ## What is printed for a value -/

namespace Bson

theorem toJsonItems_eq_map
    (items : List Bson) :
    toJsonItems items = items.map toJson := by
  induction items with
  | nil => rfl
  | cons item items induction => rw [toJsonItems, induction, List.map_cons]

theorem toJsonEntries_eq_map
    (entries : Document) :
    Document.toJsonEntries entries = entries.map fun entry => (entry.1, entry.2.toJson) := by
  induction entries with
  | nil => rfl
  | cons entry entries induction => rw [Document.toJsonEntries, induction, List.map_cons]

/-- What is printed for a value. -/
def printed (value : Bson) : Json :=
  value.toJson.sortKeys

theorem printed_array
    (items : List Bson) :
    (array items).printed = .array (items.map printed) := by
  rw [printed, toJson, Json.sortKeys, toJsonItems_eq_map, Json.sortItems_eq_map, List.map_map]
  rfl

/-- What is printed for the entries of a document. -/
def printedEntries (document : Document) : List (String × Json) :=
  (sortByKey document).map fun entry => (entry.1, entry.2.printed)

theorem sortKeys_toJsonEntries
    (document : Document) :
    (Json.object (Document.toJsonEntries document)).sortKeys =
      .object (printedEntries document) := by
  rw [Json.sortKeys, toJsonEntries_eq_map, Json.sortEntries_eq_map, List.map_map, printedEntries,
    ← sortByKey_map]
  rfl

theorem printed_document
    (entries : Document) :
    (document entries).printed = .object (printedEntries entries) := by
  rw [printed, toJson, sortKeys_toJsonEntries]

theorem printed_codeWithScope
    (text : String)
    (scope : Document) :
    (codeWithScope text scope).printed =
      .object [("$code", .string text), ("$scope", (document scope).printed)] := by
  have ordered : "$code" ≤ "$scope" := by decide
  rw [printed_document, ← sortKeys_toJsonEntries, printed, toJson, Json.sortKeys,
    Json.sortEntries_eq_map]
  refine congrArg Json.object (List.mergeSort_of_pairwise ?_)
  simp [ordered]

end Bson

/-! ## Parts of a value -/

mutual

/-- A property of a value and of all values in it; the scope of code counts as a document. -/
def Bson.All (holds : Bson → Prop) : Bson → Prop
  | .document entries => holds (.document entries) ∧ Document.AllValues holds entries
  | .array items => holds (.array items) ∧ Bson.AllItems holds items
  | .codeWithScope text scope =>
    holds (.codeWithScope text scope) ∧ holds (.document scope) ∧ Document.AllValues holds scope
  | value => holds value
termination_by structural value => value

/-- A property of all values in the items of a list. -/
def Bson.AllItems (holds : Bson → Prop) : List Bson → Prop
  | [] => True
  | item :: items => item.All holds ∧ Bson.AllItems holds items
termination_by structural items => items

/-- A property of all values in the entries of a document. -/
def Document.AllValues (holds : Bson → Prop) : List (String × Bson) → Prop
  | [] => True
  | (_, value) :: entries => value.All holds ∧ Document.AllValues holds entries
termination_by structural entries => entries

end

section All

variable {holds : Bson → Prop}

theorem Bson.allItems_iff
    (items : List Bson) :
    Bson.AllItems holds items ↔ ∀ item ∈ items, item.All holds := by
  induction items with
  | nil => simp [Bson.AllItems]
  | cons item items induction => simp [Bson.AllItems, induction]

theorem Document.allValues_iff
    (entries : Document) :
    Document.AllValues holds entries ↔ ∀ entry ∈ entries, entry.2.All holds := by
  induction entries with
  | nil => simp [Document.AllValues]
  | cons entry entries induction => simp [Document.AllValues, induction]

theorem Bson.all_array_iff
    (items : List Bson) :
    (Bson.array items).All holds ↔ holds (.array items) ∧ ∀ item ∈ items, item.All holds := by
  rw [Bson.All, Bson.allItems_iff]

theorem Bson.all_document_iff
    (entries : Document) :
    (Bson.document entries).All holds ↔
      holds (.document entries) ∧ ∀ entry ∈ entries, entry.2.All holds := by
  rw [Bson.All, Document.allValues_iff]

theorem Bson.all_codeWithScope_iff
    (text : String)
    (scope : Document) :
    (Bson.codeWithScope text scope).All holds ↔
      holds (.codeWithScope text scope) ∧ (Bson.document scope).All holds := by
  rw [Bson.All, Bson.All]

end All

namespace Bson

/-- Whether no value lies within a value. -/
def IsLeaf : Bson → Prop
  | .document _ | .array _ | .codeWithScope _ _ => False
  | _ => True

/-- What passes from the values within a value to the value holds of all values. -/
theorem induct
    {motive : Bson → Prop}
    (ofLeaf : ∀ value, value.IsLeaf → motive value)
    (ofItems : ∀ items, (∀ item ∈ items, motive item) → motive (array items))
    (ofEntries : ∀ entries, (∀ entry ∈ entries, motive entry.2) → motive (document entries))
    (ofScope : ∀ text scope, motive (document scope) → motive (codeWithScope text scope))
    (value : Bson) :
    motive value := by
  cases value with
  | array items => exact ofItems items fun item _ => induct ofLeaf ofItems ofEntries ofScope item
  | document entries =>
      exact ofEntries entries fun entry _ => induct ofLeaf ofItems ofEntries ofScope entry.2
  | codeWithScope text scope =>
      exact ofScope text scope <|
        ofEntries scope fun entry _ => induct ofLeaf ofItems ofEntries ofScope entry.2
  | _ => exact ofLeaf _ trivial
termination_by sizeOf value
decreasing_by
  · have := List.sizeOf_lt_of_mem ‹_ ∈ _›
    rcases entry with ⟨key, value⟩
    simp only [document.sizeOf_spec, Prod.mk.sizeOf_spec] at *
    omega
  · have := List.sizeOf_lt_of_mem ‹_ ∈ _›
    simp only [array.sizeOf_spec]
    omega
  · have := List.sizeOf_lt_of_mem ‹_ ∈ _›
    rcases entry with ⟨key, value⟩
    simp only [codeWithScope.sizeOf_spec, Prod.mk.sizeOf_spec] at *
    omega

theorem All.imp
    {holds : Bson → Prop}
    {value : Bson}
    (all : value.All holds)
    {follows : Bson → Prop}
    (step : ∀ value, holds value → follows value) :
    value.All follows := by
  induction value using Bson.induct with
  | ofLeaf value leaf =>
      cases value with
      | array _ | document _ | codeWithScope _ _ => contradiction
      | _ => exact step _ all
  | ofItems items induction =>
      rw [all_array_iff] at all ⊢
      exact ⟨step _ all.1, fun item member => induction item member (all.2 item member)⟩
  | ofEntries entries induction =>
      rw [all_document_iff] at all ⊢
      exact ⟨step _ all.1, fun entry member => induction entry member (all.2 entry member)⟩
  | ofScope text scope induction =>
      rw [all_codeWithScope_iff] at all ⊢
      exact ⟨step _ all.1, induction all.2⟩

end Bson

/-- One step from a value to a part of it. -/
inductive Step where
  | item (index : Nat)
  | entry (key : String)
  /-- From code to its scope. -/
  | scope
deriving DecidableEq

/-- The part of a value at a place. -/
def Bson.at? (value : Bson) : List Step → Option Bson
  | [] => some value
  | step :: path =>
    match step, value with
    | .item index, .array items => items[index]?.bind (Bson.at? · path)
    | .entry key, .document entries => (Document.get? entries key).bind (Bson.at? · path)
    | .scope, .codeWithScope _ scope => (Bson.document scope).at? path
    | _, _ => none

/-- The part of what is printed at a place. -/
def Json.at? (value : Json) : List Step → Option Json
  | [] => some value
  | step :: path =>
    match step, value with
    | .item index, .array items => items[index]?.bind (Json.at? · path)
    | .entry key, .object entries => (entries.lookup key).bind (Json.at? · path)
    | .scope, .object entries => (entries.lookup "$scope").bind (Json.at? · path)
    | _, _ => none

theorem lookup_eq_some_iff
    {α : Type}
    {entries : List (String × α)}
    (distinct : (entries.map (·.1)).Nodup)
    (key : String)
    (value : α) :
    entries.lookup key = some value ↔ (key, value) ∈ entries := by
  induction entries with
  | nil => simp
  | cons entry entries induction =>
      rcases entry with ⟨other, old⟩
      rw [List.map_cons, List.nodup_cons] at distinct
      by_cases same : key = other
      · subst same
        have absent : (key, value) ∉ entries := by
          intro member
          exact distinct.1 (List.mem_map.mpr ⟨_, member, rfl⟩)
        simp [absent, eq_comm]
      · have different : (key == other) = false := by simpa using same
        rw [List.lookup_cons, different, induction distinct.2]
        simp [same]

theorem Document.get?_eq_lookup
    (document : Document)
    (key : String) :
    get? document key = document.lookup key := by
  induction document with
  | nil => rfl
  | cons entry entries induction =>
      rcases entry with ⟨other, value⟩
      rw [get?, List.lookup_cons, induction]
      by_cases same : other = key
      · simp [same]
      · have different : (key == other) = false := beq_false_of_ne (Ne.symm same)
        simp [same, different]

/-- Distinct keys are found in any order of the entries. -/
theorem lookup_map_sortByKey
    {α β : Type}
    {entries : List (String × α)}
    (distinct : (entries.map (·.1)).Nodup)
    (make : α → β)
    (key : String) :
    ((sortByKey entries).map fun entry => (entry.1, make entry.2)).lookup key =
      (entries.lookup key).map make := by
  have keys : (((sortByKey entries).map fun entry => (entry.1, make entry.2)).map (·.1)).Nodup := by
    rw [List.map_map]
    exact ((sortByKey_perm entries).map _).nodup_iff.mpr distinct
  ext value
  rw [lookup_eq_some_iff keys, Option.map_eq_some_iff, List.mem_map]
  constructor
  · rintro ⟨⟨_, old⟩, member, same⟩
    obtain ⟨rfl, rfl⟩ := Prod.mk.inj same
    exact ⟨old, (lookup_eq_some_iff distinct _ _).mpr (mem_sortByKey.mp member), rfl⟩
  · rintro ⟨old, found, rfl⟩
    exact ⟨(key, old), mem_sortByKey.mpr ((lookup_eq_some_iff distinct _ _).mp found), rfl⟩

theorem Bson.lookup_printedEntries
    {document : Document}
    (distinct : (Document.keys document).Nodup)
    (key : String) :
    (printedEntries document).lookup key = (Document.get? document key).map printed := by
  rw [Document.get?_eq_lookup]
  exact lookup_map_sortByKey distinct printed key

/-- No document in a value names a key twice. -/
def Bson.HasDistinctKeys : Bson → Prop :=
  Bson.All fun
    | .document entries => (Document.keys entries).Nodup
    | _ => True

/-- What is printed for a part of a value stands at the same place. -/
theorem Bson.at?_printed
    {value part : Bson}
    (distinct : value.HasDistinctKeys)
    {path : List Step}
    (found : value.at? path = some part) :
    value.printed.at? path = some part.printed := by
  induction path generalizing value with
  | nil =>
      rw [← Option.some.inj found]
      rfl
  | cons step path induction =>
      unfold Bson.at? at found
      split at found
      · rename_i index items
        obtain ⟨item, there, below⟩ := Option.bind_eq_some_iff.mp found
        have member := List.mem_of_getElem? there
        rw [Bson.printed_array, Json.at?, List.getElem?_map, there, Option.map_some,
          Option.bind_some]
        exact induction (((all_array_iff items).mp distinct).2 item member) below
      · rename_i key entries
        obtain ⟨value, there, below⟩ := Option.bind_eq_some_iff.mp found
        obtain ⟨keys, values⟩ := (all_document_iff entries).mp distinct
        have member : (key, value) ∈ entries := by
          rw [Document.get?_eq_lookup] at there
          exact (lookup_eq_some_iff keys key value).mp there
        rw [Bson.printed_document, Json.at?, lookup_printedEntries keys, there, Option.map_some,
          Option.bind_some]
        exact induction (values _ member) below
      · rename_i text scope
        rw [Bson.printed_codeWithScope, Json.at?]
        exact induction ((all_codeWithScope_iff text scope).mp distinct).2 found
      · contradiction

/--
The keys that are printed for a document are its own keys in order, and stand in the
document's own order exactly if that is their order too.
-/
theorem Bson.printed_keys
    (document : Document) :
    (printedEntries document).map (·.1) = (Document.keys document).mergeSort (· ≤ ·) ∧
      ((printedEntries document).map (·.1) = Document.keys document ↔
        (Document.keys document).Pairwise (· ≤ ·)) := by
  have keys : (printedEntries document).map (·.1) = (sortByKey document).map (·.1) := by
    rw [printedEntries, List.map_map]
    rfl
  rw [keys]
  exact ⟨keys_sortByKey document, keys_sortByKey_eq_iff document⟩

end SearchPipeline
