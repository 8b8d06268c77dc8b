import SearchPipeline.Proofs.TypedValues

/-!
# Printed values read back

A value that is printed is read back with its keys in order and its integers in the
narrowest kind, if doubles are read back from their texts, no plain binary data and
no key that names a kind stands in it, and it is not nested too deeply.  In all
other cases something else is read, or nothing.
-/

namespace SearchPipeline

open Json Json.Reader

/-! ## Values up to the order of keys -/

mutual

/-- A value with the keys of every document in order, and each integer made anew of its number. -/
def Bson.arranged (integer : Int → Bson) : Bson → Bson
  | .document entries => .document (sortByKey (Document.arrangedEntries integer entries))
  | .array items => .array (Bson.arrangedItems integer items)
  | .codeWithScope text scope =>
    .codeWithScope text (sortByKey (Document.arrangedEntries integer scope))
  | .int32 value => integer value.toInt
  | .int64 value => integer value.toInt
  | value => value
termination_by structural value => value

/-- The items of a list, each arranged. -/
def Bson.arrangedItems (integer : Int → Bson) : List Bson → List Bson
  | [] => []
  | item :: items => item.arranged integer :: Bson.arrangedItems integer items
termination_by structural items => items

/-- The entries of a document, each with its value arranged. -/
def Document.arrangedEntries (integer : Int → Bson) : List (String × Bson) → List (String × Bson)
  | [] => []
  | (key, value) :: entries =>
    (key, value.arranged integer) :: Document.arrangedEntries integer entries
termination_by structural entries => entries

end

namespace Bson

/-- A value up to the order of keys and the width of integers. -/
def canonical : Bson → Bson :=
  arranged fun value => .int64 (Int64.ofInt value)

/-- An integer of the narrowest kind that reading gives it. -/
def narrow (value : Int) : Bson :=
  if 0 ≤ value ∧ value < 2 ^ 31 then .int32 (Int32.ofInt value) else .int64 (Int64.ofInt value)

/-- A value as it is after it was printed and read. -/
def reread : Bson → Bson :=
  arranged narrow

section Arranged

variable (integer : Int → Bson)

theorem arranged_array
    (items : List Bson) :
    (array items).arranged integer = .array (items.map (arranged integer)) := by
  rw [arranged]
  refine congrArg array ?_
  induction items with
  | nil => rfl
  | cons item items induction => rw [arrangedItems, induction, List.map_cons]

/-- The entries of a document in the order of their keys, each with its value arranged. -/
def arrangedEntries (entries : Document) : Document :=
  (sortByKey entries).map fun entry => (entry.1, entry.2.arranged integer)

theorem sortByKey_arrangedEntries
    (entries : Document) :
    sortByKey (Document.arrangedEntries integer entries) = arrangedEntries integer entries := by
  rw [arrangedEntries, ← sortByKey_map]
  refine congrArg sortByKey ?_
  induction entries with
  | nil => rfl
  | cons entry entries induction => rw [Document.arrangedEntries, induction, List.map_cons]

theorem arranged_document
    (entries : Document) :
    (document entries).arranged integer = .document (arrangedEntries integer entries) := by
  rw [arranged, sortByKey_arrangedEntries]

theorem keys_arrangedEntries
    (entries : Document) :
    Document.keys (arrangedEntries integer entries) =
      (Document.keys entries).mergeSort (· ≤ ·) := by
  rw [arrangedEntries, Document.keys, List.map_map]
  exact keys_sortByKey entries

theorem arranged_codeWithScope
    (text : String)
    (scope : Document) :
    (codeWithScope text scope).arranged integer =
      .codeWithScope text (arrangedEntries integer scope) := by
  rw [arranged, sortByKey_arrangedEntries]

/-- A part of an arranged value is the part of the value, arranged. -/
theorem at?_arranged
    {value part : Bson}
    (distinct : value.HasDistinctKeys)
    {path : List Step}
    (found : value.at? path = some part) :
    (value.arranged integer).at? path = some (part.arranged integer) := by
  induction path generalizing value with
  | nil =>
      rw [← Option.some.inj found]
      rfl
  | cons step path induction =>
      unfold at? at found
      split at found
      · rename_i index items
        obtain ⟨item, there, below⟩ := Option.bind_eq_some_iff.mp found
        have member := List.mem_of_getElem? there
        rw [arranged_array, at?, List.getElem?_map, there, Option.map_some, Option.bind_some]
        exact induction (((all_array_iff items).mp distinct).2 item member) below
      · rename_i key entries
        obtain ⟨value, there, below⟩ := Option.bind_eq_some_iff.mp found
        obtain ⟨keys, values⟩ := (all_document_iff entries).mp distinct
        rw [Document.get?_eq_lookup] at there
        have member : (key, value) ∈ entries := (lookup_eq_some_iff keys key value).mp there
        rw [arranged_document, at?, Document.get?_eq_lookup, arrangedEntries,
          lookup_map_sortByKey keys, there, Option.map_some, Option.bind_some]
        exact induction (values _ member) below
      · rename_i text scope
        have within := induction ((all_codeWithScope_iff text scope).mp distinct).2 found
        rw [arranged_document] at within
        rw [arranged_codeWithScope, at?]
        exact within
      · contradiction

end Arranged

/-- Arranging a value does not see how it was arranged before, up to what is made of integers. -/
theorem arranged_arranged
    {integer before : Int → Bson}
    (same : ∀ value : Int, -2 ^ 63 ≤ value → value < 2 ^ 63 →
      (before value).arranged integer = integer value)
    (value : Bson) :
    (value.arranged before).arranged integer = value.arranged integer := by
  have entries (entries : Document)
      (induction : ∀ entry ∈ entries,
        (entry.2.arranged before).arranged integer = entry.2.arranged integer) :
      arrangedEntries integer (arrangedEntries before entries) =
        arrangedEntries integer entries := by
    rw [arrangedEntries, arrangedEntries, sortByKey_map, sortByKey_sortByKey, List.map_map,
      arrangedEntries]
    refine List.map_congr_left fun entry member => ?_
    rw [Function.comp_apply, induction entry (mem_sortByKey.mp member)]
  induction value using induct with
  | ofLeaf value leaf =>
      cases value with
      | int32 value =>
          have low := value.le_toInt
          have high := value.toInt_lt
          exact same value.toInt (by omega) (by omega)
      | int64 value => exact same value.toInt value.le_toInt value.toInt_lt
      | array _ | document _ | codeWithScope _ _ => contradiction
      | _ => rfl
  | ofItems items induction =>
      rw [arranged_array, arranged_array, arranged_array, List.map_map]
      exact congrArg array (List.map_congr_left induction)
  | ofEntries document induction =>
      rw [arranged_document, arranged_document, arranged_document, entries document induction]
  | ofScope text scope induction =>
      rw [arranged_document, arranged_document, arranged_document] at induction
      rw [arranged_codeWithScope, arranged_codeWithScope, arranged_codeWithScope,
        document.inj induction]

theorem canonical_reread
    (value : Bson) :
    value.reread.canonical = value.canonical := by
  refine arranged_arranged (fun value low high => ?_) value
  unfold narrow
  split
  · rename_i small
    have same : (Int32.ofInt value).toInt = value := Int32.toInt_ofInt_of_le (by omega) (by omega)
    rw [arranged, same]
  · have same : (Int64.ofInt value).toInt = value := Int64.toInt_ofInt_of_le low high
    rw [arranged, same]

/-! ## What is read -/

/-- What a value has to be so that its printed form tells it, apart from the values within it. -/
def Legible : Bson → Prop
  | .double value => value.isFinite = true ∧ value.numberText.double? = some value
  | .binary kind _ => kind ≠ 0
  | .document entries => ∀ entry ∈ entries, entry.1 ∉ kindKeys
  | _ => True

/-- What is printed for a value is read back as that value exactly if the value is legible. -/
structure ReadsBack (value : Bson) : Prop where
  reads : ∀ levels, value.printed.depth ≤ levels → value.All Legible →
    onValue (read levels) value.printed = some value.reread
  only : ∀ levels again, onValue (read levels) value.printed = some again →
    again.canonical = value.canonical → value.printed.depth ≤ levels ∧ value.All Legible

theorem readsBack_of_readsAs
    {value : Bson}
    (legible : value.All Legible)
    (reads : ReadsAs read value.printed value.reread) :
    value.ReadsBack where
  reads levels deep _ := by rw [reads.onValue_eq, if_pos deep]
  only levels again given _ := by
    rw [reads.onValue_eq] at given
    exact ⟨(Option.ite_none_right_eq_some.mp given).1, legible⟩

theorem readsBack_of_different
    {value : Bson}
    (illegible : ¬value.All Legible)
    (different : ∀ levels again, onValue (read levels) value.printed = some again →
      again.canonical ≠ value.canonical) :
    value.ReadsBack where
  reads _ _ legible := absurd legible illegible
  only levels again given same := absurd same (different levels again given)

/-- Reading looks for a list or an object before it reads a scalar. -/
theorem gives_read_of_scalar
    {value : Json}
    (flat : value.depth = 0)
    {result : Option Bson}
    (gives : Gives readScalar value.tokens result)
    (levels : Nat) :
    Gives (read levels) value.tokens result := by
  cases levels with
  | zero => exact gives
  | succ levels =>
      cases value with
      | array items => contradiction
      | object entries => contradiction
      | _ => exact gives

theorem readsAs_of_scalar
    {value : Json}
    (flat : value.depth = 0)
    {result : Bson}
    (gives : Gives readScalar value.tokens (some result)) :
    ReadsAs read value result := by
  intro levels
  rw [flat, if_pos (Nat.zero_le levels)]
  exact gives_read_of_scalar flat gives levels

theorem gives_readScalar_integer
    {value : Int}
    (low : -2 ^ 63 ≤ value)
    (high : value < 2 ^ 63) :
    Gives readScalar (Json.integer value).tokens (some (narrow value)) := by
  have number := NumberText.value?_ofInt low (by omega)
  have same : (NumberText.ofInt value).value?.bind ofNumber? = some (narrow value) := by
    rw [number, Option.bind_some, narrow]
    by_cases positive : 0 ≤ value
    · lift value to Nat using positive
      rw [if_pos (Int.natCast_nonneg value), ofNumber?, Int.toNat_natCast, Int32.ofInt_eq_ofNat,
        Int64.ofInt_eq_ofNat]
      split
      · rw [if_pos ⟨Int.natCast_nonneg value, by omega⟩]
      · rw [if_pos (by omega), if_neg (by omega)]
    · rw [if_neg positive, if_neg (fun small => positive small.1), ofNumber?]
  rw [readScalar, tokens, gives_take_bind]
  dsimp only
  rw [same]
  exact gives_orMalformed _

theorem gives_readScalar_double
    (value : Binary64)
    (finite : value.isFinite) :
    Gives readScalar (Json.double value finite).tokens (value.numberText.double?.map double) := by
  have same : value.numberText.value?.bind ofNumber? = value.numberText.double?.map double := by
    rw [value.value?_numberText]
    cases value.numberText.double? <;> rfl
  rw [readScalar, tokens, gives_take_bind]
  dsimp only
  rw [same]
  exact gives_orMalformed _

theorem gives_readScalar_string
    (text : String) :
    Gives readScalar (Json.string text).tokens (some (string text)) := by
  rw [readScalar, tokens, gives_take_bind]
  exact gives_orMalformed_bind (TextUnit.text?_ofText text) (gives_pure _)

/-- A double is printed as a number that may be read as another one, or as `null`. -/
theorem readsBack_double
    (value : Binary64) :
    (double value).ReadsBack := by
  by_cases finite : value.isFinite
  · have written : (double value).printed = .double value finite := by
      rw [printed, toJson, ofDouble, dif_pos finite]
      rfl
    by_cases same : value.numberText.double? = some value
    · refine readsBack_of_readsAs ⟨finite, same⟩ (written ▸ readsAs_of_scalar rfl ?_)
      have gives := gives_readScalar_double value finite
      rw [same] at gives
      exact gives
    · have illegible : ¬(double value).All Legible := fun legible => same legible.2
      refine readsBack_of_different illegible fun levels again given alike => ?_
      have gives := gives_read_of_scalar rfl (gives_readScalar_double value finite) levels
      rw [written, gives.onValue_eq] at given
      obtain ⟨other, read, rfl⟩ := Option.map_eq_some_iff.mp given
      have equal : other = value := double.inj alike
      exact same (equal ▸ read)
  · have written : (double value).printed = .null := by
      rw [printed, toJson, ofDouble, dif_neg finite]
      rfl
    have illegible : ¬(double value).All Legible := fun legible => finite legible.1
    refine readsBack_of_different illegible fun levels again given alike => ?_
    have nothing : Gives readScalar Json.null.tokens (some null) := fun _ => rfl
    rw [written, (gives_read_of_scalar rfl nothing levels).onValue_eq] at given
    rw [← Option.some.inj given] at alike
    contradiction

/-- Plain binary data is printed as a list. -/
theorem readsBack_binary
    (kind : UInt8)
    (bytes : List UInt8) :
    (binary kind bytes).ReadsBack := by
  by_cases plain : kind = 0
  · refine readsBack_of_different (fun legible => legible plain) fun levels again given alike => ?_
    rw [printed, toJson, binaryJson, if_pos plain, Json.sortKeys] at given
    cases levels with
    | zero => contradiction
    | succ levels =>
        rw [onValue_read_array] at given
        obtain ⟨items, -, rfl⟩ := Option.map_eq_some_iff.mp given
        rw [canonical, arranged_array] at alike
        exact Bson.noConfusion alike
  · exact readsBack_of_readsAs plain (readsAs_binary plain bytes)

theorem readsBack_leaf
    {value : Bson}
    (leaf : value.IsLeaf)
    (sound : value.IsSound) :
    value.ReadsBack := by
  cases value with
  | double value => exact readsBack_double value
  | binary kind bytes => exact readsBack_binary kind bytes
  | string text =>
      exact readsBack_of_readsAs trivial (readsAs_of_scalar rfl (gives_readScalar_string text))
  | boolean value => exact readsBack_of_readsAs trivial (readsAs_of_scalar rfl fun _ => rfl)
  | null => exact readsBack_of_readsAs trivial (readsAs_of_scalar rfl fun _ => rfl)
  | int32 value =>
      have low := value.le_toInt
      have high := value.toInt_lt
      exact readsBack_of_readsAs trivial <| readsAs_of_scalar rfl <|
        gives_readScalar_integer (by omega) (by omega)
  | int64 value =>
      exact readsBack_of_readsAs trivial <| readsAs_of_scalar rfl <|
        gives_readScalar_integer value.le_toInt value.toInt_lt
  | undefined => exact readsBack_of_readsAs trivial readsAs_undefined
  | objectId identifier => exact readsBack_of_readsAs trivial (readsAs_objectId identifier)
  | dateTime milliseconds => exact readsBack_of_readsAs trivial (readsAs_dateTime milliseconds)
  | regex pattern options => exact readsBack_of_readsAs trivial (readsAs_regex sound)
  | code text => exact readsBack_of_readsAs trivial (readsAs_code text)
  | symbol text => exact readsBack_of_readsAs trivial (readsAs_symbol text)
  | timestamp seconds increment =>
      exact readsBack_of_readsAs trivial (readsAs_timestamp seconds increment)
  | decimal128 value => exact readsBack_of_readsAs trivial (readsAs_decimal128 sound)
  | dbPointer collection identifier =>
      exact readsBack_of_readsAs trivial (readsAs_dbPointer collection identifier)
  | minKey => exact readsBack_of_readsAs trivial readsAs_minKey
  | maxKey => exact readsBack_of_readsAs trivial readsAs_maxKey
  | document _ | array _ | codeWithScope _ _ => contradiction

/-! ## Values within values -/

theorem mapM_eq_some_map
    {α β : Type}
    {make : α → Option β}
    {made : α → β}
    {items : List α}
    (all : ∀ item ∈ items, make item = some (made item)) :
    items.mapM make = some (items.map made) := by
  induction items with
  | nil => rfl
  | cons item items induction =>
      obtain ⟨here, others⟩ := List.forall_mem_cons.mp all
      rw [List.mapM_cons, here, induction others]
      rfl

/-- Lists that look alike do so item by item. -/
theorem exists_of_mapM_eq_some
    {α β γ : Type}
    {make : α → Option β}
    {items : List α}
    {results : List β}
    (all : items.mapM make = some results)
    {look : α → γ}
    {lookAgain : β → γ}
    (alike : results.map lookAgain = items.map look) :
    ∀ item ∈ items, ∃ result, make item = some result ∧ lookAgain result = look item := by
  induction items generalizing results with
  | nil => exact fun item member => nomatch member
  | cons item items induction =>
      rw [List.mapM_cons] at all
      obtain ⟨result, here, following⟩ := Option.bind_eq_some_iff.mp all
      obtain ⟨others, there, same⟩ := Option.bind_eq_some_iff.mp following
      rw [← Option.some.inj same, List.map_cons, List.map_cons] at alike
      obtain ⟨first, rest⟩ := List.cons.inj alike
      exact List.forall_mem_cons.mpr ⟨⟨result, here, first⟩, induction there rest⟩

theorem map_eq_of_mapM_eq_some
    {α β γ : Type}
    {make : α → Option β}
    {items : List α}
    {results : List β}
    (all : items.mapM make = some results)
    {look : α → γ}
    {lookAgain : β → γ}
    (alike : ∀ item result, make item = some result → lookAgain result = look item) :
    results.map lookAgain = items.map look := by
  induction items generalizing results with
  | nil =>
      cases all
      rfl
  | cons item items induction =>
      rw [List.mapM_cons] at all
      obtain ⟨result, here, following⟩ := Option.bind_eq_some_iff.mp all
      obtain ⟨others, there, same⟩ := Option.bind_eq_some_iff.mp following
      rw [← Option.some.inj same, List.map_cons, List.map_cons, alike item result here,
        induction there]

theorem readsBack_array
    {items : List Bson}
    (induction : ∀ item ∈ items, item.ReadsBack) :
    (array items).ReadsBack where
  reads levels deep legible := by
    rw [printed_array] at deep ⊢
    cases levels with
    | zero => exact absurd deep (not_depth_array_le_zero _)
    | succ levels =>
        rw [depth_array_le_succ_iff, List.forall_mem_map] at deep
        have values := ((all_array_iff items).mp legible).2
        rw [onValue_read_array, List.mapM_map, reread, arranged_array]
        refine congrArg (Option.map array) (mapM_eq_some_map fun item member => ?_)
        exact (induction item member).reads levels (deep item member) (values item member)
  only levels again given alike := by
    rw [printed_array] at given ⊢
    cases levels with
    | zero => contradiction
    | succ levels =>
        rw [onValue_read_array, List.mapM_map] at given
        obtain ⟨results, all, rfl⟩ := Option.map_eq_some_iff.mp given
        rw [canonical, arranged_array, arranged_array] at alike
        have each := exists_of_mapM_eq_some all (array.inj alike)
        rw [depth_array_le_succ_iff, List.forall_mem_map, all_array_iff]
        have both (item : Bson) (member : item ∈ items) :
            item.printed.depth ≤ levels ∧ item.All Legible := by
          obtain ⟨result, read, same⟩ := each item member
          exact (induction item member).only levels result read same
        exact ⟨fun item member => (both item member).1, trivial,
          fun item member => (both item member).2⟩

/-- Only documents look like documents. -/
theorem exists_of_canonical_eq_document
    {value : Bson}
    {entries : Document}
    (alike : value.canonical = document entries) :
    ∃ entries, value = document entries := by
  cases value with
  | document entries => exact ⟨entries, rfl⟩
  | _ => exact nomatch alike

theorem onValue_read_printedEntries
    {entries : Document}
    (distinct : (Document.keys entries).Nodup)
    (plain : ∀ entry ∈ entries, entry.1 ∉ kindKeys)
    (levels : Nat) :
    onValue (read (levels + 1)) (.object (printedEntries entries)) =
      ((sortByKey entries).mapM fun entry =>
        (onValue (read levels) entry.2.printed).map (Prod.mk entry.1)).map document := by
  have keys : ((printedEntries entries).map (·.1)).Nodup := by
    rw [(printed_keys entries).1]
    exact (List.mergeSort_perm _ _).nodup_iff.mpr distinct
  have plain : ∀ entry ∈ printedEntries entries, entry.1 ∉ kindKeys := by
    rw [printedEntries, List.forall_mem_map]
    exact fun entry member => plain entry (mem_sortByKey.mp member)
  rw [onValue_read_object, objectOf_of_plain plain (by simpa [Document.keys] using keys),
    printedEntries, List.mapM_map]
  rfl

/-- Where a document is read, no key names a kind. -/
theorem plain_of_onValue_read
    {levels : Nat}
    {entries results : Document}
    (given : onValue (read (levels + 1)) (.object (printedEntries entries)) =
      some (document results)) :
    ∀ entry ∈ entries, entry.1 ∉ kindKeys := by
  intro entry member kind
  have listed : (entry.1, entry.2.printed) ∈ printedEntries entries :=
    List.mem_map.mpr ⟨entry, mem_sortByKey.mpr member, rfl⟩
  rw [onValue_read_object] at given
  exact objectOf_ne_document (ensures_read levels) listed kind [] results given

/-- What is made of sorted entries under the same keys is sorted. -/
theorem sortByKey_of_mapM_eq_some
    {entries results : Document}
    {make : String × Bson → Option Bson}
    (all : ((sortByKey entries).mapM fun entry => (make entry).map (Prod.mk entry.1)) =
      some results) :
    sortByKey results = results := by
  have keys : results.map (·.1) = (sortByKey entries).map (·.1) := by
    refine map_eq_of_mapM_eq_some all fun entry result read => ?_
    obtain ⟨value, -, rfl⟩ := Option.map_eq_some_iff.mp read
    rfl
  refine sortByKey_of_pairwise (List.pairwise_map.mp ?_)
  rw [keys, List.pairwise_map]
  exact sortByKey_pairwise entries

theorem readsBack_document
    {entries : Document}
    (distinct : (Document.keys entries).Nodup)
    (induction : ∀ entry ∈ entries, entry.2.ReadsBack) :
    (document entries).ReadsBack where
  reads levels deep legible := by
    rw [printed_document] at deep ⊢
    obtain ⟨plain, values⟩ := (all_document_iff entries).mp legible
    cases levels with
    | zero => exact absurd deep (not_depth_object_le_zero _)
    | succ levels =>
        rw [depth_object_le_succ_iff, printedEntries, List.forall_mem_map] at deep
        rw [onValue_read_printedEntries distinct plain, reread, arranged_document, arrangedEntries]
        refine congrArg (Option.map document) (mapM_eq_some_map fun entry member => ?_)
        have listed := mem_sortByKey.mp member
        rw [(induction entry listed).reads levels (deep entry member) (values entry listed)]
        rfl
  only levels again given alike := by
    rw [printed_document] at given ⊢
    cases levels with
    | zero => contradiction
    | succ levels =>
        have canonical_eq : (document entries).canonical = .document _ :=
          arranged_document _ entries
        obtain ⟨results, rfl⟩ := exists_of_canonical_eq_document (alike.trans canonical_eq)
        have plain := plain_of_onValue_read given
        rw [onValue_read_printedEntries distinct plain] at given
        obtain ⟨_, all, same⟩ := Option.map_eq_some_iff.mp given
        cases same
        rw [canonical, arranged_document, arranged_document] at alike
        have listed := document.inj alike
        rw [arrangedEntries, arrangedEntries, sortByKey_of_mapM_eq_some all] at listed
        have each := exists_of_mapM_eq_some all listed
        have both (entry : String × Bson) (member : entry ∈ sortByKey entries) :
            entry.2.printed.depth ≤ levels ∧ entry.2.All Legible := by
          obtain ⟨result, read, same⟩ := each entry member
          obtain ⟨value, readValue, rfl⟩ := Option.map_eq_some_iff.mp read
          exact (induction entry (mem_sortByKey.mp member)).only levels value readValue
            (Prod.mk.inj same).2
        rw [depth_object_le_succ_iff, printedEntries, List.forall_mem_map, all_document_iff]
        exact ⟨fun entry member => (both entry member).1, plain, fun entry member =>
          (both entry (mem_sortByKey.mpr member)).2⟩

/-- The scope of code is read as the document that it is. -/
theorem onValue_read_codeWithScope
    (levels : Nat)
    (text : String)
    (scope : Json) :
    onValue (read (levels + 1)) (.object [("$code", .string text), ("$scope", scope)]) =
      (onValue (documentOf (read levels)) scope).map (codeWithScope text) := by
  rw [onValue_read_code, codeBefore, if_pos ⟨rfl, rfl⟩]

theorem readsBack_codeWithScope
    (text : String)
    {scope : Document}
    (induction : (document scope).ReadsBack) :
    (codeWithScope text scope).ReadsBack where
  reads levels deep legible := by
    rw [printed_codeWithScope] at deep ⊢
    obtain ⟨-, within⟩ := (all_codeWithScope_iff text scope).mp legible
    cases levels with
    | zero => exact absurd deep (not_depth_object_le_zero _)
    | succ levels =>
        rw [depth_object_le_succ_iff] at deep
        have shallow := deep ("$scope", (document scope).printed) (by simp)
        have read := induction.reads levels shallow within
        rw [reread, arranged_document, ← onValue_documentOf_eq_some_iff (aligned_read levels)]
          at read
        rw [onValue_read_codeWithScope, read, reread, arranged_codeWithScope, Option.map_some]
  only levels again given alike := by
    rw [printed_codeWithScope] at given ⊢
    cases levels with
    | zero => contradiction
    | succ levels =>
        rw [onValue_read_codeWithScope] at given
        obtain ⟨entries, read, rfl⟩ := Option.map_eq_some_iff.mp given
        rw [canonical, arranged_codeWithScope, arranged_codeWithScope] at alike
        have same : (document entries).canonical = (document scope).canonical := by
          rw [canonical, arranged_document, arranged_document, (codeWithScope.inj alike).2]
        obtain ⟨deep, within⟩ := induction.only levels (document entries)
          ((onValue_documentOf_eq_some_iff (aligned_read levels) _ _).mp read) same
        rw [depth_object_le_succ_iff, all_codeWithScope_iff]
        refine ⟨?_, trivial, within⟩
        simpa [depth] using deep

/-- What is printed for a sound value is read back as that value exactly if it is legible. -/
theorem readsBack_of_sound
    {value : Bson}
    (sound : value.All IsSound) :
    value.ReadsBack := by
  induction value using induct with
  | ofLeaf value leaf =>
      refine readsBack_leaf leaf ?_
      cases value with
      | array _ | document _ | codeWithScope _ _ => contradiction
      | _ => exact sound
  | ofItems items induction =>
      obtain ⟨-, values⟩ := (all_array_iff items).mp sound
      exact readsBack_array fun item member => induction item member (values item member)
  | ofEntries entries induction =>
      obtain ⟨distinct, values⟩ := (all_document_iff entries).mp sound
      exact readsBack_document distinct fun entry member =>
        induction entry member (values entry member)
  | ofScope text scope induction =>
      exact readsBack_codeWithScope text (induction ((all_codeWithScope_iff text scope).mp sound).2)

end Bson

end SearchPipeline
