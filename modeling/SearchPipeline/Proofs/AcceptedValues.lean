import SearchPipeline.Bson.Reader
import SearchPipeline.Proofs.Decimal128
import SearchPipeline.Proofs.Ensures

/-!
# Values that can be read

Whatever text is read, no document in the value names a key twice, the options of a
regular expression are in order, and decimals are in range.
-/

namespace SearchPipeline

open Json Json.Reader

theorem Document.of_mem_insert
    {document : Document}
    {key : String}
    {value : Bson}
    {entry : String × Bson}
    (member : entry ∈ insert document key value) :
    entry = (key, value) ∨ entry ∈ document := by
  induction document with
  | nil => exact Or.inl (List.mem_singleton.mp member)
  | cons head rest induction =>
      rcases head with ⟨other, old⟩
      rw [insert] at member
      split at member
      · rename_i same
        subst same
        rcases List.mem_cons.mp member with here | there
        · exact Or.inl here
        · exact Or.inr (List.mem_cons_of_mem _ there)
      · rcases List.mem_cons.mp member with here | there
        · exact Or.inr (here ▸ List.mem_cons_self)
        · exact (induction there).imp_right (List.mem_cons_of_mem _)

namespace Bson

/-- What holds of every value that is read, apart from the values within it. -/
def IsSound : Bson → Prop
  | .document entries => (Document.keys entries).Nodup
  | .regex pattern options =>
    isPatternText pattern = true ∧ isPatternText options = true ∧ sortOptions options = options
  | .decimal128 value => value.InRange
  | _ => True

/-- Putting a sound value into a document keeps it sound. -/
theorem all_isSound_insert
    {entries : Document}
    (sound : (document entries).All IsSound)
    (key : String)
    {value : Bson}
    (added : value.All IsSound) :
    (document (Document.insert entries key value)).All IsSound := by
  obtain ⟨distinct, values⟩ := (all_document_iff entries).mp sound
  refine (all_document_iff _).mpr ⟨Document.keys_insert_nodup entries key value distinct, ?_⟩
  intro entry member
  rcases Document.of_mem_insert member with rfl | old
  · exact added
  · exact values entry old

/-- The keys that name the kind of a typed value. -/
def kindKeys : List String :=
  ["$oid", "$symbol", "$numberInt", "$numberLong", "$numberDouble", "$numberDecimal",
    "$numberDecimalBytes", "$binary", "$uuid", "$code", "$scope", "$timestamp",
    "$regularExpression", "$dbPointer", "$date", "$minKey", "$maxKey", "$undefined"]

theorem typed?_eq_none_iff
    {levels : Nat}
    {value : Reader Bson}
    {key : String} :
    typed? levels value key = none ↔ key ∉ kindKeys := by
  unfold typed?
  split <;> simp_all [kindKeys]

/-- A sound value that is no document. -/
def IsTyped (value : Bson) : Prop :=
  value.All IsSound ∧ ∀ entries, value ≠ .document entries

theorem sortOptions_sortOptions
    (options : String) :
    sortOptions (sortOptions options) = sortOptions options := by
  have sorted : (options.toList.mergeSort (· ≤ ·)).Pairwise fun left right =>
      decide (left ≤ right) = true := by
    apply List.pairwise_mergeSort
    · intro left middle right first second
      simp only [decide_eq_true_eq] at first second ⊢
      exact Char.le_trans first second
    · intro left right
      simp only [Bool.or_eq_true, decide_eq_true_eq]
      exact Char.le_total left right
  rw [sortOptions, sortOptions, String.toList_ofList, List.mergeSort_of_pairwise sorted]

theorem isPatternText_sortOptions
    (options : String) :
    isPatternText (sortOptions options) = isPatternText options := by
  simp [isPatternText, sortOptions]

theorem isTyped_codeWithScope
    (text : String)
    {scope : Document}
    (sound : (document scope).All IsSound) :
    IsTyped (codeWithScope text scope) :=
  ⟨(all_codeWithScope_iff text scope).mpr ⟨trivial, sound⟩, by simp⟩

theorem all_isSound_of_ofNumber?
    {number : Number}
    {value : Bson}
    (same : ofNumber? number = some value) :
    value.All IsSound := by
  unfold ofNumber? at same
  split at same
  · split at same
    · rw [← Option.some.inj same]
      trivial
    · split at same
      · rw [← Option.some.inj same]
        trivial
      · contradiction
  · rw [← Option.some.inj same]
    trivial
  · rw [← Option.some.inj same]
    trivial

section Readers

theorem ensures_readRegex
    (levels : Nat) :
    Ensures IsTyped (readRegex levels) := by
  refine ensures_bind fun parts => ?_
  rcases parts with ⟨pattern, options⟩
  dsimp only
  split
  · rename_i plain
    refine ensures_pure ⟨⟨plain.1, ?_, sortOptions_sortOptions options⟩, by simp⟩
    rw [isPatternText_sortOptions]
    exact plain.2
  · exact ensures_malformed

theorem ensures_readBinary
    (levels : Nat) :
    Ensures IsTyped (readBinary levels) := by
  refine ensures_bind fun parts => ensures_bind fun bytes => ?_
  split
  · exact ensures_pure ⟨trivial, by simp⟩
  · exact ensures_malformed

theorem ensures_readTimestamp
    (levels : Nat) :
    Ensures IsTyped (readTimestamp levels) :=
  ensures_bind fun _ => ensures_pure ⟨trivial, by simp⟩

theorem ensures_readDbPointer
    (levels : Nat) :
    Ensures IsTyped (readDbPointer levels) :=
  ensures_bind fun _ => ensures_bind fun _ => ensures_pure ⟨trivial, by simp⟩

theorem ensures_readDate
    (levels : Nat) :
    Ensures IsTyped (readDate levels) := by
  have date (milliseconds : Int64) : IsTyped (dateTime milliseconds) := ⟨trivial, by simp⟩
  refine ensures_bind fun token => ?_
  split
  · exact ensures_bind fun _ => ensures_bind fun _ => ensures_pure (date _)
  · refine ensures_bind fun number => ?_
    cases number with
    | natural value =>
        dsimp only
        split
        · exact ensures_pure (date _)
        · exact ensures_malformed
    | negative value => exact ensures_pure (date _)
    | double value => exact ensures_malformed
  · exact ensures_bind fun _ => ensures_pure (date _)

variable {value : Reader Bson} (ensured : Ensures (All IsSound) value)

include ensured

theorem ensures_documentOf :
    Ensures (fun entries => (document entries).All IsSound) (documentOf value) := by
  refine ensured.bind fun result sound => ?_
  cases result with
  | document entries => exact ensures_pure sound
  | _ => exact ensures_malformed

theorem ensures_readScopeAfter
    (text : String) :
    Ensures IsTyped (readScopeAfter value text) := by
  refine ensures_bind fun token => ?_
  split
  · refine ensures_bind fun _ => ensures_bind fun key => ?_
    split
    · exact ensures_bind fun _ => (ensures_documentOf ensured).bind fun scope sound =>
        ensures_pure (isTyped_codeWithScope text sound)
    · exact ensures_malformed
  · exact ensures_pure ⟨trivial, by simp⟩

theorem ensures_readCodeAfter :
    Ensures IsTyped (documentOf value >>= readCodeAfter) := by
  refine (ensures_documentOf ensured).bind fun scope sound => ?_
  refine ensures_bind fun _ => ensures_bind fun key => ?_
  split
  · exact ensures_bind fun _ => ensures_bind fun text =>
      ensures_pure (isTyped_codeWithScope text sound)
  · exact ensures_malformed

/-- A typed value is sound and no document. -/
theorem ensures_typed
    {levels : Nat}
    {key : String}
    {reader : Reader Bson}
    (typed : typed? levels value key = some reader) :
    Ensures IsTyped reader := by
  unfold typed? at typed
  split at typed
  all_goals first | (rw [← Option.some.inj typed]) | contradiction
  case h_6 =>
    refine ensures_bind fun text => ?_
    refine (ensures_orMalformed fun _ read => Decimal128.inRange_of_ofText? read).bind ?_
    exact fun _ inRange => ensures_pure ⟨inRange, by simp⟩
  case h_7 =>
    refine ensures_bind fun bytes => ?_
    refine (ensures_orMalformed fun _ read => Decimal128.inRange_of_ofBytes? read).bind ?_
    exact fun _ inRange => ensures_pure ⟨inRange, by simp⟩
  case h_8 => exact ensures_readBinary levels
  case h_10 => exact ensures_bind fun text => ensures_readScopeAfter ensured text
  case h_11 => exact ensures_readCodeAfter ensured
  case h_12 => exact ensures_readTimestamp levels
  case h_13 => exact ensures_readRegex levels
  case h_14 => exact ensures_readDbPointer levels
  case h_15 => exact ensures_readDate levels
  case h_18 =>
    refine ensures_bind fun present => ?_
    split
    · exact ensures_pure ⟨trivial, by simp⟩
    · exact ensures_malformed
  all_goals
    refine ensures_bind fun _ => ?_
    first
      | exact ensures_pure ⟨trivial, by simp⟩
      | exact ensures_bind fun _ => ensures_pure ⟨trivial, by simp⟩

theorem ensures_readObject
    (levels : Nat) :
    Ensures (All IsSound) (readObject levels value) := by
  refine ensures_entries (fun entries => (document entries).All IsSound) ?_ ?_ ?_
  · intro entries key sound
    split
    · rename_i reader typed
      exact (ensures_typed ensured typed).bind fun result typed => ensures_pure typed.1
    · exact ensured.bind fun result added => ensures_pure (all_isSound_insert sound key added)
  · intro entries sound
    exact ensures_pure sound
  · simp [all_document_iff, IsSound, Document.keys]

end Readers

/-- Every value that is read is sound, and so are the values in it. -/
theorem ensures_read
    (levels : Nat) :
    Ensures (All IsSound) (read levels) := by
  have scalar : Ensures (All IsSound) readScalar := by
    refine ensures_bind fun token => ?_
    cases token with
    | null => exact ensures_pure trivial
    | boolean value => exact ensures_pure trivial
    | string units => exact ensures_bind fun text => ensures_pure trivial
    | number text =>
        refine ensures_orMalformed fun value read => ?_
        obtain ⟨number, -, same⟩ := Option.bind_eq_some_iff.mp read
        exact all_isSound_of_ofNumber? same
    | _ => exact ensures_malformed
  induction levels with
  | zero => exact scalar
  | succ levels induction =>
      refine ensures_bind fun token => ?_
      split
      · refine (ensures_list induction).bind fun items sound => ensures_pure ?_
        exact (all_array_iff items).mpr ⟨trivial, sound⟩
      · exact ensures_readObject induction levels
      · exact scalar

end Bson

theorem Document.ensures_read
    (levels : Nat) :
    Ensures (fun entries => (Bson.document entries).All Bson.IsSound) (Document.read levels) :=
  Bson.ensures_documentOf (Bson.ensures_read levels)

end SearchPipeline
