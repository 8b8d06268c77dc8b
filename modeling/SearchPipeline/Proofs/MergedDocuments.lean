import SearchPipeline.Bson.Merge
import SearchPipeline.Proofs.KeyOrder

/-!
# Merged documents

A merged document has the keys of the left one in their places, and then those that only the
right one has.  Under a key of both stands the right value, merged with the left one if the two
are documents or lists.  No document names a key twice, so a document is given by its keys in
order and by the value under each.
-/

namespace SearchPipeline

namespace Document

theorem get?_eq_some_iff
    {document : Document}
    (distinct : (keys document).Nodup)
    (key : String)
    (value : Bson) :
    get? document key = some value ↔ (key, value) ∈ document := by
  rw [get?_eq_lookup]
  exact lookup_eq_some_iff distinct key value

theorem get?_eq_none_iff
    (document : Document)
    (key : String) :
    get? document key = none ↔ key ∉ keys document := by
  induction document with
  | nil => simp [get?, keys]
  | cons entry rest induction =>
      rcases entry with ⟨other, value⟩
      by_cases same : other = key
      · simp [get?, keys, same]
      · simp [get?, same, induction, keys, Ne.symm same]

/-- Documents with the same keys in the same order and the same values are the same. -/
theorem ext_of_get?
    {left right : Document}
    (distinct : (keys left).Nodup)
    (sameKeys : keys left = keys right)
    (sameValues : ∀ key, get? left key = get? right key) :
    left = right := by
  induction left generalizing right with
  | nil => exact (List.map_eq_nil_iff.mp sameKeys.symm).symm
  | cons entry left induction =>
      rcases entry with ⟨key, value⟩
      cases right with
      | nil => simp [keys] at sameKeys
      | cons other right =>
          rcases other with ⟨otherKey, otherValue⟩
          simp only [keys, List.map_cons, List.cons.injEq, List.nodup_cons] at sameKeys distinct
          obtain ⟨rfl, following⟩ := sameKeys
          have same : value = otherValue := by simpa [get?] using sameValues key
          subst same
          refine congrArg ((key, value) :: ·) (induction distinct.2 following fun wanted => ?_)
          by_cases found : key = wanted
          · subst found
            rw [(get?_eq_none_iff left key).mpr distinct.1,
              (get?_eq_none_iff right key).mpr (by rw [keys, ← following]; exact distinct.1)]
          · simpa [get?, found] using sameValues wanted

/-! ## Keys and values of a merged document -/

/-- What stands under a key that two documents may have. -/
def mergeValues : Option Bson → Option Bson → Option Bson
  | left, none => left
  | left, some right => some (Bson.mergeInto left right)

theorem get?_merge
    (left : Document)
    {right : Document}
    (distinct : (keys right).Nodup)
    (key : String) :
    get? (merge left right) key = mergeValues (get? left key) (get? right key) := by
  induction right generalizing left with
  | nil => rfl
  | cons entry rest induction =>
      rcases entry with ⟨other, value⟩
      rw [keys, List.map_cons, List.nodup_cons] at distinct
      rw [merge, induction _ distinct.2, get?_insert]
      by_cases same : other = key
      · subst same
        rw [if_pos rfl, (get?_eq_none_iff rest other).mpr distinct.1]
        simp [mergeValues, get?]
      · simp [get?, same]

/-- The keys of the left document keep their places; the other keys of the right one follow. -/
theorem keys_merge
    (left : Document)
    {right : Document}
    (distinct : (keys right).Nodup) :
    keys (merge left right) = keys left ++ (keys right).filter (· ∉ keys left) := by
  induction right generalizing left with
  | nil => simp [merge, keys]
  | cons entry rest induction =>
      rcases entry with ⟨key, value⟩
      rw [keys, List.map_cons, List.nodup_cons] at distinct
      have others : (keys rest).filter (· ∉ keys left ++ [key]) =
          (keys rest).filter (· ∉ keys left) := by
        refine List.filter_congr fun other member => ?_
        have different : other ≠ key := by
          rintro rfl
          exact distinct.1 member
        simp [different]
      have listed : keys ((key, value) :: rest) = key :: keys rest :=
        rfl
      rw [merge, induction _ distinct.2, keys_insert, listed]
      by_cases member : key ∈ keys left
      · simp [member]
      · rw [if_neg member, others, List.filter_cons_of_pos (by simpa using member)]
        simp

/-- No document in a document names a key twice, nor does the document itself. -/
def HasDistinctKeys (document : Document) : Prop :=
  (Bson.document document).HasDistinctKeys

theorem hasDistinctKeys_iff (document : Document) :
    HasDistinctKeys document ↔
      (keys document).Nodup ∧
        ∀ key value, get? document key = some value → value.HasDistinctKeys := by
  rw [HasDistinctKeys, Bson.HasDistinctKeys, Bson.all_document_iff]
  refine and_congr_right fun distinct => ?_
  simp only [get?_eq_some_iff distinct, Prod.forall]

theorem merge_nil (document : Document) : merge document [] = document :=
  rfl

theorem nil_merge
    {document : Document}
    (distinct : (keys document).Nodup) :
    merge [] document = document := by
  refine (ext_of_get? distinct ?_ fun key => ?_).symm
  · rw [keys_merge [] distinct]
    simp [keys]
  · rw [get?_merge [] distinct]
    cases get? document key with
    | none => rfl
    | some value => simp [mergeValues, get?, Bson.mergeInto]

theorem nodup_keys_merge
    {left right : Document}
    (leftDistinct : (keys left).Nodup)
    (rightDistinct : (keys right).Nodup) :
    (keys (merge left right)).Nodup := by
  rw [keys_merge left rightDistinct, List.nodup_append]
  refine ⟨leftDistinct, rightDistinct.filter _, ?_⟩
  rintro key leftMember _ rightMember rfl
  exact (of_decide_eq_true (List.mem_filter.mp rightMember).2) leftMember

end Document

/-! ## Merged values -/

namespace Bson

@[simp]
theorem mergeInto_none (right : Bson) : mergeInto none right = right := by
  cases right <;> rfl

/-- Two documents merge, two lists are put end to end, and else the right value stands. -/
theorem mergeInto_cases (left : Option Bson) (right : Bson) :
    (∃ inner outer,
        left = some (.document inner) ∧ right = .document outer ∧
          mergeInto left right = .document (Document.merge inner outer)) ∨
      (∃ items others,
        left = some (.array items) ∧ right = .array others ∧
          mergeInto left right = .array (items ++ others)) ∨
      mergeInto left right = right := by
  unfold mergeInto
  split
  · exact .inl ⟨_, _, rfl, rfl, rfl⟩
  · exact .inr (.inl ⟨_, _, rfl, rfl, rfl⟩)
  · exact .inr (.inr rfl)

theorem mergeInto_document_of_ne
    {left : Option Bson}
    (other : ∀ inner, left ≠ some (.document inner))
    (entries : Document) :
    mergeInto left (.document entries) = .document entries := by
  rcases mergeInto_cases left (.document entries) with
    ⟨inner, _, same, -⟩ | ⟨_, _, -, ⟨⟩, -⟩ | whole
  · exact (other inner same).elim
  · exact whole

theorem mergeInto_array_of_ne
    {left : Option Bson}
    (other : ∀ items, left ≠ some (.array items))
    (items : List Bson) :
    mergeInto left (.array items) = .array items := by
  rcases mergeInto_cases left (.array items) with
    ⟨_, _, -, ⟨⟩, -⟩ | ⟨items, _, same, -⟩ | whole
  · exact (other items same).elim
  · exact whole

theorem mergeInto_of_isLeaf
    (left : Option Bson)
    {right : Bson}
    (leaf : right.IsLeaf) :
    mergeInto left right = right := by
  rcases mergeInto_cases left right with ⟨_, _, -, rfl, -⟩ | ⟨_, _, -, rfl, -⟩ | whole
  · exact leaf.elim
  · exact leaf.elim
  · exact whole

theorem mergeInto_codeWithScope
    (left : Option Bson)
    (text : String)
    (scope : Document) :
    mergeInto left (.codeWithScope text scope) = .codeWithScope text scope := by
  rcases mergeInto_cases left (.codeWithScope text scope) with
    ⟨_, _, -, ⟨⟩, -⟩ | ⟨_, _, -, ⟨⟩, -⟩ | whole
  exact whole

/--
What stands under a key of a merged document is what the left one has there, or what the right
one has there, merged with what the left one has if there is any.
-/
theorem of_get?_mergeInto
    {left : Option Bson}
    {right : Bson}
    (distinct : right.HasDistinctKeys)
    {merged : Document}
    (same : mergeInto left right = .document merged)
    {key : String}
    {value : Bson}
    (found : Document.get? merged key = some value) :
    (∃ inner, left = some (.document inner) ∧ Document.get? inner key = some value) ∨
      ∃ (outer : Document) (old : Option Bson) (new : Bson),
        right = .document outer ∧ Document.get? outer key = some new ∧ new.HasDistinctKeys ∧
          value = mergeInto old new ∧
          ∀ other, old = some other →
            ∃ inner, left = some (.document inner) ∧ Document.get? inner key = some other := by
  rcases mergeInto_cases left right with
    ⟨inner, outer, rfl, rfl, document⟩ | ⟨_, _, -, -, array⟩ | whole
  · have outerDistinct := (Document.hasDistinctKeys_iff outer).mp distinct
    rw [document, Bson.document.injEq] at same
    rw [← same, Document.get?_merge inner outerDistinct.1] at found
    cases there : Document.get? outer key with
    | none =>
        rw [there] at found
        exact .inl ⟨inner, rfl, found⟩
    | some new =>
        rw [there, Document.mergeValues, Option.some.injEq] at found
        exact .inr ⟨outer, Document.get? inner key, new, rfl, there,
          outerDistinct.2 key new there, found.symm, fun _ inInner => ⟨inner, rfl, inInner⟩⟩
  · rw [array] at same
    contradiction
  · rw [whole] at same
    subst same
    exact .inr ⟨merged, none, value, rfl, found,
      ((Document.hasDistinctKeys_iff merged).mp distinct).2 key value found,
      (mergeInto_none value).symm, by simp⟩

/-- Values that name no key twice do not do so when they are merged. -/
theorem HasDistinctKeys.mergeInto
    {left : Option Bson}
    {right : Bson}
    (leftDistinct : ∀ value, left = some value → value.HasDistinctKeys)
    (rightDistinct : right.HasDistinctKeys) :
    (mergeInto left right).HasDistinctKeys := by
  induction right using Bson.induct generalizing left with
  | ofEntries outer induction =>
      rcases mergeInto_cases left (.document outer) with
        ⟨inner, _, rfl, ⟨⟩, merged⟩ | ⟨_, _, -, ⟨⟩, -⟩ | whole
      · have innerDistinct := (Document.hasDistinctKeys_iff inner).mp (leftDistinct _ rfl)
        have outerDistinct := (Document.hasDistinctKeys_iff outer).mp rightDistinct
        rw [merged]
        refine (Document.hasDistinctKeys_iff _).mpr
          ⟨Document.nodup_keys_merge innerDistinct.1 outerDistinct.1, fun key value found => ?_⟩
        rcases of_get?_mergeInto rightDistinct merged found with
          ⟨_, ⟨⟩, there⟩ | ⟨_, old, new, ⟨⟩, there, newDistinct, rfl, inLeft⟩
        · exact innerDistinct.2 key value there
        · have member := (Document.get?_eq_some_iff outerDistinct.1 key new).mp there
          refine induction (key, new) member (fun other same => ?_) newDistinct
          obtain ⟨_, ⟨⟩, inInner⟩ := inLeft other same
          exact innerDistinct.2 key other inInner
      · rw [whole]
        exact rightDistinct
  | ofItems others =>
      rcases mergeInto_cases left (.array others) with
        ⟨_, _, -, ⟨⟩, -⟩ | ⟨items, _, rfl, ⟨⟩, merged⟩ | whole
      · have itemsDistinct := (all_array_iff items).mp (leftDistinct _ rfl)
        have othersDistinct := (all_array_iff others).mp rightDistinct
        rw [merged]
        exact (all_array_iff _).mpr
          ⟨trivial, List.forall_mem_append.mpr ⟨itemsDistinct.2, othersDistinct.2⟩⟩
      · rw [whole]
        exact rightDistinct
  | ofLeaf right leaf =>
      rw [mergeInto_of_isLeaf left leaf]
      exact rightDistinct
  | ofScope text scope =>
      rw [mergeInto_codeWithScope]
      exact rightDistinct

end Bson

theorem Document.HasDistinctKeys.merge
    {left right : Document}
    (leftDistinct : HasDistinctKeys left)
    (rightDistinct : HasDistinctKeys right) :
    HasDistinctKeys (merge left right) := by
  have merged : (Bson.mergeInto (some (.document left)) (.document right)).HasDistinctKeys :=
    Bson.HasDistinctKeys.mergeInto (by rintro _ ⟨⟩; exact leftDistinct) rightDistinct
  exact merged

/-! ## Places within documents -/

namespace Document

/-- The document that the keys of a path lead to, through documents only. -/
def nested? (document : Document) : List String → Option Document
  | [] => some document
  | key :: path =>
    match get? document key with
    | some (.document inner) => nested? inner path
    | _ => none

/-- Documents at the same place in two documents are merged at this place. -/
theorem nested?_merge
    {left right : Document}
    (leftDistinct : HasDistinctKeys left)
    (rightDistinct : HasDistinctKeys right)
    {path : List String}
    {inner outer : Document}
    (inLeft : nested? left path = some inner)
    (inRight : nested? right path = some outer) :
    nested? (merge left right) path = some (merge inner outer) ∧ (keys outer).Nodup := by
  rw [hasDistinctKeys_iff] at leftDistinct rightDistinct
  induction path generalizing left right with
  | nil =>
      cases inLeft
      cases inRight
      exact ⟨rfl, rightDistinct.1⟩
  | cons key path induction =>
      unfold nested? at inLeft inRight
      split at inLeft
      · rename_i _ leftInner leftFound
        split at inRight
        · rename_i _ rightInner rightFound
          rw [nested?, get?_merge left rightDistinct.1, leftFound, rightFound]
          exact induction ((hasDistinctKeys_iff _).mp (leftDistinct.2 _ _ leftFound))
            ((hasDistinctKeys_iff _).mp (rightDistinct.2 _ _ rightFound)) inLeft inRight
        · contradiction
      · contradiction

end Document

end SearchPipeline
