import SearchPipeline.Proofs.Grouping
import SearchPipeline.Proofs.MergedDocuments

/-!
# Merges in any grouping

Two documents merge key by key and two lists are put end to end, but a value of another kind
replaces what stands to its left.  So it matters which of two merges comes first only where
such a value stands between two documents or two lists: there the first of the two is lost if
it is merged with that value at once, and kept if the other two come first.  Three documents
without such a place merge in either order of steps, and a list of documents of which no three
have one merges in any grouping.
-/

namespace SearchPipeline

/-! ## Three values that clash -/

/--
Two documents, or two lists, with a value of another kind between them; or such values under
one key of three documents.
-/
inductive Bson.Clash : Bson → Bson → Bson → Prop where
  | documents
      {first third : Document}
      {second : Bson}
      (other : ∀ entries, second ≠ .document entries) :
      Clash (.document first) second (.document third)
  | arrays
      {first third : List Bson}
      {second : Bson}
      (other : ∀ items, second ≠ .array items) :
      Clash (.array first) second (.array third)
  | under
      {first second third : Document}
      {key : String}
      {left middle right : Bson}
      (inFirst : Document.get? first key = some left)
      (inSecond : Document.get? second key = some middle)
      (inThird : Document.get? third key = some right)
      (clash : Clash left middle right) :
      Clash (.document first) (.document second) (.document third)

namespace Bson

theorem exists_mergeInto_eq_document_iff
    (left : Option Bson)
    (right : Bson) :
    (∃ merged, mergeInto left right = .document merged) ↔ ∃ entries, right = .document entries := by
  unfold mergeInto
  split <;> simp

theorem exists_mergeInto_eq_array_iff
    (left : Option Bson)
    (right : Bson) :
    (∃ merged, mergeInto left right = .array merged) ↔ ∃ items, right = .array items := by
  unfold mergeInto
  split <;> simp

/-- A clash of what is merged in the first place is one of the two values it is merged of. -/
theorem Clash.of_mergeInto_first
    {left : Option Bson}
    {right second third : Bson}
    (distinct : right.HasDistinctKeys)
    (clash : Clash (mergeInto left right) second third) :
    (∃ value, left = some value ∧ Clash value second third) ∨ Clash right second third := by
  generalize merged : mergeInto left right = first at clash
  induction clash generalizing left right with
  | documents other =>
      obtain ⟨_, rfl⟩ := (exists_mergeInto_eq_document_iff left right).mp ⟨_, merged⟩
      exact .inr (.documents other)
  | arrays other =>
      obtain ⟨_, rfl⟩ := (exists_mergeInto_eq_array_iff left right).mp ⟨_, merged⟩
      exact .inr (.arrays other)
  | under inFirst inSecond inThird clash induction =>
      rcases of_get?_mergeInto distinct merged inFirst with
        ⟨inner, rfl, there⟩ | ⟨outer, old, value, rfl, there, valueDistinct, rfl, inLeft⟩
      · exact .inl ⟨_, rfl, .under there inSecond inThird clash⟩
      · rcases induction valueDistinct rfl with ⟨other, rfl, inside⟩ | inside
        · obtain ⟨inner, rfl, inInner⟩ := inLeft other rfl
          exact .inl ⟨_, rfl, .under inInner inSecond inThird inside⟩
        · exact .inr (.under there inSecond inThird inside)

/-- A clash of what is merged in the second place is one of the two values it is merged of. -/
theorem Clash.of_mergeInto_second
    {left : Option Bson}
    {first right third : Bson}
    (distinct : right.HasDistinctKeys)
    (clash : Clash first (mergeInto left right) third) :
    (∃ value, left = some value ∧ Clash first value third) ∨ Clash first right third := by
  generalize merged : mergeInto left right = second at clash
  induction clash generalizing left right with
  | documents other =>
      refine .inr (.documents fun entries same => ?_)
      obtain ⟨_, document⟩ := (exists_mergeInto_eq_document_iff left right).mpr ⟨entries, same⟩
      exact other _ (merged.symm.trans document)
  | arrays other =>
      refine .inr (.arrays fun items same => ?_)
      obtain ⟨_, array⟩ := (exists_mergeInto_eq_array_iff left right).mpr ⟨items, same⟩
      exact other _ (merged.symm.trans array)
  | under inFirst inSecond inThird clash induction =>
      rcases of_get?_mergeInto distinct merged inSecond with
        ⟨inner, rfl, there⟩ | ⟨outer, old, value, rfl, there, valueDistinct, rfl, inLeft⟩
      · exact .inl ⟨_, rfl, .under inFirst there inThird clash⟩
      · rcases induction valueDistinct rfl with ⟨other, rfl, inside⟩ | inside
        · obtain ⟨inner, rfl, inInner⟩ := inLeft other rfl
          exact .inl ⟨_, rfl, .under inFirst inInner inThird inside⟩
        · exact .inr (.under inFirst there inThird inside)

end Bson

/-! ## Merging is associative -/

/-- Documents merge in either order of steps if the values under each common key do. -/
theorem Document.merge_assoc_of_values
    {first second third : Document}
    (firstDistinct : (keys first).Nodup)
    (secondDistinct : (keys second).Nodup)
    (thirdDistinct : (keys third).Nodup)
    (values : ∀ key left middle right,
      get? first key = some left → get? second key = some middle → get? third key = some right →
        Bson.mergeInto (some (Bson.mergeInto (some left) middle)) right =
          Bson.mergeInto (some left) (Bson.mergeInto (some middle) right)) :
    merge (merge first second) third = merge first (merge second third) := by
  have leftDistinct := nodup_keys_merge firstDistinct secondDistinct
  have rightDistinct := nodup_keys_merge secondDistinct thirdDistinct
  refine ext_of_get? (nodup_keys_merge leftDistinct thirdDistinct) ?_ fun key => ?_
  · rw [keys_merge _ thirdDistinct, keys_merge _ secondDistinct, keys_merge _ rightDistinct,
      keys_merge _ thirdDistinct, List.append_assoc, List.filter_append, List.filter_filter]
    have others (key : String) :
        decide (key ∉ keys first ++ (keys second).filter (· ∉ keys first)) =
          (decide (key ∉ keys first) && decide (key ∉ keys second)) := by
      by_cases inFirst : key ∈ keys first <;> simp [inFirst]
    simp only [others]
  · rw [get?_merge _ thirdDistinct, get?_merge _ secondDistinct, get?_merge _ rightDistinct,
      get?_merge _ thirdDistinct]
    cases inThird : get? third key with
    | none => rfl
    | some right =>
        cases inSecond : get? second key with
        | none => simp [mergeValues]
        | some middle =>
            cases inFirst : get? first key with
            | none => simp [mergeValues]
            | some left =>
                exact congrArg some (values key left middle right inFirst inSecond inThird)

/-- Where no three values clash, it does not matter which of the two merges comes first. -/
theorem Bson.mergeInto_assoc
    {first second third : Bson}
    (firstDistinct : first.HasDistinctKeys)
    (secondDistinct : second.HasDistinctKeys)
    (thirdDistinct : third.HasDistinctKeys)
    (apart : ¬ Clash first second third) :
    mergeInto (some (mergeInto (some first) second)) third =
      mergeInto (some first) (mergeInto (some second) third) := by
  induction third using Bson.induct generalizing first second with
  | ofEntries third induction =>
      by_cases inSecond : ∃ entries, second = .document entries
      · obtain ⟨second, rfl⟩ := inSecond
        by_cases inFirst : ∃ entries, first = .document entries
        · obtain ⟨first, rfl⟩ := inFirst
          have firstParts := (Document.hasDistinctKeys_iff first).mp firstDistinct
          have secondParts := (Document.hasDistinctKeys_iff second).mp secondDistinct
          have thirdParts := (Document.hasDistinctKeys_iff third).mp thirdDistinct
          refine congrArg document <|
            Document.merge_assoc_of_values firstParts.1 secondParts.1 thirdParts.1 ?_
          intro key left middle right inFirst inSecond inThird
          have member := (Document.get?_eq_some_iff thirdParts.1 key right).mp inThird
          exact induction (key, right) member (firstParts.2 key left inFirst)
            (secondParts.2 key middle inSecond) (thirdParts.2 key right inThird)
            fun clash => apart (.under inFirst inSecond inThird clash)
        · have other : ∀ inner, some first ≠ some (.document inner) := by simpa using inFirst
          rw [mergeInto_document_of_ne other]
          exact (mergeInto_document_of_ne other _).symm
      · have between : ∀ inner, second ≠ .document inner := by simpa using inSecond
        have merged : ∀ inner, mergeInto (some first) second ≠ .document inner := by
          simpa using (exists_mergeInto_eq_document_iff (some first) second).not.mpr inSecond
        have other : ∀ inner, first ≠ .document inner := by
          rintro inner rfl
          exact apart (.documents between)
        rw [mergeInto_document_of_ne (by simpa using merged),
          mergeInto_document_of_ne (by simpa using between),
          mergeInto_document_of_ne (by simpa using other)]
  | ofItems third =>
      by_cases inSecond : ∃ items, second = .array items
      · obtain ⟨second, rfl⟩ := inSecond
        by_cases inFirst : ∃ items, first = .array items
        · obtain ⟨first, rfl⟩ := inFirst
          exact congrArg array (List.append_assoc first second third)
        · have other : ∀ items, some first ≠ some (.array items) := by simpa using inFirst
          rw [mergeInto_array_of_ne other]
          exact (mergeInto_array_of_ne other _).symm
      · have between : ∀ items, second ≠ .array items := by simpa using inSecond
        have merged : ∀ items, mergeInto (some first) second ≠ .array items := by
          simpa using (exists_mergeInto_eq_array_iff (some first) second).not.mpr inSecond
        have other : ∀ items, first ≠ .array items := by
          rintro items rfl
          exact apart (.arrays between)
        rw [mergeInto_array_of_ne (by simpa using merged),
          mergeInto_array_of_ne (by simpa using between),
          mergeInto_array_of_ne (by simpa using other)]
  | ofLeaf third leaf => simp only [mergeInto_of_isLeaf _ leaf]
  | ofScope text scope => simp only [mergeInto_codeWithScope]

namespace Document

/-- Three documents with values that clash at the same place within all of them. -/
def Clash (first second third : Document) : Prop :=
  Bson.Clash (.document first) (.document second) (.document third)

theorem merge_assoc
    {first second third : Document}
    (firstDistinct : HasDistinctKeys first)
    (secondDistinct : HasDistinctKeys second)
    (thirdDistinct : HasDistinctKeys third)
    (apart : ¬ Clash first second third) :
    merge (merge first second) third = merge first (merge second third) :=
  Bson.document.inj (Bson.mergeInto_assoc firstDistinct secondDistinct thirdDistinct apart)

theorem clash_iff (first second third : Document) :
    Clash first second third ↔
      ∃ key left middle right,
        get? first key = some left ∧ get? second key = some middle ∧
          get? third key = some right ∧ left.Clash middle right := by
  constructor
  · intro clash
    cases clash with
    | documents other => exact (other second rfl).elim
    | under inFirst inSecond inThird clash =>
        exact ⟨_, _, _, _, inFirst, inSecond, inThird, clash⟩
  · rintro ⟨key, left, middle, right, inFirst, inSecond, inThird, clash⟩
    exact .under inFirst inSecond inThird clash

theorem associativeUnless_merge : AssociativeUnless [] merge HasDistinctKeys Clash where
  valid_unit := (hasDistinctKeys_iff []).mpr ⟨List.nodup_nil, by simp [get?]⟩
  valid_operation := HasDistinctKeys.merge
  operation_unit := merge_nil
  unit_operation distinct := nil_merge ((hasDistinctKeys_iff _).mp distinct).1
  not_clash_first second third := by simp [clash_iff, get?]
  not_clash_second first third := by simp [clash_iff, get?]
  clash_first {left right second third} _ distinct clash := by
    have merged :
        (Bson.mergeInto (some (.document left)) (.document right)).Clash (.document second)
          (.document third) :=
      clash
    rcases merged.of_mergeInto_first distinct with ⟨_, ⟨⟩, inLeft⟩ | inRight
    · exact .inl inLeft
    · exact .inr inRight
  clash_second {first left right third} _ distinct clash := by
    have merged :
        (Bson.document first).Clash
          (Bson.mergeInto (some (.document left)) (.document right)) (.document third) :=
      clash
    rcases merged.of_mergeInto_second distinct with ⟨_, ⟨⟩, inLeft⟩ | inRight
    · exact .inl inLeft
    · exact .inr inRight
  assoc := merge_assoc

/-! ## Documents that may be absent -/

/-- Three documents that are there and clash. -/
def ClashOptional (first second third : Option Document) : Prop :=
  ∃ left ∈ first, ∃ middle ∈ second, ∃ right ∈ third, Clash left middle right

theorem mergeOptional_none (document : Option Document) :
    mergeOptional document none = document := by
  cases document <;> rfl

theorem mem_mergeOptional
    {left right : Option Document}
    {document : Document}
    (member : document ∈ mergeOptional left right) :
    document ∈ left ∧ right = none ∨ document ∈ right ∧ left = none ∨
      ∃ inner ∈ left, ∃ outer ∈ right, document = merge inner outer := by
  cases left with
  | none => exact .inr (.inl ⟨member, rfl⟩)
  | some inner =>
      cases right with
      | none => exact .inl ⟨member, rfl⟩
      | some outer => exact .inr (.inr ⟨inner, rfl, outer, rfl, (Option.some.inj member).symm⟩)

theorem associativeUnless_mergeOptional :
    AssociativeUnless none mergeOptional
      (fun item => ∀ document ∈ item, HasDistinctKeys document) ClashOptional where
  valid_unit := by simp
  valid_operation leftDistinct rightDistinct document member := by
    rcases mem_mergeOptional member with
      ⟨inLeft, -⟩ | ⟨inRight, -⟩ | ⟨inner, inLeft, outer, inRight, rfl⟩
    · exact leftDistinct document inLeft
    · exact rightDistinct document inRight
    · exact (leftDistinct inner inLeft).merge (rightDistinct outer inRight)
  operation_unit := mergeOptional_none
  unit_operation _ := rfl
  not_clash_first second third := by simp [ClashOptional]
  not_clash_second first third := by simp [ClashOptional]
  clash_first leftDistinct rightDistinct clash := by
    obtain ⟨document, member, middle, inSecond, right, inThird, clash⟩ := clash
    rcases mem_mergeOptional member with
      ⟨inLeft, -⟩ | ⟨inRight, -⟩ | ⟨inner, inLeft, outer, inRight, rfl⟩
    · exact .inl ⟨document, inLeft, middle, inSecond, right, inThird, clash⟩
    · exact .inr ⟨document, inRight, middle, inSecond, right, inThird, clash⟩
    · rcases associativeUnless_merge.clash_first (leftDistinct inner inLeft)
        (rightDistinct outer inRight) clash with clash | clash
      · exact .inl ⟨inner, inLeft, middle, inSecond, right, inThird, clash⟩
      · exact .inr ⟨outer, inRight, middle, inSecond, right, inThird, clash⟩
  clash_second leftDistinct rightDistinct clash := by
    obtain ⟨left, inFirst, document, member, right, inThird, clash⟩ := clash
    rcases mem_mergeOptional member with
      ⟨inLeft, -⟩ | ⟨inRight, -⟩ | ⟨inner, inLeft, outer, inRight, rfl⟩
    · exact .inl ⟨left, inFirst, document, inLeft, right, inThird, clash⟩
    · exact .inr ⟨left, inFirst, document, inRight, right, inThird, clash⟩
    · rcases associativeUnless_merge.clash_second (leftDistinct inner inLeft)
        (rightDistinct outer inRight) clash with clash | clash
      · exact .inl ⟨left, inFirst, inner, inLeft, right, inThird, clash⟩
      · exact .inr ⟨left, inFirst, outer, inRight, right, inThird, clash⟩
  assoc {first second third} firstDistinct secondDistinct thirdDistinct apart := by
    cases first with
    | none => rfl
    | some first =>
        cases second with
        | none => rfl
        | some second =>
            cases third with
            | none => rfl
            | some third =>
                refine congrArg some <|
                  merge_assoc (firstDistinct first rfl) (secondDistinct second rfl)
                    (thirdDistinct third rfl) fun clash => ?_
                exact apart ⟨first, rfl, second, rfl, third, rfl, clash⟩

/--
Documents, none of which names a key twice, merge as follows.  A document without entries
changes nothing.  At each place where both sides have a document, the keys of the left one are
followed by the other keys of the right one.  Where three documents do not clash, it does not
matter which two are merged first; so if no three of a list do, in the order of the list, all
ways of grouping the merges give the same document.  The same holds of documents that may be
absent, and an absent one changes nothing either.
-/
theorem merge_regroups :
    (∀ document, HasDistinctKeys document →
      merge document [] = document ∧ merge [] document = document) ∧
    (∀ left right, HasDistinctKeys left → HasDistinctKeys right →
      ∀ path inner outer, nested? left path = some inner → nested? right path = some outer →
        ∃ merged, nested? (merge left right) path = some merged ∧
          keys merged = keys inner ++ (keys outer).filter (· ∉ keys inner)) ∧
    (∀ first second third,
      HasDistinctKeys first → HasDistinctKeys second → HasDistinctKeys third →
        ¬ Clash first second third →
          merge (merge first second) third = merge first (merge second third)) ∧
    (∀ grouping other : Grouping Document, grouping.items = other.items →
      (∀ document ∈ grouping.items, HasDistinctKeys document) →
        (∀ first second third,
          [first, second, third].Sublist grouping.items → ¬ Clash first second third) →
          grouping.combine [] merge = other.combine [] merge) ∧
    (∀ item, mergeOptional item none = item ∧ mergeOptional none item = item) ∧
    (∀ left right, mergeOptional (some left) (some right) = some (merge left right)) ∧
    (∀ first second third : Option Document,
      (∀ item ∈ [first, second, third], ∀ document ∈ item, HasDistinctKeys document) →
        ¬ ClashOptional first second third →
          mergeOptional (mergeOptional first second) third =
            mergeOptional first (mergeOptional second third)) ∧
    ∀ grouping other : Grouping (Option Document), grouping.items = other.items →
      (∀ item ∈ grouping.items, ∀ document ∈ item, HasDistinctKeys document) →
        (∀ first second third,
          [first, second, third].Sublist grouping.items → ¬ ClashOptional first second third) →
          grouping.combine none mergeOptional = other.combine none mergeOptional := by
  refine ⟨?_, ?_, fun _ _ _ => merge_assoc, ?_, ?_, fun _ _ => rfl, ?_, ?_⟩
  · intro document distinct
    exact ⟨merge_nil document, nil_merge ((hasDistinctKeys_iff document).mp distinct).1⟩
  · intro left right leftDistinct rightDistinct path inner outer inLeft inRight
    obtain ⟨found, distinct⟩ := nested?_merge leftDistinct rightDistinct inLeft inRight
    exact ⟨merge inner outer, found, keys_merge inner distinct⟩
  · exact fun _ _ => associativeUnless_merge.combine_eq_combine
  · exact fun item => ⟨mergeOptional_none item, rfl⟩
  · intro first second third distinct
    simp only [List.forall_mem_cons] at distinct
    exact associativeUnless_mergeOptional.assoc distinct.1 distinct.2.1 distinct.2.2.1
  · exact fun _ _ => associativeUnless_mergeOptional.combine_eq_combine

/-- A lower bound, and a list of tags. -/
def adult : Document :=
  [("age", Bson.entry "$gte" (.int32 18)), ("tags", .array [.string "new"])]

/-- An upper bound, and a value that is no list. -/
def working : Document :=
  [("age", Bson.entry "$lte" (.int32 65)), ("name", .string "ann")]

/-- More tags, one more bound, and a document under a key that the first one lacks. -/
def tagged : Document :=
  [("tags", .array [.string "old"]), ("age", Bson.entry "$ne" (.int32 30)),
    ("name", Bson.entry "$exists" (.boolean true))]

/-- The bounds come together in the same order whichever two documents are merged first. -/
theorem merge_regroups_bounds :
    merge (merge adult working) tagged = merge adult (merge working tagged) ∧
      (∃ bounds, nested? (merge adult working) ["age"] = some bounds ∧
        keys bounds = ["$gte", "$lte"]) ∧
      Grouping.combine [] merge (.both (.both (.one adult) (.one working)) (.one tagged)) =
        Grouping.combine [] merge (.both (.one adult) (.both (.one working) (.one tagged))) := by
  have distinct : ∀ document ∈ [adult, working, tagged], HasDistinctKeys document := by
    simp [HasDistinctKeys, Bson.HasDistinctKeys, Bson.All, Bson.AllItems, AllValues, keys, adult,
      working, tagged, Bson.entry]
  have apart : ¬ Clash adult working tagged := by
    rw [clash_iff]
    rintro ⟨key, left, middle, right, inFirst, inSecond, inThird, clash⟩
    -- Only the age is in all three, and there the three have different operators.
    by_cases shared : key = "age"
    · subst shared
      simp only [get?, adult, working, tagged, ↓reduceIte, Option.some.injEq,
        String.reduceEq] at inFirst inSecond inThird
      subst inFirst inSecond inThird
      obtain ⟨operator, _, _, _, lower, upper, -, -⟩ := (clash_iff _ _ _).mp clash
      simp only [get?, Option.ite_none_right_eq_some] at lower upper
      have same := lower.1.trans upper.1.symm
      contradiction
    · simp only [get?, adult, working, Ne.symm shared, ↓reduceIte,
        Option.ite_none_right_eq_some] at inFirst inSecond
      have same := inFirst.1.trans inSecond.1.symm
      contradiction
  obtain ⟨-, places, assoc, groups, -⟩ := merge_regroups
  simp only [List.forall_mem_cons] at distinct
  obtain ⟨first, second, third, -⟩ := distinct
  refine ⟨assoc _ _ _ first second third apart, ?_, ?_⟩
  · exact places adult working first second ["age"] _ _ rfl rfl
  · refine groups _ _ rfl ?_ ?_
    · simp [Grouping.items, first, second, third]
    · intro one two three sublist
      have listed := sublist.eq_of_length rfl
      simp only [Grouping.items, List.cons_append, List.nil_append, List.cons.injEq, and_true]
        at listed
      obtain ⟨rfl, rfl, rfl⟩ := listed
      exact apart

end Document

end SearchPipeline
