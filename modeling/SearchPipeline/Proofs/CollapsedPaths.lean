import SearchPipeline.Proofs.FieldPath
import Mathlib.Data.List.Sort

/-!
# The least paths that reach all the others

To collapse a list of paths is to keep the non-empty ones that lie below no other one, in the
order in which they first occur.  No other list has these members in this order.  What lies
below a path lies below a least one too, so paths that are collapsed already stand for all the
paths they come from, whatever else is collapsed along with them.
-/

namespace SearchPipeline.FieldPath

/--
The non-empty paths of a list that are below no other one of these, each once, in the order of
first occurrence.
-/
structure LeastOf (paths keys : List String) : Prop where
  least : ∀ key,
    key ∈ keys ↔
      key ∈ paths ∧ key ≠ "" ∧
        ∀ other ∈ paths, other ≠ "" → ¬ ∃ rest, key = other ++ "." ++ rest
  once : keys.Nodup
  ordered : keys.Pairwise fun left right => paths.idxOf left < paths.idxOf right

/-- A list has only one list of least paths. -/
theorem LeastOf.unique
    {paths left right : List String}
    (leftLeast : LeastOf paths left)
    (rightLeast : LeastOf paths right) :
    left = right := by
  have : Std.Irrefl fun left right => paths.idxOf left < paths.idxOf right :=
    ⟨fun _ => Nat.lt_irrefl _⟩
  have : Std.Antisymm fun left right => paths.idxOf left < paths.idxOf right :=
    ⟨fun _ _ before after => (Nat.lt_asymm before after).elim⟩
  refine leftLeast.ordered.eq_of_mem_iff rightLeast.ordered fun key => ?_
  rw [leftLeast.least, rightLeast.least]

theorem leastOf_collapse (paths : List String) : LeastOf paths (collapse paths) where
  least key := by
    simp only [mem_collapse, ← isAncestor_iff_append, Bool.not_eq_true]
  once := nodup_collapse paths
  ordered := pairwise_idxOf_collapse paths

theorem collapse_eq_iff (paths keys : List String) :
    collapse paths = keys ↔ LeastOf paths keys := by
  constructor
  · rintro rfl
    exact leastOf_collapse paths
  · exact (leastOf_collapse paths).unique

/-- What is below none of the least paths is below none of the paths. -/
theorem forall_not_isAncestor_collapse_iff
    (paths : List String)
    (key : String) :
    (∀ other ∈ collapse paths, other ≠ "" → isAncestor other key = false) ↔
      ∀ other ∈ paths, other ≠ "" → isAncestor other key = false := by
  constructor
  · intro alone other member nonempty
    obtain ⟨least, kept, covers⟩ := exists_covers_of_mem member nonempty
    rw [Bool.eq_false_iff]
    intro above
    have higher : isAncestor least key = true := by
      rcases (covers_iff_isAncestor least other).mp covers with rfl | upper
      · exact above
      · exact isAncestor_trans upper above
    have filled := ((mem_collapse paths least).mp kept).2.1
    exact Bool.noConfusion ((alone least kept filled).symm.trans higher)
  · intro alone other kept
    exact alone other ((mem_collapse paths other).mp kept).1

/-- In a list, of which each two items are related, what comes first is related to what follows. -/
theorem rel_of_idxOf_lt
    {related : String → String → Prop}
    {items : List String}
    (pairs : items.Pairwise related)
    {left right : String}
    (member : right ∈ items)
    (before : items.idxOf left < items.idxOf right) :
    related left right := by
  have bound := List.idxOf_lt_length_of_mem member
  have found := List.pairwise_iff_getElem.mp pairs _ _ (before.trans bound) bound before
  rwa [List.getElem_idxOf, List.getElem_idxOf] at found

section Append

variable {paths following : List String}

theorem mem_collapse_append_iff (key : String) :
    key ∈ collapse (collapse paths ++ following) ↔ key ∈ collapse (paths ++ following) := by
  have least :
      (∀ other ∈ collapse paths ++ following, other ≠ "" → isAncestor other key = false) ↔
        ∀ other ∈ paths ++ following, other ≠ "" → isAncestor other key = false := by
    rw [List.forall_mem_append, List.forall_mem_append, forall_not_isAncestor_collapse_iff]
  rw [mem_collapse (_ ++ _), mem_collapse (_ ++ _), least, List.mem_append, List.mem_append]
  constructor
  · rintro ⟨kept | member, others⟩
    · exact ⟨.inl ((mem_collapse paths key).mp kept).1, others⟩
    · exact ⟨.inr member, others⟩
  · rintro ⟨member | member, others⟩
    · refine ⟨.inl ((mem_collapse paths key).mpr ⟨member, others.1, ?_⟩), others⟩
      exact fun other listed => others.2 other (List.mem_append_left _ listed)
    · exact ⟨.inr member, others⟩

/-- A path that is least in a longer list is kept in each part of it that has the path. -/
theorem mem_collapse_iff_of_append
    {key : String}
    (kept : key ∈ collapse (paths ++ following)) :
    key ∈ collapse paths ↔ key ∈ paths := by
  rw [mem_collapse] at kept
  rw [mem_collapse]
  refine and_iff_left ⟨kept.2.1, fun other member => ?_⟩
  exact kept.2.2 other (List.mem_append_left _ member)

/--
Least paths come in the same order whether or not the first paths are collapsed before: those
in the first paths are kept there in their order, and the others follow all of these.
-/
theorem idxOf_lt_of_collapse_append
    {left right : String}
    (leftKept : left ∈ collapse (paths ++ following))
    (rightKept : right ∈ collapse (paths ++ following))
    (before :
      (collapse paths ++ following).idxOf left < (collapse paths ++ following).idxOf right) :
    (paths ++ following).idxOf left < (paths ++ following).idxOf right := by
  have leftFirst := mem_collapse_iff_of_append leftKept
  have rightFirst := mem_collapse_iff_of_append rightKept
  by_cases leftMember : left ∈ paths
  · rw [List.idxOf_append_of_mem leftMember]
    by_cases rightMember : right ∈ paths
    · rw [List.idxOf_append_of_mem (leftFirst.mpr leftMember),
        List.idxOf_append_of_mem (rightFirst.mpr rightMember)] at before
      rw [List.idxOf_append_of_mem rightMember]
      exact rel_of_idxOf_lt (pairwise_idxOf_collapse paths) (rightFirst.mpr rightMember) before
    · rw [List.idxOf_append_of_notMem rightMember]
      exact Nat.lt_of_lt_of_le (List.idxOf_lt_length_of_mem leftMember) (Nat.le_add_right _ _)
  · rw [List.idxOf_append_of_notMem (leftFirst.not.mpr leftMember)] at before
    by_cases rightMember : right ∈ paths
    · have within := List.idxOf_lt_length_of_mem (rightFirst.mpr rightMember)
      rw [List.idxOf_append_of_mem (rightFirst.mpr rightMember)] at before
      omega
    · rw [List.idxOf_append_of_notMem (rightFirst.not.mpr rightMember)] at before
      rw [List.idxOf_append_of_notMem leftMember, List.idxOf_append_of_notMem rightMember]
      exact Nat.add_lt_add_left (Nat.lt_of_add_lt_add_left before) _

/-- Paths may be collapsed before others follow them. -/
theorem collapse_append (paths following : List String) :
    collapse (paths ++ following) = collapse (collapse paths ++ following) := by
  rw [collapse_eq_iff]
  refine ⟨fun key => ?_, nodup_collapse _, ?_⟩
  · rw [mem_collapse_append_iff]
    exact (leastOf_collapse (paths ++ following)).least key
  · refine (pairwise_idxOf_collapse (collapse paths ++ following)).imp_of_mem ?_
    intro left right leftKept rightKept
    rw [mem_collapse_append_iff] at leftKept rightKept
    exact idxOf_lt_of_collapse_append leftKept rightKept

end Append

/-- The same paths in another order, or more often, have the same least paths. -/
theorem mem_collapse_of_mem_iff
    {paths others : List String}
    (same : ∀ path, path ∈ others ↔ path ∈ paths)
    (key : String) :
    key ∈ collapse others ↔ key ∈ collapse paths := by
  simp only [mem_collapse, same]

/--
Collapsing keeps the non-empty paths that are below no other one, each once, in the order of
first occurrence, and no other list is that.  So no path that is kept is below another one, all
non-empty paths are covered, their order and their repetitions do not matter for what is kept,
and paths that are collapsed already may stand for those they come from, alone or with others.
-/
theorem collapse_covers_least (paths : List String) :
    (∀ keys, collapse paths = keys ↔ LeastOf paths keys) ∧
      (∀ key ∈ collapse paths, ∀ other ∈ collapse paths, ¬ ∃ rest, other = key ++ "." ++ rest) ∧
      (∀ path ∈ paths, path ≠ "" → ∃ key ∈ collapse paths, Covers key path) ∧
      (∀ others, (∀ path, path ∈ others ↔ path ∈ paths) →
        ∀ key, key ∈ collapse others ↔ key ∈ collapse paths) ∧
      collapse (collapse paths) = collapse paths ∧
      ∀ following, collapse (paths ++ following) = collapse (collapse paths ++ following) := by
  refine ⟨collapse_eq_iff paths, ?_, fun path => exists_covers_of_mem,
    fun others => mem_collapse_of_mem_iff, ?_, collapse_append paths⟩
  · intro key keyKept other otherKept
    rw [← isAncestor_iff_append, not_isAncestor_of_mem_collapse keyKept otherKept]
    exact Bool.false_ne_true
  · have alone := collapse_append paths []
    rw [List.append_nil, List.append_nil] at alone
    exact alone.symm

/-- Paths of which one occurs twice, and one only starts as another does. -/
def addresses : List String :=
  ["address.city", "name", "", "address", "name", "addressLine", "address."]

/-- The address stands for what is below it, whatever the order of the paths is. -/
theorem collapse_covers_least_addresses :
    LeastOf addresses ["name", "address", "addressLine"] ∧
      (∃ key ∈ collapse addresses, Covers key "address.city") ∧
      ∀ key, key ∈ collapse addresses.reverse ↔ key ∈ collapse addresses := by
  obtain ⟨least, -, covered, unordered, -, -⟩ := collapse_covers_least addresses
  refine ⟨(least _).mp (by decide), covered "address.city" (by decide) (by decide), ?_⟩
  exact unordered addresses.reverse fun path => List.mem_reverse

end SearchPipeline.FieldPath
