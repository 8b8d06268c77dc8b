import SearchPipeline.FieldPath
import Mathlib.Data.List.Basic
import Mathlib.Data.List.DropRight
import Mathlib.Data.List.Nodup
import Mathlib.Data.List.TakeWhile

/-!
# Covering field paths

A path that is kept covers itself and whatever lies below it.  Collapsing keeps a
covering path for every path that is not empty, since the shortest of the path's
ancestors lies below no other, and no path that is kept lies below another one.  What is
kept is in the order in which the paths first occur.
-/

namespace SearchPipeline.FieldPath

/-! ## Paths that cover others -/

/-- Keeping one path keeps the other: they are equal, or the other goes on after it with a dot. -/
def Covers (key path : String) : Prop :=
  path = key ∨ ∃ rest, path = key ++ "." ++ rest

theorem isAncestor_iff_append
    (ancestor path : String) :
    isAncestor ancestor path = true ↔
      ∃ rest, path = ancestor ++ "." ++ rest := by
  rw [isAncestor_iff]
  constructor
  · rintro ⟨rest, joined⟩
    refine ⟨String.ofList rest, String.toList_injective ?_⟩
    simp [joined]
  · rintro ⟨rest, rfl⟩
    exact ⟨rest.toList, by simp⟩

theorem covers_iff_isAncestor
    (key path : String) :
    Covers key path ↔ path = key ∨ isAncestor key path = true := by
  rw [isAncestor_iff_append, Covers]

instance (key path : String) : Decidable (Covers key path) :=
  decidable_of_iff _ (covers_iff_isAncestor key path).symm

theorem isAncestor_trans
    {first second third : String}
    (upper : isAncestor first second = true)
    (lower : isAncestor second third = true) :
    isAncestor first third = true := by
  rw [isAncestor_iff_append] at *
  rcases upper with ⟨between, rfl⟩
  rcases lower with ⟨below, rfl⟩
  exact ⟨between ++ "." ++ below, by simp only [String.append_assoc]⟩

theorem length_lt_of_isAncestor
    {ancestor path : String}
    (above : isAncestor ancestor path = true) :
    ancestor.length < path.length := by
  rcases (isAncestor_iff_append ancestor path).mp above with ⟨rest, rfl⟩
  have dot : ".".length = 1 := rfl
  simp only [String.length_append, dot]
  omega

theorem covers_refl (path : String) : Covers path path :=
  Or.inl rfl

theorem Covers.trans
    {first second third : String}
    (upper : Covers first second)
    (lower : Covers second third) :
    Covers first third := by
  rw [covers_iff_isAncestor] at *
  rcases upper with rfl | upper
  · exact lower
  · rcases lower with rfl | lower
    · exact Or.inr upper
    · exact Or.inr (isAncestor_trans upper lower)

/-- The first segment of a path covers the path. -/
theorem root_covers (path : String) : Covers (root path) path := by
  have divided :
      (root path).toList ++ path.toList.dropWhile (· ≠ '.') = path.toList := by
    rw [root, String.toList_ofList, List.takeWhile_append_dropWhile]
  cases remaining : path.toList.dropWhile (· ≠ '.') with
  | nil =>
      left
      rw [remaining, List.append_nil] at divided
      exact String.toList_injective divided.symm
  | cons char rest =>
      have isDot : char = '.' := by
        have stopped := List.head?_dropWhile_not (· ≠ '.') path.toList
        rw [remaining] at stopped
        simpa using stopped
      right
      refine ⟨String.ofList rest, String.toList_injective ?_⟩
      rw [remaining, isDot] at divided
      simp [← divided]

/-- The first segment of a path: it has no dot, and is the path or followed by a dot there. -/
def IsFirstSegment (segment path : String) : Prop :=
  '.' ∉ segment.toList ∧ Covers segment path

theorem isFirstSegment_root (path : String) : IsFirstSegment (root path) path := by
  refine ⟨fun dot => ?_, root_covers path⟩
  rw [root, String.toList_ofList] at dot
  simpa using List.mem_takeWhile_imp dot

/-- A path has only one first segment. -/
theorem root_eq_iff
    (path segment : String) :
    root path = segment ↔ IsFirstSegment segment path := by
  constructor
  · rintro rfl
    exact isFirstSegment_root path
  · rintro ⟨undotted, covers⟩
    have kept : ∀ char ∈ segment.toList, decide (char ≠ '.') = true := by
      intro char member
      refine decide_eq_true ?_
      rintro rfl
      exact undotted member
    apply String.toList_injective
    rw [root, String.toList_ofList]
    rcases covers with rfl | ⟨rest, rfl⟩
    · exact List.takeWhile_eq_self_iff.mpr kept
    · have dot : ".".toList = ['.'] := rfl
      rw [String.toList_append, String.toList_append, dot, List.append_assoc,
        List.takeWhile_append_of_pos kept]
      simp

/-! ## What follows a start -/

theorem after?_eq_some_iff
    (start path suffix : String) :
    after? start path = some suffix ↔ path = start ++ suffix := by
  rw [after?]
  constructor
  · intro found
    split at found
    · rename_i begins
      rcases List.isPrefixOf_iff_prefix.mp begins with ⟨rest, joined⟩
      rw [Option.some.injEq] at found
      apply String.toList_injective
      simp [← found, ← joined]
    · cases found
  · rintro rfl
    have begins :
        start.toList.isPrefixOf (start ++ suffix).toList = true := by
      rw [List.isPrefixOf_iff_prefix, String.toList_append]
      exact List.prefix_append _ _
    rw [if_pos begins]
    simp

/-! ## Final dots -/

/-- A path without the dots that another one ends in: only dots follow it there, and it ends in none. -/
structure IsStem (stem path : String) : Prop where
  undotted : stem.toList.getLast? ≠ some '.'
  followed : ∃ count, path.toList = stem.toList ++ List.replicate count '.'

theorem isStem_withoutFinalDots (path : String) : IsStem (withoutFinalDots path) path := by
  have stripped :
      (withoutFinalDots path).toList = path.toList.rdropWhile (· = '.') := by
    rw [withoutFinalDots, String.toList_ofList, List.rdropWhile]
  constructor
  · rw [stripped]
    intro dotted
    obtain ⟨filled, last⟩ := List.mem_getLast?_eq_getLast dotted
    exact List.rdropWhile_last_not (· = '.') _ filled (decide_eq_true last.symm)
  · have dots :
        path.toList.rtakeWhile (· = '.') =
          List.replicate (path.toList.rtakeWhile (· = '.')).length '.' := by
      rw [List.eq_replicate_iff]
      exact ⟨rfl, fun char member => by simpa using List.mem_rtakeWhile_imp member⟩
    refine ⟨(path.toList.rtakeWhile (· = '.')).length, ?_⟩
    rw [stripped, ← dots, List.rdropWhile_append_rtakeWhile]

theorem rdropWhile_append_dots
    (chars : List Char)
    (count : Nat) :
    (chars ++ List.replicate count '.').rdropWhile (· = '.') = chars.rdropWhile (· = '.') := by
  induction count with
  | zero => rw [List.replicate_zero, List.append_nil]
  | succ count induction =>
      rw [List.replicate_succ', ← List.append_assoc, List.rdropWhile_concat_pos _ _ _ rfl,
        induction]

/-- A path has only one stem. -/
theorem withoutFinalDots_eq_iff
    (path stem : String) :
    withoutFinalDots path = stem ↔ IsStem stem path := by
  constructor
  · rintro rfl
    exact isStem_withoutFinalDots path
  · rintro ⟨undotted, count, followed⟩
    apply String.toList_injective
    have kept : stem.toList.rdropWhile (· = '.') = stem.toList := by
      rw [List.rdropWhile_eq_self_iff]
      intro filled dot
      refine undotted ?_
      rw [List.getLast?_eq_getLast_of_ne_nil filled, of_decide_eq_true dot]
    rw [withoutFinalDots, String.toList_ofList, ← List.rdropWhile, followed,
      rdropWhile_append_dots, kept]

theorem withoutFinalDots_append_dot (path : String) :
    withoutFinalDots (path ++ ".") = withoutFinalDots path := by
  have dot : ".".toList = ['.'] := rfl
  simp [withoutFinalDots, dot]

theorem length_withoutFinalDots_le (path : String) :
    (withoutFinalDots path).length ≤ path.length := by
  have shorter := (List.dropWhile_sublist (l := path.toList.reverse) (· = '.')).length_le
  simpa [withoutFinalDots, String.length_toList] using shorter

/-! ## Collapsed paths -/

/-- Empty paths make no difference. -/
theorem collapse_eq_of_filter_eq
    {left right : List String}
    (same : left.filter (· ≠ "") = right.filter (· ≠ "")) :
    collapse left = collapse right := by
  rw [collapse, same, collapse]

/-- What is left of a list is in the order of the list: what comes first there came first before. -/
theorem idxOf_lt_of_filter
    {keep : String → Bool}
    {left right : String}
    (leftKept : keep left = true)
    (rightKept : keep right = true)
    {items : List String}
    (before : (items.filter keep).idxOf left < (items.filter keep).idxOf right) :
    items.idxOf left < items.idxOf right := by
  induction items with
  | nil => exact before
  | cons item rest induction =>
      by_cases kept : keep item = true
      · rw [List.filter_cons_of_pos kept] at before
        by_cases first : item = left
        · subst first
          by_cases same : item = right
          · subst same
            exact (Nat.lt_irrefl _ before).elim
          · rw [List.idxOf_cons_self, List.idxOf_cons_ne _ same]
            exact Nat.succ_pos _
        · by_cases same : item = right
          · rw [List.idxOf_cons_eq _ same] at before
            exact (Nat.not_lt_zero _ before).elim
          · rw [List.idxOf_cons_ne _ first, List.idxOf_cons_ne _ same] at before ⊢
            exact Nat.succ_lt_succ (induction (Nat.lt_of_succ_lt_succ before))
      · have other {wanted : String} (wantedKept : keep wanted = true) : item ≠ wanted := by
          rintro rfl
          exact kept wantedKept
        rw [List.filter_cons_of_neg kept] at before
        rw [List.idxOf_cons_ne _ (other leftKept), List.idxOf_cons_ne _ (other rightKept)]
        exact Nat.succ_lt_succ (induction before)

/--
Of repeated items the first one stands for all.  The induction is on the length, since the rest
of a list loses the repetitions of its first item before it is looked at.
-/
theorem pairwise_idxOf_eraseDups
    (items : List String) :
    items.eraseDups.Pairwise fun left right => items.idxOf left < items.idxOf right := by
  induction size : items.length using Nat.strongRecOn generalizing items with
  | _ count induction =>
      cases items with
      | nil => simp
      | cons item rest =>
          have smaller : (rest.filter fun other => !other == item).length < count := by
            rw [← size, List.length_cons]
            exact Nat.lt_succ_of_le (List.length_filter_le _ _)
          rw [List.eraseDups_cons, List.pairwise_cons]
          have differs {other : String}
              (member : other ∈ (rest.filter fun other => !other == item).eraseDups) :
              item ≠ other := by
            rintro rfl
            simp at member
          constructor
          · intro other member
            rw [List.idxOf_cons_self, List.idxOf_cons_ne _ (differs member)]
            exact Nat.succ_pos _
          · refine (induction _ smaller _ rfl).imp_of_mem ?_
            intro left right leftMember rightMember before
            rw [List.idxOf_cons_ne _ (differs leftMember),
              List.idxOf_cons_ne _ (differs rightMember)]
            refine Nat.succ_lt_succ (idxOf_lt_of_filter ?_ ?_ before)
            · simpa using (differs leftMember).symm
            · simpa using (differs rightMember).symm

/-- The paths that are kept come in the order in which they first occur. -/
theorem pairwise_idxOf_collapse
    (paths : List String) :
    (collapse paths).Pairwise fun left right => paths.idxOf left < paths.idxOf right := by
  have ordered := pairwise_idxOf_eraseDups (paths.filter (· ≠ ""))
  refine (ordered.imp_of_mem ?_).filter _
  intro left right leftMember rightMember before
  rw [List.mem_eraseDups, List.mem_filter] at leftMember rightMember
  exact idxOf_lt_of_filter leftMember.2 rightMember.2 before

theorem nodup_collapse
    (paths : List String) :
    (collapse paths).Nodup := by
  refine (pairwise_idxOf_collapse paths).imp fun before same => ?_
  rw [same] at before
  exact Nat.lt_irrefl _ before

theorem not_isAncestor_of_mem_collapse
    {paths : List String}
    {key other : String}
    (keyKept : key ∈ collapse paths)
    (otherKept : other ∈ collapse paths) :
    isAncestor key other = false := by
  rw [mem_collapse] at keyKept otherKept
  exact otherKept.2.2 key keyKept.1 keyKept.2.1

/--
Every path that is not empty is covered by a path that is kept.  The induction is on
the length of the path: if it is not kept itself, one of its ancestors is among the
paths, and what covers the ancestor covers the path.
-/
theorem exists_covers_of_mem
    {paths : List String}
    {path : String}
    (member : path ∈ paths)
    (nonempty : path ≠ "") :
    ∃ key ∈ collapse paths, Covers key path := by
  induction size : path.length using Nat.strongRecOn generalizing path with
  | _ count induction =>
      by_cases lower : ∃ other ∈ paths, other ≠ "" ∧ isAncestor other path = true
      · rcases lower with ⟨other, otherMember, otherNonempty, above⟩
        have shorter : other.length < count :=
          size ▸ length_lt_of_isAncestor above
        obtain ⟨key, kept, covers⟩ :=
          induction other.length shorter otherMember otherNonempty rfl
        have below : Covers other path :=
          (covers_iff_isAncestor other path).mpr (Or.inr above)
        exact ⟨key, kept, covers.trans below⟩
      · have alone : ∀ other ∈ paths, other ≠ "" → isAncestor other path = false := by
          intro other otherMember otherNonempty
          rw [Bool.eq_false_iff]
          intro above
          exact lower ⟨other, otherMember, otherNonempty, above⟩
        exact ⟨path, (mem_collapse paths path).mpr ⟨member, nonempty, alone⟩, covers_refl path⟩

end SearchPipeline.FieldPath
