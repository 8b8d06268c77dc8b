import SearchPipeline.Page
import Mathlib.Order.Bounds.Defs

/-!
# The arithmetic of pages

Where a page lies is computed in sixty-four bits.  This file compares each of the numbers
and flags with the one that has the same description among the natural numbers: rows
before the page, number of the page, number of pages, whether rows are left behind.  They
agree but for one place, the row behind the greatest number of rows on pages of one row,
whose number does not fit.
-/

namespace SearchPipeline

namespace Page

/-! ## Pages of a size, among the natural numbers -/

/-- How many pages some number of rows fills; there is always one. -/
def pageCount (rowCount size : Nat) : Nat :=
  max 1 (rowCount / size + if rowCount % size = 0 then 0 else 1)

section Counting

variable {rowCount size : Nat}
  (positive : 1 ≤ size)

include positive

/-- A page is not the last one exactly if it leaves rows behind it. -/
theorem lt_pageCount_iff
    {number : Nat}
    (counted : 1 ≤ number) :
    number < pageCount rowCount size ↔ number * size < rowCount := by
  have divided := Nat.div_add_mod rowCount size
  rw [Nat.mul_comm] at divided
  have rest := Nat.mod_lt rowCount positive
  have left : number * size < rowCount ↔
      number < rowCount / size ∨ number = rowCount / size ∧ 0 < rowCount % size := by
    rcases Nat.lt_trichotomy number (rowCount / size) with smaller | same | greater
    · have := Nat.mul_le_mul_right size smaller
      rw [Nat.succ_mul] at this
      omega
    · subst same
      omega
    · have := Nat.mul_le_mul_right size greater
      rw [Nat.succ_mul] at this
      omega
  rw [left, pageCount]
  split <;> omega

/-- The rows before a page are not more than there are. -/
theorem rowsBefore_le
    {number : Nat}
    (present : number ≤ pageCount rowCount size) :
    (number - 1) * size ≤ rowCount := by
  rcases Nat.lt_or_ge 1 number with later | first
  · have previous : 1 ≤ number - 1 := by omega
    have there : number - 1 < pageCount rowCount size := by omega
    have := (lt_pageCount_iff positive previous).mp there
    omega
  · rw [Nat.sub_eq_zero_of_le first, Nat.zero_mul]
    exact Nat.zero_le rowCount

/-- So many pages hold all rows, and fewer do not. -/
theorem isLeast_pageCount :
    IsLeast {count : Nat | 1 ≤ count ∧ rowCount ≤ count * size} (pageCount rowCount size) := by
  have least : 1 ≤ pageCount rowCount size := Nat.le_max_left _ _
  constructor
  · have complete : rowCount ≤ pageCount rowCount size * size :=
      Nat.not_lt.mp fun left => Nat.lt_irrefl _ ((lt_pageCount_iff positive least).mpr left)
    exact ⟨least, complete⟩
  · rintro count ⟨counted, holds⟩
    exact Nat.not_lt.mp fun fewer =>
      Nat.not_lt.mpr holds ((lt_pageCount_iff positive counted).mp fewer)

theorem pageCount_le : pageCount rowCount size ≤ max 1 rowCount := by
  refine (isLeast_pageCount positive).2 ⟨Nat.le_max_left 1 rowCount, ?_⟩
  exact Nat.le_trans (Nat.le_max_right 1 rowCount) (Nat.le_mul_of_pos_right _ positive)

end Counting

end Page

/-! ## The rows before a page, and its number -/

namespace Paging

theorem one_le_toNat_iff
    {limit : UInt64} :
    1 ≤ limit.toNat ↔ limit ≠ 0 := by
  rw [Ne, ← UInt64.toNat_inj, UInt64.toNat_zero]
  exact Nat.one_le_iff_ne_zero

/--
Pages of one row, of which one lies behind the greatest number of rows: the number of
that page does not fit into sixty-four bits.
-/
def RunsOver (paging : Paging) : Prop :=
  paging.limit = 1 ∧ paging.skip.toNat = UInt64.size - 1

instance (paging : Paging) : Decidable paging.RunsOver :=
  inferInstanceAs (Decidable (_ ∧ _))

theorem toNat_skip
    (paging : Paging) :
    paging.skip.toNat =
      match paging.offset, paging.page with
      | some offset, _ => offset.toNat
      | none, some page =>
        min ((max page.toNat 1 - 1) * paging.limit.toNat) (UInt64.size - 1)
      | none, none => 0 := by
  rw [skip]
  cases paging.offset with
  | some offset => rfl
  | none =>
      cases paging.page with
      | none => rfl
      | some page =>
          have before : max page.toNat 1 - 1 = page.toNat - 1 := by omega
          simp only [toNat_saturate, before]

theorem toNat_skip_of_page
    {limit page : UInt64}
    (fits : (page.toNat - 1) * limit.toNat < UInt64.size) :
    (skip { limit, page := some page }).toNat = (page.toNat - 1) * limit.toNat := by
  have saturated : (skip { limit, page := some page }).toNat =
      min ((page.toNat - 1) * limit.toNat) (UInt64.size - 1) :=
    toNat_saturate _
  omega

section Numbers

variable {paging : Paging}
  (positive : 1 ≤ paging.limit.toNat)

include positive

/-- The number of the page that starts behind the rows before it fits, but for one place. -/
theorem succ_div_lt_size_iff :
    paging.skip.toNat / paging.limit.toNat + 1 < UInt64.size ↔ ¬ paging.RunsOver := by
  have room : paging.skip.toNat < UInt64.size := paging.skip.toNat_lt_size
  have single : paging.limit = 1 ↔ paging.limit.toNat = 1 := by
    rw [← UInt64.toNat_inj, UInt64.toNat_one]
  rw [RunsOver, single]
  rcases Nat.lt_or_ge 1 paging.limit.toNat with several | one
  · have halved : paging.skip.toNat / paging.limit.toNat ≤ paging.skip.toNat / 2 :=
      Nat.div_le_div_left several (by decide)
    have great : 2 < UInt64.size := by decide
    omega
  · have only : paging.limit.toNat = 1 := by omega
    rw [only, Nat.div_one]
    omega

theorem toNat_currentPage
    (fits : ¬ paging.RunsOver) :
    paging.currentPage.toNat = paging.skip.toNat / paging.limit.toNat + 1 := by
  have room := (succ_div_lt_size_iff positive).mpr fits
  rw [currentPage, if_neg (one_le_toNat_iff.mp positive), UInt64.toNat_add, UInt64.toNat_div,
    UInt64.toNat_one]
  exact Nat.mod_eq_of_lt room

end Numbers

/-- A page that is asked for by its number has this number, if the rows before it can be counted. -/
theorem currentPage_of_page
    {limit page : UInt64}
    (positive : 1 ≤ limit.toNat)
    (counted : 1 ≤ page.toNat)
    (fits : (page.toNat - 1) * limit.toNat < UInt64.size) :
    currentPage { limit, page := some page } = page := by
  have skipped := toNat_skip_of_page fits
  have inside : ¬ RunsOver { limit, page := some page } := by
    rintro ⟨rfl, last⟩
    have room : page.toNat < UInt64.size := page.toNat_lt_size
    rw [skipped, UInt64.toNat_one] at last
    omega
  rw [← UInt64.toNat_inj, toNat_currentPage positive inside, skipped,
    Nat.mul_div_cancel _ positive, Nat.sub_add_cancel counted]

end Paging

/-! ## What a page tells -/

namespace Page

theorem toNat_max_one
    (count : UInt64) :
    (max 1 count).toNat = max 1 count.toNat := by
  have decided : max 1 count = if 1 ≤ count then count else 1 :=
    rfl
  rw [decided]
  split
  · rename_i least
    rw [UInt64.le_iff_toNat_le, UInt64.toNat_one] at least
    exact (Nat.max_eq_right least).symm
  · rename_i small
    rw [UInt64.le_iff_toNat_le, UInt64.toNat_one] at small
    rw [UInt64.toNat_one]
    omega

theorem mod_eq_zero_iff
    (totalRows limit : UInt64) :
    totalRows % limit = 0 ↔ totalRows.toNat % limit.toNat = 0 := by
  rw [← UInt64.toNat_inj, UInt64.toNat_mod, UInt64.toNat_zero]

/-- Adding a page for the rows that do not fill one gives a number that still fits. -/
theorem div_add_rest_lt_size
    (totalRows : UInt64)
    {limit : UInt64}
    (positive : 1 ≤ limit.toNat) :
    totalRows.toNat / limit.toNat +
        (if totalRows % limit = 0 then (0 : UInt64) else 1).toNat < UInt64.size := by
  have few : pageCount totalRows.toNat limit.toNat ≤ max 1 totalRows.toNat :=
    pageCount_le positive
  have room : totalRows.toNat < UInt64.size := totalRows.toNat_lt_size
  have great : 1 < UInt64.size := by decide
  rw [pageCount] at few
  simp only [mod_eq_zero_iff]
  split
  · rename_i divides
    rw [if_pos divides] at few
    simp only [UInt64.toNat_zero]
    omega
  · rename_i rest
    rw [if_neg rest] at few
    simp only [UInt64.toNat_one]
    omega

theorem toNat_countPages
    (totalRows : UInt64)
    {limit : UInt64}
    (positive : 1 ≤ limit.toNat) :
    (countPages totalRows limit).toNat = pageCount totalRows.toNat limit.toNat := by
  have room := div_add_rest_lt_size totalRows positive
  rw [countPages, if_neg (Paging.one_le_toNat_iff.mp positive), toNat_max_one, UInt64.toNat_add,
    UInt64.toNat_div, Nat.mod_eq_of_lt room, pageCount]
  simp only [mod_eq_zero_iff]
  split <;> simp

section Flags

variable (rows : List Document) (totalRows : UInt64) (paging : Paging)

/-- There is a next page exactly if rows are left behind the page, however many they are. -/
theorem hasNextPage_iff :
    (ofRows rows totalRows paging).hasNextPage = true ↔
      paging.skip.toNat + paging.limit.toNat < totalRows.toNat := by
  have room : totalRows.toNat < UInt64.size := totalRows.toNat_lt_size
  rw [ofRows, decide_eq_true_eq, UInt64.lt_iff_toNat_lt, Paging.toNat_saturate]
  omega

/-- There is a previous page exactly if the rows before the page fill one. -/
theorem hasPreviousPage_iff
    (positive : 1 ≤ paging.limit.toNat)
    (fits : ¬ paging.RunsOver) :
    (ofRows rows totalRows paging).hasPreviousPage = true ↔
      paging.limit.toNat ≤ paging.skip.toNat := by
  rw [ofRows, decide_eq_true_eq, UInt64.lt_iff_toNat_lt, UInt64.toNat_one,
    Paging.toNat_currentPage positive fits, Nat.lt_add_left_iff_pos, Nat.div_pos_iff]
  omega

end Flags

end Page

end SearchPipeline
