import SearchPipeline.Proofs.PageArithmetic

/-!
# Paging with checked operations

A sum that does not fit into sixty-four bits wraps around, and a quotient by zero is zero,
where nothing checks for it.  Here the numbers of a page are computed a second time, by
operations that report both.  They report nothing and give the same numbers, but for one
place: pages of one row behind the greatest number of rows.  Saturating operations have a
result for all operands, so that the rows before a page need no check.
-/

namespace SearchPipeline

/-- Why an operation on numbers of sixty-four bits has no result. -/
inductive Fault where
  | overflow
  | divisionByZero
deriving DecidableEq

/-! ## Checked operations -/

namespace Checked

/-- The sum of two numbers, if it fits. -/
def add (left right : UInt64) : Except Fault UInt64 :=
  if left.toNat + right.toNat < UInt64.size then .ok (left + right) else .error .overflow

/-- The quotient of two numbers. -/
def div (dividend divisor : UInt64) : Except Fault UInt64 :=
  if divisor = 0 then .error .divisionByZero else .ok (dividend / divisor)

/-- The rest that a quotient leaves. -/
def mod (dividend divisor : UInt64) : Except Fault UInt64 :=
  if divisor = 0 then .error .divisionByZero else .ok (dividend % divisor)

theorem add_of_lt
    {left right : UInt64}
    (fits : left.toNat + right.toNat < UInt64.size) :
    add left right = .ok (left + right) :=
  if_pos fits

theorem add_of_not_lt
    {left right : UInt64}
    (great : ¬ left.toNat + right.toNat < UInt64.size) :
    add left right = .error .overflow :=
  if_neg great

theorem div_of_ne_zero
    {divisor : UInt64}
    (nonzero : divisor ≠ 0)
    (dividend : UInt64) :
    div dividend divisor = .ok (dividend / divisor) :=
  if_neg nonzero

theorem mod_of_ne_zero
    {divisor : UInt64}
    (nonzero : divisor ≠ 0)
    (dividend : UInt64) :
    mod dividend divisor = .ok (dividend % divisor) :=
  if_neg nonzero

end Checked

/-! ## The numbers of a page -/

namespace Paging

/-- The number of the page that starts behind the rows before it. -/
def checkedPage (paging : Paging) : Except Fault UInt64 :=
  if paging.limit = 0 then .ok 1
  else do
    let pagesBefore ← Checked.div paging.skip paging.limit
    Checked.add pagesBefore 1

/-- The check of the number of a page fails in one place, and gives the number elsewhere. -/
theorem checkedPage_eq
    (paging : Paging) :
    paging.checkedPage =
      if paging.RunsOver then .error .overflow else .ok paging.currentPage := by
  rw [checkedPage, currentPage]
  by_cases zero : paging.limit = 0
  · have inside : ¬ paging.RunsOver := by
      rintro ⟨single, -⟩
      rw [zero] at single
      cases single
    rw [if_pos zero, if_pos zero, if_neg inside]
  · have room := succ_div_lt_size_iff (one_le_toNat_iff.mpr zero)
    rw [← UInt64.toNat_div, ← UInt64.toNat_one] at room
    rw [if_neg zero, if_neg zero]
    calc
      (Checked.div paging.skip paging.limit >>= fun pagesBefore =>
            Checked.add pagesBefore 1) =
          Checked.add (paging.skip / paging.limit) 1 := by
        rw [Checked.div_of_ne_zero zero]
        rfl
      _ = if paging.RunsOver then .error .overflow else .ok (paging.skip / paging.limit + 1) := by
        split
        · rename_i last
          exact Checked.add_of_not_lt fun fits => room.mp fits last
        · rename_i inside
          exact Checked.add_of_lt (room.mpr inside)

end Paging

namespace Page

/-- How many pages there are. -/
def checkedCount (totalRows limit : UInt64) : Except Fault UInt64 :=
  if limit = 0 then .ok 1
  else do
    let full ← Checked.div totalRows limit
    let rest ← Checked.mod totalRows limit
    let count ← Checked.add full (if rest = 0 then 0 else 1)
    return max 1 count

theorem checkedCount_eq
    (totalRows limit : UInt64) :
    checkedCount totalRows limit = .ok (countPages totalRows limit) := by
  rw [checkedCount, countPages]
  by_cases zero : limit = 0
  · rw [if_pos zero, if_pos zero]
  · have room := div_add_rest_lt_size totalRows (Paging.one_le_toNat_iff.mpr zero)
    rw [← UInt64.toNat_div] at room
    rw [if_neg zero, if_neg zero, Checked.div_of_ne_zero zero, Checked.mod_of_ne_zero zero]
    exact congrArg (fun sum => sum >>= fun count => pure (max 1 count)) (Checked.add_of_lt room)

/--
The page with some rows, given the number of all rows.  All that it tells but its number,
the number of pages and what follows from these is given or saturates.
-/
def checked
    (rows : List Document)
    (totalRows : UInt64)
    (paging : Paging) :
    Except Fault Page := do
  let page ← paging.checkedPage
  let totalPages ← checkedCount totalRows paging.limit
  return { ofRows rows totalRows paging with
    page
    totalPages
    hasPreviousPage := 1 < page }

/-- A page is computed without a fault, but for the one place where its number does not fit. -/
theorem checked_eq
    (rows : List Document)
    (totalRows : UInt64)
    (paging : Paging) :
    checked rows totalRows paging =
      if paging.RunsOver then .error .overflow else .ok (ofRows rows totalRows paging) := by
  rw [checked, paging.checkedPage_eq, checkedCount_eq]
  split
  · rfl
  · rfl

/--
The numbers and flags of a page are those of the natural numbers.  The rows before it stop
at the greatest number, which never changes whether there is a next page; its number is the
quotient by the limit, counted from one, and is the requested one wherever the rows before
that page can be counted; there are as many pages as are needed to hold all rows.  Computing
it divides by nothing that is zero, and overflows only in the number of a page of one row
behind the greatest number of rows.
-/
theorem ofRows_exact
    (rows : List Document)
    (totalRows : UInt64)
    (paging : Paging) :
    paging.checkedPage =
        (if paging.limit = 1 ∧ paging.skip.toNat = UInt64.size - 1 then .error .overflow
          else .ok paging.currentPage) ∧
      checked rows totalRows paging =
        (if paging.limit = 1 ∧ paging.skip.toNat = UInt64.size - 1 then .error .overflow
          else .ok (ofRows rows totalRows paging)) ∧
      (ofRows rows totalRows paging).offset = paging.skip ∧
      paging.skip.toNat =
        (match paging.offset, paging.page with
        | some offset, _ => offset.toNat
        | none, some page =>
          min ((max page.toNat 1 - 1) * paging.limit.toNat) (UInt64.size - 1)
        | none, none => 0) ∧
      ((ofRows rows totalRows paging).hasNextPage = true ↔
        paging.skip.toNat + paging.limit.toNat < totalRows.toNat) ∧
      (1 ≤ paging.limit → ¬ (paging.limit = 1 ∧ paging.skip.toNat = UInt64.size - 1) →
        (ofRows rows totalRows paging).page.toNat =
          paging.skip.toNat / paging.limit.toNat + 1) ∧
      (1 ≤ paging.limit →
        IsLeast {count : Nat | 1 ≤ count ∧ totalRows.toNat ≤ count * paging.limit.toNat}
          (ofRows rows totalRows paging).totalPages.toNat) ∧
      ∀ page, 1 ≤ paging.limit → paging.offset = none → paging.page = some page → 1 ≤ page →
        (page.toNat - 1) * paging.limit.toNat < UInt64.size →
        (ofRows rows totalRows paging).page = page := by
  refine ⟨paging.checkedPage_eq, checked_eq rows totalRows paging, rfl, paging.toNat_skip,
    hasNextPage_iff rows totalRows paging, ?_, ?_, ?_⟩
  · intro positive fits
    exact Paging.toNat_currentPage (UInt64.le_iff_toNat_le.mp positive) fits
  · intro positive
    have least : 1 ≤ paging.limit.toNat := UInt64.le_iff_toNat_le.mp positive
    rw [ofRows, toNat_countPages totalRows least]
    exact isLeast_pageCount least
  · intro page positive unset requested counted fits
    rcases paging with ⟨limit, _, _⟩
    cases unset
    cases requested
    exact Paging.currentPage_of_page (UInt64.le_iff_toNat_le.mp positive)
      (UInt64.le_iff_toNat_le.mp counted) fits

/-- The page of three rows that starts behind the greatest number of rows still has its number. -/
theorem ofRows_exact_last :
    ∃ page : UInt64,
      page = 6148914691236517206 ∧
      Paging.skip { limit := 3, page := some page } = 18446744073709551615 ∧
      checked [] 18446744073709551615 { limit := 3, page := some page } =
        .ok (ofRows [] 18446744073709551615 { limit := 3, page := some page }) ∧
      (ofRows [] 18446744073709551615 { limit := 3, page := some page }).page = page := by
  obtain ⟨-, exact, -, -, -, -, -, requested⟩ :=
    ofRows_exact [] 18446744073709551615 { limit := 3, page := some 6148914691236517206 }
  refine ⟨_, rfl, by decide +kernel, ?_, ?_⟩
  · rw [exact, if_neg (by decide +kernel)]
  · exact requested _ (by decide) rfl rfl (by decide) (by decide +kernel)

end Page

end SearchPipeline
