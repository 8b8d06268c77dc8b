import SearchPipeline.Proofs.PageArithmetic

/-!
# The flags of a page

Whether there is a next page is told from the rows that are left behind, whether there is
a previous one from the number of the page.  So the first flag agrees with the number of
pages unless pages have no rows, and the second one with the rows before the page unless
these rows fill no page.
-/

namespace SearchPipeline.Page

variable (rows : List Document) (totalRows : UInt64) (paging : Paging)

/-! ## The next page -/

/-- On pages without rows there is one page, which is the first one. -/
theorem page_eq_totalPages
    {paging : Paging}
    (zero : paging.limit = 0) :
    (ofRows rows totalRows paging).page = (ofRows rows totalRows paging).totalPages := by
  simp only [ofRows, Paging.currentPage, countPages, if_pos zero]

/-- A page of rows that leaves rows behind is counted before the last one. -/
theorem page_lt_totalPages
    {totalRows : UInt64}
    {paging : Paging}
    (positive : 1 ≤ paging.limit.toNat)
    (left : paging.skip.toNat + paging.limit.toNat < totalRows.toNat) :
    (ofRows rows totalRows paging).page < (ofRows rows totalRows paging).totalPages := by
  -- Behind the greatest number of rows there are none, so that the page's number fits.
  have fits : ¬ paging.RunsOver := by
    rintro ⟨-, last⟩
    have room : totalRows.toNat < UInt64.size := totalRows.toNat_lt_size
    omega
  have through :
      (paging.skip.toNat / paging.limit.toNat + 1) * paging.limit.toNat ≤
        paging.skip.toNat + paging.limit.toNat := by
    rw [Nat.succ_mul]
    exact Nat.add_le_add_right (Nat.div_mul_le_self _ _) _
  rw [ofRows, UInt64.lt_iff_toNat_lt, Paging.toNat_currentPage positive fits,
    toNat_countPages totalRows positive, lt_pageCount_iff positive (Nat.le_add_left 1 _)]
  exact Nat.lt_of_le_of_lt through left

/--
A page that has a next one has a number below the number of pages, exactly if pages have
rows at all, or no row is left behind the rows before the page.
-/
theorem page_lt_totalPages_of_next_iff :
    ((ofRows rows totalRows paging).hasNextPage = true →
        (ofRows rows totalRows paging).page < (ofRows rows totalRows paging).totalPages) ↔
      1 ≤ paging.limit ∨ totalRows ≤ paging.skip := by
  rw [hasNextPage_iff, UInt64.le_iff_toNat_le, UInt64.le_iff_toNat_le, UInt64.toNat_one]
  rcases Nat.eq_zero_or_pos paging.limit.toNat with zero | positive
  · have same := page_eq_totalPages rows totalRows (UInt64.toNat_inj.mp zero)
    rw [same, zero]
    constructor
    · intro coherent
      refine .inr (Nat.not_lt.mp fun left => ?_)
      exact UInt64.lt_irrefl _ (coherent left)
    · rintro (nonzero | complete) left
      · omega
      · omega
  · exact ⟨fun _ => .inl positive, fun _ => page_lt_totalPages rows positive⟩

/-- Of five rows on pages without rows, the only page is told to have a next one. -/
theorem hasNextPage_of_last_page :
    (ofRows [] 5 { limit := 0 }).hasNextPage = true ∧
      (ofRows [] 5 { limit := 0 }).page = 1 ∧
      (ofRows [] 5 { limit := 0 }).totalPages = 1 ∧
      ¬ (ofRows [] 5 { limit := 0 }).page < (ofRows [] 5 { limit := 0 }).totalPages := by
  decide

/-! ## The previous page -/

/--
A page has a previous one exactly if rows stand before it, if and only if there are none
of them or so many that they fill a page; the next page is told from rows in any case.
-/
theorem hasPreviousPage_iff_rows_iff
    (positive : 1 ≤ paging.limit)
    (fits : ¬ (paging.limit = 1 ∧ paging.skip.toNat = UInt64.size - 1)) :
    (((ofRows rows totalRows paging).hasPreviousPage = true ↔
          0 < (ofRows rows totalRows paging).offset) ↔
        (ofRows rows totalRows paging).offset = 0 ∨
          paging.limit ≤ (ofRows rows totalRows paging).offset) ∧
      ((ofRows rows totalRows paging).hasNextPage = true ↔
        (ofRows rows totalRows paging).offset.toNat + paging.limit.toNat < totalRows.toNat) := by
  have least : 1 ≤ paging.limit.toNat := UInt64.le_iff_toNat_le.mp positive
  have offset : (ofRows rows totalRows paging).offset = paging.skip :=
    rfl
  refine ⟨?_, hasNextPage_iff rows totalRows paging⟩
  rw [hasPreviousPage_iff rows totalRows paging least fits, offset, UInt64.lt_iff_toNat_lt,
    UInt64.le_iff_toNat_le, ← UInt64.toNat_inj, UInt64.toNat_zero]
  omega

/-- Behind two pages of ten rows and five more, there is a previous page. -/
theorem hasPreviousPage_iff_rows_third :
    (1 : UInt64) ≤ 10 ∧
      ¬ ((10 : UInt64) = 1 ∧ (25 : UInt64).toNat = UInt64.size - 1) ∧
      (10 : UInt64) ≤ (ofRows [] 40 { limit := 10, offset := some 25 }).offset ∧
      ((ofRows [] 40 { limit := 10, offset := some 25 }).hasPreviousPage = true ↔
        0 < (ofRows [] 40 { limit := 10, offset := some 25 }).offset) := by
  have positive : (1 : UInt64) ≤ 10 := by decide
  have fits : ¬ ((10 : UInt64) = 1 ∧ (25 : UInt64).toNat = UInt64.size - 1) := by decide
  have whole : (10 : UInt64) ≤ 25 := by decide
  obtain ⟨agrees, -⟩ :=
    hasPreviousPage_iff_rows_iff [] 40 { limit := 10, offset := some 25 } positive fits
  exact ⟨positive, fits, whole, agrees.mpr (.inr whole)⟩

/-- Behind five rows, on pages of ten, there is none. -/
theorem hasPreviousPage_behind_rows :
    (ofRows [] 25 { limit := 10, offset := some 5 }).hasPreviousPage = false ∧
      0 < (ofRows [] 25 { limit := 10, offset := some 5 }).offset ∧
      (1 : UInt64) ≤ 10 := by
  decide

end SearchPipeline.Page
