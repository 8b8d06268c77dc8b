import SearchPipeline.Proofs.PageArithmetic
import Mathlib.Data.List.Basic

/-!
# Following the next page

Whoever asks for the first page of some rows, and then for the next page as long as
there is one, sees every row once, in order.  No sum or product on the way reaches the
end of sixty-four bits, so pages lie behind one another as they do among the natural
numbers, and the number of pages is the quotient of rows and limit, rounded up.
-/

namespace SearchPipeline.Page

/-- The page with a number, out of a list of all rows. -/
def numbered
    (rows : List Document)
    (limit number : UInt64) :
    Page :=
  ofAllRows rows { limit, page := some number }

/-- The pages that are seen from a number on: the next one is asked for while there is one. -/
inductive Visits (rows : List Document) (limit : UInt64) : UInt64 → List Page → Prop where
  | last {number : UInt64}
      (final : (numbered rows limit number).hasNextPage = false) :
      Visits rows limit number [numbered rows limit number]
  | next {number : UInt64} {following : List Page}
      (more : (numbered rows limit number).hasNextPage = true)
      (rest : Visits rows limit (number + 1) following) :
      Visits rows limit number (numbered rows limit number :: following)

theorem Visits.unique
    {rows : List Document}
    {limit number : UInt64}
    {left right : List Page}
    (first : Visits rows limit number left)
    (second : Visits rows limit number right) :
    left = right := by
  induction first generalizing right with
  | last final =>
      cases second with
      | last => rfl
      | next more => simp [final] at more
  | next more rest induction =>
      cases second with
      | last final => simp [final] at more
      | next _ following => rw [induction following]

/-! ## One page -/

theorem rows_numbered
    (rows : List Document)
    (limit number : UInt64) :
    (numbered rows limit number).rows =
      (rows.drop (Paging.skip { limit, page := some number }).toNat).take limit.toNat :=
  rfl

section Numbered

variable {rows : List Document} {limit : UInt64}
  (bounded : rows.length < UInt64.size)
  (positive : 1 ≤ limit.toNat)

include bounded positive

theorem toNat_totalPages
    (number : UInt64) :
    (numbered rows limit number).totalPages.toNat = pageCount rows.length limit.toNat := by
  have total : (UInt64.ofNat rows.length).toNat = rows.length :=
    UInt64.toNat_ofNat_of_lt bounded
  have counted := toNat_countPages (UInt64.ofNat rows.length) positive
  rw [total] at counted
  exact counted

section Present

variable {number : Nat}
  (present : number ≤ pageCount rows.length limit.toNat)

include present

theorem toNat_ofNat_present : (UInt64.ofNat number).toNat = number := by
  have few : pageCount rows.length limit.toNat ≤ max 1 rows.length := pageCount_le positive
  have room : 1 < UInt64.size := by decide
  exact UInt64.toNat_ofNat_of_lt (by omega)

theorem rowsBefore_lt_size :
    ((UInt64.ofNat number).toNat - 1) * limit.toNat < UInt64.size := by
  have before := rowsBefore_le positive present
  rw [toNat_ofNat_present bounded positive present]
  omega

/-- The rows before a page are counted without running over. -/
theorem toNat_skip :
    (Paging.skip { limit, page := some (UInt64.ofNat number) }).toNat =
      (number - 1) * limit.toNat := by
  have skipped := Paging.toNat_skip_of_page (rowsBefore_lt_size bounded positive present)
  rw [toNat_ofNat_present bounded positive present] at skipped
  exact skipped

variable (counted : 1 ≤ number)

include counted

theorem hasNextPage_numbered_iff :
    (numbered rows limit (UInt64.ofNat number)).hasNextPage = true ↔
      number < pageCount rows.length limit.toNat := by
  have total : (UInt64.ofNat rows.length).toNat = rows.length :=
    UInt64.toNat_ofNat_of_lt bounded
  have through : (number - 1) * limit.toNat + limit.toNat = number * limit.toNat := by
    rw [← Nat.succ_mul, Nat.succ_eq_add_one, Nat.sub_add_cancel counted]
  rw [lt_pageCount_iff positive counted, numbered, ofAllRows, hasNextPage_iff, total,
    toNat_skip bounded positive present, through]

/-- A page reports the number that it was asked for by. -/
theorem page_numbered :
    (numbered rows limit (UInt64.ofNat number)).page = UInt64.ofNat number := by
  have asked : 1 ≤ (UInt64.ofNat number).toNat := by
    rw [toNat_ofNat_present bounded positive present]
    exact counted
  exact Paging.currentPage_of_page positive asked (rowsBefore_lt_size bounded positive present)

theorem hasPreviousPage_numbered_iff :
    (numbered rows limit (UInt64.ofNat number)).hasPreviousPage = true ↔ 1 < number := by
  have reported :
      Paging.currentPage { limit, page := some (UInt64.ofNat number) } = UInt64.ofNat number :=
    page_numbered bounded positive present counted
  rw [numbered, ofAllRows, ofRows, decide_eq_true_eq, reported, UInt64.lt_iff_toNat_lt,
    UInt64.toNat_one, toNat_ofNat_present bounded positive present]

end Present

/-! ## The walk -/

/-- From any page that is there, the pages up to the last one are seen. -/
theorem visits_from
    {number remaining : Nat}
    (counted : 1 ≤ number)
    (last : number + remaining = pageCount rows.length limit.toNat) :
    Visits rows limit (UInt64.ofNat number)
      ((List.range' number (remaining + 1)).map fun index =>
        numbered rows limit (UInt64.ofNat index)) := by
  have next := hasNextPage_numbered_iff bounded positive (by omega) counted
  induction remaining generalizing number with
  | zero =>
      refine .last ?_
      rw [← Bool.not_eq_true, next]
      omega
  | succ remaining induction =>
      have later : number + 1 + remaining = pageCount rows.length limit.toNat := by omega
      have following := induction (by omega) later
        (hasNextPage_numbered_iff bounded positive (by omega) (by omega))
      rw [UInt64.ofNat_add number 1] at following
      rw [List.range'_succ, List.map_cons]
      exact .next (next.mpr (by omega)) following

/-- The pages from a page on hold the rows that are not on the pages before it. -/
theorem flatMap_rows_from
    {number remaining : Nat}
    (counted : 1 ≤ number)
    (last : number + remaining = pageCount rows.length limit.toNat) :
    ((List.range' number (remaining + 1)).flatMap fun index =>
        (numbered rows limit (UInt64.ofNat index)).rows) =
      rows.drop ((number - 1) * limit.toNat) := by
  have present : number ≤ pageCount rows.length limit.toNat := by omega
  have skipped := toNat_skip bounded positive present
  induction remaining generalizing number with
  | zero =>
      have final : number < pageCount rows.length limit.toNat ↔
          number * limit.toNat < rows.length :=
        lt_pageCount_iff positive counted
      have through : (number - 1) * limit.toNat + limit.toNat = number * limit.toNat := by
        rw [← Nat.succ_mul, Nat.succ_eq_add_one, Nat.sub_add_cancel counted]
      have rest : (rows.drop ((number - 1) * limit.toNat)).length ≤ limit.toNat := by
        rw [List.length_drop]
        omega
      rw [List.range'_one, List.flatMap_singleton, rows_numbered, skipped,
        List.take_of_length_le rest]
  | succ remaining induction =>
      have later : number + 1 + remaining = pageCount rows.length limit.toNat := by omega
      have following := induction (by omega) later (by omega)
        (toNat_skip bounded positive (by omega))
      have through : number * limit.toNat = (number - 1) * limit.toNat + limit.toNat := by
        rw [← Nat.succ_mul, Nat.succ_eq_add_one, Nat.sub_add_cancel counted]
      rw [Nat.add_sub_cancel, through, ← List.drop_drop] at following
      rw [List.range'_succ, List.flatMap_cons, following, rows_numbered, skipped,
        List.take_append_drop]

end Numbered

/--
From the first page on, one walk and no other follows the next page as long as there is one.
It sees as many pages as each of them reports, in the order of their numbers; every page but
the first has a previous one, and their rows together are all rows in order.
-/
theorem visits_all_rows
    (rows : List Document)
    (limit : UInt64)
    (bounded : rows.length < UInt64.size)
    (positive : 1 ≤ limit) :
    ∃ pages : List Page,
      Visits rows limit 1 pages ∧
        (∀ other, Visits rows limit 1 other → other = pages) ∧
        (∀ page ∈ pages, page.totalPages.toNat = pages.length) ∧
        (∀ index page, pages[index]? = some page →
          page = numbered rows limit (UInt64.ofNat (index + 1)) ∧
            page.page.toNat = index + 1 ∧
            (page.hasPreviousPage = true ↔ index ≠ 0)) ∧
        pages.flatMap Page.rows = rows := by
  have least : 1 ≤ limit.toNat := UInt64.le_iff_toNat_le.mp positive
  obtain ⟨remaining, count⟩ : ∃ remaining, 1 + remaining = pageCount rows.length limit.toNat :=
    ⟨pageCount rows.length limit.toNat - 1, by rw [pageCount]; omega⟩
  have walk := visits_from bounded least (Nat.le_refl 1) count
  refine ⟨_, walk, fun other visits => visits.unique walk, ?_, ?_, ?_⟩
  · intro page member
    obtain ⟨index, -, rfl⟩ := List.mem_map.mp member
    rw [toNat_totalPages bounded least, List.length_map, List.length_range']
    omega
  · intro index page found
    obtain ⟨number, listed, rfl⟩ : ∃ number,
        (List.range' 1 (remaining + 1))[index]? = some number ∧
          numbered rows limit (UInt64.ofNat number) = page := by
      simpa using found
    obtain ⟨within, rfl⟩ : index < remaining + 1 ∧ 1 + index = number := by
      simpa [List.getElem?_eq_some_iff] using listed
    have present : 1 + index ≤ pageCount rows.length limit.toNat := by omega
    have previous := hasPreviousPage_numbered_iff bounded least present (by omega)
    refine ⟨by rw [Nat.add_comm], ?_, previous.trans (by omega)⟩
    rw [page_numbered bounded least present (by omega),
      toNat_ofNat_present bounded least present, Nat.add_comm]
  · rw [List.flatMap_map, flatMap_rows_from bounded least (Nat.le_refl 1) count, Nat.sub_self,
      Nat.zero_mul, List.drop_zero]

/-- Five rows on pages of two: there are three pages, of which the last one holds one row. -/
theorem visits_all_rows_five :
    5 < UInt64.size ∧ (1 : UInt64) ≤ 2 ∧
      ∃ pages,
        Visits (List.replicate 5 []) 2 1 pages ∧ pages.length = 3 ∧
          pages.flatMap Page.rows = List.replicate 5 [] := by
  obtain ⟨pages, walk, -, totals, -, all⟩ :=
    visits_all_rows (List.replicate 5 []) 2 (by decide) (by decide)
  have counted : (numbered (List.replicate 5 []) 2 1).totalPages.toNat = 3 := by decide
  have three : pages.length = 3 := by
    cases walk with
    | last => rw [← totals _ List.mem_cons_self, counted]
    | next => rw [← totals _ List.mem_cons_self, counted]
  exact ⟨by decide, by decide, pages, walk, three, all⟩

end SearchPipeline.Page
