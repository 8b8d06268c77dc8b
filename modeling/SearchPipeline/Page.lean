import SearchPipeline.Bson.Json

/-!
# Pages

Rows are counted and skipped in sixty-four bits.  Sums and products that do not
fit stop at the greatest number there is, so that a page far behind the last row
is empty and never wraps around to the first rows.
-/

namespace SearchPipeline

/-- Which page of rows is wanted: how many rows it has, and its number or the rows before it. -/
structure Paging where
  limit : UInt64
  page : Option UInt64 := none
  offset : Option UInt64 := none
deriving DecidableEq

namespace Paging

/-- The number of sixty-four bits that is nearest to a natural number. -/
def saturate (value : Nat) : UInt64 :=
  UInt64.ofNat (min value (UInt64.size - 1))

@[simp]
theorem toNat_saturate
    (value : Nat) :
    (saturate value).toNat = min value (UInt64.size - 1) := by
  have bounded : min value (UInt64.size - 1) < UInt64.size := by
    have := Nat.min_le_right value (UInt64.size - 1)
    simp only [UInt64.size] at this ⊢
    omega
  exact UInt64.toNat_ofNat_of_lt bounded

/-- The rows before the page: the given number of them, or those of the pages before it. -/
def skip (paging : Paging) : UInt64 :=
  match paging.offset, paging.page with
  | some offset, _ => offset
  | none, some page => saturate ((page.toNat - 1) * paging.limit.toNat)
  | none, none => 0

/-- The number of the page that starts behind the rows before it, counted from one. -/
def currentPage (paging : Paging) : UInt64 :=
  if paging.limit = 0 then 1 else paging.skip / paging.limit + 1

end Paging

/-- A page of rows and where it lies among all rows. -/
structure Page where
  rows : List Document
  totalRows : UInt64
  limit : UInt64
  page : UInt64
  offset : UInt64
  totalPages : UInt64
  hasPreviousPage : Bool
  hasNextPage : Bool

namespace Page

/-- How many pages there are; there is always one. -/
def countPages (totalRows limit : UInt64) : UInt64 :=
  if limit = 0 then 1
  else max 1 (totalRows / limit + if totalRows % limit = 0 then 0 else 1)

/-- The page with some rows, given the number of all rows. -/
def ofRows
    (rows : List Document)
    (totalRows : UInt64)
    (paging : Paging) :
    Page where
  rows := rows
  totalRows := totalRows
  limit := paging.limit
  page := paging.currentPage
  offset := paging.skip
  totalPages := countPages totalRows paging.limit
  hasPreviousPage := 1 < paging.currentPage
  hasNextPage := Paging.saturate (paging.skip.toNat + paging.limit.toNat) < totalRows

/-- The page that is wanted out of a list of all rows. -/
def ofAllRows
    (rows : List Document)
    (paging : Paging) :
    Page :=
  ofRows ((rows.drop paging.skip.toNat).take paging.limit.toNat) (UInt64.ofNat rows.length) paging

/-- The JSON of a page. -/
def toJson (page : Page) : Json :=
  .object
    [("docs", .array (page.rows.map Document.toJson)),
      ("totalDocs", .integer page.totalRows.toNat),
      ("limit", .integer page.limit.toNat),
      ("page", .integer page.page.toNat),
      ("offset", .integer page.offset.toNat),
      ("totalPages", .integer page.totalPages.toNat),
      ("hasPrevPage", .boolean page.hasPreviousPage),
      ("hasNextPage", .boolean page.hasNextPage)]

end Page

end SearchPipeline
