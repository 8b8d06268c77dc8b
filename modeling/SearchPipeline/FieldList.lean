import SearchPipeline.Text.Blank

/-!
# Lists of field names in one text

Names are separated by commas; white space around a name does not count, and a
name that is nothing but white space is no name.
-/

namespace SearchPipeline.FieldList

/-- The pieces between commas, in order; there is one more of them than commas. -/
def pieces : List Char → List (List Char)
  | [] => [[]]
  | char :: rest =>
    if char = ',' then [] :: pieces rest
    else
      match pieces rest with
      | [] => [[char]]
      | piece :: others => (char :: piece) :: others

theorem pieces_ne_nil
    (text : List Char) :
    pieces text ≠ [] := by
  cases text with
  | nil => exact List.cons_ne_nil _ _
  | cons char rest =>
      unfold pieces
      split
      · exact List.cons_ne_nil _ _
      · split
        · exact List.cons_ne_nil _ _
        · exact List.cons_ne_nil _ _

/-- A comma between two texts parts the pieces of one from those of the other. -/
theorem pieces_append_comma
    (left right : List Char) :
    pieces (left ++ ',' :: right) = pieces left ++ pieces right := by
  induction left with
  | nil => rfl
  | cons char rest induction =>
      by_cases comma : char = ','
      · simp [pieces, comma, induction]
      · obtain ⟨piece, others, found⟩ := List.exists_cons_of_ne_nil (pieces_ne_nil rest)
        simp [pieces, comma, induction, found]

/-- The names listed in a text. -/
def parse (text : String) : List String :=
  (((pieces text.toList).map Blank.trim).filter (!·.isEmpty)).map String.ofList

/-- The text that lists names. -/
def render (names : List String) : String :=
  String.intercalate "," names

end SearchPipeline.FieldList
