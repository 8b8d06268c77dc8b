import SearchPipeline.FieldList
import Mathlib.Data.List.DropRight

/-!
# What a text of names lists

A comma divides what a text lists, and between commas stands either a name with white space
around it or white space alone.  Every text lists exactly one sequence of names in this sense,
the one that is read from it, and names are read back from their own list.
-/

namespace SearchPipeline

namespace Blank

/-- A text neither starts nor ends with white space. -/
structure IsTight (text : List Char) : Prop where
  first : ∀ char ∈ text.head?, isBlank char = false
  last : ∀ char ∈ text.getLast?, isBlank char = false

theorem dropWhile_eq_self
    {text : List Char}
    (first : ∀ char ∈ text.head?, isBlank char = false) :
    text.dropWhile isBlank = text := by
  cases text with
  | nil => rfl
  | cons char rest => simp [first char rfl]

theorem trim_eq_nil
    {text : List Char}
    (blank : ∀ char ∈ text, isBlank char = true) :
    trim text = [] := by
  rw [trim, List.dropWhile_eq_nil_iff.mpr blank]
  rfl

/-- White space around a text is trimmed, and no more. -/
theorem trim_around
    {before text after : List Char}
    (tight : IsTight text)
    (filled : text ≠ [])
    (blankBefore : ∀ char ∈ before, isBlank char = true)
    (blankAfter : ∀ char ∈ after, isBlank char = true) :
    trim (before ++ text ++ after) = text := by
  have start : ∀ char ∈ (text ++ after).head?, isBlank char = false := by
    rw [List.head?_append_of_ne_nil _ filled]
    exact tight.first
  have finish : ∀ char ∈ text.reverse.head?, isBlank char = false := by
    rw [List.head?_reverse]
    exact tight.last
  have blankReversed : ∀ char ∈ after.reverse, isBlank char = true := by
    intro char member
    exact blankAfter char (List.mem_reverse.mp member)
  rw [trim, List.append_assoc, List.dropWhile_append_of_pos blankBefore, dropWhile_eq_self start,
    List.reverse_append, List.dropWhile_append_of_pos blankReversed, dropWhile_eq_self finish,
    List.reverse_reverse]

theorem not_isBlank_of_head?_dropWhile
    (text : List Char)
    {char : Char}
    (found : char ∈ (text.dropWhile isBlank).head?) :
    isBlank char = false := by
  have stop := List.head?_dropWhile_not isBlank text
  rw [found] at stop
  exact stop

theorem trim_eq_rdropWhile (text : List Char) :
    trim text = (text.dropWhile isBlank).rdropWhile isBlank :=
  rfl

theorem isTight_trim (text : List Char) :
    IsTight (trim text) where
  first char found := by
    obtain ⟨after, same⟩ := List.rdropWhile_prefix isBlank (l := text.dropWhile isBlank)
    apply not_isBlank_of_head?_dropWhile text
    rw [← same, List.head?_append, ← trim_eq_rdropWhile, found]
    rfl
  last char found := by
    rw [trim, List.getLast?_reverse] at found
    exact not_isBlank_of_head?_dropWhile _ found

/-- A text is what is left when it is trimmed, with white space around it. -/
theorem exists_eq_around_trim (text : List Char) :
    ∃ before after, text = before ++ trim text ++ after ∧
      (∀ char ∈ before, isBlank char = true) ∧ ∀ char ∈ after, isBlank char = true := by
  refine ⟨text.takeWhile isBlank, (text.dropWhile isBlank).rtakeWhile isBlank, ?_, ?_, ?_⟩
  · rw [List.append_assoc, trim_eq_rdropWhile, List.rdropWhile_append_rtakeWhile,
      List.takeWhile_append_dropWhile]
  · intro char member
    exact List.mem_takeWhile_imp member
  · intro char member
    exact List.mem_rtakeWhile_imp member

end Blank

namespace FieldList

open Blank (isBlank trim IsTight)

/-- A name as a list has it: with no comma in it and no white space at its ends. -/
structure IsName (name : String) : Prop where
  nonempty : name ≠ ""
  noComma : ',' ∉ name.toList
  tight : IsTight name.toList

/-- Names that a text lists: names with white space around them, and commas between these. -/
inductive Lists : String → List String → Prop
  | blank
    {text : String}
    (blank : ∀ char ∈ text.toList, isBlank char = true) :
    Lists text []
  | name
    {before name after : String}
    (isName : IsName name)
    (blankBefore : ∀ char ∈ before.toList, isBlank char = true)
    (blankAfter : ∀ char ∈ after.toList, isBlank char = true) :
    Lists (before ++ name ++ after) [name]
  | comma
    {left right : String}
    {leftNames rightNames : List String}
    (leftLists : Lists left leftNames)
    (rightLists : Lists right rightNames) :
    Lists (left ++ "," ++ right) (leftNames ++ rightNames)

theorem Lists.isName
    {text : String}
    {names : List String}
    (lists : Lists text names) :
    ∀ name ∈ names, IsName name := by
  induction lists with
  | blank => simp
  | name isName => simpa using isName
  | comma _ _ left right =>
      intro name member
      rcases List.mem_append.mp member with member | member
      · exact left name member
      · exact right name member

/-- A comma divides the names that are read. -/
theorem parse_append_comma (left right : String) :
    parse (left ++ "," ++ right) = parse left ++ parse right := by
  have divided : (left ++ "," ++ right).toList = left.toList ++ ',' :: right.toList := by
    simp
  rw [parse, divided, pieces_append_comma, List.map_append, List.filter_append, List.map_append]
  rfl

theorem pieces_eq_singleton
    {text : List Char}
    (plain : ',' ∉ text) :
    pieces text = [text] := by
  induction text with
  | nil => rfl
  | cons char rest induction =>
      rw [List.mem_cons, not_or] at plain
      rw [pieces, if_neg (Ne.symm plain.1), induction plain.2]

theorem comma_notMem_of_blank
    {text : List Char}
    (blank : ∀ char ∈ text, isBlank char = true) :
    ',' ∉ text := by
  intro member
  have ink : isBlank ',' = false := by decide
  exact Bool.noConfusion (ink.symm.trans (blank ',' member))

/-- Of a text without a comma, what is left when it is trimmed is the only name, if any. -/
theorem parse_of_plain
    {text : String}
    (plain : ',' ∉ text.toList) :
    parse text = if trim text.toList = [] then [] else [String.ofList (trim text.toList)] := by
  rw [parse, pieces_eq_singleton plain]
  split
  next empty => simp [empty]
  next filled => simp [filled]

/-- What a text lists is read from it. -/
theorem Lists.parse_eq
    {text : String}
    {names : List String}
    (lists : Lists text names) :
    parse text = names := by
  induction lists with
  | blank blank =>
      rw [parse_of_plain (comma_notMem_of_blank blank), if_pos (Blank.trim_eq_nil blank)]
  | @name before name after isName blankBefore blankAfter =>
      have filled : name.toList ≠ [] := by
        intro empty
        exact isName.nonempty (String.toList_eq_nil_iff.mp empty)
      have plain : ',' ∉ (before ++ name ++ after).toList := by
        simp [comma_notMem_of_blank blankBefore, isName.noComma, comma_notMem_of_blank blankAfter]
      rw [parse_of_plain plain, String.toList_append, String.toList_append,
        Blank.trim_around isName.tight filled blankBefore blankAfter, if_neg filled,
        String.ofList_toList]
  | comma _ _ left right => rw [parse_append_comma, left, right]

/-- A text without a comma lists a name with white space around it, or is blank. -/
theorem exists_lists_of_plain
    {text : List Char}
    (plain : ',' ∉ text) :
    ∃ names, Lists (String.ofList text) names := by
  obtain ⟨before, after, same, blankBefore, blankAfter⟩ := Blank.exists_eq_around_trim text
  by_cases empty : trim text = []
  · refine ⟨[], .blank ?_⟩
    rw [String.toList_ofList, same, empty, List.append_nil, List.forall_mem_append]
    exact ⟨blankBefore, blankAfter⟩
  · have isName : IsName (String.ofList (trim text)) := by
      refine ⟨?_, ?_, ?_⟩
      · rwa [Ne, ← String.toList_eq_nil_iff, String.toList_ofList]
      · rw [same, List.mem_append, List.mem_append, not_or, not_or] at plain
        rw [String.toList_ofList]
        exact plain.1.2
      · rw [String.toList_ofList]
        exact Blank.isTight_trim text
    rw [← String.toList_ofList (l := before)] at blankBefore
    rw [← String.toList_ofList (l := after)] at blankAfter
    have listed := Lists.name isName blankBefore blankAfter
    rw [← String.ofList_append, ← String.ofList_append, ← same] at listed
    exact ⟨_, listed⟩

/-- Every text lists some names: its first comma divides it into two shorter texts. -/
theorem exists_lists (text : List Char) :
    ∃ names, Lists (String.ofList text) names := by
  by_cases divided : ',' ∈ text
  · -- Only what follows the first comma may have another one.
    obtain ⟨left, right, same, plain⟩ := List.eq_append_cons_of_mem divided
    obtain ⟨leftNames, leftLists⟩ := exists_lists_of_plain plain
    obtain ⟨rightNames, rightLists⟩ := exists_lists right
    have listed := leftLists.comma rightLists
    have joined : String.ofList left ++ "," ++ String.ofList right = String.ofList text := by
      apply String.toList_inj.mp
      simp [same]
    rw [joined] at listed
    exact ⟨_, listed⟩
  · exact exists_lists_of_plain divided
termination_by text.length
decreasing_by
  rw [same, List.length_append, List.length_cons]
  omega

/-- A text lists exactly the names that are read from it. -/
theorem parse_eq_iff_lists
    {text : String}
    {names : List String} :
    parse text = names ↔ Lists text names := by
  constructor
  · rintro rfl
    obtain ⟨names, lists⟩ := exists_lists text.toList
    rw [String.ofList_toList] at lists
    rwa [lists.parse_eq]
  · exact Lists.parse_eq

theorem IsName.lists
    {name : String}
    (isName : IsName name) :
    Lists name [name] := by
  have nothing : ∀ char ∈ "".toList, isBlank char = true := by simp
  simpa using Lists.name isName nothing nothing

/-- Names are listed by their own list. -/
theorem lists_render
    {names : List String}
    (areNames : ∀ name ∈ names, IsName name) :
    Lists (render names) names := by
  induction names with
  | nil => exact .blank (by simp [render])
  | cons name names induction =>
      rw [List.forall_mem_cons] at areNames
      cases names with
      | nil => simpa [render] using areNames.1.lists
      | cons next following =>
          rw [render, String.intercalate_cons_cons]
          exact areNames.1.lists.comma (induction areNames.2)

/--
A comma divides what a text lists, and between commas stands a name with white space around it
or white space alone: a text lists exactly the names that are read from it.  None of these is
empty, has a comma or has white space at its ends, and lists of such names, also those that are
read from a text, are read back from their own text.
-/
theorem parse_lists_names :
    (∀ text names, parse text = names ↔ Lists text names) ∧
      (∀ left right, parse (left ++ "," ++ right) = parse left ++ parse right) ∧
      (∀ text, ∀ name ∈ parse text, IsName name) ∧
      (∀ text, parse (render (parse text)) = parse text) ∧
      ∀ names, parse (render names) = names ↔ ∀ name ∈ names, IsName name := by
  have areNames (text : String) : ∀ name ∈ parse text, IsName name :=
    (parse_eq_iff_lists.mp rfl).isName
  refine ⟨fun text names => parse_eq_iff_lists, parse_append_comma, areNames, ?_, ?_⟩
  · intro text
    exact (lists_render (areNames text)).parse_eq
  · intro names
    constructor
    · intro same
      rw [← same]
      exact areNames _
    · intro areNames
      exact (lists_render areNames).parse_eq

/-- White space of any kind is no part of a name, and a name with some at an end is none. -/
theorem parse_lists_names_padded :
    parse "\u3000createdBy, ,\u00A0owner team\n," = ["createdBy", "owner team"] ∧
      parse (render ["createdBy", "owner team"]) = ["createdBy", "owner team"] ∧
      parse (render ["createdBy", " owner"]) ≠ ["createdBy", " owner"] := by
  obtain ⟨listed, -, areNames, -, kept⟩ := parse_lists_names
  have first : IsName "createdBy" := areNames "createdBy" _ (by decide)
  have second : IsName "owner team" := areNames "owner team" _ (by decide)
  refine ⟨(listed _ _).mpr ?_, (kept _).mpr (by simp [first, second]), ?_⟩
  · have before : Lists ("\u3000" ++ "createdBy" ++ "") ["createdBy"] :=
      .name first (List.all_eq_true.mp (by decide)) (List.all_eq_true.mp (by decide))
    have between : Lists " " [] := .blank (List.all_eq_true.mp (by decide))
    have after : Lists ("\u00A0" ++ "owner team" ++ "\n") ["owner team"] :=
      .name second (List.all_eq_true.mp (by decide)) (List.all_eq_true.mp (by decide))
    have behind : Lists "" [] := .blank (List.all_eq_true.mp (by decide))
    exact before.comma (between.comma (after.comma behind))
  · intro same
    have padded := ((kept _).mp same " owner" (by decide)).tight.first ' ' (by decide)
    exact absurd padded (by decide)

end FieldList

end SearchPipeline
