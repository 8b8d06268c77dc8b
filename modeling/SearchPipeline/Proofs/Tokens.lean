import SearchPipeline.Proofs.NumberText

/-!
# The tokens of a printed value

Indenting a value puts white space between its tokens and nothing else.  Scanning
the text gives these tokens back, and the strings among them stand for the texts
they were written for.
-/

namespace SearchPipeline

namespace Json

namespace TextUnit

/-- The unit that a character of a text is written as. -/
def ofChar (char : Char) : TextUnit :=
  match char with
  | '\x08' | '\x0c' | '\n' | '\r' | '\t' => .char char
  | _ => if char.toNat < 32 then .code char.toNat else .char char

/-- The units that a text is written as. -/
def ofText (text : String) : List TextUnit :=
  text.toList.map ofChar

theorem value?_control
    (code : Nat)
    (small : code < 32) :
    Hex.value? ['0', '0', Nat.digitChar (code / 16), Nat.digitChar (code % 16)] = some code := by
  have checked : ∀ code < 32,
      Hex.value? ['0', '0', Nat.digitChar (code / 16), Nat.digitChar (code % 16)] = some code := by
    decide
  exact checked code small

theorem scan?_char
    {char : Char}
    (notQuote : char ≠ '"')
    (notSlash : char ≠ '\\')
    (printable : ¬char.toNat < 32)
    (rest : List Char) :
    scan? (char :: rest) = (scan? rest).map fun (units, rest) => (.char char :: units, rest) := by
  rw [scan?]
  · cases scan? rest with
    | none => rfl
    | some scanned => simp [printable]
  · exact notQuote
  · exact fun _ _ _ _ _ same => (notSlash same).elim
  · exact fun _ _ same => (notSlash same).elim

/-- A character that was escaped is scanned as its unit. -/
theorem scan?_escape
    (char : Char)
    (rest : List Char) :
    scan? (escape char ++ rest) =
      (scan? rest).map fun (units, rest) => (ofChar char :: units, rest) := by
  unfold escape
  split
  case h_8 notQuote notSlash notBack notFeed notLine notReturn notTab =>
    have same : ofChar char = if char.toNat < 32 then .code char.toNat else .char char := by
      simp [ofChar]
    rw [same]
    split
    · rename_i control
      have value := value?_control char.toNat control
      rw [List.cons_append, List.cons_append, List.cons_append, List.cons_append, List.cons_append,
        List.cons_append, List.nil_append, scan?, value]
      cases scan? rest <;> rfl
    · rename_i printable
      exact scan?_char notQuote notSlash printable rest
  all_goals
    rw [List.cons_append, List.cons_append, List.nil_append, scan?]
    · cases scan? rest <;> rfl
    · simp

/-- A text in quotes is scanned as its units, up to the closing quote. -/
theorem scan?_quoted
    (text : String)
    (rest : List Char) :
    scan? (text.toList.flatMap escape ++ '"' :: rest) = some (ofText text, rest) := by
  rw [ofText]
  induction text.toList with
  | nil => simp [scan?]
  | cons char chars induction =>
      rw [List.flatMap_cons, List.append_assoc, scan?_escape, induction]
      rfl

theorem ofChar_eq
    (char : Char) :
    ofChar char = .char char ∨ char.toNat < 32 ∧ ofChar char = .code char.toNat := by
  unfold ofChar
  split
  case h_6 =>
    split
    · exact Or.inr ⟨‹_›, rfl⟩
    · exact Or.inl rfl
  all_goals exact Or.inl rfl

theorem points_cons
    (char : Char)
    (units : List TextUnit) :
    points (ofChar char :: units) = char.toNat :: points units := by
  rcases ofChar_eq char with plain | ⟨control, coded⟩
  · rw [plain, points]
  · have notHigh : isHigh char.toNat = false := by
      simp only [isHigh, Bool.and_eq_false_iff, decide_eq_false_iff_not]
      omega
    rw [coded]
    cases units with
    | nil => rfl
    | cons unit units => cases unit <;> simp [points, notHigh]

/-- The units that a text is written as stand for that text. -/
@[simp]
theorem text?_ofText
    (text : String) :
    text? (ofText text) = some text := by
  have formed : isWellFormed (ofText text) = true := by
    rw [isWellFormed, ofText, List.all_map, List.all_eq_true]
    intro char _
    rcases ofChar_eq char with plain | ⟨-, coded⟩
    · simp [plain]
    · simp [coded]
  have points : points (ofText text) = text.toList.map Char.toNat := by
    rw [ofText]
    induction text.toList with
    | nil => rfl
    | cons char chars induction => rw [List.map_cons, points_cons, induction, List.map_cons]
  have chars : (text.toList.map Char.toNat).mapM char? = some text.toList := by
    induction text.toList with
    | nil => rfl
    | cons char chars induction =>
        have valid : char.toNat.isValidChar := char.valid
        have same : char? char.toNat = some char := by
          rw [char?, if_pos valid, Char.ofNat_toNat]
        simp [List.mapM_cons, same, induction]
  rw [text?, formed, if_pos rfl, points, chars, Option.map_some, String.ofList_toList]

end TextUnit

namespace Token

theorem head_of_scan?
    {text rest : List Char}
    {number : NumberText}
    (scanned : NumberText.scan? text = some (number, rest)) :
    ∃ first more, text = first :: more ∧ (first.isDigit = true ∨ first = '-') := by
  cases text with
  | nil => simp [NumberText.scan?, NumberText.scanUnsigned?] at scanned
  | cons first more =>
      refine ⟨first, more, rfl, ?_⟩
      by_cases sign : first = '-'
      · exact Or.inr sign
      · left
        have unsigned : NumberText.scan? (first :: more) =
            NumberText.scanUnsigned? false (first :: more) := by
          simp [NumberText.scan?, sign]
        rw [unsigned, NumberText.scanUnsigned?] at scanned
        split at scanned
        · assumption
        · contradiction

/-- A number at the front is the first token. -/
theorem scan_number
    {text rest : List Char}
    {number : NumberText}
    (scanned : NumberText.scan? text = some (number, rest)) :
    scan text = .number number :: scan rest := by
  obtain ⟨first, more, rfl, start⟩ := head_of_scan? scanned
  have other : ∀ char : Char, char.isDigit = false → char ≠ '-' → first ≠ char := by
    rintro char notDigit notSign rfl
    rcases start with digit | sign
    · rw [digit] at notDigit
      contradiction
    · exact notSign sign
  have visible : isSpace first = false := by
    simp [isSpace, other ' ', other '\t', other '\n', other '\r']
  rw [scan]
  case x_7 => exact fun _ same => (other 'n' rfl (by decide) same).elim
  case x_8 => exact fun _ same => (other 't' rfl (by decide) same).elim
  case x_9 => exact fun _ same => (other 'f' rfl (by decide) same).elim
  all_goals try exact other _ rfl (by decide)
  rw [visible, if_neg Bool.false_ne_true]
  split
  · rename_i written left again
    rw [scanned] at again
    cases again
    rfl
  · rename_i none
    rw [scanned] at none
    contradiction

/-- A quoted text at the front is the first token. -/
theorem scan_quote
    (text : String)
    (rest : List Char) :
    scan (quote text ++ rest) = .string (TextUnit.ofText text) :: scan rest := by
  have scanned := TextUnit.scan?_quoted text rest
  have written : quote text ++ rest = '"' :: (text.toList.flatMap escape ++ '"' :: rest) := by
    simp [quote]
  rw [written, scan]
  split
  · rename_i units left again
    rw [scanned] at again
    cases again
    rfl
  · rename_i none
    rw [scanned] at none
    contradiction

/-- The start of a line is white space. -/
theorem scan_newLine
    (depth : Nat)
    (rest : List Char) :
    scan (newLine depth ++ rest) = scan rest := by
  have indented (count : Nat) : scan (List.replicate count ' ' ++ rest) = scan rest := by
    induction count with
    | zero => rfl
    | succ count induction => simpa [List.replicate_succ, scan, isSpace] using induction
  simpa [newLine, scan, isSpace] using indented (2 * depth)

/-- Between a key and its value stand a colon and white space. -/
theorem scan_colon
    (rest : List Char) :
    scan (':' :: ' ' :: rest) = .colon :: scan rest := by
  simp [scan, isSpace]

/-- What follows a member of a list or an object: the others, each after a comma, and the end. -/
def following (close : Token) : List (List Token) → List Token
  | [] => [close]
  | member :: members => .comma :: (member ++ following close members)

/-- Members with commas between them, and the token that closes them. -/
def joined (close : Token) : List (List Token) → List Token
  | [] => [close]
  | member :: members => member ++ following close members

end Token

namespace NumberText

theorem endsNumber_cons
    {char : Char}
    (mark : char.isDigit = false ∧ char ≠ '.' ∧ char ≠ 'e' ∧ char ≠ 'E')
    (rest : List Char) :
    EndsNumber (char :: rest) := by
  intro first same
  rw [← Option.some.inj same]
  exact mark

theorem endsNumber_newLine
    (depth : Nat)
    (rest : List Char) :
    EndsNumber (newLine depth ++ rest) :=
  endsNumber_cons (by decide) _

theorem endsNumber_comma
    (rest : List Char) :
    EndsNumber (',' :: rest) :=
  endsNumber_cons (by decide) rest

end NumberText

/-! ## Values -/

mutual

/-- The tokens of a value. -/
def tokens : Json → List Token
  | .null => [.null]
  | .boolean value => [.boolean value]
  | .integer value => [.number (.ofInt value)]
  | .double value _ => [.number value.numberText]
  | .string value => [.string (TextUnit.ofText value)]
  | .array items => .openArray :: Token.joined .closeArray (itemTokens items)
  | .object entries => .openObject :: Token.joined .closeObject (entryTokens entries)
termination_by structural value => value

/-- The tokens of each item of a list. -/
def itemTokens : List Json → List (List Token)
  | [] => []
  | item :: items => item.tokens :: itemTokens items
termination_by structural items => items

/-- The tokens of each entry of an object. -/
def entryTokens : List (String × Json) → List (List Token)
  | [] => []
  | (key, value) :: entries =>
    (.string (TextUnit.ofText key) :: .colon :: value.tokens) :: entryTokens entries
termination_by structural entries => entries

end

mutual

/-- Scanning the text of a value gives its tokens, whatever ends it. -/
theorem scan_prettyText
    (depth : Nat)
    (value : Json)
    (rest : List Char)
    (ended : NumberText.EndsNumber rest) :
    Token.scan (prettyText depth value ++ rest) = value.tokens ++ Token.scan rest := by
  cases value with
  | null => simp [prettyText, tokens, Token.scan]
  | boolean value => cases value <;> simp [prettyText, tokens, Token.scan]
  | integer value =>
      have scanned := NumberText.scan?_chars (NumberText.isSound_ofInt value) ended
      rw [prettyText, tokens, ← NumberText.chars_ofInt, Token.scan_number scanned]
      rfl
  | double value finite =>
      have scanned := NumberText.scan?_chars value.isSound_numberText ended
      rw [prettyText, tokens, Binary64.toList_render finite, Token.scan_number scanned]
      rfl
  | string value =>
      rw [prettyText, tokens, Token.scan_quote]
      rfl
  | array items =>
      cases items with
      | nil => simp [prettyText, tokens, Token.scan, Token.joined, itemTokens]
      | cons item items =>
          have scanned := scan_prettyItems depth (item :: items) rest
          simpa [prettyText, tokens, Token.scan] using scanned
  | object entries =>
      cases entries with
      | nil => simp [prettyText, tokens, Token.scan, Token.joined, entryTokens]
      | cons entry entries =>
          have scanned := scan_prettyEntries depth (entry :: entries) rest
          simpa [prettyText, tokens, Token.scan] using scanned
termination_by structural value

theorem scan_prettyItems
    (depth : Nat)
    (items : List Json)
    (rest : List Char) :
    Token.scan (prettyItems depth items ++ rest) =
      Token.joined .closeArray (itemTokens items) ++ Token.scan rest := by
  match items with
  | [] => simp [prettyItems, Token.scan_newLine, Token.scan, itemTokens, Token.joined]
  | [item] =>
      have first := scan_prettyText (depth + 1) item (newLine depth ++ ']' :: rest)
        (NumberText.endsNumber_newLine depth (']' :: rest))
      simp only [prettyItems, List.append_assoc, List.cons_append, List.nil_append,
        Token.scan_newLine, first, itemTokens, Token.joined, Token.following]
      simp [Token.scan]
  | item :: other :: others =>
      have first := scan_prettyText (depth + 1) item
        (',' :: (prettyItems depth (other :: others) ++ rest)) (NumberText.endsNumber_comma _)
      have others := scan_prettyItems depth (other :: others) rest
      simp only [prettyItems, List.append_assoc, List.cons_append, Token.scan_newLine, first,
        itemTokens, Token.joined, Token.following]
      simp [Token.scan, others, itemTokens, Token.joined]
termination_by structural items

theorem scan_prettyEntries
    (depth : Nat)
    (entries : List (String × Json))
    (rest : List Char) :
    Token.scan (prettyEntries depth entries ++ rest) =
      Token.joined .closeObject (entryTokens entries) ++ Token.scan rest := by
  match entries with
  | [] => simp [prettyEntries, Token.scan_newLine, Token.scan, entryTokens, Token.joined]
  | [(key, value)] =>
      have first := scan_prettyText (depth + 1) value (newLine depth ++ '\x7d' :: rest)
        (NumberText.endsNumber_newLine depth ('\x7d' :: rest))
      simp only [prettyEntries, List.append_assoc, List.cons_append, List.nil_append,
        Token.scan_newLine, Token.scan_quote, Token.scan_colon, first, entryTokens, Token.joined,
        Token.following]
      simp [Token.scan]
  | (key, value) :: other :: others =>
      have first := scan_prettyText (depth + 1) value
        (',' :: (prettyEntries depth (other :: others) ++ rest)) (NumberText.endsNumber_comma _)
      have others := scan_prettyEntries depth (other :: others) rest
      simp only [prettyEntries, List.append_assoc, List.cons_append, List.nil_append,
        Token.scan_newLine, Token.scan_quote, Token.scan_colon, first, entryTokens, Token.joined,
        Token.following]
      simp [Token.scan, others, entryTokens, Token.joined]
termination_by structural entries

end

/-- The tokens of a value that stands alone in its text. -/
theorem scan_pretty
    (value : Json) :
    Token.scan (value.pretty ++ "\n").toList = value.tokens := by
  have scanned := scan_prettyText 0 value ['\n'] (NumberText.endsNumber_newLine 0 [])
  simpa [pretty, Token.scan, Token.isSpace] using scanned

end Json

end SearchPipeline
