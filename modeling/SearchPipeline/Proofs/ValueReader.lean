import SearchPipeline.Proofs.AcceptedValues
import SearchPipeline.Proofs.Stage

/-!
# What comes of a JSON value

Values are read aligned: whatever JSON value stands at the front, reading takes just
that value or refuses it.  An object whose keys name no kind becomes a document with
these keys; any other object becomes something else, or nothing.
-/

namespace SearchPipeline

open Json Json.Reader

namespace Bson

/-! ## Typed values -/

theorem aligned_readLong : Aligned readLong :=
  aligned_readString.bind fun _ => (idle_orMalformed _).bind fun _ => idle_pure _

theorem aligned_readWord : Aligned readWord := by
  refine aligned_readNatural.bind fun value => ?_
  split
  · exact idle_pure _
  · exact idle_malformed

theorem aligned_readOne : Aligned readOne := by
  refine aligned_readNumber.bind fun number => ?_
  split
  · exact idle_pure _
  · exact idle_malformed

theorem aligned_readBytes
    (levels : Nat) :
    Aligned (readBytes levels) := by
  have listed : Aligned (enter levels fun _ => list readByte) :=
    aligned_enter (fun _ => aligned_list aligned_readByte) levels
  intro value
  cases value with
  | string text => exact ⟨some (TextUnit.bytes (TextUnit.ofText text)), fun _ => rfl⟩
  | null => exact listed .null
  | boolean value => exact listed (.boolean value)
  | integer value => exact listed (.integer value)
  | double value finite => exact listed (.double value finite)
  | array items => exact listed (.array items)
  | object entries => exact listed (.object entries)

theorem aligned_readRegex
    (levels : Nat) :
    Aligned (readRegex levels) := by
  have parts := aligned_pairSlots aligned_readString aligned_readString
  refine (aligned_enter (fun _ => aligned_record (parts _ _) _) levels).bind ?_
  rintro ⟨pattern, options⟩
  dsimp only
  split
  · exact idle_pure _
  · exact idle_malformed

theorem aligned_readBinary
    (levels : Nat) :
    Aligned (readBinary levels) := by
  have parts := aligned_pairSlots aligned_readString aligned_readString
  refine (aligned_enter (fun _ => aligned_record (parts _ _) _) levels).bind ?_
  rintro ⟨bytes, kind⟩
  refine (idle_orMalformed _).bind fun bytes => ?_
  split
  · exact idle_pure _
  · exact idle_malformed

theorem aligned_readTimestamp
    (levels : Nat) :
    Aligned (readTimestamp levels) := by
  have parts := aligned_pairSlots aligned_readWord aligned_readWord
  exact (aligned_enter (fun _ => aligned_record (parts _ _) _) levels).bind fun _ => idle_pure _

theorem aligned_readDbPointer
    (levels : Nat) :
    Aligned (readDbPointer levels) := by
  have part := aligned_singleSlot aligned_readString
  have identifier := aligned_enter fun _ => aligned_record (part "$oid") ""
  have parts (levels : Nat) := aligned_pairSlots aligned_readString (identifier levels)
  refine (aligned_enter (fun levels => aligned_record (parts levels _ _) _) levels).bind fun _ => ?_
  exact (idle_orMalformed _).bind fun _ => idle_pure _

theorem aligned_readDate
    (levels : Nat) :
    Aligned (readDate levels) := by
  refine aligned_peek_bind fun token => ?_
  split
  · exact aligned_readString.bind fun _ => (idle_orMalformed _).bind fun _ => idle_pure _
  · refine aligned_readNumber.bind fun number => ?_
    cases number with
    | natural value =>
        dsimp only
        split
        · exact idle_pure _
        · exact idle_malformed
    | negative value => exact idle_pure _
    | double value => exact idle_malformed
  · have part := aligned_singleSlot aligned_readLong
    exact (aligned_enter (fun _ => aligned_record (part _) _) levels).bind fun _ => idle_pure _

/-- A typed value whose kind has one part is read aligned; code and its scope are two parts. -/
theorem aligned_typed
    {levels : Nat}
    {value : Reader Bson}
    {key : String}
    {reader : Reader Bson}
    (typed : typed? levels value key = some reader)
    (notCode : key ≠ "$code")
    (notScope : key ≠ "$scope") :
    Aligned reader := by
  unfold typed? at typed
  split at typed
  all_goals first | (rw [← Option.some.inj typed]) | contradiction
  case h_7 =>
    exact (aligned_readBytes levels).bind fun _ => (idle_orMalformed _).bind fun _ => idle_pure _
  case h_8 => exact aligned_readBinary levels
  case h_10 => exact absurd rfl notCode
  case h_11 => exact absurd rfl notScope
  case h_12 => exact aligned_readTimestamp levels
  case h_13 => exact aligned_readRegex levels
  case h_14 => exact aligned_readDbPointer levels
  case h_15 => exact aligned_readDate levels
  case h_16 => exact aligned_readOne.bind fun _ => idle_pure _
  case h_17 => exact aligned_readOne.bind fun _ => idle_pure _
  case h_18 =>
    refine aligned_readBoolean.bind fun present => ?_
    split
    · exact idle_pure _
    · exact idle_malformed
  case h_2 => exact aligned_readString.bind fun _ => idle_pure _
  case h_4 => exact aligned_readLong.bind fun _ => idle_pure _
  all_goals
    exact aligned_readString.bind fun _ => (idle_orMalformed _).bind fun _ => idle_pure _

/-! ## Objects -/

section Objects

variable {levels : Nat} {value : Reader Bson}

/-- How an entry of an object is read. -/
def readEntryOf
    (levels : Nat)
    (value : Reader Bson)
    (entries : Document)
    (key : String) :
    Reader (Progress Document Bson) :=
  match typed? levels value key with
  | some reader => do return .settled (← reader)
  | none => do return .more (Document.insert entries key (← value))

theorem readObject_eq :
    readObject levels value =
      entries (readEntryOf levels value) (fun entries => return .document entries) [] :=
  rfl

/-- What comes of the entries of an object that follow others. -/
def GivesObject
    (levels : Nat)
    (value : Reader Bson)
    (before : Document)
    (members : List (String × Json))
    (result : Option Bson) :
    Prop :=
  GivesAfter .closeObject (readEntry (readEntryOf levels value))
    (fun entries => return .document entries) before (entryTokens members) result

theorem givesObject_nil
    (before : Document) :
    GivesObject levels value before [] (some (.document before)) :=
  givesAfter_nil (gives_pure _)

/-- An entry whose key names no kind is put into the document. -/
theorem givesObject_plain
    (aligned : Aligned value)
    {before : Document}
    {key : String}
    (plain : key ∉ kindKeys)
    {member : Json}
    {members : List (String × Json)}
    {make : Bson → Option Bson}
    (following : ∀ result, onValue value member = some result →
      GivesObject levels value (Document.insert before key result) members (make result)) :
    GivesObject levels value before ((key, member) :: members)
      ((onValue value member).bind make) := by
  have notComma : Token.closeObject ≠ .comma := by decide
  have entry : readEntryOf levels value before key =
      value >>= fun read => pure (.more (Document.insert before key read)) := by
    rw [readEntryOf, typed?_eq_none_iff.mpr plain]
  have first := aligned.gives member
  rw [GivesObject, entryTokens]
  cases read : onValue value member with
  | none =>
      rw [read] at first
      refine givesAfter_none notComma (gives_readEntry.mpr ?_)
      rw [entry]
      exact first.andThen fun _ => gives_pure _
  | some result =>
      rw [read] at first
      refine givesAfter_more notComma (gives_readEntry.mpr ?_) (following result read)
      rw [entry]
      exact first.andThen fun _ => gives_pure _

theorem entryTokens_eq_nil_iff
    (members : List (String × Json)) :
    entryTokens members = [] ↔ members = [] := by
  rw [entryTokens_eq_map, List.map_eq_nil_iff]

/-- A key that names a kind settles the object, which then has to end. -/
theorem givesObject_typed
    {before : Document}
    {key : String}
    {reader : Reader Bson}
    (typed : typed? levels value key = some reader)
    {member : Json}
    (members : List (String × Json))
    {result : Option Bson}
    (gives : Gives reader member.tokens result) :
    GivesObject levels value before ((key, member) :: members)
      (if members = [] then result else none) := by
  have notComma : Token.closeObject ≠ .comma := by decide
  have entry : readEntryOf levels value before key =
      reader >>= fun result => pure (.settled result) := by
    rw [readEntryOf, typed]
  rw [GivesObject, entryTokens]
  cases result with
  | none =>
      rw [ite_self]
      refine givesAfter_none notComma (gives_readEntry.mpr ?_)
      rw [entry]
      exact gives.andThen fun _ => gives_pure _
  | some result =>
      simp only [← entryTokens_eq_nil_iff]
      refine givesAfter_settled notComma (gives_readEntry.mpr ?_)
      rw [entry]
      exact gives.andThen fun _ => gives_pure _

/-- What comes of the entries after the text of code. -/
def codeBefore (value : Reader Bson) (text : String) : List (String × Json) → Option Bson
  | [] => some (.code text)
  | (key, scope) :: members =>
    if key = "$scope" ∧ members = [] then
      (onValue (documentOf value) scope).map (.codeWithScope text)
    else none

theorem aligned_documentOf
    (aligned : Aligned value) :
    Aligned (documentOf value) := by
  refine aligned.bind fun result => ?_
  cases result with
  | document entries => exact idle_pure entries
  | _ => exact idle_malformed

theorem onValue_documentOf_eq_some_iff
    (aligned : Aligned value)
    (read : Json)
    (entries : Document) :
    onValue (documentOf value) read = some entries ↔
      onValue value read = some (.document entries) := by
  have first := aligned.gives read
  cases given : onValue value read with
  | none =>
      rw [given] at first
      have gives : Gives (documentOf value) (read.tokens ++ []) none := first.bind_none []
      rw [List.append_nil] at gives
      simp [gives.onValue_eq]
  | some result =>
      rw [given] at first
      cases result with
      | document found =>
          have gives : Gives (documentOf value) read.tokens (some found) :=
            first.bind_nil (gives_pure found)
          simp [gives.onValue_eq]
      | _ =>
          have gives : Gives (documentOf value) read.tokens none :=
            first.bind_nil (gives_malformed [])
          simp [gives.onValue_eq]

theorem gives_readScopeAfter
    (aligned : Aligned value)
    (text : String)
    (members : List (String × Json)) :
    Gives
      (readScopeAfter value text >>= fun result => do
        expect .closeObject
        return result)
      (Token.following .closeObject (entryTokens members)) (codeBefore value text members) := by
  have notComma : Token.closeObject ≠ .comma := by decide
  rw [readScopeAfter, bind_assoc]
  cases members with
  | nil =>
      rw [entryTokens, Token.following, gives_peek_bind, if_neg (by decide), pure_bind,
        gives_expect_bind]
      exact gives_pure _
  | cons entry members =>
      rcases entry with ⟨key, scope⟩
      rw [entryTokens, Token.following, gives_peek_bind, if_pos rfl, bind_assoc, gives_take_bind,
        bind_assoc, List.cons_append, gives_readString_bind, TextUnit.text?_ofText, orMalformed,
        pure_bind, codeBefore]
      by_cases named : key = "$scope"
      · have first := (aligned_documentOf aligned).gives scope
        rw [if_pos named, bind_assoc, List.cons_append, gives_expect_bind, bind_assoc]
        simp only [pure_bind, named, true_and]
        cases read : onValue (documentOf value) scope with
        | none =>
            rw [read] at first
            simp only [Option.map_none, ite_self]
            exact first.bind_none _
        | some entries =>
            rw [read] at first
            simp only [Option.map_some, ← entryTokens_eq_nil_iff]
            exact first.bind (gives_expect_following notComma _)
      · rw [if_neg named, if_neg (fun both => named both.1)]
        exact gives_malformed _

theorem givesObject_code
    (aligned : Aligned value)
    (before : Document)
    (member : Json)
    (members : List (String × Json)) :
    GivesObject levels value before (("$code", member) :: members)
      ((onValue readString member).bind fun text => codeBefore value text members) := by
  have notComma : Token.closeObject ≠ .comma := by decide
  have entry : readEntryOf levels value before "$code" =
      (readString >>= readScopeAfter value) >>= fun result => pure (.settled result) :=
    rfl
  have first := aligned_readString.gives member
  refine givesAfter_cons notComma fun fuel _ => ?_
  rw [List.cons_append, List.cons_append, gives_readEntry_bind, entry, bind_assoc, bind_assoc]
  simp only [pure_bind, goOn]
  cases read : onValue readString member with
  | none =>
      rw [read] at first
      exact first.bind_none _
  | some text =>
      rw [read] at first
      exact first.bind (gives_readScopeAfter aligned text members)

/-- What comes of the entries after the scope of code. -/
def codeAfter (scope : Document) : List (String × Json) → Option Bson
  | [] => none
  | (key, text) :: members =>
    if key = "$code" ∧ members = [] then
      (onValue readString text).map (.codeWithScope · scope)
    else none

theorem gives_readCodeAfter
    (scope : Document)
    (members : List (String × Json)) :
    Gives
      (readCodeAfter scope >>= fun result => do
        expect .closeObject
        return result)
      (Token.following .closeObject (entryTokens members)) (codeAfter scope members) := by
  have notComma : Token.closeObject ≠ .comma := by decide
  rw [readCodeAfter, bind_assoc]
  cases members with
  | nil => exact gives_expect_bind_of_ne (by decide) _ _
  | cons entry members =>
      rcases entry with ⟨key, text⟩
      rw [entryTokens, Token.following, gives_expect_bind, bind_assoc, List.cons_append,
        gives_readString_bind, TextUnit.text?_ofText, orMalformed, pure_bind, codeAfter]
      by_cases named : key = "$code"
      · have first := aligned_readString.gives text
        rw [if_pos named, bind_assoc, List.cons_append, gives_expect_bind, bind_assoc]
        simp only [pure_bind, named, true_and]
        cases read : onValue readString text with
        | none =>
            rw [read] at first
            simp only [Option.map_none, ite_self]
            exact first.bind_none _
        | some text =>
            rw [read] at first
            simp only [Option.map_some, ← entryTokens_eq_nil_iff]
            exact first.bind (gives_expect_following notComma _)
      · rw [if_neg named, if_neg (fun both => named both.1)]
        exact gives_malformed _

theorem givesObject_scope
    (aligned : Aligned value)
    (before : Document)
    (member : Json)
    (members : List (String × Json)) :
    GivesObject levels value before (("$scope", member) :: members)
      ((onValue (documentOf value) member).bind fun scope => codeAfter scope members) := by
  have notComma : Token.closeObject ≠ .comma := by decide
  have entry : readEntryOf levels value before "$scope" =
      (documentOf value >>= readCodeAfter) >>= fun result => pure (.settled result) :=
    rfl
  have first := (aligned_documentOf aligned).gives member
  refine givesAfter_cons notComma fun fuel _ => ?_
  rw [List.cons_append, List.cons_append, gives_readEntry_bind, entry, bind_assoc, bind_assoc]
  simp only [pure_bind, goOn]
  cases read : onValue (documentOf value) member with
  | none =>
      rw [read] at first
      exact first.bind_none _
  | some scope =>
      rw [read] at first
      exact first.bind (gives_readCodeAfter scope members)

/-- What comes of the entries of an object, given the document that stands before them. -/
def objectOf
    (levels : Nat)
    (value : Reader Bson)
    (before : Document) :
    List (String × Json) → Option Bson
  | [] => some (.document before)
  | (key, member) :: members =>
    match typed? levels value key with
    | none =>
      (onValue value member).bind fun result =>
        objectOf levels value (Document.insert before key result) members
    | some reader =>
      if key = "$code" then
        (onValue readString member).bind fun text => codeBefore value text members
      else if key = "$scope" then
        (onValue (documentOf value) member).bind fun scope => codeAfter scope members
      else if members = [] then onValue reader member
      else none

theorem givesObject_objectOf
    (aligned : Aligned value)
    (before : Document)
    (members : List (String × Json)) :
    GivesObject levels value before members (objectOf levels value before members) := by
  induction members generalizing before with
  | nil => exact givesObject_nil before
  | cons entry members induction =>
      rcases entry with ⟨key, member⟩
      rw [objectOf]
      split
      · rename_i plain
        exact givesObject_plain aligned (typed?_eq_none_iff.mp plain) fun result _ => induction _
      · rename_i reader typed
        by_cases code : key = "$code"
        · rw [if_pos code, code]
          exact givesObject_code aligned before member members
        · by_cases scope : key = "$scope"
          · rw [if_neg code, if_pos scope, scope]
            exact givesObject_scope aligned before member members
          · rw [if_neg code, if_neg scope]
            exact givesObject_typed typed members ((aligned_typed typed code scope).gives member)

theorem gives_readObject
    (aligned : Aligned value)
    (members : List (String × Json)) :
    Gives (readObject levels value) (Json.object members).tokens
      (objectOf levels value [] members) := by
  rw [readObject_eq]
  exact gives_entries (givesObject_objectOf aligned [] members)

/-- Distinct keys that name no kind give a document with these keys. -/
theorem objectOf_of_plain
    {members : List (String × Json)}
    (plain : ∀ entry ∈ members, entry.1 ∉ kindKeys)
    {before : Document}
    (distinct : (Document.keys before ++ members.map (·.1)).Nodup) :
    objectOf levels value before members =
      (members.mapM fun entry => (onValue value entry.2).map (Prod.mk entry.1)).map fun entries =>
        document (before ++ entries) := by
  induction members generalizing before with
  | nil => simp [objectOf]
  | cons entry members induction =>
      obtain ⟨here, others⟩ := List.forall_mem_cons.mp plain
      have new : entry.1 ∉ Document.keys before := by
        intro member
        exact List.disjoint_of_nodup_append distinct member List.mem_cons_self
      rw [objectOf, typed?_eq_none_iff.mpr here, List.mapM_cons]
      dsimp only
      cases onValue value entry.2 with
      | none => rfl
      | some result =>
          have kept :
              (Document.keys (before ++ [(entry.1, result)]) ++ members.map (·.1)).Nodup := by
            rw [Document.keys_append, List.append_assoc]
            exact distinct
          rw [Option.bind_some, Document.insert_of_not_mem new, induction others kept]
          cases members.mapM fun entry => (onValue value entry.2).map (Prod.mk entry.1) <;> simp

theorem codeBefore_ne_document
    (text : String)
    (members : List (String × Json))
    (entries : Document) :
    codeBefore value text members ≠ some (.document entries) := by
  cases members with
  | nil => simp [codeBefore]
  | cons entry members =>
      rw [codeBefore]
      split <;> simp

theorem codeAfter_ne_document
    (scope : Document)
    (members : List (String × Json))
    (entries : Document) :
    codeAfter scope members ≠ some (.document entries) := by
  cases members with
  | nil => simp [codeAfter]
  | cons entry members =>
      rw [codeAfter]
      split <;> simp

/-- A key that names a kind never gives a document. -/
theorem objectOf_ne_document
    (ensured : Ensures (All IsSound) value)
    {members : List (String × Json)}
    {entry : String × Json}
    (listed : entry ∈ members)
    (kind : entry.1 ∈ kindKeys)
    (before entries : Document) :
    objectOf levels value before members ≠ some (.document entries) := by
  induction members generalizing before with
  | nil => contradiction
  | cons first members induction =>
      rcases first with ⟨key, member⟩
      rw [objectOf]
      intro given
      split at given
      · rename_i plain
        obtain ⟨result, -, following⟩ := Option.bind_eq_some_iff.mp given
        refine induction ?_ _ following
        rcases List.mem_cons.mp listed with rfl | later
        · exact absurd kind (typed?_eq_none_iff.mp plain)
        · exact later
      · rename_i reader typed
        split at given
        · obtain ⟨text, -, following⟩ := Option.bind_eq_some_iff.mp given
          exact codeBefore_ne_document text members entries following
        · split at given
          · obtain ⟨scope, -, following⟩ := Option.bind_eq_some_iff.mp given
            exact codeAfter_ne_document scope members entries following
          · split at given
            · exact ((ensures_typed ensured typed).onValue given).2 entries rfl
            · contradiction

end Objects

/-! ## Values of any kind -/

theorem aligned_readScalar :
    Aligned readScalar := by
  refine aligned_take_bind ?_ rfl rfl
  intro token
  cases token with
  | null => exact idle_pure _
  | boolean value => exact idle_pure _
  | string units => exact (idle_orMalformed _).bind fun text => idle_pure _
  | number text => exact idle_orMalformed _
  | _ => exact idle_malformed

theorem aligned_read
    (levels : Nat) :
    Aligned (read levels) := by
  induction levels with
  | zero => exact aligned_readScalar
  | succ levels induction =>
      refine aligned_peek_bind fun token => ?_
      split
      · exact (aligned_list induction).bind fun items => idle_pure _
      · intro value
        cases value with
        | object members => exact ⟨_, gives_readObject induction members⟩
        | _ => exact ⟨none, gives_expect_bind_of_ne (by simp) _ _⟩
      · exact aligned_readScalar

theorem onValue_read_array
    (levels : Nat)
    (items : List Json) :
    onValue (read (levels + 1)) (.array items) =
      (items.mapM (onValue (read levels))).map array := by
  have listed := (gives_list (aligned_read levels) items).andThen fun items =>
    gives_pure (array items)
  rw [Option.map_eq_bind]
  exact Gives.onValue_eq listed

theorem onValue_read_object
    (levels : Nat)
    (members : List (String × Json)) :
    onValue (read (levels + 1)) (.object members) = objectOf levels (read levels) [] members :=
  (gives_readObject (aligned_read levels) members).onValue_eq

end Bson

end SearchPipeline
