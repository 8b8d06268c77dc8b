import SearchPipeline.InvalidRequest
import SearchPipeline.Json.Number

/-!
# Readers

A reader takes tokens from the front of a text and either makes something of them
or refuses.  Texts are read from left to right, so the first problem is the one
reported.  The lists and records here are the shapes from which every description
is put together; a level of nesting is given up for each list or record entered.
-/

namespace SearchPipeline.Json

/-- Why a text is refused. -/
inductive Refusal where
  /-- The text does not have the form that is needed. -/
  | malformed
  /-- The text has the form that is needed, and what it describes is wrong. -/
  | invalid (problem : InvalidRequest)
deriving DecidableEq

/-- Reads something from the tokens at the front of a text. -/
abbrev Reader := StateT (List Token) (Except Refusal)

namespace Reader

/-- How deeply lists and records may be nested in a text. -/
def maxLevels : Nat := 127

/-- Refuses the text for its form. -/
def malformed {α : Type} : Reader α :=
  throw .malformed

/-- A result, or a refusal for the form where there is none. -/
def orMalformed {α : Type} : Option α → Reader α
  | some value => pure value
  | none => malformed

/-- A result, or a refusal for what is wrong with it. -/
def orInvalid {α : Type} : Except InvalidRequest α → Reader α
  | .ok value => pure value
  | .error problem => throw (.invalid problem)

/-- The next token, left in place. -/
def peek? : Reader (Option Token) := do
  return (← get).head?

/-- Takes the next token. -/
def take : Reader Token := do
  match ← get with
  | [] => malformed
  | token :: rest =>
    set rest
    return token

/-- Takes the token that has to come next. -/
def expect (token : Token) : Reader Unit := do
  if (← take) = token then pure () else malformed

/-- Reads a string. -/
def readString : Reader String := do
  match ← take with
  | .string units => orMalformed (TextUnit.text? units)
  | _ => malformed

/-- Reads a truth value. -/
def readBoolean : Reader Bool := do
  match ← take with
  | .boolean value => pure value
  | _ => malformed

/-- Reads a number. -/
def readNumber : Reader Number := do
  match ← take with
  | .number text => orMalformed text.value?
  | _ => malformed

/-- Reads a natural number of sixty-four bits, written without fraction or exponent. -/
def readNatural : Reader UInt64 := do
  match ← readNumber with
  | .natural value => pure (UInt64.ofNat value)
  | _ => malformed

/-- Reads something that may be absent, which `null` says. -/
def optional {α : Type} (reader : Reader α) : Reader (Option α) := do
  if (← peek?) = some .null then
    let _ ← take
    return none
  else return some (← reader)

/-- What one member makes of the members before it: they go on, or a result stands and ends them. -/
inductive Progress (σ α : Type) where
  | more (state : σ)
  | settled (result : α)

/-- Reads members, with commas between them, up to the token that closes them. -/
def membersWithin {σ α : Type} (close : Token) (member : σ → Reader (Progress σ α))
    (finish : σ → Reader α) : (fuel : Nat) → (isFirst : Bool) → σ → Reader α
  | 0, _, _ => malformed
  | fuel + 1, isFirst, state => do
    if (← peek?) = some close then
      let _ ← take
      finish state
    else
      unless isFirst do expect .comma
      match ← member state with
      | .settled result =>
        expect close
        return result
      | .more state => membersWithin close member finish fuel false state

/-- Reads members up to the token that closes them; each takes at least one token. -/
def members {σ α : Type} (close : Token) (member : σ → Reader (Progress σ α))
    (finish : σ → Reader α) (start : σ) : Reader α := do
  membersWithin close member finish ((← get).length + 1) true start

/-- Gives up a level of nesting for what is read inside. -/
def enter {α : Type} (levels : Nat) (inside : Nat → Reader α) : Reader α :=
  match levels with
  | 0 => malformed
  | levels + 1 => inside levels

/-- Reads a list. -/
def list {α : Type} (item : Reader α) : Reader (List α) := do
  expect .openArray
  members .closeArray (fun items => return .more ((← item) :: items))
    (fun items => return items.reverse) []

/-- Reads a natural number of eight bits. -/
def readByte : Reader UInt8 := do
  let value ← readNatural
  if value.toNat < UInt8.size then return value.toUInt8 else malformed

/-- Reads bytes: those of a string, whatever stands in it, or a list of them. -/
def readBytes (levels : Nat) : Reader (List UInt8) := do
  match ← peek? with
  | some (.string units) =>
    let _ ← take
    return TextUnit.bytes units
  | _ => enter levels fun _ => list readByte

/-- Reads the entries of an object, each given its key. -/
def entries {σ α : Type} (entry : σ → String → Reader (Progress σ α)) (finish : σ → Reader α)
    (start : σ) : Reader α := do
  expect .openObject
  let member (state : σ) : Reader (Progress σ α) := do
    let key ← readString
    expect .colon
    entry state key
  members .closeObject member finish start

/-- What a value that is passed over still waits for at one place. -/
inductive Awaited where
  | value
  | itemOrClose
  | itemEnd
  | keyOrClose
  | key
  | colon
  | entryEnd
deriving DecidableEq

/--
The tokens after one value, or none if no value stands there.  The stack says what
each list or object around the present place waits for once its member is over.
-/
def afterValue? : Awaited → List Awaited → List Token → Option (List Token)
  | _, _, [] => none
  | .value, stack, token :: rest => afterStart? stack token rest
  | .itemOrClose, stack, .closeArray :: rest => afterEnd? stack rest
  | .itemOrClose, stack, token :: rest => afterStart? (.itemEnd :: stack) token rest
  | .itemEnd, stack, .comma :: rest => afterValue? .value (.itemEnd :: stack) rest
  | .itemEnd, stack, .closeArray :: rest => afterEnd? stack rest
  | .keyOrClose, stack, .closeObject :: rest => afterEnd? stack rest
  | .keyOrClose, stack, .string units :: rest =>
    if TextUnit.isWellFormed units then afterValue? .colon stack rest else none
  | .key, stack, .string units :: rest =>
    if TextUnit.isWellFormed units then afterValue? .colon stack rest else none
  | .colon, stack, .colon :: rest => afterValue? .value (.entryEnd :: stack) rest
  | .entryEnd, stack, .comma :: rest => afterValue? .key stack rest
  | .entryEnd, stack, .closeObject :: rest => afterEnd? stack rest
  | _, _, _ :: _ => none
where
  /-- Goes on after the first token of a value. -/
  afterStart? (stack : List Awaited) (token : Token) (rest : List Token) : Option (List Token) :=
    match token with
    | .null | .boolean _ | .number _ => afterEnd? stack rest
    | .string units => if TextUnit.isWellFormed units then afterEnd? stack rest else none
    | .openArray => afterValue? .itemOrClose stack rest
    | .openObject => afterValue? .keyOrClose stack rest
    | _ => none
  /-- Goes on after the last token of a value. -/
  afterEnd? (stack : List Awaited) (rest : List Token) : Option (List Token) :=
    match stack with
    | [] => some rest
    | awaited :: stack => afterValue? awaited stack rest

/-- Passes over a value of any kind, nested to any depth. -/
def pass : Reader Unit := do
  set (← orMalformed (afterValue? .value [] (← get)))

/-- One entry of a record: its key, and how its value is put into the record. -/
structure Slot (σ : Type) where
  key : String
  read : σ → Reader σ
  /-- Whether an object may leave the entry out. -/
  isOptional : Bool
  /-- Whether a list may end before the entry. -/
  mayEndBefore : Bool

/-- An entry that has to be there. -/
def required {σ : Type} (key : String) (read : σ → Reader σ) : Slot σ :=
  ⟨key, read, false, false⟩

/-- An entry that may be left out in every form of the record. -/
def omissible {σ : Type} (key : String) (read : σ → Reader σ) : Slot σ :=
  ⟨key, read, true, true⟩

/-- An entry that an object may leave out and a list has to give. -/
def namedOnly {σ : Type} (key : String) (read : σ → Reader σ) : Slot σ :=
  ⟨key, read, true, false⟩

/-- Reads a record from an object: entries in any order, each at most once. -/
def recordFromObject {σ : Type} (admitsOthers : Bool) (slots : List (Slot σ)) (start : σ) :
    Reader σ :=
  let entry : σ × List String → String → Reader (Progress (σ × List String) σ)
    | (state, seen), key =>
      match slots.find? (·.key = key) with
      | some slot =>
        if key ∈ seen then malformed
        else do return .more (← slot.read state, key :: seen)
      | none =>
        if admitsOthers then do
          pass
          return .more (state, seen)
        else malformed
  let finish : σ × List String → Reader σ
    | (state, seen) =>
      if slots.all fun slot => slot.isOptional || seen.contains slot.key then pure state
      else malformed
  entries entry finish (start, [])

/-- Reads a record from a list: the values in the order of the entries. -/
def recordFromList {σ : Type} (slots : List (Slot σ)) (start : σ) : Reader σ := do
  let member : List (Slot σ) × σ → Reader (Progress (List (Slot σ) × σ) σ)
    | ([], _) => malformed
    | (slot :: slots, state) => do return .more (slots, ← slot.read state)
  let finish : List (Slot σ) × σ → Reader σ
    | (slots, state) => if slots.all (·.mayEndBefore) then pure state else malformed
  expect .openArray
  members .closeArray member finish (slots, start)

/-- Reads a record from an object or a list; unknown keys are passed over or refused. -/
def record {σ : Type} (admitsOthers : Bool) (slots : List (Slot σ)) (start : σ) : Reader σ := do
  match ← peek? with
  | some .openArray => recordFromList slots start
  | _ => recordFromObject admitsOthers slots start

/-- Reads one of some names: a string, or an object whose only entry has that key and `null`. -/
def readName : Reader String := do
  match ← peek? with
  | some .openObject =>
    let _ ← take
    let name ← readString
    expect .colon
    expect .null
    expect .closeObject
    return name
  | _ => readString

/-- Reads a text that holds one thing and nothing else. -/
def run {α : Type} (reader : Reader α) (text : String) : Except Refusal α :=
  match StateT.run reader (Token.scan text.toList) with
  | .ok (value, []) => .ok value
  | .ok (_, _ :: _) => .error .malformed
  | .error refusal => .error refusal

end Reader

end SearchPipeline.Json
