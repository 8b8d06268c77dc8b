import SearchPipeline.Proofs.Encodings
import SearchPipeline.Proofs.ValueReader

/-!
# Typed values read back

An object that is written for a value of a kind of its own is read back as that value
if lists and objects may be nested deeply enough, and is refused otherwise.
-/

namespace SearchPipeline

open Json Json.Reader

namespace Json

/-! ## Nesting -/

mutual

/-- How deeply lists and objects are nested in a value. -/
def depth : Json → Nat
  | .array items => depthOfItems items + 1
  | .object entries => depthOfEntries entries + 1
  | _ => 0
termination_by structural value => value

/-- The greatest depth of the items of a list. -/
def depthOfItems : List Json → Nat
  | [] => 0
  | item :: items => max item.depth (depthOfItems items)
termination_by structural items => items

/-- The greatest depth of the values of some entries. -/
def depthOfEntries : List (String × Json) → Nat
  | [] => 0
  | (_, value) :: entries => max value.depth (depthOfEntries entries)
termination_by structural entries => entries

end

theorem depth_array_le_succ_iff
    (items : List Json)
    (levels : Nat) :
    (array items).depth ≤ levels + 1 ↔ ∀ item ∈ items, item.depth ≤ levels := by
  rw [depth, Nat.add_le_add_iff_right]
  induction items with
  | nil => simp [depthOfItems]
  | cons item items induction => rw [depthOfItems, Nat.max_le, induction, List.forall_mem_cons]

theorem depth_object_le_succ_iff
    (entries : List (String × Json))
    (levels : Nat) :
    (object entries).depth ≤ levels + 1 ↔ ∀ entry ∈ entries, entry.2.depth ≤ levels := by
  rw [depth, Nat.add_le_add_iff_right]
  induction entries with
  | nil => simp [depthOfEntries]
  | cons entry entries induction =>
      rw [depthOfEntries, Nat.max_le, induction, List.forall_mem_cons]

@[simp]
theorem not_depth_array_le_zero
    (items : List Json) :
    ¬(array items).depth ≤ 0 :=
  Nat.not_succ_le_zero _

@[simp]
theorem not_depth_object_le_zero
    (entries : List (String × Json)) :
    ¬(object entries).depth ≤ 0 :=
  Nat.not_succ_le_zero _

/-! ## Short objects in the order of their keys -/

theorem sortKeys_single
    (key : String)
    (value : Json) :
    (object [(key, value)]).sortKeys = object [(key, value.sortKeys)] := by
  simp [sortKeys, sortEntries]

theorem sortKeys_pair
    (key other : String)
    (value second : Json) :
    (object [(key, value), (other, second)]).sortKeys =
      object
        (if key ≤ other then [(key, value.sortKeys), (other, second.sortKeys)]
        else [(other, second.sortKeys), (key, value.sortKeys)]) := by
  simp [sortKeys, sortEntries, List.mergeSort, List.merge]

end Json

namespace Json.Reader

variable {α β : Type}

/-- A value is read where lists and objects may be nested deeply enough, and refused elsewhere. -/
def ReadsAs (reader : Nat → Reader α) (value : Json) (result : α) : Prop :=
  ∀ levels, Gives (reader levels) value.tokens (if value.depth ≤ levels then some result else none)

theorem ReadsAs.onValue_eq
    {reader : Nat → Reader α}
    {value : Json}
    {result : α}
    (reads : ReadsAs reader value result)
    (levels : Nat) :
    onValue (reader levels) value = if value.depth ≤ levels then some result else none :=
  (reads levels).onValue_eq

/-- What is read is given to a step that looks at no token. -/
theorem ReadsAs.andThen
    {reader : Nat → Reader α}
    {value : Json}
    {result : α}
    (reads : ReadsAs reader value result)
    {next : α → Reader β}
    {made : β}
    (step : Gives (next result) [] (some made)) :
    ReadsAs (fun levels => reader levels >>= next) value made := by
  intro levels
  have first := reads levels
  by_cases deep : value.depth ≤ levels
  · rw [if_pos deep] at first ⊢
    exact first.bind_nil step
  · rw [if_neg deep] at first ⊢
    rw [← List.append_nil value.tokens]
    exact first.bind_none []

/-- What looks at no list or object is read at every level. -/
theorem readsAs_of_gives
    {reader : Reader α}
    {value : Json}
    (flat : value.depth = 0)
    {result : α}
    (gives : Gives reader value.tokens (some result)) :
    ReadsAs (fun _ => reader) value result := by
  intro levels
  rw [flat, if_pos (Nat.zero_le levels)]
  exact gives

theorem ReadsAs.map
    {reader : Nat → Reader α}
    {value : Json}
    {result : α}
    (reads : ReadsAs reader value result)
    (make : α → β) :
    ReadsAs (fun levels => reader levels >>= fun result => pure (make result)) value
      (make result) :=
  reads.andThen (gives_pure (make result))

/-- A string is read as what is made of its text. -/
theorem readsAs_string
    {next : String → Reader β}
    {text : String}
    {made : β}
    (step : Gives (next text) [] (some made)) :
    ReadsAs (fun _ => readString >>= next) (.string text) made := by
  refine readsAs_of_gives rfl ?_
  rw [tokens, gives_readString_bind, TextUnit.text?_ofText, orMalformed, pure_bind]
  exact step

theorem readsAs_readString
    (text : String) :
    ReadsAs (fun _ => readString) (.string text) text := by
  have reads := readsAs_string (gives_pure text)
  simpa only [bind_pure] using reads

/-- A step that needs a result has it. -/
theorem gives_orMalformed_bind
    {found : Option α}
    {result : α}
    (present : found = some result)
    {next : α → Reader β}
    {made : Option β}
    (step : Gives (next result) [] made) :
    Gives (orMalformed found >>= next) [] made := by
  rw [present, orMalformed, pure_bind]
  exact step

/-- A record is read one level deeper than its parts. -/
theorem readsAs_record
    {slots : Nat → List (Slot α)}
    (aligned : ∀ levels, ∀ slot ∈ slots levels, ∀ state, Aligned (slot.read state))
    {start : α}
    {members : List (String × Json)}
    {result : α}
    (filled : ∀ levels,
      fill (slots levels) start [] members =
        if (Json.object members).depth ≤ levels + 1 then some result else none) :
    ReadsAs (fun levels => enter levels fun levels => record false (slots levels) start)
      (.object members) result := by
  intro levels
  cases levels with
  | zero =>
      rw [if_neg (Json.not_depth_object_le_zero members)]
      exact gives_malformed _
  | succ levels =>
      have parts := gives_recordFromObject (aligned levels) start members
      rw [filled levels, tokens] at parts
      exact gives_peek_bind.mpr parts

theorem readsAs_single
    {reader : Nat → Reader α}
    (aligned : ∀ levels, Aligned (reader levels))
    (key : String)
    (start : α)
    {value : Json}
    {result : α}
    (reads : ReadsAs reader value result) :
    ReadsAs
      (fun levels => enter levels fun levels =>
        record false (singleSlot key (reader levels)) start)
      (.object [(key, value)]) result := by
  refine readsAs_record (fun levels => aligned_singleSlot (aligned levels) key) fun levels => ?_
  rw [fill_singleSlot, reads.onValue_eq]
  simp only [depth_object_le_succ_iff, List.forall_mem_singleton]

theorem readsAs_pair
    {readFirst : Nat → Reader α}
    {readSecond : Nat → Reader β}
    (alignedFirst : ∀ levels, Aligned (readFirst levels))
    (alignedSecond : ∀ levels, Aligned (readSecond levels))
    {first second : String}
    (different : first ≠ second)
    (start : α × β)
    {valueFirst valueSecond : Json}
    {left : α}
    {right : β}
    (readsFirst : ReadsAs readFirst valueFirst left)
    (readsSecond : ReadsAs readSecond valueSecond right)
    (ordered : Prop)
    [Decidable ordered] :
    ReadsAs
      (fun levels => enter levels fun levels =>
        record false (pairSlots first (readFirst levels) second (readSecond levels)) start)
      (.object
        (if ordered then [(first, valueFirst), (second, valueSecond)]
        else [(second, valueSecond), (first, valueFirst)]))
      (left, right) := by
  refine readsAs_record
    (fun levels => aligned_pairSlots (alignedFirst levels) (alignedSecond levels) first second)
    fun levels => ?_
  have depth : (Json.object
      (if ordered then [(first, valueFirst), (second, valueSecond)]
      else [(second, valueSecond), (first, valueFirst)])).depth ≤ levels + 1 ↔
      valueFirst.depth ≤ levels ∧ valueSecond.depth ≤ levels := by
    rw [depth_object_le_succ_iff]
    split
    · simp
    · simp [and_comm]
  rw [fill_pairSlots different (alignedFirst levels) (alignedSecond levels),
    readsFirst.onValue_eq, readsSecond.onValue_eq]
  simp only [depth]
  by_cases shallow : valueFirst.depth ≤ levels
  · by_cases shallowSecond : valueSecond.depth ≤ levels <;> simp [shallow, shallowSecond]
  · simp [shallow]

end Json.Reader

namespace Bson

/-! ## Kinds of their own -/

/-- An object whose one key names a kind is read as what is made of the value under it. -/
theorem readsAs_typed
    {key : String}
    {reader : Nat → Reader Bson}
    (typed : ∀ levels, typed? levels (read levels) key = some (reader levels))
    (notCode : key ≠ "$code")
    (notScope : key ≠ "$scope")
    {payload : Json}
    {result : Bson}
    (reads : ReadsAs reader payload result) :
    ReadsAs read (.object [(key, payload)]) result := by
  intro levels
  cases levels with
  | zero =>
      rw [if_neg (not_depth_object_le_zero _)]
      exact gives_malformed (Json.object [(key, payload)]).tokens
  | succ levels =>
      have gives : Gives (read (levels + 1)) (Json.object [(key, payload)]).tokens _ :=
        gives_readObject (aligned_read levels) [(key, payload)]
      rw [objectOf, typed levels] at gives
      dsimp only at gives
      rw [if_neg notCode, if_neg notScope, if_pos rfl, reads.onValue_eq levels] at gives
      simpa only [depth_object_le_succ_iff, List.forall_mem_singleton] using gives

/-- Code is read with what follows its text. -/
theorem onValue_read_code
    (levels : Nat)
    (text : String)
    (members : List (String × Json)) :
    onValue (read (levels + 1)) (.object (("$code", .string text) :: members)) =
      codeBefore (read levels) text members := by
  have typed : typed? levels (read levels) "$code" =
      some (readString >>= readScopeAfter (read levels)) :=
    rfl
  have readText : onValue readString (.string text) = some text :=
    (readsAs_readString text).onValue_eq 0
  rw [onValue_read_object, objectOf, typed]
  dsimp only
  rw [if_pos rfl, readText, Option.bind_some]

theorem readsAs_code
    (text : String) :
    ReadsAs read (code text).printed (code text) := by
  have written : (code text).printed = .object [("$code", .string text)] := sortKeys_single _ _
  rw [written]
  intro levels
  have gives := (aligned_read levels).gives (.object [("$code", .string text)])
  cases levels with
  | zero => exact gives
  | succ levels =>
      rw [onValue_read_code] at gives
      exact gives

theorem readsAs_objectId
    (identifier : ObjectId) :
    ReadsAs read (objectId identifier).printed (objectId identifier) := by
  rw [printed, toJson, sortKeys_single]
  refine readsAs_typed (fun _ => rfl) (by decide) (by decide) (readsAs_string ?_)
  exact gives_orMalformed_bind (ObjectId.ofText?_render identifier) (gives_pure _)

theorem readsAs_symbol
    (text : String) :
    ReadsAs read (symbol text).printed (symbol text) := by
  rw [printed, toJson, sortKeys_single]
  exact readsAs_typed (fun _ => rfl) (by decide) (by decide) (readsAs_string (gives_pure _))

theorem readsAs_decimal128
    {value : Decimal128}
    (inRange : value.InRange) :
    ReadsAs read (decimal128 value).printed (decimal128 value) := by
  rw [printed, toJson, sortKeys_single]
  refine readsAs_typed (fun _ => rfl) (by decide) (by decide) (readsAs_string ?_)
  exact gives_orMalformed_bind (Decimal128.ofText?_render inRange) (gives_pure _)

theorem readsAs_readLong
    (value : Int64) :
    ReadsAs (fun _ => readLong) (.string (String.ofList (integerText value.toInt))) value := by
  have read : integer? 64 _ = some value.toInt :=
    integer?_integerText value.le_toInt value.toInt_lt
  have same : Int64.ofInt value.toInt = value := Int64.ofInt_toInt value
  refine readsAs_string (gives_orMalformed_bind read ?_)
  rw [same]
  exact gives_pure value

theorem readsAs_dateTime
    (milliseconds : Int64) :
    ReadsAs read (dateTime milliseconds).printed (dateTime milliseconds) := by
  have long := readsAs_single (fun _ => aligned_readLong) "$numberLong" 0
    (readsAs_readLong milliseconds)
  have reads := long.map dateTime
  rw [printed, toJson, sortKeys_single, sortKeys_single]
  exact readsAs_typed (fun _ => rfl) (by decide) (by decide) fun levels =>
    gives_peek_bind.mpr (reads levels)

theorem gives_readNumber
    {value : Int}
    (low : -2 ^ 63 ≤ value)
    (high : value < 2 ^ 64) :
    Gives readNumber (Json.integer value).tokens
      (some (if 0 ≤ value then .natural value.toNat else .negative value)) := by
  rw [readNumber, tokens, gives_take_bind]
  dsimp only
  rw [NumberText.value?_ofInt low high]
  exact gives_orMalformed _

theorem readsAs_readWord
    (value : UInt32) :
    ReadsAs (fun _ => readWord) (.integer value.toNat) value := by
  have bounded := value.toNat_lt
  have number : Gives readNumber (Json.integer value.toNat).tokens _ :=
    gives_readNumber (by omega) (by omega)
  rw [if_pos (Int.natCast_nonneg _), Int.toNat_natCast] at number
  have natural : Gives readNatural (Json.integer value.toNat).tokens _ :=
    number.bind_nil (gives_pure _)
  refine readsAs_of_gives rfl (natural.bind_nil ?_)
  have same : (UInt64.ofNat value.toNat).toNat = value.toNat := by
    rw [UInt64.toNat_ofNat']
    omega
  rw [same, if_pos bounded]
  have word : (UInt64.ofNat value.toNat).toUInt32 = value := by
    rw [← UInt32.toNat_inj, UInt64.toNat_toUInt32, same]
    omega
  rw [word]
  exact gives_pure value

theorem readsAs_timestamp
    (seconds increment : UInt32) :
    ReadsAs read (timestamp seconds increment).printed (timestamp seconds increment) := by
  have different : "t" ≠ "i" := by decide
  have parts := readsAs_pair (fun _ => aligned_readWord) (fun _ => aligned_readWord) different
    (0, 0) (readsAs_readWord seconds) (readsAs_readWord increment) ("t" ≤ "i")
  rw [printed, toJson, sortKeys_single, sortKeys_pair]
  refine readsAs_typed (fun _ => rfl) (by decide) (by decide) (parts.andThen ?_)
  exact gives_pure _

theorem readsAs_regex
    {pattern options : String}
    (sound : (regex pattern options).IsSound) :
    ReadsAs read (regex pattern options).printed (regex pattern options) := by
  obtain ⟨plainPattern, plainOptions, ordered⟩ := sound
  have different : "pattern" ≠ "options" := by decide
  have parts := readsAs_pair (fun _ => aligned_readString) (fun _ => aligned_readString) different
    ("", "") (readsAs_readString pattern) (readsAs_readString options) ("pattern" ≤ "options")
  rw [printed, toJson, sortKeys_single, sortKeys_pair]
  refine readsAs_typed (fun _ => rfl) (by decide) (by decide) (parts.andThen ?_)
  dsimp only
  rw [if_pos ⟨plainPattern, plainOptions⟩, ordered]
  exact gives_pure _

theorem readsAs_binary
    {kind : UInt8}
    (special : kind ≠ 0)
    (bytes : List UInt8) :
    ReadsAs read (binary kind bytes).printed (binary kind bytes) := by
  have different : "base64" ≠ "subType" := by decide
  have parts := readsAs_pair (fun _ => aligned_readString) (fun _ => aligned_readString) different
    ("", "") (readsAs_readString (String.ofList (Base64.encode bytes)))
    (readsAs_readString (String.ofList (Hex.encode [kind]))) ("base64" ≤ "subType")
  rw [printed, toJson, binaryJson, if_neg special, sortKeys_single, sortKeys_pair]
  refine readsAs_typed (fun _ => rfl) (by decide) (by decide) (parts.andThen ?_)
  dsimp only
  rw [String.toList_ofList, String.toList_ofList]
  refine gives_orMalformed_bind (Base64.decode?_encode bytes) ?_
  rw [Hex.decode?_encode]
  exact gives_pure _

theorem readsAs_dbPointer
    (collection : String)
    (identifier : ObjectId) :
    ReadsAs read (dbPointer collection identifier).printed (dbPointer collection identifier) := by
  have part := readsAs_single (fun _ => aligned_readString) "$oid" ""
    (readsAs_readString identifier.render)
  have slots := aligned_singleSlot aligned_readString "$oid"
  have aligned := aligned_enter fun _ => aligned_record slots ""
  have different : "$ref" ≠ "$id" := by decide
  have parts := readsAs_pair (fun _ => aligned_readString) aligned different ("", "")
    (readsAs_readString collection) part ("$ref" ≤ "$id")
  rw [printed, toJson, sortKeys_single, sortKeys_pair, sortKeys_single]
  refine readsAs_typed (fun _ => rfl) (by decide) (by decide) (parts.andThen ?_)
  exact gives_orMalformed_bind (ObjectId.ofText?_render identifier) (gives_pure _)

theorem readsAs_undefined :
    ReadsAs read undefined.printed undefined := by
  rw [printed, toJson, sortKeys_single]
  exact readsAs_typed (fun _ => rfl) (by decide) (by decide) (readsAs_of_gives rfl fun _ => rfl)

theorem gives_readOne :
    Gives readOne (Json.integer 1).tokens (some ()) := by
  have number : Gives readNumber (Json.integer 1).tokens _ :=
    gives_readNumber (by decide) (by decide)
  exact number.bind_nil (gives_pure ())

theorem readsAs_minKey :
    ReadsAs read minKey.printed minKey := by
  rw [printed, toJson, sortKeys_single]
  exact readsAs_typed (fun _ => rfl) (by decide) (by decide)
    ((readsAs_of_gives rfl gives_readOne).andThen (gives_pure minKey))

theorem readsAs_maxKey :
    ReadsAs read maxKey.printed maxKey := by
  rw [printed, toJson, sortKeys_single]
  exact readsAs_typed (fun _ => rfl) (by decide) (by decide)
    ((readsAs_of_gives rfl gives_readOne).andThen (gives_pure maxKey))

end Bson

end SearchPipeline
