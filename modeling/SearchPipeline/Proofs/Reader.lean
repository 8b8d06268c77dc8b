import SearchPipeline.Json.Reader
import SearchPipeline.Proofs.KeyOrder

/-!
# Readers on the tokens of a value

Most readers are aligned: on the tokens of a value they give something and take just
these tokens, or refuse their form, whatever follows.  So a list is read item by item
and a record entry by entry, and what a reader makes of a value is a function of that
value alone.
-/

namespace SearchPipeline.Json

namespace Reader

variable {α β σ : Type}

/-- What comes of some tokens, all of which are taken, whatever follows them. -/
def Gives (reader : Reader α) (tokens : List Token) (result : Option α) : Prop :=
  ∀ rest, StateT.run reader (tokens ++ rest) = StateT.run (orMalformed result) rest

section Gives

variable {reader : Reader α} {next : α → Reader β}
  {token : Token} {tokens left right : List Token} {result : Option β}

theorem gives_orMalformed
    (result : Option α) :
    Gives (orMalformed result) [] result :=
  fun _ => rfl

theorem gives_pure
    (value : α) :
    Gives (pure value) [] (some value) :=
  fun _ => rfl

theorem gives_malformed
    (tokens : List Token) :
    Gives (malformed : Reader α) tokens none :=
  fun _ => rfl

theorem Gives.bind
    {value : α}
    (first : Gives reader left (some value))
    (second : Gives (next value) right result) :
    Gives (reader >>= next) (left ++ right) result := by
  intro rest
  rw [List.append_assoc, StateT.run_bind, first]
  exact second rest

/-- What follows looks at no token. -/
theorem Gives.bind_nil
    {value : α}
    (first : Gives reader tokens (some value))
    (second : Gives (next value) [] result) :
    Gives (reader >>= next) tokens result := by
  rw [← List.append_nil tokens]
  exact first.bind second

theorem Gives.bind_none
    (first : Gives reader left none)
    (right : List Token) :
    Gives (reader >>= next) (left ++ right) none := by
  intro rest
  rw [List.append_assoc, StateT.run_bind, first]
  rfl

theorem gives_take_bind
    {next : Token → Reader β} :
    Gives (take >>= next) (token :: tokens) result ↔ Gives (next token) tokens result :=
  Iff.rfl

theorem gives_peek_bind
    {next : Option Token → Reader β} :
    Gives (peek? >>= next) (token :: tokens) result ↔
      Gives (next (some token)) (token :: tokens) result :=
  Iff.rfl

theorem gives_expect_bind
    {next : Unit → Reader β} :
    Gives (expect token >>= next) (token :: tokens) result ↔ Gives (next ()) tokens result := by
  simp only [expect, bind_assoc, gives_take_bind, if_true, pure_bind]

theorem gives_expect_bind_of_ne
    {other : Token}
    (different : other ≠ token)
    (tokens : List Token)
    (next : Unit → Reader β) :
    Gives (expect token >>= next) (other :: tokens) none := by
  rw [expect, bind_assoc, gives_take_bind, if_neg different]
  exact gives_malformed tokens

theorem gives_readString_bind
    {units : List TextUnit}
    {next : String → Reader β} :
    Gives (readString >>= next) (.string units :: tokens) result ↔
      Gives (orMalformed (TextUnit.text? units) >>= next) tokens result := by
  rw [readString, bind_assoc, gives_take_bind]

end Gives

/-! ## Members -/

section Members

variable {close : Token} {member : σ → Reader (Progress σ α)} {finish : σ → Reader α}

/-- What comes of the members of a list or an object that follow others. -/
def GivesAfter
    (close : Token)
    (member : σ → Reader (Progress σ α))
    (finish : σ → Reader α)
    (state : σ)
    (members : List (List Token))
    (result : Option α) :
    Prop :=
  ∀ fuel, members.length < fuel →
    Gives (membersWithin close member finish fuel false state)
      (Token.following close members) result

/-- How reading goes on after a member. -/
def goOn
    (close : Token)
    (member : σ → Reader (Progress σ α))
    (finish : σ → Reader α)
    (fuel : Nat) :
    Progress σ α → Reader α
  | .settled result => do
    expect close
    return result
  | .more state => membersWithin close member finish fuel false state

theorem membersWithin_succ
    (fuel : Nat)
    (isFirst : Bool)
    (state : σ) :
    membersWithin close member finish (fuel + 1) isFirst state =
      peek? >>= fun token =>
        if token = some close then take >>= fun _ => finish state
        else if isFirst then member state >>= goOn close member finish fuel
        else expect .comma >>= fun _ => member state >>= goOn close member finish fuel := by
  rw [membersWithin]
  refine bind_congr fun token => ?_
  split
  · rfl
  · cases isFirst with
    | true =>
        refine bind_congr fun progress => ?_
        cases progress <;> rfl
    | false =>
        refine bind_congr fun _ => bind_congr fun progress => ?_
        cases progress <;> rfl

/-- The token that closes ends the members. -/
theorem gives_membersWithin_close
    {fuel : Nat}
    {isFirst : Bool}
    {state : σ}
    {result : Option α} :
    Gives (membersWithin close member finish (fuel + 1) isFirst state) [close] result ↔
      Gives (finish state) [] result := by
  rw [membersWithin_succ, gives_peek_bind, if_pos rfl, gives_take_bind]

/-- A later member follows a comma. -/
theorem gives_membersWithin_comma
    (notComma : close ≠ .comma)
    {fuel : Nat}
    {state : σ}
    {tokens : List Token}
    {result : Option α} :
    Gives (membersWithin close member finish (fuel + 1) false state) (.comma :: tokens) result ↔
      Gives (member state >>= goOn close member finish fuel) tokens result := by
  have other : some Token.comma ≠ some close := fun same => notComma (Option.some.inj same).symm
  rw [membersWithin_succ, gives_peek_bind, if_neg other, if_neg Bool.false_ne_true,
    gives_expect_bind]

/-- A first member stands without a comma. -/
theorem gives_membersWithin_first
    {token : Token}
    (notClose : token ≠ close)
    {fuel : Nat}
    {state : σ}
    {tokens : List Token}
    {result : Option α} :
    Gives (membersWithin close member finish (fuel + 1) true state) (token :: tokens) result ↔
      Gives (member state >>= goOn close member finish fuel) (token :: tokens) result := by
  have other : some token ≠ some close := fun same => notClose (Option.some.inj same)
  rw [membersWithin_succ, gives_peek_bind, if_neg other, if_pos rfl]

section After

variable {state next : σ} {first : List Token} {others : List (List Token)} {result : Option α}

theorem givesAfter_nil
    (finished : Gives (finish state) [] result) :
    GivesAfter close member finish state [] result := by
  intro fuel enough
  cases fuel with
  | zero => exact absurd enough (Nat.not_lt_zero _)
  | succ fuel => exact gives_membersWithin_close.mpr finished

/-- What comes of a member and of those after it. -/
theorem givesAfter_cons
    (notComma : close ≠ .comma)
    (reads : ∀ fuel, others.length < fuel →
      Gives (member state >>= goOn close member finish fuel)
        (first ++ Token.following close others) result) :
    GivesAfter close member finish state (first :: others) result := by
  intro fuel enough
  cases fuel with
  | zero => exact absurd enough (Nat.not_lt_zero _)
  | succ fuel =>
      rw [Token.following, gives_membersWithin_comma notComma]
      exact reads fuel (Nat.lt_of_succ_lt_succ enough)

theorem givesAfter_more
    (notComma : close ≠ .comma)
    (reads : Gives (member state) first (some (.more next)))
    (following : GivesAfter close member finish next others result) :
    GivesAfter close member finish state (first :: others) result :=
  givesAfter_cons notComma fun fuel enough => reads.bind (following fuel enough)

/-- A result that stands has to be followed by the end. -/
theorem gives_expect_following
    (notComma : close ≠ .comma)
    (value : α) :
    Gives
      (do
        expect close
        return value)
      (Token.following close others) (if others = [] then some value else none) := by
  cases others with
  | nil =>
      rw [Token.following, gives_expect_bind, if_pos rfl]
      exact gives_pure value
  | cons other others =>
      rw [if_neg (List.cons_ne_nil other others)]
      exact gives_expect_bind_of_ne (Ne.symm notComma) _ _

theorem givesAfter_settled
    (notComma : close ≠ .comma)
    {value : α}
    (reads : Gives (member state) first (some (.settled value))) :
    GivesAfter close member finish state (first :: others)
      (if others = [] then some value else none) :=
  givesAfter_cons notComma fun _ _ => reads.bind (gives_expect_following notComma value)

theorem givesAfter_none
    (notComma : close ≠ .comma)
    (reads : Gives (member state) first none) :
    GivesAfter close member finish state (first :: others) none :=
  givesAfter_cons notComma fun _ _ => reads.bind_none _

end After

theorem length_le_following
    (close : Token)
    (members : List (List Token)) :
    members.length < (Token.following close members).length := by
  induction members with
  | nil => simp [Token.following]
  | cons member members induction =>
      rw [Token.following, List.length_cons, List.length_cons, List.length_append]
      omega

/-- Members up to the token that closes them, given how those after a first one are read. -/
theorem gives_members
    (notComma : close ≠ .comma)
    {start : σ}
    {items : List (List Token)}
    (opened : ∀ item ∈ items, ∃ token more, item = token :: more ∧ token ≠ close)
    {result : Option α}
    (reads : GivesAfter close member finish start items result) :
    Gives (members close member finish start) (Token.joined close items) result := by
  intro rest
  have unfolded :
      StateT.run (members close member finish start) (Token.joined close items ++ rest) =
        StateT.run
          (membersWithin close member finish ((Token.joined close items ++ rest).length + 1)
            true start)
          (Token.joined close items ++ rest) :=
    rfl
  rw [unfolded]
  have enough : items.length < (Token.joined close items ++ rest).length + 1 := by
    cases items with
    | nil => exact Nat.succ_pos _
    | cons item items =>
        have := length_le_following close items
        simp only [Token.joined, List.length_cons, List.length_append]
        omega
  generalize (Token.joined close items ++ rest).length = fuel at enough ⊢
  have later := reads (fuel + 1) enough
  cases items with
  | nil =>
      rw [Token.following, gives_membersWithin_close] at later
      exact gives_membersWithin_close.mpr later rest
  | cons item items =>
      obtain ⟨token, more, rfl, notClose⟩ := opened item List.mem_cons_self
      rw [Token.following, gives_membersWithin_comma notComma] at later
      exact (gives_membersWithin_first notClose).mpr later rest

end Members

/-! ## Aligned readers -/

/-- On the tokens of any value the reader takes just these tokens or refuses their form. -/
def Aligned (reader : Reader α) : Prop :=
  ∀ value : Json, ∃ result, Gives reader value.tokens result

/-- What a reader makes of a value. -/
def onValue (reader : Reader α) (value : Json) : Option α :=
  match StateT.run reader value.tokens with
  | .ok (result, _) => some result
  | .error _ => none

/-- The reader looks at no token: it gives something or refuses the form. -/
def Idle (reader : Reader α) : Prop :=
  ∃ result, Gives reader [] result

theorem exists_tokens_eq_cons
    (value : Json) :
    ∃ token more, value.tokens = token :: more ∧
      token ≠ .closeArray ∧ token ≠ .closeObject ∧ token ≠ .comma := by
  cases value <;> simp [tokens]

section Aligned

variable {reader : Reader α} {next : α → Reader β}

theorem Gives.onValue_eq
    {value : Json}
    {result : Option α}
    (gives : Gives reader value.tokens result) :
    onValue reader value = result := by
  have run := gives []
  rw [List.append_nil] at run
  rw [onValue, run]
  cases result <;> rfl

theorem Aligned.gives
    (aligned : Aligned reader)
    (value : Json) :
    Gives reader value.tokens (onValue reader value) := by
  obtain ⟨result, gives⟩ := aligned value
  rw [gives.onValue_eq]
  exact gives

theorem idle_orMalformed
    (result : Option α) :
    Idle (orMalformed result) :=
  ⟨result, gives_orMalformed result⟩

theorem idle_pure
    (value : α) :
    Idle (pure value : Reader α) :=
  ⟨some value, gives_pure value⟩

theorem idle_malformed :
    Idle (malformed : Reader α) :=
  ⟨none, gives_malformed []⟩

/-- A step after a reader that makes something of what was read, or refuses it. -/
theorem Gives.andThen
    {tokens : List Token}
    {result : Option α}
    (gives : Gives reader tokens result)
    {make : α → Option β}
    (step : ∀ value, Gives (next value) [] (make value)) :
    Gives (reader >>= next) tokens (result.bind make) := by
  cases result with
  | none =>
      rw [← List.append_nil tokens]
      exact gives.bind_none []
  | some value => exact gives.bind_nil (step value)

theorem Gives.bind_idle
    {tokens : List Token}
    {result : Option α}
    (gives : Gives reader tokens result)
    (idle : ∀ value, Idle (next value)) :
    ∃ result, Gives (reader >>= next) tokens result := by
  choose make step using idle
  exact ⟨_, gives.andThen step⟩

theorem Idle.bind
    (first : Idle reader)
    (second : ∀ value, Idle (next value)) :
    Idle (reader >>= next) := by
  obtain ⟨result, gives⟩ := first
  exact gives.bind_idle second

theorem Aligned.bind
    (aligned : Aligned reader)
    (idle : ∀ value, Idle (next value)) :
    Aligned (reader >>= next) :=
  fun value => (aligned.gives value).bind_idle idle

theorem aligned_malformed :
    Aligned (malformed : Reader α) :=
  fun value => ⟨none, gives_malformed value.tokens⟩

theorem aligned_enter
    {inside : Nat → Reader α}
    (aligned : ∀ levels, Aligned (inside levels))
    (levels : Nat) :
    Aligned (enter levels inside) := by
  cases levels with
  | zero => exact aligned_malformed
  | succ levels => exact aligned levels

/-- What looks at the first token reads on with a reader that is aligned. -/
theorem aligned_peek_bind
    {choose : Option Token → Reader α}
    (aligned : ∀ token, Aligned (choose (some token))) :
    Aligned (peek? >>= choose) := by
  intro value
  obtain ⟨token, more, listed, -⟩ := exists_tokens_eq_cons value
  obtain ⟨result, gives⟩ := aligned token value
  rw [listed] at gives ⊢
  exact ⟨result, gives_peek_bind.mpr gives⟩

/-- What takes one token is aligned if it refuses the start of a list and of an object. -/
theorem aligned_take_bind
    {choose : Token → Reader α}
    (idle : ∀ token, Idle (choose token))
    (refusesArray : choose .openArray = malformed)
    (refusesObject : choose .openObject = malformed) :
    Aligned (take >>= choose) := by
  have single (token : Token) : ∃ result, Gives (take >>= choose) [token] result := by
    obtain ⟨result, gives⟩ := idle token
    exact ⟨result, gives_take_bind.mpr gives⟩
  intro value
  cases value with
  | array items =>
      refine ⟨none, gives_take_bind.mpr ?_⟩
      rw [refusesArray]
      exact gives_malformed _
  | object entries =>
      refine ⟨none, gives_take_bind.mpr ?_⟩
      rw [refusesObject]
      exact gives_malformed _
  | _ => exact single _

theorem aligned_readString :
    Aligned readString := by
  refine aligned_take_bind ?_ rfl rfl
  intro token
  cases token with
  | string units => exact idle_orMalformed _
  | _ => exact idle_malformed

theorem aligned_readBoolean :
    Aligned readBoolean := by
  refine aligned_take_bind ?_ rfl rfl
  intro token
  cases token with
  | boolean value => exact idle_pure value
  | _ => exact idle_malformed

theorem aligned_readNumber :
    Aligned readNumber := by
  refine aligned_take_bind ?_ rfl rfl
  intro token
  cases token with
  | number text => exact idle_orMalformed _
  | _ => exact idle_malformed

theorem aligned_readNatural :
    Aligned readNatural := by
  refine aligned_readNumber.bind ?_
  intro number
  cases number with
  | natural value => exact idle_pure _
  | _ => exact idle_malformed

theorem aligned_readByte :
    Aligned readByte := by
  refine aligned_readNatural.bind ?_
  intro value
  split
  · exact idle_pure _
  · exact idle_malformed

end Aligned

/-! ## Lists -/

section Lists

variable {item : Reader α}

theorem givesAfter_items
    (aligned : Aligned item)
    (items : List Json)
    (before : List α) :
    GivesAfter .closeArray (fun items => return .more ((← item) :: items))
      (fun items => return items.reverse) before (items.map tokens)
      ((items.mapM (onValue item)).map (before.reverse ++ ·)) := by
  have notComma : Token.closeArray ≠ .comma := by decide
  induction items generalizing before with
  | nil => exact givesAfter_nil (by simpa using gives_pure before.reverse)
  | cons value items induction =>
      have first := (aligned.gives value).andThen fun result =>
        gives_pure (Progress.more (result :: before) : Progress (List α) (List α))
      rw [List.map_cons, List.mapM_cons]
      cases read : onValue item value with
      | none =>
          rw [read] at first
          exact givesAfter_none notComma first
      | some result =>
          rw [read] at first
          have following := givesAfter_more notComma first (induction (result :: before))
          cases rest : items.mapM (onValue item) <;> simpa [rest] using following

/-- The values in brackets, after the opening one. -/
theorem gives_array
    {member : σ → Reader (Progress σ α)}
    {finish : σ → Reader α}
    {start : σ}
    {items : List Json}
    {result : Option α}
    (reads : GivesAfter .closeArray member finish start (items.map tokens) result) :
    Gives (expect .openArray >>= fun _ => members .closeArray member finish start)
      (Json.array items).tokens result := by
  have opened : ∀ item ∈ items.map tokens, ∃ token more,
      item = token :: more ∧ token ≠ Token.closeArray := by
    intro item member
    obtain ⟨value, -, rfl⟩ := List.mem_map.mp member
    obtain ⟨token, more, listed, notClose, -⟩ := exists_tokens_eq_cons value
    exact ⟨token, more, listed, notClose⟩
  rw [tokens, itemTokens_eq_map, gives_expect_bind]
  exact gives_members (by decide) opened reads

/-- A list is read item by item. -/
theorem gives_list
    (aligned : Aligned item)
    (items : List Json) :
    Gives (list item) (Json.array items).tokens (items.mapM (onValue item)) := by
  have reads := gives_array (givesAfter_items aligned items [])
  simpa [list] using reads

theorem aligned_list
    (aligned : Aligned item) :
    Aligned (list item) := by
  intro value
  cases value with
  | array items => exact ⟨_, gives_list aligned items⟩
  | _ => exact ⟨none, gives_expect_bind_of_ne (by simp) _ _⟩

end Lists

/-! ## Objects and records -/

section Objects

variable {entry : σ → String → Reader (Progress σ α)} {finish : σ → Reader α}

/-- How an entry is read: its key, a colon, and what the key asks for. -/
def readEntry
    (entry : σ → String → Reader (Progress σ α))
    (state : σ) :
    Reader (Progress σ α) := do
  let key ← readString
  expect .colon
  entry state key

theorem gives_readEntry_bind
    {state : σ}
    {key : String}
    {tokens : List Token}
    {next : Progress σ α → Reader β}
    {result : Option β} :
    Gives (readEntry entry state >>= next)
        (.string (TextUnit.ofText key) :: .colon :: tokens) result ↔
      Gives (entry state key >>= next) tokens result := by
  rw [readEntry, bind_assoc, gives_readString_bind, TextUnit.text?_ofText, orMalformed, pure_bind,
    bind_assoc, gives_expect_bind]

theorem gives_readEntry
    {state : σ}
    {key : String}
    {tokens : List Token}
    {result : Option (Progress σ α)} :
    Gives (readEntry entry state) (.string (TextUnit.ofText key) :: .colon :: tokens) result ↔
      Gives (entry state key) tokens result := by
  rw [← bind_pure (readEntry entry state), gives_readEntry_bind, bind_pure]

/-- An object is read entry by entry. -/
theorem gives_entries
    {start : σ}
    {members : List (String × Json)}
    {result : Option α}
    (reads : GivesAfter .closeObject (readEntry entry) finish start (entryTokens members) result) :
    Gives (entries entry finish start) (object members).tokens result := by
  have opened : ∀ item ∈ entryTokens members, ∃ token more,
      item = token :: more ∧ token ≠ Token.closeObject := by
    intro item member
    rw [entryTokens_eq_map] at member
    obtain ⟨⟨key, value⟩, -, rfl⟩ := List.mem_map.mp member
    exact ⟨_, _, rfl, by simp⟩
  rw [tokens, entries, gives_expect_bind]
  exact gives_members (by decide) opened reads

end Objects

section Records

/-- What comes of the entries of a record, given the keys that were seen before. -/
def fill
    (slots : List (Slot σ))
    (state : σ)
    (seen : List String) :
    List (String × Json) → Option σ
  | [] =>
    if slots.all fun slot => slot.isOptional || seen.contains slot.key then some state
    else none
  | (key, value) :: members =>
    match slots.find? (·.key = key) with
    | some slot =>
      if key ∈ seen then none
      else
        (onValue (slot.read state) value).bind fun state =>
          fill slots state (key :: seen) members
    | none => none

/-- A record without other entries is read from an object entry by entry. -/
theorem gives_recordFromObject
    {slots : List (Slot σ)}
    (aligned : ∀ slot ∈ slots, ∀ state, Aligned (slot.read state))
    (start : σ)
    (members : List (String × Json)) :
    Gives (recordFromObject false slots start) (object members).tokens
      (fill slots start [] members) := by
  have notComma : Token.closeObject ≠ .comma := by decide
  refine gives_entries ?_
  generalize ([] : List String) = seen
  induction members generalizing start seen with
  | nil =>
      refine givesAfter_nil ?_
      dsimp only
      rw [fill]
      split
      · exact gives_pure start
      · exact gives_malformed []
  | cons member members induction =>
      rcases member with ⟨key, value⟩
      rw [entryTokens, fill]
      cases found : slots.find? (·.key = key) with
      | none =>
          refine givesAfter_none notComma (gives_readEntry.mpr ?_)
          simp only [found, Bool.false_eq_true, if_false]
          exact gives_malformed _
      | some slot =>
          by_cases again : key ∈ seen
          · simp only [again, if_true]
            refine givesAfter_none notComma (gives_readEntry.mpr ?_)
            simp only [found, again, if_true]
            exact gives_malformed _
          · have first := (aligned slot (List.mem_of_find?_eq_some found) start).gives value
            simp only [again, if_false]
            cases read : onValue (slot.read start) value with
            | none =>
                rw [read] at first
                refine givesAfter_none notComma (gives_readEntry.mpr ?_)
                simp only [found, again, if_false]
                exact first.andThen fun _ => gives_pure _
            | some next =>
                rw [read] at first
                refine givesAfter_more notComma (gives_readEntry.mpr ?_)
                  (induction next (key :: seen))
                simp only [found, again, if_false]
                exact first.andThen fun _ => gives_pure _

theorem aligned_recordFromList
    {slots : List (Slot σ)}
    (aligned : ∀ slot ∈ slots, ∀ state, Aligned (slot.read state))
    (start : σ) :
    Aligned (recordFromList slots start) := by
  have notComma : Token.closeArray ≠ .comma := by decide
  intro value
  cases value with
  | array items =>
      suffices following : ∃ result, GivesAfter _ _ _ (slots, start) (items.map tokens) result by
        obtain ⟨result, reads⟩ := following
        exact ⟨result, gives_array reads⟩
      induction items generalizing slots start with
      | nil =>
          obtain ⟨result, finished⟩ : Idle
              (if slots.all (·.mayEndBefore) then pure start else malformed : Reader σ) := by
            split
            · exact idle_pure start
            · exact idle_malformed
          exact ⟨result, givesAfter_nil finished⟩
      | cons value items induction =>
          rw [List.map_cons]
          cases slots with
          | nil => exact ⟨none, givesAfter_none notComma (gives_malformed _)⟩
          | cons slot slots =>
              have first := (aligned slot List.mem_cons_self start).gives value
              cases read : onValue (slot.read start) value with
              | none =>
                  rw [read] at first
                  exact ⟨none, givesAfter_none notComma (first.andThen fun _ => gives_pure _)⟩
              | some next =>
                  rw [read] at first
                  have others : ∀ slot ∈ slots, ∀ state, Aligned (slot.read state) :=
                    fun other member => aligned other (List.mem_cons_of_mem _ member)
                  obtain ⟨result, following⟩ := induction others next
                  exact ⟨result,
                    givesAfter_more notComma (first.andThen fun _ => gives_pure _) following⟩
  | _ => exact ⟨none, gives_expect_bind_of_ne (by simp) _ _⟩

theorem aligned_record
    {slots : List (Slot σ)}
    (aligned : ∀ slot ∈ slots, ∀ state, Aligned (slot.read state))
    (start : σ) :
    Aligned (record false slots start) := by
  refine aligned_peek_bind fun token => ?_
  split
  · exact aligned_recordFromList aligned start
  · intro value
    cases value with
    | object members => exact ⟨_, gives_recordFromObject aligned start members⟩
    | _ => exact ⟨none, gives_expect_bind_of_ne (by simp) _ _⟩

theorem Aligned.onValue_bind_pure
    {reader : Reader α}
    (aligned : Aligned reader)
    (make : α → β)
    (value : Json) :
    onValue (reader >>= fun result => pure (make result)) value =
      (onValue reader value).map make := by
  rw [Option.map_eq_bind]
  exact ((aligned.gives value).andThen fun result => gives_pure (make result)).onValue_eq

/-- The entry of a record that holds one thing. -/
def singleSlot (key : String) (reader : Reader α) : List (Slot α) :=
  [required key fun _ => reader]

theorem aligned_singleSlot
    {reader : Reader α}
    (aligned : Aligned reader)
    (key : String) :
    ∀ slot ∈ singleSlot key reader, ∀ state, Aligned (slot.read state) := by
  simp only [singleSlot, List.forall_mem_singleton]
  exact fun _ => aligned

theorem fill_singleSlot
    (key : String)
    (reader : Reader α)
    (start : α)
    (value : Json) :
    fill (singleSlot key reader) start [] [(key, value)] = onValue reader value := by
  simp only [fill, singleSlot, required, List.find?_cons, decide_true]
  cases onValue reader value <;> simp

/-- The entries of a record that holds two things. -/
def pairSlots
    (first : String)
    (readFirst : Reader α)
    (second : String)
    (readSecond : Reader β) :
    List (Slot (α × β)) :=
  [required first fun (_, right) => return (← readFirst, right),
    required second fun (left, _) => return (left, ← readSecond)]

theorem aligned_pairSlots
    {readFirst : Reader α}
    {readSecond : Reader β}
    (alignedFirst : Aligned readFirst)
    (alignedSecond : Aligned readSecond)
    (first second : String) :
    ∀ slot ∈ pairSlots first readFirst second readSecond, ∀ state, Aligned (slot.read state) := by
  simp only [pairSlots, required, List.forall_mem_cons]
  refine ⟨fun state => ?_, fun state => ?_, by simp⟩
  · exact alignedFirst.bind fun left => idle_pure _
  · exact alignedSecond.bind fun right => idle_pure _

/-- A record of two things is filled from its entries in either order. -/
theorem fill_pairSlots
    {first second : String}
    (different : first ≠ second)
    {readFirst : Reader α}
    {readSecond : Reader β}
    (alignedFirst : Aligned readFirst)
    (alignedSecond : Aligned readSecond)
    (start : α × β)
    (valueFirst valueSecond : Json)
    (ordered : Prop)
    [Decidable ordered] :
    fill (pairSlots first readFirst second readSecond) start []
        (if ordered then [(first, valueFirst), (second, valueSecond)]
        else [(second, valueSecond), (first, valueFirst)]) =
      (onValue readFirst valueFirst).bind fun left =>
        (onValue readSecond valueSecond).map fun right => (left, right) := by
  rcases start with ⟨left, right⟩
  have other := Ne.symm different
  split
  · simp only [fill, pairSlots, required, List.find?_cons, different, decide_true, decide_false,
      alignedFirst.onValue_bind_pure, alignedSecond.onValue_bind_pure]
    cases onValue readFirst valueFirst with
    | none => rfl
    | some left => cases onValue readSecond valueSecond <;> simp [other]
  · simp only [fill, pairSlots, required, List.find?_cons, different, decide_true, decide_false,
      alignedFirst.onValue_bind_pure, alignedSecond.onValue_bind_pure]
    cases onValue readSecond valueSecond with
    | none => cases onValue readFirst valueFirst <;> simp
    | some right => cases onValue readFirst valueFirst <;> simp [different]

end Records

end Reader

end SearchPipeline.Json
