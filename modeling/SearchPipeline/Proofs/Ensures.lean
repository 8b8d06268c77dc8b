import SearchPipeline.Proofs.Compiled
import SearchPipeline.Proofs.Reader

/-!
# What readers can give

A reader ensures a property if all that it can give has it.  The readers of lists and
records ensure what each of their steps keeps.
-/

namespace SearchPipeline.Json.Reader

variable {α β σ : Type}

/-- Whatever the tokens are, all that is given has a property. -/
def Ensures (holds : α → Prop) (reader : Reader α) : Prop :=
  ∀ tokens result rest, StateT.run reader tokens = .ok (result, rest) → holds result

section Steps

variable {holds : α → Prop} {reader : Reader α} {wanted : β → Prop} {next : α → Reader β}

theorem ensures_pure
    {value : α}
    (has : holds value) :
    Ensures holds (pure value) := by
  intro tokens result rest given
  cases given
  exact has

theorem ensures_malformed :
    Ensures holds malformed := by
  intro tokens result rest given
  contradiction

theorem ensures_orMalformed
    {result : Option α}
    (has : ∀ value ∈ result, holds value) :
    Ensures holds (orMalformed result) := by
  cases result with
  | none => exact ensures_malformed
  | some value => exact ensures_pure (has value rfl)

theorem ensures_orInvalid
    {result : Except InvalidRequest α}
    (has : ∀ value, result = .ok value → holds value) :
    Ensures holds (orInvalid result) := by
  cases result with
  | ok value => exact ensures_pure (has value rfl)
  | error problem =>
      intro tokens result rest given
      contradiction

theorem Ensures.bind
    (first : Ensures holds reader)
    (second : ∀ value, holds value → Ensures wanted (next value)) :
    Ensures wanted (reader >>= next) := by
  intro tokens result rest given
  rw [StateT.run_bind, bind_eq_ok_iff] at given
  obtain ⟨⟨value, left⟩, read, following⟩ := given
  exact second value (first tokens value left read) left result rest following

/-- What a first step gives does not matter. -/
theorem ensures_bind
    (second : ∀ value, Ensures wanted (next value)) :
    Ensures wanted (reader >>= next) := by
  have any : Ensures (fun _ => True) reader := fun _ _ _ _ => trivial
  exact any.bind fun value _ => second value

theorem ensures_enter
    {inside : Nat → Reader α}
    (within : ∀ levels, Ensures holds (inside levels))
    (levels : Nat) :
    Ensures holds (enter levels inside) := by
  cases levels with
  | zero => exact ensures_malformed
  | succ levels => exact within levels

theorem ensures_optional
    (ensured : Ensures holds reader) :
    Ensures (fun result => ∀ value ∈ result, holds value) (optional reader) := by
  refine ensures_bind fun token => ?_
  split
  · exact ensures_bind fun _ => ensures_pure (by simp)
  · exact ensured.bind fun value has => ensures_pure (by simpa using has)

end Steps

section Members

/-- A property of what a member leads to. -/
def Progress.Holds (keeps : σ → Prop) (holds : α → Prop) : Progress σ α → Prop
  | .more state => keeps state
  | .settled result => holds result

variable (keeps : σ → Prop) {holds : α → Prop}

/-- What each member keeps of the state is there at the end. -/
theorem ensures_members
    {close : Token}
    {member : σ → Reader (Progress σ α)}
    {finish : σ → Reader α}
    (step : ∀ state, keeps state → Ensures (Progress.Holds keeps holds) (member state))
    (finished : ∀ state, keeps state → Ensures holds (finish state))
    {start : σ}
    (started : keeps start) :
    Ensures holds (members close member finish start) := by
  have within (fuel : Nat) (isFirst : Bool) (state : σ) (kept : keeps state) :
      Ensures holds (membersWithin close member finish fuel isFirst state) := by
    induction fuel generalizing isFirst state with
    | zero => exact ensures_malformed
    | succ fuel induction =>
        have following : Ensures holds (member state >>= goOn close member finish fuel) := by
          refine (step state kept).bind fun progress has => ?_
          cases progress with
          | more next => exact induction false next has
          | settled result => exact ensures_bind fun _ => ensures_pure has
        rw [membersWithin_succ]
        refine ensures_bind fun token => ?_
        split
        · exact ensures_bind fun _ => finished state kept
        · split
          · exact following
          · exact ensures_bind fun _ => following
  exact ensures_bind fun tokens => within _ true start started

theorem ensures_list
    {item : Reader α}
    (ensured : Ensures holds item) :
    Ensures (fun items => ∀ item ∈ items, holds item) (list item) := by
  refine ensures_bind fun _ => ?_
  refine ensures_members (fun items => ∀ item ∈ items, holds item) ?_ ?_ (by simp)
  · intro items kept
    refine ensured.bind fun value has => ensures_pure ?_
    exact List.forall_mem_cons.mpr ⟨has, kept⟩
  · intro items kept
    exact ensures_pure (by simpa using kept)

theorem ensures_entries
    {entry : σ → String → Reader (Progress σ α)}
    {finish : σ → Reader α}
    (step : ∀ state key, keeps state → Ensures (Progress.Holds keeps holds) (entry state key))
    (finished : ∀ state, keeps state → Ensures holds (finish state))
    {start : σ}
    (started : keeps start) :
    Ensures holds (entries entry finish start) := by
  refine ensures_bind fun _ => ?_
  refine ensures_members keeps ?_ finished started
  intro state kept
  exact ensures_bind fun key => ensures_bind fun _ => step state key kept

/-- A record ensures what each of its entries keeps. -/
theorem ensures_record
    {admitsOthers : Bool}
    {slots : List (Slot σ)}
    (step : ∀ slot ∈ slots, ∀ state, keeps state → Ensures keeps (slot.read state))
    {start : σ}
    (started : keeps start) :
    Ensures keeps (record admitsOthers slots start) := by
  refine ensures_bind fun token => ?_
  split
  · refine ensures_bind fun _ => ?_
    refine ensures_members
      (fun state => keeps state.2 ∧
        ∀ slot ∈ state.1, ∀ state, keeps state → Ensures keeps (slot.read state))
      ?_ ?_ ⟨started, step⟩
    · rintro ⟨slots, state⟩ ⟨kept, steps⟩
      cases slots with
      | nil => exact ensures_malformed
      | cons slot slots =>
          refine (steps slot List.mem_cons_self state kept).bind fun next has => ensures_pure ?_
          exact ⟨has, fun other member => steps other (List.mem_cons_of_mem _ member)⟩
    · rintro ⟨slots, state⟩ ⟨kept, -⟩
      dsimp only
      split
      · exact ensures_pure kept
      · exact ensures_malformed
  · refine ensures_entries (fun state => keeps state.1) ?_ ?_ started
    · rintro ⟨state, seen⟩ key kept
      dsimp only
      split
      · rename_i slot found
        split
        · exact ensures_malformed
        · exact (step slot (List.mem_of_find?_eq_some found) state kept).bind fun next has =>
            ensures_pure has
      · split
        · exact ensures_bind fun _ => ensures_pure kept
        · exact ensures_malformed
    · rintro ⟨state, seen⟩ kept
      dsimp only
      split
      · exact ensures_pure kept
      · exact ensures_malformed

/-- What a text holds has the properties that its reader ensures. -/
theorem Ensures.of_run
    {reader : Reader α}
    (ensured : Ensures holds reader)
    {text : String}
    {value : α}
    (read : run reader text = .ok value) :
    holds value := by
  rw [run] at read
  split at read
  · rename_i result given
    rw [← Except.ok.inj read]
    exact ensured _ _ _ given
  · contradiction
  · contradiction

/-- What a reader makes of a value has the properties that the reader ensures. -/
theorem Ensures.onValue
    {reader : Reader α}
    (ensured : Ensures holds reader)
    {value : Json}
    {result : α}
    (given : onValue reader value = some result) :
    holds result := by
  unfold Reader.onValue at given
  split at given
  · rename_i made rest run
    rw [← Option.some.inj given]
    exact ensured _ _ _ run
  · contradiction

end Members

end SearchPipeline.Json.Reader
