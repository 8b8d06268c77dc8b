import SearchPipeline.Pipeline
import SearchPipeline.Proofs.Compiled
import SearchPipeline.Proofs.KeyOrder

/-!
# The order in which a filter is described

A filter is described by a document with an entry for each field, and each of its
conditions by a document with an entry for each part.  Neither order has a meaning: the parts
of a condition are looked up, and the fields of a filter are sorted.  So descriptions that
differ in these orders are accepted together, and what is accepted is the same filter, which
compiles to the same pipeline with the same warnings.
-/

namespace SearchPipeline

/-! ## Descriptions that differ in order -/

/-- Two documents with the same entries, in whatever order; no key is there twice. -/
structure Document.SameEntries (left right : Document) : Prop where
  distinct : (keys left).Nodup
  permuted : left.Perm right

/-- Two descriptions of a condition that differ at most in the order of their entries. -/
inductive Condition.Reordered : Bson → Bson → Prop where
  | same (value : Bson) : Reordered value value
  | entries
      {left right : Document}
      (same : Document.SameEntries left right) :
      Reordered (.document left) (.document right)

namespace Filter

/-- Two descriptions of a field's conditions that differ at most within the conditions. -/
inductive ReorderedConditions : Bson → Bson → Prop where
  | same (value : Bson) : ReorderedConditions value value
  | list
      {left right : List Bson}
      (each : List.Forall₂ Condition.Reordered left right) :
      ReorderedConditions (.array left) (.array right)

/--
Two descriptions of a filter that differ at most in the order of the fields, each of which
is there once, and in the order of the entries within conditions.
-/
structure Reordered (left right : Document) : Prop where
  distinct : (Document.keys left).Nodup
  arranged :
    ∃ middle, left.Perm middle ∧
      List.Forall₂
        (fun entry other => entry.1 = other.1 ∧ ReorderedConditions entry.2 other.2)
        middle right

end Filter

/-! ## Conditions -/

theorem Document.SameEntries.get?_eq
    {left right : Document}
    (same : SameEntries left right)
    (key : String) :
    get? left key = get? right key := by
  have distinct : (keys right).Nodup :=
    (same.permuted.map _).nodup_iff.mp same.distinct
  apply Option.ext
  intro value
  rw [get?_eq_lookup, get?_eq_lookup, lookup_eq_some_iff same.distinct,
    lookup_eq_some_iff distinct]
  exact same.permuted.mem_iff

/-- The parts of a condition are looked up, so that their order has no effect. -/
theorem Condition.Reordered.ofBson_eq
    {left right : Bson}
    (reordered : Reordered left right)
    (field : String) :
    ofBson field left = ofBson field right := by
  cases reordered with
  | same => rfl
  | entries same => simp only [ofBson, same.get?_eq]

theorem Filter.ReorderedConditions.conditionsOf_eq
    {left right : Bson}
    (reordered : ReorderedConditions left right)
    (field : String) :
    conditionsOf field left = conditionsOf field right := by
  cases reordered with
  | same => rfl
  | list each =>
      rw [conditionsOf, conditionsOf]
      induction each with
      | nil => rfl
      | cons first _ induction =>
          rw [List.mapM_cons, List.mapM_cons, first.ofBson_eq field, induction]

/-! ## Filters -/

namespace Filter

/-- A field keeps the conditions that were given to it last, and every other field its own. -/
theorem mem_insert_iff
    (filter : Filter)
    (field : String)
    (conditions : List Condition)
    (entry : String × List Condition) :
    entry ∈ (filter.insert field conditions).entries ↔
      entry = (field, conditions) ∨ entry ∈ filter.entries ∧ entry.1 ≠ field := by
  rcases filter with ⟨entries, sorted⟩
  show entry ∈ insertEntry field conditions entries ↔ _
  induction entries with
  | nil => simp [insertEntry]
  | cons head rest induction =>
      rcases head with ⟨other, old⟩
      rcases List.pairwise_cons.mp sorted with ⟨first, following⟩
      by_cases before : field < other
      · have others : entry ∈ (other, old) :: rest → entry.1 ≠ field := by
          intro member same
          rcases List.mem_cons.mp member with rfl | member
          · exact String.lt_irrefl field (same ▸ before)
          · exact String.lt_irrefl field
              (String.lt_trans before (same ▸ first entry member))
        rw [insertEntry, if_pos before, List.mem_cons]
        exact or_congr_right (iff_self_and.mpr others)
      · by_cases same : field = other
        · subst same
          have others : entry ∈ rest → entry.1 ≠ field := by
            intro member same
            exact String.lt_irrefl field (same ▸ first entry member)
          rw [insertEntry, if_neg before, if_pos rfl, List.mem_cons, List.mem_cons]
          grind
        · rw [insertEntry, if_neg before, if_neg same, List.mem_cons, List.mem_cons,
            induction following]
          grind

/-- A filter is determined by its entries, as their order is. -/
theorem ext_of_mem
    {left right : Filter}
    (same : ∀ entry, entry ∈ left.entries ↔ entry ∈ right.entries) :
    left = right := by
  have nodup (filter : Filter) : filter.entries.Nodup := by
    apply filter.sorted.imp
    rintro entry _ before rfl
    exact String.lt_irrefl entry.1 before
  have permuted : left.entries.Perm right.entries :=
    (List.perm_ext_iff_of_nodup (nodup left) (nodup right)).mpr same
  have equal : left.entries = right.entries := by
    apply permuted.eq_of_pairwise _ left.sorted right.sorted
    intro entry other _ _ before after
    exact (String.lt_irrefl _ (String.lt_trans before after)).elim
  cases left
  cases right
  cases equal
  rfl

/-- What each entry of a description says about its field: the conditions, or what is wrong. -/
def readings (description : Document) : List (String × Except InvalidRequest (List Condition)) :=
  description.map fun entry => (entry.1, conditionsOf entry.1 entry.2)

theorem readings_eq_of_forall₂
    {left right : Document}
    (each :
      List.Forall₂
        (fun entry other => entry.1 = other.1 ∧ ReorderedConditions entry.2 other.2)
        left right) :
    readings left = readings right := by
  induction each with
  | nil => rfl
  | @cons entry other left right first _ induction =>
      rcases entry with ⟨field, value⟩
      rcases other with ⟨_, value'⟩
      rcases first with ⟨rfl, reordered⟩
      simp only [readings, List.map_cons] at induction ⊢
      rw [reordered.conditionsOf_eq, induction]

/-- Reordered descriptions say the same about each field. -/
theorem Reordered.readings_perm
    {left right : Document}
    (reordered : Reordered left right) :
    (readings left).Perm (readings right) := by
  rcases reordered.arranged with ⟨middle, permuted, each⟩
  rw [← readings_eq_of_forall₂ each]
  exact permuted.map _

theorem Reordered.readings_distinct
    {left right : Document}
    (reordered : Reordered left right) :
    ((readings left).map (·.1)).Nodup := by
  rw [readings, List.map_map]
  exact reordered.distinct

/-- Gives the fields of some readings their conditions, until something is wrong. -/
def gather
    (before : Filter)
    (readings : List (String × Except InvalidRequest (List Condition))) :
    Except InvalidRequest Filter :=
  readings.foldlM (fun filter reading => return filter.insert reading.1 (← reading.2)) before

theorem ofDocument_eq_gather
    (description : Document) :
    ofDocument description = gather empty (readings description) := by
  rw [ofDocument, gather, readings, List.foldlM_map]

theorem gather_cons_eq_ok_iff
    (before filter : Filter)
    (field : String)
    (reading : Except InvalidRequest (List Condition))
    (rest : List (String × Except InvalidRequest (List Condition))) :
    gather before ((field, reading) :: rest) = .ok filter ↔
      ∃ conditions, reading = .ok conditions ∧
        gather (before.insert field conditions) rest = .ok filter := by
  rw [gather, List.foldlM_cons, bind_eq_ok_iff]
  constructor
  · rintro ⟨next, inserted, following⟩
    rcases (bind_eq_ok_iff _ _ _).mp inserted with ⟨conditions, read, made⟩
    cases made
    exact ⟨conditions, read, following⟩
  · rintro ⟨conditions, rfl, following⟩
    exact ⟨_, rfl, following⟩

/-- A description is accepted exactly if nothing is wrong with any of its entries. -/
theorem exists_gather_eq_ok_iff
    (before : Filter)
    (readings : List (String × Except InvalidRequest (List Condition))) :
    (∃ filter, gather before readings = .ok filter) ↔
      ∀ reading ∈ readings, ∃ conditions, reading.2 = .ok conditions := by
  induction readings generalizing before with
  | nil => exact ⟨fun _ => by simp, fun _ => ⟨before, rfl⟩⟩
  | cons reading rest induction =>
      rcases reading with ⟨field, reading⟩
      simp only [gather_cons_eq_ok_iff, List.forall_mem_cons]
      constructor
      · rintro ⟨filter, conditions, read, following⟩
        exact ⟨⟨conditions, read⟩, (induction _).mp ⟨filter, following⟩⟩
      · rintro ⟨⟨conditions, read⟩, others⟩
        rcases (induction (before.insert field conditions)).mpr others with ⟨filter, following⟩
        exact ⟨filter, conditions, read, following⟩

/-- An item of a list stands first in it, or among those that follow the first. -/
theorem exists_eq_append_cons_iff
    {α : Type}
    (first wanted : α)
    (rest : List α)
    (holds : List α → Prop) :
    (∃ front back, first :: rest = front ++ wanted :: back ∧ holds back) ↔
      first = wanted ∧ holds rest ∨
        ∃ front back, rest = front ++ wanted :: back ∧ holds back := by
  constructor
  · rintro ⟨front, back, listed, held⟩
    cases front with
    | nil =>
        cases listed
        exact Or.inl ⟨rfl, held⟩
    | cons earlier front =>
        cases listed
        exact Or.inr ⟨front, back, rfl, held⟩
  · rintro (⟨rfl, held⟩ | ⟨front, back, rfl, held⟩)
    · exact ⟨[], rest, rfl, held⟩
    · exact ⟨first :: front, back, rfl, held⟩

/--
A filter that is gathered has for each field the conditions that were read for it last, and
for the other fields those that they had before.  The induction is on the readings: what is
read first stands only if nothing is read for the same field later.
-/
theorem mem_gather_iff
    {before filter : Filter}
    {readings : List (String × Except InvalidRequest (List Condition))}
    (gathered : gather before readings = .ok filter)
    (entry : String × List Condition) :
    entry ∈ filter.entries ↔
      (∃ front back,
          readings = front ++ (entry.1, .ok entry.2) :: back ∧ entry.1 ∉ back.map (·.1)) ∨
        entry ∈ before.entries ∧ entry.1 ∉ readings.map (·.1) := by
  induction readings generalizing before with
  | nil =>
      cases gathered
      simp
  | cons reading rest induction =>
      rcases reading with ⟨field, reading⟩
      rcases (gather_cons_eq_ok_iff _ _ _ _ _).mp gathered with ⟨conditions, rfl, following⟩
      rcases entry with ⟨name, listed⟩
      rw [induction following, mem_insert_iff, exists_eq_append_cons_iff]
      simp only [List.map_cons, List.mem_cons, Prod.mk.injEq, Except.ok.injEq, not_or]
      constructor
      · rintro (later | ⟨⟨rfl, rfl⟩ | ⟨old, other⟩, unread⟩)
        · exact Or.inl (Or.inr later)
        · exact Or.inl (Or.inl ⟨⟨rfl, rfl⟩, unread⟩)
        · exact Or.inr ⟨old, other, unread⟩
      · rintro ((⟨⟨rfl, rfl⟩, unread⟩ | later) | ⟨old, other, unread⟩)
        · exact Or.inr ⟨Or.inl ⟨rfl, rfl⟩, unread⟩
        · exact Or.inl later
        · exact Or.inr ⟨Or.inr ⟨old, other⟩, unread⟩

/-- If each field is read once, it has the conditions that were read. -/
theorem mem_of_gather_eq_ok
    {before filter : Filter}
    {readings : List (String × Except InvalidRequest (List Condition))}
    (distinct : (readings.map (·.1)).Nodup)
    (gathered : gather before readings = .ok filter)
    (entry : String × List Condition) :
    entry ∈ filter.entries ↔
      (entry.1, .ok entry.2) ∈ readings ∨
        entry ∈ before.entries ∧ entry.1 ∉ readings.map (·.1) := by
  rw [mem_gather_iff gathered]
  refine or_congr_left ⟨?_, fun member => ?_⟩
  · rintro ⟨front, back, rfl, -⟩
    exact List.mem_append_right front List.mem_cons_self
  · obtain ⟨front, back, rfl⟩ := List.append_of_mem member
    rw [List.map_append, List.map_cons] at distinct
    exact ⟨front, back, rfl, (List.nodup_cons.mp (List.nodup_append.mp distinct).2.1).1⟩

/-- Filters that are gathered from the same readings in another order are the same. -/
theorem gather_eq_of_perm
    {left right : List (String × Except InvalidRequest (List Condition))}
    (permuted : left.Perm right)
    (distinct : (left.map (·.1)).Nodup)
    {filter other : Filter}
    (gathered : gather empty left = .ok filter)
    (gatheredOther : gather empty right = .ok other) :
    filter = other := by
  have distinctOther : (right.map (·.1)).Nodup :=
    (permuted.map _).nodup_iff.mp distinct
  apply ext_of_mem
  intro entry
  rw [mem_of_gather_eq_ok distinct gathered, mem_of_gather_eq_ok distinctOther gatheredOther,
    permuted.mem_iff, (permuted.map _).mem_iff]

end Filter

namespace Search

/--
Descriptions of a filter that differ in the order of the fields, and of the entries within
conditions, are both accepted or both refused.  If they are accepted, they describe the same
filter, and whatever else is searched for, the same pipeline or the same problem comes out,
with the same warnings.
-/
theorem compile_of_reordered
    (left right : Document)
    (reordered : Filter.Reordered left right) :
    ((∃ filter, Filter.ofBson (.document left) = .ok filter) ↔
        ∃ filter, Filter.ofBson (.document right) = .ok filter) ∧
      ∀ filter other,
        Filter.ofBson (.document left) = .ok filter →
          Filter.ofBson (.document right) = .ok other →
            filter = other ∧
              ∀ (settings : Settings) (search : Search) (joins : List Document)
                (extras : Conditions) (skipsSort : Bool),
                (compile settings { search with filter := some filter } joins extras
                      skipsSort).outcome =
                    (compile settings { search with filter := some other } joins extras
                      skipsSort).outcome ∧
                  (compile settings { search with filter := some filter } joins extras
                      skipsSort).reversed =
                    (compile settings { search with filter := some other } joins extras
                      skipsSort).reversed := by
  have permuted := reordered.readings_perm
  simp only [Filter.ofBson, Filter.ofDocument_eq_gather]
  constructor
  · rw [Filter.exists_gather_eq_ok_iff, Filter.exists_gather_eq_ok_iff]
    simp only [permuted.mem_iff]
  · intro filter other gathered gatheredOther
    have same :=
      Filter.gather_eq_of_perm permuted reordered.readings_distinct gathered gatheredOther
    subst same
    exact ⟨rfl, fun _ _ _ _ _ => ⟨rfl, rfl⟩⟩

/-- A description with two fields; the bounds of one look reversed. -/
def sinceThenName : Document :=
  [("since", .array
      [.document
        [("value", .array [.dateTime 2000, .dateTime 1000]), ("matchMode", .string "between")]]),
    ("name", .array
      [.document [("value", .string "ann"), ("matchMode", .string "contains")]])]

/-- The same with the fields in the other order, and the entries of one condition too. -/
def nameThenSince : Document :=
  [("name", .array
      [.document [("value", .string "ann"), ("matchMode", .string "contains")]]),
    ("since", .array
      [.document
        [("matchMode", .string "between"), ("value", .array [.dateTime 2000, .dateTime 1000])]])]

theorem reordered_nameThenSince : Filter.Reordered nameThenSince sinceThenName where
  distinct := by decide
  arranged := by
    refine ⟨_, List.Perm.swap _ _ [], .cons ⟨rfl, .list (.cons (.entries ⟨?_, ?_⟩) .nil)⟩ ?_⟩
    · decide
    · exact List.Perm.swap _ _ []
    · exact .cons ⟨rfl, .same _⟩ .nil

/-- Both are read as the same filter, with the one warning about its bounds. -/
theorem compile_of_reordered_nameThenSince :
    ∃ filter,
      Filter.ofBson (.document nameThenSince) = .ok filter ∧
        Filter.ofBson (.document sinceThenName) = .ok filter ∧
        (compile {} { filter := some filter } [] {} true).reversed = ["since"] := by
  rcases compile_of_reordered nameThenSince sinceThenName reordered_nameThenSince with
    ⟨accepted, same⟩
  rcases accepted.mp ⟨_, rfl⟩ with ⟨filter, read⟩
  rcases same _ filter rfl read with ⟨rfl, compiled⟩
  exact ⟨_, rfl, read, rfl⟩

end Search

end SearchPipeline
