import SearchPipeline.Proofs.Condition
import SearchPipeline.Proofs.EntryOrder
import SearchPipeline.Proofs.FirstProblem
import SearchPipeline.Proofs.Layout

/-!
# The grammar of filters

A filter is described by a document with a list for each field, and each item of the list
is a document that describes a condition.  This file says which values these are and what
they describe, and what is wrong with a value that describes no filter: of the entries in
order, of the items of an entry in order and of the parts of an item in order, the first
one with something wrong decides.  Reading a filter accepts and refuses exactly so.
-/

namespace SearchPipeline

namespace MatchMode

theorem ofName?_eq_some_iff
    (name : String)
    (mode : MatchMode) :
    ofName? name = some mode ↔ mode.name = name := by
  constructor
  · intro found
    rw [ofName?] at found
    simpa using List.find?_some found
  · rintro rfl
    exact ofName?_name mode

theorem ofName?_eq_none_iff
    (name : String) :
    ofName? name = none ↔ ∀ mode : MatchMode, mode.name ≠ name := by
  simp only [Option.eq_none_iff_forall_ne_some, Ne, ofName?_eq_some_iff]

end MatchMode

namespace Condition

/-! ## Conditions that are described -/

/-- A value that a condition can be given; the four others stand for no value. -/
structure IsValue (value : Bson) : Prop where
  notNull : value ≠ .null
  notUndefined : value ≠ .undefined
  notEmptyText : value ≠ .string ""
  notEmptyList : value ≠ .array []

/-- An entry is left out if it is absent or null. -/
def LeftOut (entry : Option Bson) : Prop :=
  entry = none ∨ entry = some .null

/-- An entry is given and not of a kind. -/
def OfOtherKind
    {α : Type}
    (kind : α → Bson)
    (entry : Option Bson) :
    Prop :=
  ¬ LeftOut entry ∧ ∀ value, entry ≠ some (kind value)

/-- A value describes a condition: it is a document with an entry for each part of it. -/
inductive Describes : Bson → Condition → Prop where
  | document
      {entries : Document}
      {condition : Condition}
      (value : Document.get? entries "value" = some condition.value)
      (isValue : IsValue condition.value)
      (mode : Document.get? entries "matchMode" = some (.string condition.mode.name))
      (required :
        LeftOut (Document.get? entries "required") ∧ condition.isRequired = false ∨
          Document.get? entries "required" = some (.boolean condition.isRequired))
      (property :
        LeftOut (Document.get? entries "property") ∧ condition.property = none ∨
          ∃ name, Document.get? entries "property" = some (.string name) ∧
            condition.property = some name) :
      Describes (.document entries) condition

/-- What is looked at in the description of a condition. -/
inductive Part where
  | shape
  | value
  | mode
  | required
  | property

/-- The parts in the order in which they are looked at. -/
def Part.all : List Part :=
  [.shape, .value, .mode, .required, .property]

/-- What is wrong with one part of a description of a condition, whatever the others are. -/
inductive Flaw (field : String) : Bson → Part → InvalidRequest → Prop where
  | noDocument
      {given : Bson}
      (other : ∀ entries, given ≠ .document entries) :
      Flaw field given .shape (.conditionNotADocument field)
  | noValue
      {entries : Document}
      (missing : ∀ value, Document.get? entries "value" = some value → ¬ IsValue value) :
      Flaw field (.document entries) .value (.missingValue field)
  | noMode
      {entries : Document}
      (missing : LeftOut (Document.get? entries "matchMode")) :
      Flaw field (.document entries) .mode (.missingMatchMode field)
  | unknownMode
      {entries : Document}
      {name : String}
      (named : Document.get? entries "matchMode" = some (.string name))
      (unknown : ∀ mode : MatchMode, mode.name ≠ name) :
      Flaw field (.document entries) .mode (.unknownMatchMode field name)
  | modeOfOtherKind
      {entries : Document}
      (other : OfOtherKind .string (Document.get? entries "matchMode")) :
      Flaw field (.document entries) .mode (.wrongKind field "matchMode" "a string")
  | requiredOfOtherKind
      {entries : Document}
      (other : OfOtherKind .boolean (Document.get? entries "required")) :
      Flaw field (.document entries) .required (.wrongKind field "required" "a boolean")
  | propertyOfOtherKind
      {entries : Document}
      (other : OfOtherKind .string (Document.get? entries "property")) :
      Flaw field (.document entries) .property (.wrongKind field "property" "a string")

/-! ## Conditions that are read -/

theorem valueOf_eq_ok_iff
    (field : String)
    (entry : Option Bson)
    (value : Bson) :
    valueOf field entry = .ok value ↔ entry = some value ∧ IsValue value := by
  unfold valueOf givenValue?
  constructor
  · intro read
    have stands : entry = some value := (valueOf_eq_ok read).1
    subst stands
    refine ⟨rfl, ?_, ?_, ?_, ?_⟩
    all_goals
      rintro rfl
      cases read
  · rintro ⟨rfl, notNull, notUndefined, notEmptyText, notEmptyList⟩
    grind

theorem modeOf_eq_ok_iff
    (field : String)
    (entry : Option Bson)
    (mode : MatchMode) :
    modeOf field entry = .ok mode ↔ entry = some (.string mode.name) := by
  constructor
  · intro read
    unfold modeOf at read
    split at read
    · cases read
    · cases read
    · split at read
      · rename_i found
        cases read
        rw [(MatchMode.ofName?_eq_some_iff _ _).mp found]
      · cases read
    · cases read
  · rintro rfl
    simp [modeOf]

theorem requiredOf_eq_ok_iff
    (field : String)
    (entry : Option Bson)
    (isRequired : Bool) :
    requiredOf field entry = .ok isRequired ↔
      LeftOut entry ∧ isRequired = false ∨ entry = some (.boolean isRequired) := by
  unfold requiredOf LeftOut
  grind

theorem propertyOf_eq_ok_iff
    (field : String)
    (entry : Option Bson)
    (property : Option String) :
    propertyOf field entry = .ok property ↔
      LeftOut entry ∧ property = none ∨
        ∃ name, entry = some (.string name) ∧ property = some name := by
  unfold propertyOf LeftOut
  grind

/-- A condition is read from exactly the values that describe it. -/
theorem ofBson_eq_ok_iff_describes
    (field : String)
    (given : Bson)
    (condition : Condition) :
    ofBson field given = .ok condition ↔ Describes given condition := by
  simp only [ofBson_eq_ok_iff, valueOf_eq_ok_iff, modeOf_eq_ok_iff, requiredOf_eq_ok_iff,
    propertyOf_eq_ok_iff]
  constructor
  · rintro ⟨entries, rfl, ⟨value, isValue⟩, mode, required, property⟩
    exact .document value isValue mode required property
  · intro describes
    cases describes with
    | document value isValue mode required property =>
        exact ⟨_, rfl, ⟨value, isValue⟩, mode, required, property⟩

section Flaws

variable {field : String} {entries : Document} {problem : InvalidRequest}

/-! A part has a flaw exactly if the reading of the part is refused with this problem. -/

theorem flaw_value_iff :
    Flaw field (.document entries) .value problem ↔
      valueOf field (Document.get? entries "value") = .error problem := by
  cases read : valueOf field (Document.get? entries "value") with
  | ok value =>
      have ⟨found, isValue⟩ := (valueOf_eq_ok_iff _ _ _).mp read
      constructor
      · intro flaw
        cases flaw with
        | noValue missing => exact (missing value found isValue).elim
      · intro refused
        cases refused
  | error cause =>
      have refused : cause = .missingValue field := by
        unfold valueOf at read
        split at read <;> cases read
        rfl
      have missing value (found : Document.get? entries "value" = some value) :
          ¬ IsValue value := by
        intro isValue
        rw [(valueOf_eq_ok_iff _ _ value).mpr ⟨found, isValue⟩] at read
        cases read
      rw [refused, Except.error.injEq]
      constructor
      · intro flaw
        cases flaw
        rfl
      · rintro rfl
        exact .noValue missing

theorem flaw_mode_iff :
    Flaw field (.document entries) .mode problem ↔
      modeOf field (Document.get? entries "matchMode") = .error problem := by
  constructor
  · intro flaw
    cases flaw with
    | noMode missing => rcases missing with absent | null <;> simp [modeOf, *]
    | unknownMode named unknown =>
        rw [named, modeOf, (MatchMode.ofName?_eq_none_iff _).mpr unknown]
    | modeOfOtherKind other =>
        unfold modeOf
        grind [OfOtherKind, LeftOut]
  · generalize found : Document.get? entries "matchMode" = entry
    intro refused
    unfold modeOf at refused
    split at refused
    · cases refused
      exact .noMode (.inl found)
    · cases refused
      exact .noMode (.inr found)
    · split at refused
      · cases refused
      · rename_i unknown
        cases refused
        exact .unknownMode found ((MatchMode.ofName?_eq_none_iff _).mp unknown)
    · cases refused
      exact .modeOfOtherKind (by grind [OfOtherKind, LeftOut])

theorem flaw_required_iff :
    Flaw field (.document entries) .required problem ↔
      requiredOf field (Document.get? entries "required") = .error problem := by
  constructor
  · intro flaw
    cases flaw with
    | requiredOfOtherKind other =>
        unfold requiredOf
        grind [OfOtherKind, LeftOut]
  · generalize found : Document.get? entries "required" = entry
    intro refused
    unfold requiredOf at refused
    split at refused <;> cases refused
    exact .requiredOfOtherKind (by grind [OfOtherKind, LeftOut])

theorem flaw_property_iff :
    Flaw field (.document entries) .property problem ↔
      propertyOf field (Document.get? entries "property") = .error problem := by
  constructor
  · intro flaw
    cases flaw with
    | propertyOfOtherKind other =>
        unfold propertyOf
        grind [OfOtherKind, LeftOut]
  · generalize found : Document.get? entries "property" = entry
    intro refused
    unfold propertyOf at refused
    split at refused <;> cases refused
    exact .propertyOfOtherKind (by grind [OfOtherKind, LeftOut])

end Flaws

/-- A condition is refused for its first part with something wrong. -/
theorem ofBson_eq_error_iff
    (field : String)
    (given : Bson)
    (problem : InvalidRequest) :
    ofBson field given = .error problem ↔ First (Flaw field given) Part.all problem := by
  by_cases described : ∃ entries, given = .document entries
  · obtain ⟨entries, rfl⟩ := described
    have shaped problem : ¬ Flaw field (.document entries) .shape problem := by
      intro flaw
      cases flaw with
      | noDocument other => exact other entries rfl
    simp only [ofBson, bind_eq_error_iff, Part.all, first_cons_iff, shaped, flaw_value_iff,
      flaw_mode_iff, flaw_required_iff, flaw_property_iff, ← Ne.eq_def, ← exists_eq_ok_iff,
      not_first_nil]
    simp [pure, Except.pure]
  · have refused : ofBson field given = .error (.conditionNotADocument field) := by
      cases given with
      | document entries => exact (described ⟨entries, rfl⟩).elim
      | _ => rfl
    have shaped problem :
        Flaw field given .shape problem ↔ problem = .conditionNotADocument field := by
      constructor
      · intro flaw
        cases flaw
        rfl
      · rintro rfl
        exact .noDocument fun entries same => described ⟨entries, same⟩
    rw [refused, Except.error.injEq, Part.all, first_cons_iff, shaped, eq_comm]
    refine (or_iff_left fun others => ?_).symm
    exact others.1 _ ((shaped _).mpr rfl)

end Condition

namespace Filter

/-! ## Filters that are described -/

/-- What is wrong with the entry of a description for one field. -/
inductive Flaw : String × Bson → InvalidRequest → Prop where
  | noList
      {field : String}
      {given : Bson}
      (other : ∀ items, given ≠ .array items) :
      Flaw (field, given) (.conditionsNotAList field)
  | condition
      {field : String}
      {items : List Bson}
      {problem : InvalidRequest}
      (first :
        First (fun item => First (Condition.Flaw field item) Condition.Part.all) items problem) :
      Flaw (field, .array items) problem

/-- What is wrong with a value that describes no filter. -/
inductive Refused : Bson → InvalidRequest → Prop where
  | missing
      {given : Bson}
      (absent : given = .null ∨ given = .undefined) :
      Refused given .missingFilter
  | noDocument
      {given : Bson}
      (present : given ≠ .null ∧ given ≠ .undefined)
      (other : ∀ document, given ≠ .document document) :
      Refused given (.notADocument "query")
  | flawed
      {document : Document}
      {problem : InvalidRequest}
      (first : First Flaw document problem) :
      Refused (.document document) problem

/-- Conditions are described by a list with an item for each of them, in order. -/
inductive DescribesEach : Bson → List Condition → Prop where
  | list
      {items : List Bson}
      {conditions : List Condition}
      (each : List.Forall₂ Condition.Describes items conditions) :
      DescribesEach (.array items) conditions

/-- A list describes some conditions exactly if each of its items describes one. -/
theorem exists_describesEach_iff (given : Bson) :
    (∃ conditions, DescribesEach given conditions) ↔
      ∃ items, given = .array items ∧
        ∀ item ∈ items, ∃ condition, Condition.Describes item condition := by
  constructor
  · rintro ⟨conditions, ⟨each⟩⟩
    refine ⟨_, rfl, ?_⟩
    induction each with
    | nil => simp
    | cons first rest induction => exact List.forall_mem_cons.mpr ⟨⟨_, first⟩, induction⟩
  · rintro ⟨items, rfl, each⟩
    have related : ∃ conditions, List.Forall₂ Condition.Describes items conditions := by
      induction items with
      | nil => exact ⟨[], .nil⟩
      | cons item items induction =>
          obtain ⟨⟨condition, first⟩, others⟩ := List.forall_mem_cons.mp each
          obtain ⟨conditions, rest⟩ := induction others
          exact ⟨condition :: conditions, .cons first rest⟩
    obtain ⟨conditions, each⟩ := related
    exact ⟨conditions, .list each⟩

/--
A value describes a filter: it is a document with a list of conditions for each field, and
the filter has these conditions for the field.  A document has each field once; of entries
that repeat a field the last one counts.
-/
inductive Describes : Bson → Filter → Prop where
  | document
      {description : Document}
      {filter : Filter}
      (each : ∀ entry ∈ description, ∃ conditions, DescribesEach entry.2 conditions)
      (mapped : ∀ field conditions,
        (field, conditions) ∈ filter.entries ↔
          ∃ front given back,
            description = front ++ (field, given) :: back ∧
              field ∉ Document.keys back ∧ DescribesEach given conditions) :
      Describes (.document description) filter

theorem Describes.unique
    {given : Bson}
    {filter other : Filter}
    (first : Describes given filter)
    (second : Describes given other) :
    filter = other := by
  cases first with
  | document _ mapped =>
      cases second with
      | document _ others =>
          exact ext_of_mem fun entry => (mapped entry.1 entry.2).trans (others entry.1 entry.2).symm

/-! ## Filters that are read -/

theorem conditionsOf_eq_ok_iff
    (field : String)
    (given : Bson)
    (conditions : List Condition) :
    conditionsOf field given = .ok conditions ↔ DescribesEach given conditions := by
  constructor
  · intro read
    cases given with
    | array items =>
        rw [conditionsOf, mapM_eq_ok_iff] at read
        simp only [Condition.ofBson_eq_ok_iff_describes] at read
        exact .list read
    | _ => cases read
  · intro described
    cases described with
    | list each =>
        rw [conditionsOf, mapM_eq_ok_iff]
        simpa only [Condition.ofBson_eq_ok_iff_describes] using each

theorem conditionsOf_eq_error_iff
    (field : String)
    (given : Bson)
    (problem : InvalidRequest) :
    conditionsOf field given = .error problem ↔ Flaw (field, given) problem := by
  constructor
  · intro refused
    cases given with
    | array items =>
        rw [conditionsOf, mapM_eq_error_iff] at refused
        simp only [Condition.ofBson_eq_error_iff] at refused
        exact .condition refused
    | _ =>
        cases refused
        exact .noList (by simp)
  · intro flaw
    cases flaw with
    | noList other =>
        cases given with
        | array items => exact (other items rfl).elim
        | _ => rfl
    | condition first =>
        rw [conditionsOf, mapM_eq_error_iff]
        simpa only [Condition.ofBson_eq_error_iff] using first

/-- A description is refused for its first entry with something wrong. -/
theorem gather_eq_error_iff
    (before : Filter)
    (description : Document)
    (problem : InvalidRequest) :
    gather before (readings description) = .error problem ↔ First Flaw description problem := by
  induction description generalizing before with
  | nil => simp [gather, readings, not_first_nil, pure, Except.pure]
  | cons entry rest induction =>
      rcases entry with ⟨field, given⟩
      have step :
          gather before (readings ((field, given) :: rest)) =
            (conditionsOf field given >>= fun conditions =>
              gather (before.insert field conditions) (readings rest)) := by
        cases read : conditionsOf field given <;>
          simp [gather, readings, read, bind, Except.bind, pure, Except.pure]
      simp only [step, bind_eq_error_iff, first_cons_iff, induction, exists_and_right,
        conditionsOf_eq_error_iff, exists_eq_ok_iff, Ne.eq_def]

/-- What a field has in a filter: the conditions that its last entry describes. -/
theorem mem_entries_iff
    {description : Document}
    {filter : Filter}
    (read : ofDocument description = .ok filter)
    (field : String)
    (conditions : List Condition) :
    (field, conditions) ∈ filter.entries ↔
      ∃ front given back,
        description = front ++ (field, given) :: back ∧
          field ∉ Document.keys back ∧ DescribesEach given conditions := by
  rw [ofDocument_eq_gather] at read
  have fields (entries : Document) : (readings entries).map (·.1) = Document.keys entries :=
    List.map_map
  rw [mem_gather_iff read, or_iff_left (fun old => List.not_mem_nil old.1)]
  constructor
  · rintro ⟨front, back, listed, last⟩
    obtain ⟨before, others, rfl, rfl, following⟩ := List.map_eq_append_iff.mp listed
    obtain ⟨⟨name, given⟩, after, rfl, entry, rfl⟩ := List.map_eq_cons_iff.mp following
    obtain ⟨rfl, described⟩ := Prod.mk.inj entry
    rw [conditionsOf_eq_ok_iff] at described
    exact ⟨before, given, after, rfl, fields after ▸ last, described⟩
  · rintro ⟨front, given, back, rfl, last, described⟩
    rw [← conditionsOf_eq_ok_iff field] at described
    refine ⟨readings front, readings back, ?_, (fields back).symm ▸ last⟩
    simp only [readings, List.map_append, List.map_cons, described]

/-- Each condition of a filter that is read is described by an item of a list in the document. -/
theorem exists_describes_of_mem
    {description : Document}
    {filter : Filter}
    (read : ofDocument description = .ok filter)
    {entry : String × List Condition}
    (member : entry ∈ filter.entries)
    {condition : Condition}
    (asked : condition ∈ entry.2) :
    ∃ items, (entry.1, .array items) ∈ description ∧
      ∃ item ∈ items, Condition.Describes item condition := by
  rcases entry with ⟨field, conditions⟩
  obtain ⟨front, given, back, rfl, -, described⟩ := (mem_entries_iff read field conditions).mp member
  cases described with
  | @list items _ each =>
      refine ⟨items, List.mem_append_right front List.mem_cons_self, ?_⟩
      clear read member
      induction each with
      | nil => cases asked
      | cons first _ induction =>
          rcases List.mem_cons.mp asked with rfl | asked
          · exact ⟨_, List.mem_cons_self, first⟩
          · obtain ⟨item, listed, described⟩ := induction asked
            exact ⟨item, List.mem_cons_of_mem _ listed, described⟩

theorem exists_ofDocument_eq_ok_iff (description : Document) :
    (∃ filter, ofDocument description = .ok filter) ↔
      ∀ entry ∈ description, ∃ conditions, DescribesEach entry.2 conditions := by
  rw [ofDocument_eq_gather, exists_gather_eq_ok_iff, readings, List.forall_mem_map]
  simp only [conditionsOf_eq_ok_iff]

theorem ofBson_eq_ok_iff_describes
    (given : Bson)
    (filter : Filter) :
    ofBson given = .ok filter ↔ Describes given filter := by
  constructor
  · intro read
    cases given with
    | document description =>
        exact .document ((exists_ofDocument_eq_ok_iff description).mp ⟨filter, read⟩)
          (mem_entries_iff read)
    | _ => cases read
  · intro describes
    cases describes with
    | @document description _ each mapped =>
        obtain ⟨other, read⟩ := (exists_ofDocument_eq_ok_iff description).mpr each
        have same : other = filter :=
          Describes.unique (.document each (mem_entries_iff read)) (.document each mapped)
        rw [ofBson, read, same]

theorem ofBson_eq_error_iff_refused
    (given : Bson)
    (problem : InvalidRequest) :
    ofBson given = .error problem ↔ Refused given problem := by
  constructor
  · intro refused
    cases given with
    | null =>
        cases refused
        exact .missing (.inl rfl)
    | undefined =>
        cases refused
        exact .missing (.inr rfl)
    | document description =>
        rw [ofBson, ofDocument_eq_gather, gather_eq_error_iff] at refused
        exact .flawed refused
    | _ =>
        cases refused
        exact .noDocument (by simp) (by simp)
  · intro refused
    cases refused with
    | missing absent => rcases absent with rfl | rfl <;> rfl
    | noDocument present other =>
        cases given with
        | null => exact (present.1 rfl).elim
        | undefined => exact (present.2 rfl).elim
        | document description => exact (other description rfl).elim
        | _ => rfl
    | flawed first =>
        rw [ofBson, ofDocument_eq_gather, gather_eq_error_iff]
        exact first

/--
A filter is read from exactly the documents whose entries are lists of items that each
describe a condition, and it is the filter that the document describes, with its fields in
the order of their bytes.  Every other value is refused, for the first thing that is wrong.
-/
theorem ofBson_follows_grammar
    (given : Bson) :
    ((∃ filter, ofBson given = .ok filter) ↔
        ∃ description, given = .document description ∧
          ∀ entry ∈ description, ∃ items, entry.2 = .array items ∧
            ∀ item ∈ items, ∃ condition, Condition.Describes item condition) ∧
      (∀ filter, ofBson given = .ok filter ↔ Describes given filter) ∧
      (∀ filter, ofBson given = .ok filter →
        filter.paths.Pairwise fun left right =>
          Utf8.ByteLess (Utf8.bytes left) (Utf8.bytes right)) ∧
      ∀ problem, ofBson given = .error problem ↔ Refused given problem := by
  refine ⟨?_, ofBson_eq_ok_iff_describes given, fun filter _ => filter.paths_pairwise_byteLess,
    ofBson_eq_error_iff_refused given⟩
  simp only [← exists_describesEach_iff]
  cases given with
  | document description =>
      rw [ofBson, exists_ofDocument_eq_ok_iff]
      simp
  | _ => simp [ofBson]

/-- A description whose fields both have something wrong, the second one more than one thing. -/
def manyFlaws : Document :=
  [("status", .array
      [.document [("value", .string "open"), ("matchMode", .string "equals")],
        .document
          [("required", .int32 1), ("matchMode", .string "around"),
            ("value", .boolean false)]]),
    ("age", .int32 3)]

/-- What is said of it is the first thing wrong: the mode of the first field's second condition. -/
theorem ofBson_follows_grammar_manyFlaws :
    First Flaw manyFlaws (.unknownMatchMode "status" "around") := by
  have refused :=
    ((ofBson_follows_grammar (.document manyFlaws)).2.2.2
      (.unknownMatchMode "status" "around")).mp rfl
  cases refused with
  | flawed first => exact first

end Filter

end SearchPipeline
