import SearchPipeline.Condition.Expression
import SearchPipeline.Proofs.Condition
import SearchPipeline.Proofs.Fragments

/-!
# What a condition compares its field with

A condition compiles to a document with its field as the only key, or to alternatives
of such documents.  Under the field stands a document of operators, except for
equality: there the given value stands as it is, apart from identifiers.  So equality
is taken for another mode exactly if it is given the operators of that mode as a value.
-/

namespace SearchPipeline

namespace Bson

/-- Whether a value is a list. -/
def IsList : Bson → Prop
  | .array _ => True
  | _ => False

theorem isList_iff
    {value : Bson} :
    value.IsList ↔ ∃ items, value = .array items := by
  cases value <;> simp [IsList]

/-- Makes something of a value, or of each item of a list. -/
def mapItems (make : Bson → Bson) : Bson → Bson
  | .array items => .array (items.map make)
  | value => make value

theorem mapItems_of_not_isList
    {value : Bson}
    (single : ¬ value.IsList)
    (make : Bson → Bson) :
    value.mapItems make = make value := by
  cases value with
  | array => exact (single trivial).elim
  | _ => rfl

/-- The operators of a range from the first item of a list to the second one. -/
def bounds : Bson → Document
  | .array (lower :: upper :: _) => [("$gte", lower), ("$lte", upper)]
  | value => [("$gte", value)]

/-- Whether a value reads as operators: a document whose first key starts with a dollar sign. -/
def IsOperators : Bson → Prop
  | .document ((key, _) :: _) => key.toList.head? = some '$'
  | _ => False

/-- Whether a value, or each item of a list, reads as operators. -/
def OffersOperators : Bson → Prop
  | .array items => ∀ item ∈ items, item.IsOperators
  | value => value.IsOperators

theorem IsOperators.exists_document
    {value : Bson}
    (operators : value.IsOperators) :
    ∃ entries, value = .document entries := by
  cases value with
  | document entries => exact ⟨entries, rfl⟩
  | _ => exact operators.elim

theorem IsOperators.offersOperators
    {value : Bson}
    (operators : value.IsOperators) :
    value.OffersOperators := by
  obtain ⟨entries, rfl⟩ := operators.exists_document
  exact operators

theorem toIdentifier_string
    (text : String) :
    toIdentifier (.string text) = .string text ∨
      ∃ identifier, toIdentifier (.string text) = .objectId identifier := by
  rw [toIdentifier]
  split
  · split
    · exact .inr ⟨_, rfl⟩
    · exact .inl rfl
  · exact .inl rfl

theorem toIdentifier_isList_iff
    (value : Bson) :
    value.toIdentifier.IsList ↔ value.IsList := by
  cases value with
  | string text =>
      rcases toIdentifier_string text with same | ⟨identifier, converted⟩
      · rw [same]
      · rw [converted]
        rfl
  | _ => rfl

/-- Only strings are made identifiers, so operators stand as they are. -/
theorem toIdentifier_eq_iff
    {operand : Bson}
    (operators : operand.IsOperators)
    (value : Bson) :
    value.toIdentifier = operand ↔ value = operand := by
  obtain ⟨entries, rfl⟩ := operators.exists_document
  cases value with
  | string text =>
      rcases toIdentifier_string text with same | ⟨identifier, converted⟩
      · rw [same]
      · simp [converted]
  | _ => rfl

theorem mapItems_toIdentifier_eq_iff
    {operands : Bson}
    (operators : operands.OffersOperators)
    (value : Bson) :
    value.mapItems toIdentifier = operands ↔ value = operands := by
  by_cases listed : operands.IsList
  · obtain ⟨wanted, rfl⟩ := isList_iff.mp listed
    by_cases several : value.IsList
    · obtain ⟨items, rfl⟩ := isList_iff.mp several
      rw [mapItems, array.injEq, array.injEq]
      induction items generalizing wanted with
      | nil => rfl
      | cons item items induction =>
          cases wanted with
          | nil => simp
          | cons operand wanted =>
              have first := toIdentifier_eq_iff (operators operand List.mem_cons_self) item
              have rest := induction wanted
                (fun other member => operators other (.tail _ member)) trivial trivial
              rw [List.map_cons, List.cons.injEq, List.cons.injEq, first, rest]
    · rw [mapItems_of_not_isList several]
      constructor
      · intro same
        exact (several ((toIdentifier_isList_iff value).mp (same ▸ listed))).elim
      · intro same
        exact (several (same ▸ listed)).elim
  · have single : operands.IsOperators := by
      cases operands with
      | array => exact (listed trivial).elim
      | _ => exact operators
    by_cases several : value.IsList
    · obtain ⟨items, rfl⟩ := isList_iff.mp several
      obtain ⟨entries, rfl⟩ := single.exists_document
      simp [mapItems]
    · rw [mapItems_of_not_isList several]
      exact toIdentifier_eq_iff single value

end Bson

/-- Whether a mode compares its field with each value of a list by itself. -/
def MatchMode.isItemwise : MatchMode → Bool
  | .between | .arrayContains | .arrayContainsObject => false
  | _ => true

namespace Condition

/-- What a condition compares its field with, for a value that it takes as a whole. -/
def operand
    (condition : Condition)
    (value : Bson) :
    Bson :=
  match condition.mode with
  | .equals => value.toIdentifier
  | .contains =>
    .document [("$regex", .string (value.toPattern?.getD "")), ("$options", .string "i")]
  | .notEquals => Bson.entry "$ne" value
  | .greaterThan => Bson.entry "$gt" value
  | .greaterThanOrEqual => Bson.entry "$gte" value
  | .lessThan => Bson.entry "$lt" value
  | .lessThanOrEqual => Bson.entry "$lte" value
  | .exists => Bson.entry "$exists" value
  | .between => .document value.bounds
  | .arrayContains => Bson.entry "$in" (.array value.toIdentifiers)
  | .arrayContainsObject =>
    Bson.entry "$elemMatch"
      (Bson.entry (condition.property.getD "") (Bson.entry "$in" (.array value.toIdentifiers)))

/-- What a condition compares its field with: one value, or the list of those taken one by one. -/
def operands (condition : Condition) : Bson :=
  if condition.mode.isItemwise then condition.value.mapItems condition.operand
  else condition.operand condition.value

/-- Every mode but equality compares its field by operators. -/
theorem isOperators_operand
    {condition : Condition}
    (differs : condition.mode ≠ .equals)
    (value : Bson) :
    (condition.operand value).IsOperators := by
  rw [operand]
  have dollar {key : String} {value : Bson} {entries : Document}
      (starts : key.toList.head? = some '$') :
      (Bson.document ((key, value) :: entries)).IsOperators :=
    starts
  split
  case h_1 equality => exact (differs equality).elim
  case h_9 =>
    rw [Bson.bounds.eq_def]
    split <;> exact dollar (by decide)
  all_goals exact dollar (by decide)

theorem offersOperators_operands
    {condition : Condition}
    (differs : condition.mode ≠ .equals) :
    condition.operands.OffersOperators := by
  rw [operands]
  split
  · by_cases listed : condition.value.IsList
    · obtain ⟨items, given⟩ := Bson.isList_iff.mp listed
      rw [given]
      intro operand member
      obtain ⟨item, -, rfl⟩ := List.mem_map.mp member
      exact isOperators_operand differs item
    · rw [Bson.mapItems_of_not_isList listed]
      exact (isOperators_operand differs _).offersOperators
  · exact (isOperators_operand differs _).offersOperators

/-- The document that compares a field with an operand, or with each of several operands. -/
def comparing
    (field : String) :
    Bson → Document
  | .array items => Document.group "$or" (items.map fun item => [(field, item)])
  | value => [(field, value)]

theorem comparing_of_not_isList
    {value : Bson}
    (single : ¬ value.IsList)
    (field : String) :
    comparing field value = [(field, value)] := by
  cases value with
  | array => exact (single trivial).elim
  | _ => rfl

/-- Alternatives are under another value than a single operand, whatever the field is. -/
theorem comparing_array_ne
    (field : String)
    (items : List Bson)
    {value : Bson}
    (single : ¬ value.IsList) :
    comparing field (.array items) ≠ comparing field value := by
  rw [comparing_of_not_isList single, comparing, Document.group]
  intro same
  have under := (Prod.mk.inj (List.cons.inj same).1).2
  exact single (under ▸ trivial)

theorem comparing_injective
    (field : String) :
    Function.Injective (comparing field) := by
  intro left right same
  by_cases listed : left.IsList
  · obtain ⟨items, rfl⟩ := Bson.isList_iff.mp listed
    by_cases several : right.IsList
    · obtain ⟨others, rfl⟩ := Bson.isList_iff.mp several
      have each : Function.Injective fun item : Bson => Bson.document [(field, item)] := by
        intro item other
        simp
      simp only [comparing, Document.group, List.map_map] at same
      have members := Bson.array.inj (Prod.mk.inj (List.cons.inj same).1).2
      exact congrArg Bson.array (List.map_injective_iff.mpr each members)
    · exact (comparing_array_ne field items several same).elim
  · by_cases several : right.IsList
    · obtain ⟨others, rfl⟩ := Bson.isList_iff.mp several
      exact (comparing_array_ne field others listed same.symm).elim
    · rw [comparing_of_not_isList listed, comparing_of_not_isList several] at same
      exact (Prod.mk.inj (List.cons.inj same).1).2

/-! ## Compiled conditions -/

section Compiled

variable {field : String} {expression : Expression}

/-- Alternatives compare the field with the operand of each. -/
theorem toDocument_of_alternatives
    {compile : Bson → Compiled Expression}
    {operand : Bson → Bson}
    {value : Bson}
    (single : ∀ value part,
      (compile value).outcome = .ok part → part.toDocument = [(field, operand value)])
    (flat : ∀ value, ¬ value.IsList → ¬ (operand value).IsList)
    (filled : value ≠ .array [])
    (compiled : (alternatives compile value).outcome = .ok expression) :
    expression.toDocument = comparing field (value.mapItems operand) := by
  by_cases listed : value.IsList
  · obtain ⟨items, rfl⟩ := Bson.isList_iff.mp listed
    rw [alternatives, Compiled.outcome_andThen_result_eq_ok_iff] at compiled
    obtain ⟨members, compiledItems, rfl⟩ := compiled
    rw [Compiled.outcome_each_eq_ok_iff] at compiledItems
    have rendered : members.map Expression.toDocument =
        items.map fun item => [(field, operand item)] := by
      clear filled listed
      induction compiledItems with
      | nil => rfl
      | cons first rest induction =>
          rw [List.map_cons, List.map_cons, single _ _ first, induction]
    have nonempty : members ≠ [] := by
      rintro rfl
      cases compiledItems
      exact filled rfl
    rw [Expression.toDocument_any nonempty, rendered, Bson.mapItems, comparing, List.map_map]
    rfl
  · have alone : alternatives compile value = compile value := by
      cases value with
      | array => exact (listed trivial).elim
      | _ => rfl
    rw [alone] at compiled
    rw [Bson.mapItems_of_not_isList listed, comparing_of_not_isList (flat value listed)]
    exact single value expression compiled

theorem toDocument_of_comparison
    {operator : Comparison}
    {value : Bson}
    (filled : value ≠ .array [])
    (compiled : (comparison field operator value).outcome = .ok expression) :
    expression.toDocument = comparing field (value.mapItems (Bson.entry operator.key)) := by
  refine toDocument_of_alternatives ?_ (fun _ _ => id) filled compiled
  intro value part single
  cases single
  rfl

theorem toDocument_of_pattern
    {value : Bson}
    (compiled : (pattern field value).outcome = .ok expression) :
    expression.toDocument =
      [(field,
        .document
          [("$regex", .string (value.toPattern?.getD "")), ("$options", .string "i")])] := by
  rw [pattern] at compiled
  split at compiled
  · rename_i text found
    rw [Compiled.outcome_result, Except.ok.injEq] at compiled
    rw [← compiled, found]
    rfl
  · cases compiled

theorem toDocument_of_range
    {value : Bson}
    (compiled : (range field value).outcome = .ok expression) :
    expression.toDocument = [(field, .document value.bounds)] := by
  unfold range at compiled
  split at compiled
  · split at compiled <;> cases compiled <;> rfl
  · cases compiled
  · cases compiled

theorem toDocument_of_elements
    {property : Option String}
    {value : Bson}
    (compiled : (elements field property value).outcome = .ok expression) :
    expression.toDocument =
      [(field,
        Bson.entry "$elemMatch"
          (Bson.entry (property.getD "")
            (Bson.entry "$in" (.array value.toIdentifiers))))] := by
  unfold elements at compiled
  split at compiled
  · cases compiled
  · split at compiled
    · cases compiled
    · cases compiled
      rfl

/-- Whatever its mode, a condition compares its field with its operands. -/
theorem toDocument_of_compile
    {condition : Condition}
    (filled : condition.value ≠ .array [])
    (compiled : (condition.compile field).outcome = .ok expression) :
    expression.toDocument = comparing field condition.operands := by
  rcases condition with ⟨value, mode, isRequired, property⟩
  cases mode with
  | contains =>
      exact toDocument_of_alternatives (fun _ _ => toDocument_of_pattern) (fun _ _ => id) filled
        compiled
  | equals =>
      refine toDocument_of_alternatives ?_ ?_ filled compiled
      · intro value part single
        cases single
        rfl
      · intro value single
        exact single ∘ (Bson.toIdentifier_isList_iff value).mp
  | between => exact toDocument_of_range compiled
  | arrayContains =>
      cases compiled
      rfl
  | arrayContainsObject => exact toDocument_of_elements compiled
  | notEquals => exact toDocument_of_comparison filled compiled
  | greaterThan => exact toDocument_of_comparison filled compiled
  | greaterThanOrEqual => exact toDocument_of_comparison filled compiled
  | lessThan => exact toDocument_of_comparison filled compiled
  | lessThanOrEqual => exact toDocument_of_comparison filled compiled
  | «exists» => exact toDocument_of_comparison filled compiled

end Compiled

/--
An equality and a condition of another mode compile to the same document exactly if the
equality is given the operators of the other condition as its value.  A value that does not
read as operators is compared with the field as it stands.
-/
theorem toDocument_equals_eq_iff
    (field : String)
    (given otherGiven : Bson)
    (equality other : Condition)
    (accepted : ofBson field given = .ok equality)
    (otherAccepted : ofBson field otherGiven = .ok other)
    (literal : equality.mode = .equals)
    (differs : other.mode ≠ .equals)
    (left right : Expression)
    (compiled : (equality.compile field).outcome = .ok left)
    (otherCompiled : (other.compile field).outcome = .ok right) :
    (left.toDocument = right.toDocument ↔ equality.value = other.operands) ∧
      (¬ equality.value.OffersOperators → left.toDocument ≠ right.toDocument) := by
  have operators := offersOperators_operands differs
  have identified : equality.operands = equality.value.mapItems Bson.toIdentifier := by
    have each : equality.operand = Bson.toIdentifier := by
      funext value
      simp only [operand, literal]
    rw [operands, literal, each]
    rfl
  have same : left.toDocument = right.toDocument ↔ equality.value = other.operands := by
    obtain ⟨_, -, valued, -⟩ := (ofBson_eq_ok_iff field given equality).mp accepted
    obtain ⟨_, -, otherValued, -⟩ := (ofBson_eq_ok_iff field otherGiven other).mp otherAccepted
    rw [toDocument_of_compile (valueOf_eq_ok valued).2 compiled,
      toDocument_of_compile (valueOf_eq_ok otherValued).2 otherCompiled,
      (comparing_injective field).eq_iff, identified,
      Bson.mapItems_toIdentifier_eq_iff operators]
  refine ⟨same, fun unread equal => unread ?_⟩
  rw [same.mp equal]
  exact operators

/-- A condition as a client describes it. -/
def described
    (value : Bson)
    (mode : MatchMode) :
    Bson :=
  .document [("value", value), ("matchMode", .string mode.name)]

/-- A number that a field has to equal is told apart from one that it has to exceed. -/
theorem toDocument_equals_ne_number :
    ∃ equality other left right,
      ofBson "age" (described (.int32 1) .equals) = .ok equality ∧
        ofBson "age" (described (.int32 1) .greaterThan) = .ok other ∧
        equality.mode = .equals ∧ other.mode ≠ .equals ∧
        (equality.compile "age").outcome = .ok left ∧
        (other.compile "age").outcome = .ok right ∧ left.toDocument ≠ right.toDocument := by
  have apart :=
    (toDocument_equals_eq_iff "age" (described (.int32 1) .equals)
      (described (.int32 1) .greaterThan) { value := .int32 1, mode := .equals }
      { value := .int32 1, mode := .greaterThan } rfl rfl rfl (by decide) _ _ rfl rfl).2 id
  exact ⟨_, _, _, _, rfl, rfl, rfl, by decide, rfl, rfl, apart⟩

/-- An equality with a document of operators compiles to these operators. -/
theorem toDocument_equals_operators :
    ∃ equality other left right,
      ofBson "age" (described (Bson.entry "$gt" (.int32 1)) .equals) = .ok equality ∧
        ofBson "age" (described (.int32 1) .greaterThan) = .ok other ∧
        equality.mode = .equals ∧ other.mode ≠ .equals ∧
        ¬ equality.value.IsList ∧ ¬ other.value.IsList ∧
        (equality.compile "age").outcome = .ok left ∧
        (other.compile "age").outcome = .ok right ∧ left.toDocument = right.toDocument :=
  ⟨_, _, _, _, rfl, rfl, rfl, by decide, id, id, rfl, rfl, rfl⟩

end Condition

end SearchPipeline
