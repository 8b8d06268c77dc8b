import SearchPipeline.Proofs.Compiled

/-!
# The first problem

Items are read and compiled one after another until one of them has a problem.  What
comes out then is the problem of this first item, after the warnings of the items in
front of it.  What is made of the results has no part in this, so the report of a
compilation is put together from the reports of its steps.
-/

namespace SearchPipeline

/-! ## The first item with a problem -/

/-- Among some items, the problem of the first one that has a problem. -/
def First
    {α ε : Type}
    (has : α → ε → Prop)
    (items : List α)
    (problem : ε) :
    Prop :=
  ∃ front item back,
    items = front ++ item :: back ∧
      (∀ earlier ∈ front, ∀ other, ¬ has earlier other) ∧ has item problem

section First

variable {α ε : Type} {has : α → ε → Prop}

theorem not_first_nil (problem : ε) : ¬ First has [] problem := by
  rintro ⟨front, item, back, listed, -⟩
  exact List.append_ne_nil_of_right_ne_nil front (List.cons_ne_nil item back) listed.symm

/-- The first item is the one, or it has no problem and the one is among the others. -/
theorem first_cons_iff
    (item : α)
    (rest : List α)
    (problem : ε) :
    First has (item :: rest) problem ↔
      has item problem ∨ (∀ other, ¬ has item other) ∧ First has rest problem := by
  constructor
  · rintro ⟨front, wanted, back, listed, clean, flawed⟩
    cases front with
    | nil =>
        cases listed
        exact Or.inl flawed
    | cons earlier front =>
        cases listed
        rw [List.forall_mem_cons] at clean
        exact Or.inr ⟨clean.1, front, wanted, back, rfl, clean.2, flawed⟩
  · rintro (flawed | ⟨clean, front, wanted, back, rfl, others, flawed⟩)
    · exact ⟨[], item, rest, rfl, by simp, flawed⟩
    · refine ⟨item :: front, wanted, back, rfl, ?_, flawed⟩
      exact List.forall_mem_cons.mpr ⟨clean, others⟩

/-- There is a first item with a problem exactly if some item has one. -/
theorem exists_first_iff (items : List α) :
    (∃ problem, First has items problem) ↔ ∃ item ∈ items, ∃ problem, has item problem := by
  induction items with
  | nil => simp [not_first_nil]
  | cons item rest induction =>
      simp only [first_cons_iff, exists_or, exists_and_left, induction, List.exists_mem_cons_iff]
      by_cases flawed : ∃ problem, has item problem
      · simp only [flawed, true_or]
      · simp only [not_exists.mp flawed, not_false_eq_true, implies_true, true_and]

theorem forall_not_first_iff (items : List α) :
    (∀ problem, ¬ First has items problem) ↔ ∀ item ∈ items, ∀ problem, ¬ has item problem := by
  rw [← not_exists, exists_first_iff]
  simp only [not_exists, not_and]

/-- If all problems are the same one, it does not matter which item is the first. -/
theorem first_and_eq_iff
    (flawed : α → Prop)
    (items : List α)
    (cause problem : ε) :
    First (fun item problem => flawed item ∧ problem = cause) items problem ↔
      (∃ item ∈ items, flawed item) ∧ problem = cause := by
  induction items with
  | nil => simp [not_first_nil]
  | cons item rest induction =>
      rw [first_cons_iff, induction, List.exists_mem_cons_iff]
      by_cases first : flawed item
      · simp [first]
      · simp [first]

end First

/-! ## Readings that may fail -/

section Except

variable {α β ε : Type}

theorem exists_eq_ok_iff (reading : Except ε α) :
    (∃ value, reading = .ok value) ↔ ∀ problem, reading ≠ .error problem := by
  cases reading <;> simp

/-- A second step fails after a first one that gives what it needs, or the first one fails. -/
theorem bind_eq_error_iff
    (first : Except ε α)
    (next : α → Except ε β)
    (problem : ε) :
    (first >>= next) = .error problem ↔
      first = .error problem ∨ ∃ value, first = .ok value ∧ next value = .error problem := by
  cases first with
  | ok value => simp [bind, Except.bind]
  | error cause => simp [bind, Except.bind]

/-- A list is read if each of its items is, to what they give in order. -/
theorem mapM_eq_ok_iff
    (read : α → Except ε β)
    (items : List α)
    (values : List β) :
    items.mapM read = .ok values ↔
      List.Forall₂ (fun item value => read item = .ok value) items values := by
  induction items generalizing values with
  | nil => simp [pure, Except.pure, eq_comm]
  | cons item rest induction =>
      simp only [List.mapM_cons, bind_eq_ok_iff, induction, List.forall₂_cons_left_iff]
      constructor
      · rintro ⟨value, first, others, following, made⟩
        cases made
        exact ⟨value, others, first, following, rfl⟩
      · rintro ⟨value, others, first, following, rfl⟩
        exact ⟨value, first, others, following, rfl⟩

/-- Otherwise the first item that is not read says why. -/
theorem mapM_eq_error_iff
    (read : α → Except ε β)
    (items : List α)
    (problem : ε) :
    items.mapM read = .error problem ↔
      First (fun item problem => read item = .error problem) items problem := by
  induction items with
  | nil => simp [not_first_nil, pure, Except.pure]
  | cons item rest induction =>
      simp only [List.mapM_cons, bind_eq_error_iff, first_cons_iff, induction,
        ← exists_eq_ok_iff]
      simp [pure, Except.pure]

end Except

/-! ## Reports of compilations -/

namespace Compiled

variable {α β γ δ : Type}

/-- What a compilation tells apart from its result: its warnings, and its problem if any. -/
def report (compiled : Compiled α) : Compiled Unit :=
  compiled.andThen fun _ => result ()

@[simp]
theorem reversed_report (compiled : Compiled α) : compiled.report.reversed = compiled.reversed := by
  cases outcome : compiled.outcome <;> simp [report, andThen, outcome, result]

@[simp]
theorem outcome_report_eq_error_iff
    (compiled : Compiled α)
    (problem : InvalidRequest) :
    compiled.report.outcome = .error problem ↔ compiled.outcome = .error problem := by
  cases outcome : compiled.outcome <;> simp [report, andThen, outcome]

@[simp]
theorem report_result (value : α) : (result value).report = result () :=
  rfl

/-- The report of two steps whose second one has the same report for every result of the first. -/
theorem report_andThen
    {first : Compiled α}
    {next : α → Compiled β}
    {last : Compiled γ}
    (same : ∀ value, (next value).report = last.report) :
    (first.andThen next).report = first.report.andThen fun _ => last.report := by
  simp only [report, andThen_assoc, result_andThen] at same ⊢
  simp only [same]

/-- What is made of a result does not show in the report. -/
@[simp]
theorem report_andThen_result
    (first : Compiled α)
    (make : α → β) :
    (first.andThen fun value => result (make value)).report = first.report := by
  simp only [report, andThen_assoc, result_andThen]

theorem report_each_cons
    (compile : α → Compiled β)
    (item : α)
    (rest : List α) :
    (each compile (item :: rest)).report =
      (compile item).report.andThen fun _ => (each compile rest).report := by
  rw [each]
  exact report_andThen fun value => report_andThen_result _ _

theorem report_each_append
    (compile : α → Compiled β)
    (front back : List α) :
    (each compile (front ++ back)).report =
      (each compile front).report.andThen fun _ => (each compile back).report := by
  induction front with
  | nil => rfl
  | cons item front induction =>
      rw [List.cons_append, report_each_cons, report_each_cons, induction, andThen_assoc]

/-- Items that are compiled in parts are reported part by part. -/
theorem report_each_flatMap
    {compile : α → Compiled β}
    {parts : α → List γ}
    {compilePart : γ → Compiled δ}
    {items : List α}
    (same : ∀ item ∈ items, (compile item).report = (each compilePart (parts item)).report) :
    (each compile items).report = (each compilePart (items.flatMap parts)).report := by
  induction items with
  | nil => rfl
  | cons item rest induction =>
      rw [List.forall_mem_cons] at same
      rw [List.flatMap_cons, report_each_cons, report_each_append, same.1, induction same.2]

theorem outcome_andThen_eq_error_iff
    (first : Compiled α)
    (next : α → Compiled β)
    (problem : InvalidRequest) :
    (first.andThen next).outcome = .error problem ↔
      first.outcome = .error problem ∨
        ∃ value, first.outcome = .ok value ∧ (next value).outcome = .error problem := by
  cases outcome : first.outcome with
  | ok value => simp [andThen, outcome]
  | error cause => simp [andThen, outcome]

/-- A list fails with the problem of its first item that fails. -/
theorem outcome_each_eq_error_iff
    (compile : α → Compiled β)
    (items : List α)
    (problem : InvalidRequest) :
    (each compile items).outcome = .error problem ↔
      First (fun item problem => (compile item).outcome = .error problem) items problem := by
  induction items with
  | nil => simp [each, not_first_nil]
  | cons item rest induction =>
      simp only [each, outcome_andThen_eq_error_iff, first_cons_iff, induction,
        ← exists_eq_ok_iff]
      simp

theorem reversed_andThen_of_ok
    {first : Compiled α}
    {value : α}
    (compiled : first.outcome = .ok value)
    (next : α → Compiled β) :
    (first.andThen next).reversed = first.reversed ++ (next value).reversed := by
  simp [andThen, compiled]

theorem reversed_andThen_of_error
    {first : Compiled α}
    {problem : InvalidRequest}
    (fails : first.outcome = .error problem)
    (next : α → Compiled β) :
    (first.andThen next).reversed = first.reversed := by
  simp [andThen, fails]

theorem reversed_andThen_of_silent
    {next : α → Compiled β}
    (silent : ∀ value, (next value).reversed = [])
    (first : Compiled α) :
    (first.andThen next).reversed = first.reversed := by
  cases outcome : first.outcome with
  | ok value => rw [reversed_andThen_of_ok outcome, silent, List.append_nil]
  | error problem => exact reversed_andThen_of_error outcome next

/-- What is made of a result gives no warning. -/
@[simp]
theorem reversed_andThen_result
    (first : Compiled α)
    (make : α → β) :
    (first.andThen fun value => result (make value)).reversed = first.reversed :=
  reversed_andThen_of_silent (fun _ => rfl) first

/-- If no item fails, the warnings of all of them are given, in order. -/
theorem reversed_each_of_ok
    {compile : α → Compiled β}
    {items : List α}
    (compiles : ∀ item ∈ items, ∀ problem, (compile item).outcome ≠ .error problem) :
    (each compile items).reversed = items.flatMap fun item => (compile item).reversed := by
  induction items with
  | nil => rfl
  | cons item rest induction =>
      rw [List.forall_mem_cons, ← exists_eq_ok_iff] at compiles
      obtain ⟨⟨value, first⟩, others⟩ := compiles
      rw [each, reversed_andThen_of_ok first, reversed_andThen_result, induction others,
        List.flatMap_cons]

/-- Otherwise those of the items in front of the first that fails, and then its own. -/
theorem reversed_each_of_error
    {compile : α → Compiled β}
    {front back : List α}
    {item : α}
    {problem : InvalidRequest}
    (compiles : ∀ earlier ∈ front, ∀ other, (compile earlier).outcome ≠ .error other)
    (fails : (compile item).outcome = .error problem) :
    (each compile (front ++ item :: back)).reversed =
      (front.flatMap fun earlier => (compile earlier).reversed) ++ (compile item).reversed := by
  induction front with
  | nil =>
      rw [List.nil_append, each, reversed_andThen_of_error fails]
      rfl
  | cons earlier front induction =>
      rw [List.forall_mem_cons, ← exists_eq_ok_iff] at compiles
      obtain ⟨⟨value, first⟩, others⟩ := compiles
      rw [List.cons_append, each, reversed_andThen_of_ok first, reversed_andThen_result,
        induction others, List.flatMap_cons, List.append_assoc]

end Compiled

end SearchPipeline
