import SearchPipeline.Service
import Mathlib.Data.List.Forall2

/-!
# Runs of the service

A service serves requests one after another.  A request leads to one call of the engine
and a reply made of the engine's answer, or to no call and a refusal, whatever the service
has served before.  So after a run the engine has been asked for the requests that compile,
in order, and no request has changed what another one leads to.
-/

namespace SearchPipeline.Service

/-! ## One request -/

/-- What a request leads to: the calls that the engine gets, and the reply. -/
inductive Serves
    (settings : Settings)
    (engine : Engine)
    (request : SearchRequest) :
    List EngineCall → Reply → Prop where
  /-- What does not compile is the client's mistake, and the engine is not asked. -/
  | refused
      {reversed : List String}
      {problem : InvalidRequest}
      (compiled :
        request.search.compile settings request.joins request.extras
            (decide (request.mode = .count)) =
          ⟨reversed, .error problem⟩) :
      Serves settings engine request [] ⟨reversed, .error (.invalid problem)⟩
  /-- Rows that are only counted are not sorted. -/
  | counted
      {reversed : List String}
      {pipeline : List Document}
      (mode : request.mode = .count)
      (compiled :
        request.search.compile settings request.joins request.extras true =
          ⟨reversed, .ok pipeline⟩) :
      Serves settings engine request [.count pipeline]
        ⟨reversed, (engine.count pipeline).map .count⟩
  | listed
      {reversed : List String}
      {pipeline : List Document}
      (mode : request.mode = .rows)
      (compiled :
        request.search.compile settings request.joins request.extras false =
          ⟨reversed, .ok pipeline⟩) :
      Serves settings engine request [.aggregate pipeline]
        ⟨reversed, (engine.aggregate pipeline).map .rows⟩
  | paged
      {reversed : List String}
      {pipeline : List Document}
      (mode : request.mode = .page)
      (compiled :
        request.search.compile settings request.joins request.extras false =
          ⟨reversed, .ok pipeline⟩) :
      Serves settings engine request
        [.paginate pipeline
          { limit := request.search.limit
            page := request.search.page
            offset := request.search.offset }]
        ⟨reversed,
          (engine.paginate pipeline
            { limit := request.search.limit
              page := request.search.page
              offset := request.search.offset }).map .page⟩

section Step

variable {settings : Settings} {engine : Engine} {request : SearchRequest}

/-- Every request leads to something. -/
theorem exists_serves
    (settings : Settings)
    (engine : Engine)
    (request : SearchRequest) :
    ∃ calls reply, Serves settings engine request calls reply := by
  rcases compiled :
    request.search.compile settings request.joins request.extras
      (decide (request.mode = .count)) with ⟨reversed, problem | pipeline⟩
  · exact ⟨_, _, .refused compiled⟩
  · cases mode : request.mode with
    | page =>
        rw [mode] at compiled
        exact ⟨_, _, .paged mode compiled⟩
    | count =>
        rw [mode] at compiled
        exact ⟨_, _, .counted mode compiled⟩
    | rows =>
        rw [mode] at compiled
        exact ⟨_, _, .listed mode compiled⟩

/-- A service gives the reply and adds the calls to those that it has made already. -/
theorem Serves.run_eq
    {calls : List EngineCall}
    {reply : Reply}
    (serves : Serves settings engine request calls reply)
    (before : List EngineCall) :
    run ⟨settings, before⟩ engine request = (reply, ⟨settings, before ++ calls⟩) := by
  cases serves with
  | refused compiled =>
      simp [run, SearchRequest.compile, compiled]
  | counted mode compiled =>
      simp [run, SearchRequest.compile, SearchRequest.call, Engine.answer, mode, compiled]
  | listed mode compiled =>
      simp [run, SearchRequest.compile, SearchRequest.call, Engine.answer, mode, compiled]
  | paged mode compiled =>
      simp [run, SearchRequest.compile, SearchRequest.call, SearchRequest.paging, Engine.answer,
        mode, compiled]

theorem Serves.outcome_run
    {service : Service}
    {calls : List EngineCall}
    {reply : Reply}
    (serves : Serves service.settings engine request calls reply) :
    (service.run engine request).1.outcome = reply.outcome :=
  congrArg (·.1.outcome) (serves.run_eq service.calls)

end Step

/-! ## Many requests -/

/-- Serves requests in order, each with the engine as it is at that time. -/
def runAll (service : Service) : List (Engine × SearchRequest) → List Reply × Service
  | [] => ([], service)
  | (engine, request) :: rest =>
    let (reply, next) := service.run engine request
    let (replies, last) := next.runAll rest
    (reply :: replies, last)

theorem exists_serves_each
    (settings : Settings)
    (steps : List (Engine × SearchRequest)) :
    ∃ outcomes : List (List EngineCall × Reply),
      List.Forall₂
        (fun step outcome => Serves settings step.1 step.2 outcome.1 outcome.2)
        steps outcomes := by
  induction steps with
  | nil => exact ⟨[], .nil⟩
  | cons step rest induction =>
      rcases exists_serves settings step.1 step.2 with ⟨calls, reply, serves⟩
      rcases induction with ⟨outcomes, following⟩
      exact ⟨(calls, reply) :: outcomes, .cons serves following⟩

/--
A run gives the replies of its requests in order, and has made their calls in order after
those that were made before.  The induction is on the requests: each finds the settings
unchanged, and the calls made so far change nothing but the log.
-/
theorem runAll_eq
    {settings : Settings}
    {steps : List (Engine × SearchRequest)}
    {outcomes : List (List EngineCall × Reply)}
    (serves :
      List.Forall₂
        (fun step outcome => Serves settings step.1 step.2 outcome.1 outcome.2)
        steps outcomes)
    (before : List EngineCall) :
    runAll ⟨settings, before⟩ steps =
      (outcomes.map (·.2), ⟨settings, before ++ outcomes.flatMap (·.1)⟩) := by
  induction serves generalizing before with
  | nil => simp [runAll]
  | @cons step outcome steps outcomes first following induction =>
      rcases step with ⟨engine, request⟩
      have stepped := first.run_eq before
      simp [runAll, stepped, induction]

theorem settings_runAll
    (service : Service)
    (steps : List (Engine × SearchRequest)) :
    (service.runAll steps).2.settings = service.settings := by
  rcases exists_serves_each service.settings steps with ⟨outcomes, serves⟩
  rw [runAll_eq serves service.calls]

/--
In a run of any length every request leads to what it leads to by itself.  One that does
not compile is refused as an invalid request, and the engine is not asked for it; every
other one makes a single call, with its own pipeline, and gets the engine's answer or the
engine's failure as it stands.  The calls of the run stand in the log in order, after those
made before the run.  Whatever else was served earlier, failures included, the replies and
the calls of the run are the same.
-/
theorem runAll_serves
    (service : Service)
    (steps : List (Engine × SearchRequest)) :
    ∃ outcomes : List (List EngineCall × Reply),
      List.Forall₂
        (fun step outcome => Serves service.settings step.1 step.2 outcome.1 outcome.2)
        steps outcomes ∧
      (service.runAll steps).1 = outcomes.map (·.2) ∧
      (service.runAll steps).2.calls = service.calls ++ outcomes.flatMap (·.1) ∧
      (∀ earlier : List (Engine × SearchRequest),
        ((service.runAll earlier).2.runAll steps).1 = outcomes.map (·.2) ∧
          ((service.runAll earlier).2.runAll steps).2.calls =
            (service.runAll earlier).2.calls ++ outcomes.flatMap (·.1)) ∧
      (∀ problem, (SearchFailure.invalid problem).isInvalidRequest = true) ∧
      ∀ reason, (SearchFailure.engine reason).isInvalidRequest = false := by
  rcases exists_serves_each service.settings steps with ⟨outcomes, serves⟩
  have ran (other : Service) (same : other.settings = service.settings) :
      other.runAll steps =
        (outcomes.map (·.2), ⟨other.settings, other.calls ++ outcomes.flatMap (·.1)⟩) :=
    runAll_eq (same ▸ serves) other.calls
  refine ⟨outcomes, serves, ?_, ?_, ?_, fun _ => rfl, fun _ => rfl⟩
  · rw [ran service rfl]
  · rw [ran service rfl]
  · intro earlier
    rw [ran _ (settings_runAll service earlier)]
    exact ⟨rfl, rfl⟩

end SearchPipeline.Service
