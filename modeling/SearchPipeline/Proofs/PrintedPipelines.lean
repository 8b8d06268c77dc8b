import SearchPipeline.Proofs.ReadBack
import SearchPipeline.Proofs.SoundPipelines

/-!
# Printed pipelines

A command prints its pipeline with the keys of every object in order of the alphabet.
What it prints is read back as the pipeline, up to the order of keys and the width of
integers, exactly if all that stands in the pipeline is legible and it is not nested
more deeply than texts may be.
-/

namespace SearchPipeline

open Json Json.Reader

/-- The documents that a text lists, read as a request reads its stages. -/
def Document.listOfText (text : String) : Except Refusal (List Document) :=
  run (enter maxLevels fun levels => list (Document.read levels)) text

/-- Some stages as one value. -/
def Bson.ofStages (stages : List Document) : Bson :=
  .array (stages.map .document)

namespace Json.Reader

variable {α : Type} {reader : Reader α}

/-- A text that holds a value gives what the reader makes of that value. -/
theorem run_eq_ok_iff
    (aligned : Aligned reader)
    {text : String}
    {value : Json}
    (scanned : Token.scan text.toList = value.tokens)
    (result : α) :
    run reader text = .ok result ↔ onValue reader value = some result := by
  have gives := aligned.gives value []
  rw [List.append_nil] at gives
  rw [run, scanned, gives]
  cases onValue reader value with
  | none =>
      constructor
      · intro refused
        contradiction
      · intro given
        contradiction
  | some made =>
      rw [orMalformed, Option.some.injEq]
      exact ⟨Except.ok.inj, congrArg Except.ok⟩

theorem mapM_documentOf_eq_some_iff
    {value : Reader Bson}
    (aligned : Aligned value)
    (items : List Json)
    (documents : List Document) :
    items.mapM (onValue (Bson.documentOf value)) = some documents ↔
      items.mapM (onValue value) = some (documents.map .document) := by
  have single := Bson.onValue_documentOf_eq_some_iff aligned
  induction items generalizing documents with
  | nil => simp [eq_comm]
  | cons item items induction =>
      rw [List.mapM_cons, List.mapM_cons]
      constructor
      · intro all
        obtain ⟨entries, first, following⟩ := Option.bind_eq_some_iff.mp all
        obtain ⟨others, rest, same⟩ := Option.bind_eq_some_iff.mp following
        rw [(single item entries).mp first, (induction others).mp rest, ← Option.some.inj same]
        rfl
      · intro all
        obtain ⟨result, first, following⟩ := Option.bind_eq_some_iff.mp all
        obtain ⟨others, rest, same⟩ := Option.bind_eq_some_iff.mp following
        cases documents with
        | nil => exact nomatch Option.some.inj same
        | cons entries documents =>
            obtain ⟨rfl, rfl⟩ := List.cons.inj (Option.some.inj same)
            rw [(single item entries).mpr first, (induction documents).mpr rest]
            rfl

end Json.Reader

/-- Stages as they are after they were printed and read. -/
theorem Bson.reread_ofStages
    (stages : List Document) :
    (ofStages stages).reread = ofStages (stages.map (arrangedEntries narrow)) := by
  rw [ofStages, reread, arranged_array, List.map_map, ofStages, List.map_map]
  refine congrArg array (List.map_congr_left fun stage _ => ?_)
  exact arranged_document narrow stage

namespace Invocation

theorem printPipeline_eq
    (pipeline : List Document) :
    printPipeline pipeline = (Bson.ofStages pipeline).printed.pretty ++ "\n" := by
  have same : Json.array (pipeline.map Document.toJson) = (Bson.ofStages pipeline).toJson := by
    rw [Bson.ofStages, Bson.toJson, Bson.toJsonItems_eq_map, List.map_map]
    rfl
  rw [printPipeline, same]
  rfl

/-- Reading what is printed for a pipeline is reading the value that the pipeline is. -/
theorem listOfText_printPipeline_eq_ok_iff
    (pipeline stages : List Document) :
    Document.listOfText (printPipeline pipeline) = .ok stages ↔
      onValue (Bson.read maxLevels) (Bson.ofStages pipeline).printed =
        some (Bson.ofStages stages) := by
  have aligned := Bson.aligned_read 126
  have documents : Aligned (Document.read 126) := Bson.aligned_documentOf aligned
  have scanned := scan_pretty (Bson.ofStages pipeline).printed
  rw [← printPipeline_eq] at scanned
  have opened : Document.listOfText (printPipeline pipeline) =
      Json.Reader.run (list (Document.read 126)) (printPipeline pipeline) :=
    rfl
  rw [opened, run_eq_ok_iff (aligned_list documents) scanned, Bson.ofStages, Bson.printed_array,
    (gives_list documents _).onValue_eq, Document.read, mapM_documentOf_eq_some_iff aligned]
  rw [maxLevels, Bson.onValue_read_array, Option.map_eq_some_iff]
  constructor
  · intro all
    exact ⟨_, all, rfl⟩
  · rintro ⟨items, all, same⟩
    rw [all, Bson.array.inj same]

section Run

variable {invocation : Invocation} {pipeline : List Document}

theorem output_of_pipeline
    (noUsage : invocation.asksForUsage = false)
    (compiled : invocation.pipeline = .ok pipeline) :
    invocation.run.output = printPipeline pipeline := by
  rw [run, noUsage, if_neg Bool.false_ne_true, compiled]

theorem all_isSound_of_pipeline
    (compiled : invocation.pipeline = .ok pipeline) :
    (Bson.ofStages pipeline).All Bson.IsSound := by
  rw [Bson.ofStages, Bson.all_isSound_array_iff, List.forall_mem_map]
  exact isSound_of_pipeline compiled

/-- What is read as the pipeline again was legible. -/
theorem legible_of_same
    (compiled : invocation.pipeline = .ok pipeline)
    {stages : List Document}
    (read : Document.listOfText (printPipeline pipeline) = .ok stages)
    (same : (Bson.ofStages stages).canonical = (Bson.ofStages pipeline).canonical) :
    (Bson.ofStages pipeline).printed.depth ≤ maxLevels ∧
      (Bson.ofStages pipeline).All Bson.Legible := by
  rw [listOfText_printPipeline_eq_ok_iff] at read
  exact (Bson.readsBack_of_sound (all_isSound_of_pipeline compiled)).only maxLevels _ read same

/-- A legible pipeline is read with its keys in order and its integers in the narrowest kind. -/
theorem listOfText_of_legible
    (compiled : invocation.pipeline = .ok pipeline)
    (deep : (Bson.ofStages pipeline).printed.depth ≤ maxLevels)
    (legible : (Bson.ofStages pipeline).All Bson.Legible) :
    Document.listOfText (printPipeline pipeline) =
      .ok (pipeline.map (Bson.arrangedEntries Bson.narrow)) := by
  have readsBack := Bson.readsBack_of_sound (all_isSound_of_pipeline compiled)
  rw [listOfText_printPipeline_eq_ok_iff, readsBack.reads maxLevels deep legible,
    Bson.reread_ofStages]

theorem hasDistinctKeys_of_pipeline
    (compiled : invocation.pipeline = .ok pipeline) :
    (Bson.ofStages pipeline).HasDistinctKeys := by
  refine (all_isSound_of_pipeline compiled).imp fun value sound => ?_
  cases value with
  | document entries => exact sound
  | _ => trivial

/-! ## The order of keys -/

/-- A command that is given a request on its standard input. -/
def onInput (request : String) : Invocation where
  fileAt? _ := none
  standardInput := request

theorem pipeline_onInput
    {text : String}
    {request : Request}
    (read : Request.ofText text = .ok request)
    {stages : List Document}
    (compiled : (request.compile {}).outcome = .ok stages) :
    (onInput text).pipeline = .ok stages := by
  have started : (onInput text).pipeline =
      ((Request.ofText text).mapError .malformedRequest >>= fun request =>
        (request.compile {}).outcome.mapError .invalidRequest) :=
    rfl
  rw [started, read, bind_eq_ok_iff]
  exact ⟨request, rfl, by rw [compiled]; rfl⟩

/-- A request with a sort whose keys are not in order. -/
def sortRequest : String :=
  "\x7b\"stages\": [\x7b\"$sort\": \x7b\"z\": 1, \"a\": -1\x7d\x7d]\x7d"

/-- The pipeline of the request with a sort. -/
def sortPipeline : List Document :=
  [Stage.matching [], [("$sort", .document [("z", .int32 1), ("a", .int64 (-1))])],
    Stage.matching []]

theorem pipeline_sortRequest :
    (onInput sortRequest).pipeline = .ok sortPipeline := by
  have scanned : Token.scan sortRequest.toList =
      (Json.object [("stages", .array [.object
        [("$sort", .object [("z", .integer 1), ("a", .integer (-1))])]])]).tokens := by
    decide +kernel
  have read : Request.ofText sortRequest =
      .ok { stages := [[("$sort", .document [("z", .int32 1), ("a", .int64 (-1))])]] } := by
    rw [Request.ofText, Json.Reader.run, scanned]
    rfl
  exact pipeline_onInput read rfl

theorem legible_sortPipeline :
    (Bson.ofStages sortPipeline).printed.depth ≤ maxLevels ∧
      (Bson.ofStages sortPipeline).All Bson.Legible := by
  constructor
  · have shallow : (Bson.ofStages sortPipeline).printed.depth ≤ 3 := by
      rw [Bson.ofStages, Bson.printed_array, depth_array_le_succ_iff]
      simp [sortPipeline, Stage.matching, Bson.printed_document, depth_object_le_succ_iff,
        Bson.printedEntries]
      rintro key value (⟨-, rfl⟩ | ⟨-, rfl⟩) <;> rfl
    exact shallow.trans (by decide)
  · simp [Bson.ofStages, sortPipeline, Stage.matching, Bson.All, Bson.AllItems, Document.AllValues,
      Bson.Legible, Bson.kindKeys]

/--
What a command prints lists the keys of each document, at any place in the pipeline, in order
of the alphabet; they stand in the document's own order exactly if that is the same.  So they
do in the document that is read at that place, whenever the output is read back as the
pipeline.
-/
theorem run_lists_keys
    (noUsage : invocation.asksForUsage = false)
    (compiled : invocation.pipeline = .ok pipeline) :
    ∃ printed : Json,
      invocation.run.output = printed.pretty ++ "\n" ∧
      Token.scan invocation.run.output.toList = printed.tokens ∧
      ∀ path document, (Bson.ofStages pipeline).at? path = some (.document document) →
        (∃ members, printed.at? path = some (.object members) ∧
          members.map (·.1) = (Document.keys document).mergeSort (· ≤ ·) ∧
          (members.map (·.1) = Document.keys document ↔
            (Document.keys document).Pairwise (· ≤ ·))) ∧
        ∀ stages, Document.listOfText invocation.run.output = .ok stages →
          (Bson.ofStages stages).canonical = (Bson.ofStages pipeline).canonical →
          ∃ again, (Bson.ofStages stages).at? path = some (.document again) ∧
            Document.keys again = (Document.keys document).mergeSort (· ≤ ·) := by
  have distinct := hasDistinctKeys_of_pipeline compiled
  rw [output_of_pipeline noUsage compiled]
  refine ⟨(Bson.ofStages pipeline).printed, printPipeline_eq pipeline, ?_, ?_⟩
  · rw [printPipeline_eq]
    exact scan_pretty _
  · intro path document found
    have keys := Bson.printed_keys document
    constructor
    · have there := Bson.at?_printed distinct found
      rw [Bson.printed_document] at there
      exact ⟨_, there, keys⟩
    · intro stages read same
      obtain ⟨deep, legible⟩ := legible_of_same compiled read same
      rw [listOfText_of_legible compiled deep legible] at read
      have again := Bson.at?_arranged Bson.narrow distinct found
      rw [Bson.arranged_document] at again
      rw [← Except.ok.inj read, ← Bson.reread_ofStages]
      exact ⟨_, again, Bson.keys_arrangedEntries Bson.narrow document⟩

/-- The keys of the sort are printed in order, which is not their own order. -/
theorem run_lists_keys_sort :
    (onInput sortRequest).asksForUsage = false ∧
      (onInput sortRequest).pipeline = .ok sortPipeline ∧
      ∃ printed : Json, (onInput sortRequest).run.output = printed.pretty ++ "\n" ∧
        ∃ members, printed.at? [.item 1, .entry "$sort"] = some (.object members) ∧
          members.map (·.1) = ["a", "z"] := by
  obtain ⟨printed, written, -, listed⟩ := run_lists_keys rfl pipeline_sortRequest
  obtain ⟨⟨members, there, keys, -⟩, -⟩ := listed [.item 1, .entry "$sort"] _ rfl
  refine ⟨rfl, pipeline_sortRequest, printed, written, members, there, keys.trans ?_⟩
  simp [Document.keys, List.mergeSort]

/-- The sort is printed with its keys in another order, and read back in that order. -/
theorem run_reorders_keys :
    (onInput sortRequest).asksForUsage = false ∧
      (onInput sortRequest).pipeline = .ok sortPipeline ∧
      (Bson.ofStages sortPipeline).at? [.item 1, .entry "$sort"] =
        some (.document [("z", .int32 1), ("a", .int64 (-1))]) ∧
      ¬ ∃ stages, Document.listOfText (onInput sortRequest).run.output = .ok stages ∧
        ∀ path document, (Bson.ofStages sortPipeline).at? path = some (.document document) →
          ∃ again, (Bson.ofStages stages).at? path = some (.document again) ∧
            Document.keys again = Document.keys document := by
  refine ⟨rfl, pipeline_sortRequest, rfl, ?_⟩
  rintro ⟨stages, read, kept⟩
  obtain ⟨deep, legible⟩ := legible_sortPipeline
  rw [output_of_pipeline rfl pipeline_sortRequest,
    listOfText_of_legible pipeline_sortRequest deep legible] at read
  have found :
      (Bson.ofStages sortPipeline).at? [.item 1, .entry "$sort"] = some (.document _) :=
    rfl
  obtain ⟨again, there, keys⟩ := kept _ _ found
  have distinct := hasDistinctKeys_of_pipeline pipeline_sortRequest
  have reread := Bson.at?_arranged Bson.narrow distinct found
  rw [← Except.ok.inj read, ← Bson.reread_ofStages, Bson.reread, reread,
    Bson.arranged_document] at there
  rw [← Bson.document.inj (Option.some.inj there), Bson.keys_arrangedEntries] at keys
  simp [Document.keys, List.mergeSort] at keys

/-! ## What is read back -/

/--
What a command prints is read back as its pipeline, up to the order of keys and the width of
integers, exactly if the pipeline is nested no more deeply than texts may be, all its
doubles are finite and read back from their texts, no plain binary data stands in it, and no
key in it names a kind of value.
-/
theorem run_reads_back_iff
    (noUsage : invocation.asksForUsage = false)
    (compiled : invocation.pipeline = .ok pipeline) :
    (∃ stages, Document.listOfText invocation.run.output = .ok stages ∧
        (Bson.ofStages stages).canonical = (Bson.ofStages pipeline).canonical) ↔
      (Bson.ofStages pipeline).printed.depth ≤ maxLevels ∧
        (Bson.ofStages pipeline).All Bson.Legible := by
  rw [output_of_pipeline noUsage compiled]
  constructor
  · rintro ⟨stages, read, same⟩
    exact legible_of_same compiled read same
  · rintro ⟨deep, legible⟩
    refine ⟨_, listOfText_of_legible compiled deep legible, ?_⟩
    rw [← Bson.reread_ofStages, Bson.canonical_reread]

/-- The pipeline with a sort is read back. -/
theorem run_reads_back_sort :
    (onInput sortRequest).asksForUsage = false ∧
      (onInput sortRequest).pipeline = .ok sortPipeline ∧
      ∃ stages, Document.listOfText (onInput sortRequest).run.output = .ok stages ∧
        (Bson.ofStages stages).canonical = (Bson.ofStages sortPipeline).canonical :=
  ⟨rfl, pipeline_sortRequest,
    (run_reads_back_iff rfl pipeline_sortRequest).mpr legible_sortPipeline⟩

/-- A request that compares a field with the double that is no number. -/
def scoreRequest : String :=
  "\x7b\"extraPre\": \x7b\"score\": \x7b\"$numberDouble\": \"NaN\"\x7d\x7d\x7d"

/-- The pipeline of the request with a double. -/
def scorePipeline : List Document :=
  [Stage.matching [("score", .double .nan)], Stage.matching []]

theorem pipeline_scoreRequest :
    (onInput scoreRequest).pipeline = .ok scorePipeline := by
  have scanned : Token.scan scoreRequest.toList =
      (Json.object [("extraPre", .object
        [("score", .object [("$numberDouble", .string "NaN")])])]).tokens := by
    decide +kernel
  have read : Request.ofText scoreRequest =
      .ok { extras := { before := some [("score", .double .nan)] } } := by
    rw [Request.ofText, Json.Reader.run, scanned]
    rfl
  exact pipeline_onInput read rfl

/-- The double that is no number is not read back. -/
theorem run_loses_number :
    (onInput scoreRequest).asksForUsage = false ∧
      (onInput scoreRequest).pipeline = .ok scorePipeline ∧
      ¬ ∃ stages, Document.listOfText (onInput scoreRequest).run.output = .ok stages ∧
        (Bson.ofStages stages).canonical = (Bson.ofStages scorePipeline).canonical := by
  refine ⟨rfl, pipeline_scoreRequest, ?_⟩
  rintro ⟨stages, read, same⟩
  rw [output_of_pipeline rfl pipeline_scoreRequest] at read
  have legible := (legible_of_same pipeline_scoreRequest read same).2
  have finite : Binary64.nan.isFinite = false := by decide
  simp [Bson.ofStages, scorePipeline, Stage.matching, Bson.All, Bson.AllItems, Document.AllValues,
    Bson.Legible, finite] at legible

end Run

end Invocation

end SearchPipeline
