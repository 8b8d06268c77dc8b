import SearchPipeline.Bson.Json
import SearchPipeline.FieldList
import SearchPipeline.Request

/-!
# The command line

The command compiles one request, from a file or from standard input, and prints
the pipeline.  Settings come from a file that a variable names; another variable
lists fields that take the place of those always kept.
-/

namespace SearchPipeline

/-- What a command finds when it starts. -/
structure Invocation where
  arguments : List String := []
  /-- The value of the variable that names the settings file. -/
  settingsPath : Option String := none
  /-- The value of the variable that lists the fields always kept. -/
  alwaysProjected : Option String := none
  /-- What is read at a path, if there is a file. -/
  fileAt? : String → Option String
  standardInput : String

/-- Why a command fails. -/
inductive CommandFailure where
  | missingSettings (path : String)
  | malformedSettings (path : String)
  | missingRequest
  | malformedRequest (refusal : Json.Refusal)
  | invalidRequest (problem : InvalidRequest)

namespace CommandFailure

/-- What is said about a file that is not there. -/
def missingFile : String := "No such file or directory (os error 2)"

/-- What is said about a failure. -/
def message : CommandFailure → String
  | .missingSettings path => "config error: failed to read " ++ path ++ ": " ++ missingFile
  | .malformedSettings path => "config error: failed to parse " ++ path
  | .missingRequest => "io error: " ++ missingFile
  | .malformedRequest .malformed => "malformed request"
  | .malformedRequest (.invalid problem) => "malformed request: " ++ problem.message
  | .invalidRequest problem => problem.message

end CommandFailure

/-- What a command leaves behind: its exit code and what it writes. -/
structure CommandResult where
  code : Nat
  output : String
  /-- The report about a failure, on one line unless a name in it has several. -/
  report : Option String

namespace Invocation

/-- How the command is used. -/
def usage : String := "usage: quarry-compile [REQUEST.json | -]"

/-- The settings of a command. -/
def settings (invocation : Invocation) : Except CommandFailure Settings := do
  let settings ←
    match invocation.settingsPath with
    | none => pure {}
    | some path =>
      match invocation.fileAt? path with
      | none => throw (.missingSettings path)
      | some text => (Settings.ofText text).mapError fun _ => .malformedSettings path
  match invocation.alwaysProjected with
  | none => return settings
  | some fields => return { settings with alwaysProjected := FieldList.parse fields }

/-- The text of the request: standard input, unless the first argument names a file. -/
def requestText (invocation : Invocation) : Except CommandFailure String :=
  match invocation.arguments.head? with
  | none => .ok invocation.standardInput
  | some path =>
    if path = "-" then .ok invocation.standardInput
    else
      match invocation.fileAt? path with
      | some text => .ok text
      | none => .error .missingRequest

/-- The pipeline that a command prints. -/
def pipeline (invocation : Invocation) : Except CommandFailure (List Document) := do
  let settings ← invocation.settings
  let text ← invocation.requestText
  let request ← (Request.ofText text).mapError .malformedRequest
  (request.compile settings).outcome.mapError .invalidRequest

/-- A pipeline as it is printed: indented, with the keys of every object in order. -/
def printPipeline (pipeline : List Document) : String :=
  (Json.array (pipeline.map Document.toJson)).sortKeys.pretty ++ "\n"

/-- Whether the first argument asks how the command is used. -/
def asksForUsage (invocation : Invocation) : Bool :=
  invocation.arguments.head? = some "-h" || invocation.arguments.head? = some "--help"

/-- Runs a command. -/
def run (invocation : Invocation) : CommandResult :=
  if invocation.asksForUsage then ⟨0, usage ++ "\n", none⟩
  else
    match invocation.pipeline with
    | .ok pipeline => ⟨0, printPipeline pipeline, none⟩
    | .error failure => ⟨1, "", some ("quarry-compile: " ++ failure.message)⟩

end Invocation

end SearchPipeline
