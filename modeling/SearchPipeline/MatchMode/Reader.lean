import SearchPipeline.Json.Reader
import SearchPipeline.MatchMode

/-!
# Reading match modes

A match mode that stands in a text by itself is given by its name.
-/

namespace SearchPipeline.MatchMode

/-- Reads a match mode. -/
def read : Json.Reader MatchMode := do
  Json.Reader.orMalformed (ofName? (← Json.Reader.readName))

/-- The match mode that a text names. -/
def ofText (text : String) : Except Json.Refusal MatchMode :=
  Json.Reader.run read text

end SearchPipeline.MatchMode
