import SearchPipeline.Decimal128
import SearchPipeline.FieldList
import SearchPipeline.FieldPath
import SearchPipeline.Instant
import SearchPipeline.Text.Base64
import SearchPipeline.Bson.Identifier
import SearchPipeline.Bson.Merge
import SearchPipeline.MatchMode
import SearchPipeline.InvalidRequest
import SearchPipeline.Bson.Json
import SearchPipeline.Bson.Reader
import SearchPipeline.Search
import SearchPipeline.Filter.Conditions
import SearchPipeline.QuickSearch.Conditions
import SearchPipeline.Pipeline
import SearchPipeline.Join
import SearchPipeline.Page
import SearchPipeline.Main
import SearchPipeline.Service
import SearchPipeline.MatchMode.Reader
import SearchPipeline.Proofs.Compiled
import SearchPipeline.Proofs.FieldPath
import SearchPipeline.Proofs.Fragments
import SearchPipeline.Proofs.ByteOrder
import SearchPipeline.Proofs.Layout
import SearchPipeline.Proofs.Meaning
import SearchPipeline.Proofs.Projection
import SearchPipeline.Proofs.JoinTree
import SearchPipeline.Proofs.KeptFields
import SearchPipeline.Proofs.Narrowing
import SearchPipeline.Proofs.Routing
import SearchPipeline.Proofs.Condition
import SearchPipeline.Proofs.Operands
import SearchPipeline.Proofs.Pages
import SearchPipeline.Proofs.PrintedPipelines
import SearchPipeline.Proofs.EntryOrder
import SearchPipeline.Proofs.Inclusions
import SearchPipeline.Proofs.JoinReading
import SearchPipeline.Proofs.Runs
import SearchPipeline.Proofs.CheckedPaging
import SearchPipeline.Proofs.FoundRows
import SearchPipeline.Proofs.PageNavigation
import SearchPipeline.Proofs.FirstProblem
import SearchPipeline.Proofs.Alternatives
import SearchPipeline.Proofs.FilterGrammar
import SearchPipeline.Proofs.Faults
import SearchPipeline.Proofs.Groups
import SearchPipeline.Proofs.JoinStages
import SearchPipeline.Proofs.Identifiers
import SearchPipeline.Proofs.ListedNames
import SearchPipeline.Proofs.ListedValues
import SearchPipeline.Proofs.CollapsedPaths
import SearchPipeline.Proofs.RegroupedMerges
import SearchPipeline.Proofs.ReversedBounds
import SearchPipeline.Proofs.DoubleOrder
import SearchPipeline.Proofs.RoundedIntegers
