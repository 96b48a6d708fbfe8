import Embedwatch.Library.PlainText
import Embedwatch.Library.Runs
import Embedwatch.Ta.BufferSafety
import Embedwatch.Host.Library
import Embedwatch.Host.CacheWindow
import Embedwatch.Host.CachedUses
import Embedwatch.Library.LastWrite
import Embedwatch.Host.CachedDefs
import Embedwatch.Host.Extractor
import Embedwatch.Verifier.TraceParser
import Embedwatch.Verifier.VerifyInput
import Embedwatch.Verifier.Checks
import Embedwatch.Verifier.StaticObjects
import Embedwatch.Pass.Instrument
import Embedwatch.Detection.Stores
import Embedwatch.Detection.LibraryWrites
import Embedwatch.Svf.Entities
import Embedwatch.Svf.ValueMap
import Embedwatch.Verifier.Forest
import Embedwatch.Svf.ExportedLines
import Embedwatch.Svf.RoundTrip
import Embedwatch.Svf.Analysis
import Embedwatch.Svf.TraceDefs
import Embedwatch.Svf.ParameterIds
import Embedwatch.Library.Reachability
import Embedwatch.Uaf.AllocFreeFlow
import Embedwatch.Verifier.CheckedUses
import Embedwatch.Pass.Phases
import Embedwatch.Pass.Reported
import Embedwatch.Detection.Frames
import Embedwatch.Svf.IndirectNames
import Embedwatch.Svf.IndirectUses
import Embedwatch.Instrumentor.Ir
import Embedwatch.Instrumentor.FunctionInstrumentor
import Embedwatch.Instrumentor.Clones
import Embedwatch.Instrumentor.CallReplacement
import Embedwatch.Instrumentor.Redirection
import Embedwatch.Instrumentor.Propagation
import Embedwatch.Instrumentor.Chains
import Embedwatch.Verifier.Annotations
import Embedwatch.Detection.PackedIds
import Embedwatch.Ta.RingIndices
import Embedwatch.Verifier.RecordText
import Embedwatch.Ta.SlotContents
import Embedwatch.Library.StructLayout
import Embedwatch.Svf.FieldOffsets
import Embedwatch.Svf.RequestedDefs
import Embedwatch.Uaf.FlowCount
import Embedwatch.Verifier.Verdicts
import Embedwatch.Svf.SurvivedTraces
import Embedwatch.Library.Worklist
import Embedwatch.Svf.Visits
import Embedwatch.Svf.DefNodes
import Embedwatch.Svf.FirstHits
import Embedwatch.Library.FirstPaths
import Embedwatch.Library.Stateful
import Embedwatch.Svf.RepeatedFields
import Embedwatch.Svf.ValueFlow
import Embedwatch.Svf.NullDefs
import Embedwatch.Svf.PointerRounds
import Embedwatch.Instrumentor.Erasure
import Embedwatch.Pass.RecursionTracker
import Embedwatch.Pass.InputWrapper
import Embedwatch.Host.CacheBounds
import Embedwatch.Ta.Rejections
import Embedwatch.Uaf.HasPath
import Embedwatch.Host.CleanCache
import Embedwatch.Instrumentor.ReturnedFlags
import Embedwatch.Verifier.FoundIds
import Embedwatch.Library.StreamServer
import Embedwatch.Verifier.Receiver
import Embedwatch.Host.Extraction
import Embedwatch.Detection.Pipeline
import Embedwatch.Library.LinkedList
import Embedwatch.Library.Nesting
import Embedwatch.Ta.ShadowStack
import Embedwatch.Verifier.Replays
import Embedwatch.Ta.Statistics
import Embedwatch.Pass.EntryPoint
import Embedwatch.Library.BreadthFirst
import Embedwatch.Uaf.CsvExport
import Embedwatch.Svf.UseNodes
import Embedwatch.Library.Elimination
import Embedwatch.Uaf.Eviction
import Embedwatch.Library.Simulation
import Embedwatch.Instrumentor.Execution
import Embedwatch.Verifier.Relocation
import Embedwatch.Library.Stuttering
import Embedwatch.Pass.Transparent
import Embedwatch.Uaf.Report
import Embedwatch.Svf.StoreTargets
import Embedwatch.Svf.TracedInputs
import Embedwatch.Svf.PointerRounds
