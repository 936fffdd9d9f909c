import Libane.Core.Shape
import Libane.Foundation.Runs
import Libane.Foundation.StraightLine
import Libane.Foundation.Text
import Libane.Foundation.Tables
import Libane.Foundation.Steps
import Libane.Core.BufferPool
import Libane.Runtime.AneRuntime
import Libane.Graph.Graph
import Libane.Graph.Validator
import Libane.Graph.Accepted
import Libane.Graph.ShapeSoundness
import Libane.Graph.Fusion
import Libane.Graph.FusionPartition
import Libane.Graph.FusionMeaning
import Libane.Graph.Compiler
import Libane.Graph.Executor
import Libane.Graph.Execution
import Libane.Foundation.Names
import Libane.Core.MilText
import Libane.Core.Fragments
import Libane.Core.Assembly
import Libane.Foundation.Bytes
import Libane.Core.Fp16
import Libane.Core.WeightBlob
import Libane.Graph.MilBackend
import Libane.Core.Emitted
import Libane.Graph.Lowering
import Libane.Graph.LoweringTotal
import Libane.Graph.CompileTotal
import Libane.Graph.Calls
import Libane.Graph.UniformAlloc
import Libane.Graph.Delivery
import Libane.Graph.InputBinding
import Libane.Graph.WeightFiles
import Libane.Foundation.Lru
import Libane.Core.CompileCache
import Libane.Core.CacheSections
import Libane.Graph.BuilderChecks
import Libane.Graph.SafeLowering
import Libane.Graph.GroupInputs
import Libane.Graph.AllocSearch
import Libane.Core.WeightPaths
import Libane.Runtime.Signature
import Libane.Core.CacheStats
import Libane.Foundation.Patching
import Libane.Graph.HwxEmitter
import Libane.Graph.HwxPatch
import Libane.Foundation.Acyclic
import Libane.Graph.CycleCheck
import Libane.Foundation.FirstOccurrences
import Libane.Core.WeightNames
import Libane.Foundation.RowMajor
import Libane.Core.Fallback
import Libane.Core.FallbackTranspose
import Libane.Core.MilMeaning
import Libane.Core.PixelShuffle
import Libane.Foundation.Interpolation
import Libane.Core.PwlMeaning
import Libane.Graph.PwlDomain
import Libane.Graph.FusionMaximal
import Libane.Core.PoolDiscipline
import Libane.Foundation.Simulation
import Libane.Core.CacheRefinement
import Libane.Foundation.Wiring
import Libane.Core.MilWiring
import Libane.Core.SingleAgreement
import Libane.Foundation.Lifetimes
import Libane.Core.WeightHash
import Libane.Api.Requests
import Libane.Api.Session
import Libane.Api.Frames
import Libane.Api.Lifecycle
import Libane.Api.Programs
import Libane.Api.Transparency
import Libane.Api.Override
import Libane.Core.MatmulLayout
import Libane.Foundation.Summaries
import Libane.Graph.Preservation
import Libane.Graph.EspressoBackend
import Libane.Graph.PathB
