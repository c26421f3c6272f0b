import WerkModel.Lib.Saturating
import WerkModel.Lib.System
import WerkModel.Lib.TreeMap
import WerkModel.RuntimeControl.Memory.Config
import WerkModel.RuntimeControl.Memory.Admission
import WerkModel.RuntimeControl.Memory.Manager
import WerkModel.RuntimeControl.Memory.Plan
import WerkModel.RuntimeControl.Memory.World
import WerkModel.RuntimeControl.Memory.Books
import WerkModel.Lib.Tokens
import WerkModel.RuntimeControl.Memory.Claims
import WerkModel.RuntimeControl.Memory.Effect
import WerkModel.RuntimeControl.Memory.Exclusion
import WerkModel.RuntimeControl.Memory.Conservation
import WerkModel.RuntimeControl.Memory.Capacity
import WerkModel.RuntimeControl.Handoff.Registry
import WerkModel.RuntimeControl.Handoff.World
import WerkModel.RuntimeControl.Handoff.Books
import WerkModel.RuntimeControl.Handoff.Safety
import WerkModel.RuntimeControl.Experts.Config
import WerkModel.RuntimeControl.Experts.Residency
import WerkModel.RuntimeControl.Experts.Policy
import WerkModel.RuntimeControl.Experts.Claims
import WerkModel.Lib.Pagination
import WerkModel.RuntimeControl.Base64
import WerkModel.RuntimeControl.Experts.Listing
import WerkModel.RuntimeControl.Experts.Traversal
import WerkModel.Backend.SharedCache
import WerkModel.Backend.SharedCacheAccounting
import WerkModel.Backend.Sse
import WerkModel.Backend.SseChunking
import WerkModel.Backend.SseFraming
import WerkModel.Backend.ToolCalling
import WerkModel.Backend.ToolGrammar
import WerkModel.Backend.ToolStream
import WerkModel.Backend.ToolStreamAgreement
import WerkModel.Deployments.Admission
import WerkModel.InferenceService.Admission
import WerkModel.InferenceService.JobLifecycle
import WerkModel.RuntimeControl.States.Listing
import WerkModel.RuntimeControl.States.Traversal
import WerkModel.Api.Anthropic.Stream
import WerkModel.Api.Anthropic.StreamBlocks
import WerkModel.Api.Anthropic.StreamContents
import WerkModel.Api.Anthropic.StreamFragmentation
import WerkModel.Backend.ModelPrefetch
import WerkModel.Backend.ModelPrefetchInventory
import WerkModel.Backend.ModelPrefetchLinux
import WerkModel.Backend.ProcessLifecycle
import WerkModel.Backend.ProcessLifecycleSafety
import WerkModel.Lib.Faulty
import WerkModel.Api.Deployments
import WerkModel.Api.OpenAiStreams
import WerkModel.Backend.ChatPersistence
import WerkModel.Backend.ChatPersistenceRuns
import WerkModel.Backend.LlamaFast
import WerkModel.Backend.LlamaFastMirror
import WerkModel.Backend.RuntimeCache
import WerkModel.Backend.RuntimeCachePreload
import WerkModel.Backend.StreamedExperts
import WerkModel.Backend.StreamedExpertsDense
import WerkModel.Backend.StreamedExpertsRouting
import WerkModel.Lib.Lines
import WerkModel.Logging.RotatingFile
import WerkModel.FileStore.Crashes
import WerkModel.FileStore.Quotas
import WerkModel.Lib.Attempt
import WerkModel.RuntimeControl.Experts.Pressure
import WerkModel.RuntimeControl.Experts.Staleness
import WerkModel.RuntimeControl.States.Journal
import WerkModel.RuntimeControl.States.Pruning
import WerkModel.RuntimeControl.States.Reuse
import WerkModel.Backend.ModelFileCache
import WerkModel.Backend.ModelFileCacheSafety
import WerkModel.MediaCompanion.Safety
import WerkModel.Lib.Latch
import WerkModel.RuntimeControl.Memory.Coverage
import WerkModel.RuntimeControl.Memory.Relief
import WerkModel.Backend.ExpertCheckpoint
import WerkModel.Backend.ExpertCheckpointGeometry
import WerkModel.Backend.HttpBody
import WerkModel.Backend.HttpBodyChunks
import WerkModel.Backend.ModelPrefetchSearch
import WerkModel.Backend.ToolMarkup
import WerkModel.RuntimeControl.Memory.Direction
import WerkModel.RuntimeControl.Memory.Execution
import WerkModel.RuntimeControl.Memory.Readings
import WerkModel.RuntimeControl.Memory.Retry
import WerkModel.RuntimeControl.Memory.Sufficiency
import WerkModel.Api.Files
import WerkModel.Api.FilesPagination
import WerkModel.Api.Generation
import WerkModel.Api.GenerationTrimming
import WerkModel.Backend.ChatPersistenceRetention
import WerkModel.Backend.RuntimeCacheCapacity
import WerkModel.Inference.Planner
import WerkModel.Inference.PlannerSoundness
import WerkModel.Lib.Redaction
import WerkModel.Logging.Scrub
import WerkModel.Api.Anthropic.Request
import WerkModel.Api.Anthropic.RequestGrammar
import WerkModel.ModelStore.Quantization
import WerkModel.ModelStore.QuantizationMerge
import WerkModel.Lib.Formats
import WerkModel.ModelStore.GgufExactness
import WerkModel.Backend.BurnPhi3Streaming
import WerkModel.Backend.Candle
import WerkModel.Backend.CandleStops
import WerkModel.Backend.ExpertMemory
import WerkModel.Backend.ExpertMemoryExactness
import WerkModel.Backend.LlamaFastDelivery
import WerkModel.Backend.OnnxRuntime
import WerkModel.InferenceService.InlineMedia
import WerkModel.Backend.TextCheckpoint
import WerkModel.Backend.TextCheckpointBudgets
import WerkModel.Backend.BurnPhi3Sizes
import WerkModel.WerkProtocol.ClientErrors
import WerkModel.Lib.Tally
import WerkModel.RuntimeControl.Routing.Ownership
import WerkModel.Api.ChatSessions
import WerkModel.Api.ChatSessionsSafety
import WerkModel.Backend.NgramCache
import WerkModel.Backend.StreamedEmbedding
import WerkModel.Backend.StreamedEmbeddingDense
import WerkModel.Backend.ExpertForward
import WerkModel.Backend.WeightSplitAdmission
import WerkModel.Cli.ChatPersistenceSafety
import WerkModel.RuntimeControl.SecurityProgress
import WerkModel.RuntimeControl.States.Crashes
import WerkModel.Cache.Workers
