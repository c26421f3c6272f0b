import WerkModel.Inference.Types
import WerkModel.Lib.Ranking
import WerkModel.Lib.Saturating

-- The runtime that executes a request, and the runtimes that have been passed over for it.
open Std
open Backend (trim)
open Ranking Saturating

namespace Inference

-- The fit of a workload on the devices that are reported. All sizes are in bytes.
section Estimate

inductive FitAssessment
  | fits
  | tight
  | likelyOom
  | unknown
  deriving DecidableEq

structure WorkloadEstimate where
  downloadSizeBytes           : Option Nat := none
  weightPayloadBytes          : Option Nat := none
  acceleratorPeakBytes        : Option Nat := none
  acceleratorMemoryLimitBytes : Option Nat := none
  hostPeakBytes               : Option Nat := none
  hostMemoryLimitBytes        : Option Nat := none
  fit                         : FitAssessment

def zip {α β : Type} (a : Option α) (b : Option β) : Option (α × β) :=
  a.bind fun a => b.map (a, ·)

-- A peak that reaches its limit, if both are known.
def exceeds (peak limit : Option Nat) : Bool :=
  (zip peak limit).any fun (peak, limit) => limit ≤ peak

variable (estimate : WorkloadEstimate)

def acceleratorMemoryExceeded : Bool :=
  exceeds estimate.acceleratorPeakBytes estimate.acceleratorMemoryLimitBytes

def hostMemoryExceeded : Bool :=
  exceeds estimate.hostPeakBytes estimate.hostMemoryLimitBytes

def memoryPressure : Bool :=
  estimate.fit = .likelyOom || acceleratorMemoryExceeded estimate || hostMemoryExceeded estimate

def projectedHostPeakWithOffload : Option Nat := do
  let currentHostPeak ← estimate.hostPeakBytes
  let weights ← estimate.weightPayloadBytes.or estimate.downloadSizeBytes
  let acceleratorWorkingSet := estimate.acceleratorPeakBytes.getD weights - weights
  return add u64Max (add u64Max currentHostPeak weights) (acceleratorWorkingSet / 3)

def roundHalfEven (n d : Nat) : Nat :=
  if n % d * 2 < d ∨ n % d * 2 = d ∧ n / d % 2 = 0 then n / d else n / d + 1

-- The nearest number in double precision.
def toDouble (n : Nat) : Nat :=
  if n < 2 ^ 53 then n else
    let unit := 2 ^ (n.log2 - 52)
    roundHalfEven n unit * unit

-- With two decimal places.
def formatQuotient (n d : Nat) : String :=
  let hundredths := roundHalfEven (n * 100) d
  toString (hundredths / 100) ++ "." ++ toString (hundredths / 10 % 10) ++
    toString (hundredths % 10)

def formatMemoryBytes (bytes : Nat) : String :=
  if 1024 * 1024 * 1024 ≤ bytes then
    formatQuotient (toDouble bytes) (1024 * 1024 * 1024) ++ " GiB"
  else if 1024 * 1024 ≤ bytes then
    formatQuotient bytes (1024 * 1024) ++ " MiB"
  else if 1024 ≤ bytes then
    formatQuotient bytes 1024 ++ " KiB"
  else
    toString bytes ++ " B"

end Estimate

section Candidates

inductive RuntimeAccelerator
  | cpu
  | cuda
  | rocm
  | mps
  | mlx
  | other
  deriving DecidableEq

structure InferenceRuntimeCandidate where
  id                     : String
  backend                : String
  accelerator            : RuntimeAccelerator
  available              : Bool
  availabilityReason     : Option String := none
  supportedTasks         : List InferenceTask
  supportedLayouts       : List RepositoryLayout := []
  supportedFormats       : List ModelFormat := []
  supportedFamilies      : List String := []
  supportedArchitectures : List String := []
  parameterSupport       : ExtTreeMap String ParameterSupportStatus compare := ∅
  supportsOffloading     : Bool
  -- Scores stay within the range of their type.
  priority               : Int

inductive PlanCandidateStatus
  | accepted
  | rejected
  deriving DecidableEq

inductive ExecutionDegradation
  | cpuOffload
  | sequentialOffload
  | componentOffload
  | vaeTiling
  | temporalWindowing
  deriving DecidableEq

structure PlanCandidateDecision where
  runtimeId    : String
  backend      : String
  status       : PlanCandidateStatus
  score        : Option Int
  reasons      : List String
  degradations : List ExecutionDegradation
  deriving DecidableEq

structure ExecutionPlan where
  task                      : InferenceTask
  selectedRuntime           : Option String
  selectedBackend           : Option String
  score                     : Option Int
  candidates                : List PlanCandidateDecision
  fallbackChain             : List PlanCandidateDecision
  backendFallback           : Bool
  degradations              : List ExecutionDegradation
  modelOrQualityDowngrades  : List String
  deriving DecidableEq

end Candidates

section Routing

variable {φ : Type} (request : EffectiveInferenceRequest φ)

def concreteRoutingTarget (value : String) : Option String :=
  let value := String.ofList (trim value.toList)
  if value ≠ "" ∧ ¬eqIgnoreAsciiCase value "auto" then some value else none

def runtimeAcceleratorMatches (accelerator : RuntimeAccelerator) (requested : String) : Bool :=
  let requested := toAsciiLowercase requested
  match accelerator with
  | .cpu   => requested = "cpu".toList
  | .cuda  => requested = "cuda".toList
  | .rocm  => requested = "rocm".toList ∨ requested = "hip".toList
  | .mps   => requested = "mps".toList ∨ requested = "metal".toList
  | .mlx   => requested = "mlx".toList ∨ requested = "metal".toList
  | .other => false

def requestedBackend : Option String :=
  (request.stringParameter "routing.backend").filter (· ≠ "auto")

-- A concrete device takes precedence over an accelerator.
def requestedAccelerator : Option String :=
  ((request.stringParameter "routing.device").bind concreteRoutingTarget).or
    ((request.stringParameter "routing.accelerator").bind concreteRoutingTarget)

def fallbackPolicy : String :=
  (request.stringParameter "routing.fallback_policy").getD "backend"

def allowDegradation : Bool :=
  fallbackPolicy request = "degrade"

def offloadOptions : List (String × ExecutionDegradation) := [
  ("routing.allow_cpu_offload", .cpuOffload),
  ("routing.allow_sequential_offload", .sequentialOffload),
  ("routing.allow_component_offload", .componentOffload)
]

-- An explicit permission applies under every policy, and an explicit denial of CPU offload
-- suppresses the inherited alternatives.
def selectedOffload (allowDegradation : Bool) : Option ExecutionDegradation :=
  match offloadOptions.find? fun (path, _) =>
      request.explicitParameters.contains path && request.boolParameter path = some true with
  | some (_, degradation) => some degradation
  | none =>
    if !allowDegradation then
      none
    else if request.explicitParameters.contains "routing.allow_cpu_offload" &&
        request.boolParameter "routing.allow_cpu_offload" = some false then
      none
    else
      (offloadOptions.find? fun (path, _) => request.boolParameter path = some true).map Prod.snd

end Routing

section Decisions

variable {φ : Type} (manifest : ModelManifest) (request : EffectiveInferenceRequest φ)
variable (estimate : WorkloadEstimate) (candidate : InferenceRuntimeCandidate)

def memoryRejectionReason (accelerator : RuntimeAccelerator) : String :=
  match zip estimate.acceleratorPeakBytes estimate.acceleratorMemoryLimitBytes with
  | some (peak, limit) =>
    if accelerator = .cuda ∧ limit ≤ peak then
      "estimated accelerator peak of " ++ formatMemoryBytes peak ++
        " reaches or exceeds detected accelerator memory limit of " ++ formatMemoryBytes limit ++
        " and no permitted offload could be selected"
    else
      "workload is likely out of memory and no permitted offload could be selected"
  | none => "workload is likely out of memory and no permitted offload could be selected"

def hostMemoryRejectionReason : String :=
  match zip estimate.hostPeakBytes estimate.hostMemoryLimitBytes with
  | some (peak, limit) =>
    "estimated host peak of " ++ formatMemoryBytes peak ++
      " reaches or exceeds detected host memory limit of " ++ formatMemoryBytes limit ++
      "; accelerator offload cannot resolve host-memory pressure"
  | none =>
    "workload is likely out of host memory; accelerator offload cannot resolve host-memory pressure"

def offloadHostMemoryRejectionReason : Option String := do
  let limit ← estimate.hostMemoryLimitBytes
  let required ← projectedHostPeakWithOffload estimate
  if limit ≤ required then
    some ("projected host memory required with offload is " ++ formatMemoryBytes required ++
      ", which reaches or exceeds detected host memory limit of " ++ formatMemoryBytes limit ++
      "; offload was not selected")
  else
    none

def reject (condition : Bool) (reason : String) : List String :=
  if condition then [reason] else []

def supportsLayout : Bool :=
  candidate.supportedLayouts.isEmpty ||
    candidate.supportedLayouts.contains manifest.metadata.repositoryLayout

def supportsFormat : Bool :=
  candidate.supportedFormats.isEmpty || candidate.supportedFormats.contains manifest.format

-- A name that the model does not give is supported.
def supportsName (supported : List String) (name : Option String) : Bool :=
  name.all fun name => supported.isEmpty || supported.any (eqIgnoreAsciiCase · name)

def matchesAccelerator : Bool :=
  (requestedAccelerator request).all (runtimeAcceleratorMatches candidate.accelerator)

def matchesBackend : Bool :=
  fallbackPolicy request ≠ "none" ||
    (requestedBackend request).all (eqIgnoreAsciiCase candidate.backend)

def unsupportedParameters : List String :=
  request.explicitParameters.toList.filter fun path =>
    let support := candidate.parameterSupport[path]?.getD .modelDependent
    (support = .ignored || support = .unsupported) && request.parameterPolicy = .strict

def routingReasons : List String :=
  reject (!candidate.available) (candidate.availabilityReason.getD "runtime is unavailable") ++
  reject (!candidate.supportedTasks.contains request.task)
    ("runtime does not support task " ++ request.task.name) ++
  reject (!supportsLayout manifest candidate)
    ("runtime does not support " ++ manifest.metadata.repositoryLayout.debug ++
      " repository layout") ++
  reject (!supportsFormat manifest candidate)
    ("runtime does not support " ++ manifest.format.debug ++ " model format") ++
  reject (!supportsName candidate.supportedFamilies manifest.metadata.family)
    ("runtime does not support model family '" ++ manifest.metadata.family.getD "" ++ "'") ++
  reject (!supportsName candidate.supportedArchitectures manifest.architecture)
    ("runtime does not support architecture '" ++ manifest.architecture.getD "" ++ "'") ++
  reject (!matchesBackend request candidate)
    ("explicit backend '" ++ (requestedBackend request).getD "" ++ "' was requested") ++
  reject (!matchesAccelerator request candidate)
    ("accelerator '" ++ (requestedAccelerator request).getD "" ++ "' was requested") ++
  (unsupportedParameters request candidate).map fun path =>
    "explicit parameter '" ++ path ++ "' is unsupported"

-- What reduces the memory of a task accompanies an offload.
def taskDegradations : List ExecutionDegradation :=
  let allowed := allowDegradation request
  (if allowed && request.task.outputModality = .image &&
      request.boolParameter "image.vae_tiling" = some true then [.vaeTiling] else []) ++
  (if allowed && request.task.outputModality = .video &&
      (request.boolParameter "video.temporal_vae_tiling" = some true ||
        (request.u64Parameter "video.window_size").isSome) then [.temporalWindowing] else [])

def candidateOffload : Option ExecutionDegradation :=
  if candidate.supportsOffloading &&
      (candidate.accelerator = .cuda || candidate.accelerator = .rocm) then
    selectedOffload request (allowDegradation request)
  else
    none

def memoryDecision : List String × List ExecutionDegradation :=
  if !memoryPressure estimate then
    ([], [])
  else if hostMemoryExceeded estimate then
    ([hostMemoryRejectionReason estimate], [])
  else
    match candidateOffload request candidate with
    | some offload =>
      match offloadHostMemoryRejectionReason estimate with
      | some reason => ([reason], [])
      | none        => ([], offload :: taskDegradations request)
    | none => ([memoryRejectionReason estimate candidate.accelerator], [])

def candidateReasons : List String :=
  routingReasons manifest request candidate ++ (memoryDecision request estimate candidate).1

def candidateScore : Int :=
  candidate.priority +
    (if (requestedBackend request).any (eqIgnoreAsciiCase candidate.backend) then 500 else 0) -
    (memoryDecision request estimate candidate).2.length * 35 -
    (if candidate.accelerator = .cpu then 120 else 0)

def candidateDecision : PlanCandidateDecision :=
  let accepted := (candidateReasons manifest request estimate candidate).isEmpty
  {
    runtimeId    := candidate.id
    backend      := candidate.backend
    status       := if accepted then .accepted else .rejected
    score        := if accepted then some (candidateScore request estimate candidate) else none
    reasons      := candidateReasons manifest request estimate candidate
    degradations := (memoryDecision request estimate candidate).2
  }

-- Other tasks, formats and explicit devices are not preferred routes.
def isPreferred : Bool :=
  candidate.supportedTasks.contains request.task && supportsLayout manifest candidate &&
    supportsFormat manifest candidate && matchesAccelerator request candidate &&
    matchesBackend request candidate

end Decisions

section Plan

variable {φ : Type} (manifest : ModelManifest) (request : EffectiveInferenceRequest φ)
variable (estimate : WorkloadEstimate) (candidates : List InferenceRuntimeCandidate)

-- The greatest score comes first, then the least identifier.
def compareDecisions (left right : PlanCandidateDecision) : Ordering :=
  (compare right.score left.score).then (compare left.runtimeId right.runtimeId)

def comparePreferences (left right : Int × PlanCandidateDecision) : Ordering :=
  (compare right.1 left.1).then (compare left.2.runtimeId right.2.runtimeId)

def sortedDecisions : List PlanCandidateDecision :=
  sortBy compareDecisions (candidates.map (candidateDecision manifest request estimate))

def preferenceOrder : List (Int × PlanCandidateDecision) :=
  sortBy comparePreferences <| (candidates.filter (isPreferred manifest request)).map
    fun candidate => (candidateScore request estimate candidate,
      candidateDecision manifest request estimate candidate)

def fallbackChain (selected : PlanCandidateDecision) : List PlanCandidateDecision :=
  (((preferenceOrder manifest request estimate candidates).takeWhile
    (·.2.runtimeId ≠ selected.runtimeId)).filter (·.2.status = .rejected)).map Prod.snd

def downgrades : List String :=
  if memoryPressure estimate then
    ["consider a smaller model or stronger quantization",
      match request.task.outputModality with
      | .image             => "consider a lower image resolution"
      | .video             => "consider fewer frames or a lower video resolution"
      | .audio             => "consider a shorter duration"
      | .text | .embedding => "consider a shorter context"]
  else
    []

def planExecution : ExecutionPlan :=
  let decisions := sortedDecisions manifest request estimate candidates
  let selected := decisions.find? (·.status = .accepted)
  let chain := selected.elim [] (fallbackChain manifest request estimate candidates)
  {
    task                     := request.task
    selectedRuntime          := selected.map PlanCandidateDecision.runtimeId
    selectedBackend          := selected.map PlanCandidateDecision.backend
    score                    := selected.bind PlanCandidateDecision.score
    candidates               := decisions
    fallbackChain            := chain
    backendFallback          := !chain.isEmpty ||
      (zip (requestedBackend request) (selected.map PlanCandidateDecision.backend)).any
        fun (requested, selected) => !eqIgnoreAsciiCase requested selected
    degradations             := selected.elim [] PlanCandidateDecision.degradations
    modelOrQualityDowngrades := downgrades request estimate
  }

end Plan
end Inference
