import WerkModel.Deployments.Placement

-- The native arguments of a plan, and the resolution of a single profile.
open Std Checks Saturating InferenceService
open RuntimeControl.Experts (isWhitespace)

namespace Deployments
namespace Profile

variable (host : Host) (profile : Profile) (devices : List Device) (strategy : Strategy)

section Llama

def splitArgs : Except String (List String) := do
  if strategy = .layer ∧ profile.split = [] then
    ensure (∀ budget ∈ profile.memory, 0 < budget.weights)
      "layer placement requires positive resident weight estimates on every GPU"
    return ["--tensor-split", ",".intercalate (profile.memory.map fun b => toString b.weights)]
  else if profile.split = [] then
    return []
  else
    ensure (strategy = .layer ∧ profile.split.length = devices.length ∧
      ∀ ratio ∈ profile.split, ratio.isFinite ∧ 0 < ratio)
      "layer split requires one finite positive ratio per GPU"
    return ["--tensor-split", ",".intercalate (profile.split.map host.printFloat)]

def llamaOffloadArgs : Except String (List String) :=
  match profile.offload with
  | .none                => return []
  | .cpuLayers gpuLayers => do
    ensure (gpuLayers < 2 ^ 31) "GPU layer count is out of range"
    return []
  | .cpuExperts layers => do
    ensure (0 < layers) "CPU expert layer count must be positive"
    return ["--n-cpu-moe", toString layers]
  | .expertCache slots pinnedMib => do
    ensure (profile.runtime = .llamaCudaOffload ∧ 0 < slots)
      "expert cache requires the pinned offload flavor and nonzero slots"
    ensure (profile.build = "907a73da9a149faa8c42ccde890f1d575586810f")
      "expert cache is restricted to the reviewed Werk offload pin"
    ensure (∀ budget ∈ profile.memory, 0 < budget.experts)
      "expert cache must be budgeted on every GPU"
    ensure (pinnedMib * (1024 * 1024) ≤ u64Max ∧ pinnedMib * (1024 * 1024) ≤ profile.hostBytes)
      "pinned cache exceeds host budget"
    return ["--moe-expert-cache-size", toString slots,
      "--moe-expert-cache-host-pinned-mb", toString pinnedMib]
  | _ => .error "this llama build/profile does not support the requested offload mechanism"

def llamaArgs : Except String (List String) := do
  ensure (strategy = .single ∨ strategy = .layer) <|
    "llama profiles currently support single and layer; row/tensor require separate " ++
    "model/build combination validation"
  ensure (profile.tensorParallel = 1 ∧ profile.pipelineParallel = 1)
    "vLLM TP/PP parameters are not llama tensor-split ratios"
  let split ← splitArgs host profile devices strategy
  let offload ← profile.llamaOffloadArgs
  return [
    "--device", ",".intercalate ((List.range devices.length).map fun i => "CUDA" ++ toString i),
    "--split-mode", if strategy = .single then "none" else "layer",
    "--main-gpu", "0"
  ] ++ split ++ offload

end Llama

section Vllm

def validateVllmStrategy : Except String Unit :=
  match strategy with
  | .single =>
    ensure (profile.tensorParallel = 1 ∧ profile.pipelineParallel = 1) "single requires TP=PP=1"
  | .tensor =>
    ensure (1 < profile.tensorParallel ∧ profile.pipelineParallel = 1)
      "tensor requires TP>1 and PP=1"
  | .pipeline => ensure (1 < profile.pipelineParallel) "pipeline requires PP>1"
  | .expert   =>
    ensure (1 < profile.tensorParallel ∧ profile.pipelineParallel = 1 ∧ profile.offload.isNone)
      "expert requires TP>1, PP=1, no combined offload"
  | _ => .error "vLLM does not implement llama layer split"

-- The smaller of two fractions, or the one that is a number.
def minFraction (a b : Float) : Float :=
  if a.isNaN then b else if b < a then b else a

-- One fraction of its memory for every device, which is the smallest one.
def memoryFraction : Except String Float := do
  let fractions ← (devices.zip profile.memory).mapM fun (device, budget) => do
    let total ← budget.total
    return Float.ofNat (total - budget.reserve) / Float.ofNat device.totalBytes
  return fractions.foldl minFraction 1.0

def vllmOffloadArgs : Except String (List String) :=
  match profile.offload with
  | .none                 => return []
  | .cpuWeights gibPerGpu => do
    ensure (gibPerGpu.isFinite ∧ 0 < gibPerGpu ∧
      gibPerGpu * Float.ofNat devices.length * 1073741824.0 ≤ Float.ofNat profile.hostBytes)
      "CPU weight offload exceeds host budget"
    return ["--cpu-offload-gb", host.printFloat gibPerGpu]
  | _ => .error "requested vLLM offload mechanism has no validated profile translation"

def vllmArgs : Except String (List String) := do
  ensure (profile.split = [] ∧ ¬profile.kvCpu)
    "llama split ratios and CPU KV controls do not apply to vLLM"
  ensure (0 < profile.tensorParallel ∧ 0 < profile.pipelineParallel ∧
    profile.tensorParallel * profile.pipelineParallel ≤ usizeMax ∧
    profile.tensorParallel * profile.pipelineParallel = devices.length)
    "TP * PP must equal selected GPU count"
  validateVllmStrategy profile strategy
  let fraction ← profile.memoryFraction devices
  ensure (0 < fraction ∧ fraction < 1) "invalid vLLM memory fraction"
  let offload ← vllmOffloadArgs host profile devices
  return [
    "--tensor-parallel-size", toString profile.tensorParallel,
    "--pipeline-parallel-size", toString profile.pipelineParallel,
    "--distributed-executor-backend", "mp",
    "--max-model-len", toString profile.context,
    "--max-num-seqs", toString profile.parallel,
    "--max-num-batched-tokens", toString profile.batch,
    "--gpu-memory-utilization", host.printFixed fraction
  ] ++ offload ++ if strategy = .expert then ["--enable-expert-parallel"] else []

end Vllm

def arguments : Except String (List String) := do
  let args ←
    match profile.runtime with
    | .vllmCuda => vllmArgs host profile devices strategy
    | _         => llamaArgs host profile devices strategy
  return args ++ profile.nativeArgs

end Profile

section Resolve

variable (host : Host) (profile : Profile) (manifest : ModelManifest) (inventory : Inventory)

def isSeparator (c : Char) : Bool :=
  isWhitespace c || c ∈ [',', '=', '[', ']', '(', ')']

def Plan.validateHelp (plan : Plan) (help : String) : Except String Unit := do
  let tokens := (help.toList.splitOnP isSeparator).map String.ofList
  plan.args.forM fun arg =>
    ensure (['-', '-'] <+: arg.toList → arg ∈ tokens) <|
      "selected build does not advertise " ++ arg
  ensure (plan.profile.runtime = .llamaCudaOffload → "--moe-expert-cache-size" ∈ tokens)
    "offload flavor does not advertise native expert cache support"

def Profile.environment (devices : List Device) : ExtTreeMap String String :=
  .ofList [
    ("CUDA_VISIBLE_DEVICES", ",".intercalate (devices.map Device.id)),
    ("CUDA_DEVICE_ORDER", "PCI_BUS_ID"),
    ("OMP_NUM_THREADS", toString profile.cpuThreads)
  ]

def Profile.reasons : List String :=
  [
    "Exclusive GPU ownership; component budgets are declared estimates, not measured usage or " ++
      "hard allocator limits.",
    "Unknown P2P/NVLink is not treated as a prerequisite; no throughput prediction was made."
  ] ++ if profile.strategy = .auto then [
    "Selected the smallest fitting single GPU; additional devices lack a measured performance " ++
      "benefit."
  ] else []

def Profile.resolve : Except String Plan := do
  profile.validate host manifest inventory
  let devices ← profile.place inventory
  profile.checkBudgets devices
  let strategy ← profile.chooseStrategy devices
  let args ← profile.arguments host devices strategy
  let modelIdentity ← host.modelIdentity manifest
  let executableSha256 ← host.binaryDigest profile.executable
  let runtimeVersion ← host.runtimeVersion profile.executable
  let plan : Plan := {
    profile, modelIdentity, executableSha256, runtimeVersion, devices, strategy, args
    environment := profile.environment devices
    fingerprint := ""
    reasons     := profile.reasons
  }
  let serve := if profile.runtime = .vllmCuda then ["serve"] else []
  let help ← host.help profile.executable (serve ++ ["--help"]) plan.environment
  plan.validateHelp help
  let fingerprint ← host.fingerprint plan
  return { plan with fingerprint }

variable {host profile manifest inventory} {plan : Plan}

-- What a resolved plan says about its profile and its devices.
structure Profile.Resolved (profile : Profile) (inventory : Inventory) (plan : Plan) : Prop where
  profile_eq : plan.profile = profile
  hostBytes  : 0 < profile.hostBytes
  placed     : profile.place inventory = .ok plan.devices
  budgets    : List.Forall₂ Fits plan.devices profile.memory

theorem Profile.resolve_eq_ok (h : profile.resolve host manifest inventory = .ok plan) :
    profile.Resolved inventory plan := by
  simp only [resolve, bind_eq_ok] at h
  have ⟨_, hv, _, hp, _, hb, _, _, _, _, _, _, _, _, _, _, _, _, _, _, _, _, h⟩ := h
  cases h
  exact ⟨rfl, hostBytes_pos hv, hp, checkBudgets_eq_ok hb⟩

end Resolve
end Deployments
