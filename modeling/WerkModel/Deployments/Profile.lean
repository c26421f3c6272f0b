import WerkModel.InferenceService.Devices
import WerkModel.Lib.Checks
import WerkModel.Lib.Saturating
import WerkModel.RuntimeControl.Experts.Config

-- Plans for the native workers of a single host, which are resolved from the profiles of a
-- configuration.
open Std Checks Saturating InferenceService

namespace Deployments

inductive Runtime
  | llamaCuda
  | llamaCudaOffload
  | vllmCuda
  deriving DecidableEq

inductive Strategy
  | single
  | layer
  | tensor
  | pipeline
  | expert
  | auto
  deriving DecidableEq

inductive Offload
  | none
  | cpuLayers (gpuLayers : Nat)
  | cpuExperts (layers : Nat)
  | cpuWeights (gibPerGpu : Float)
  | expertCache (slots pinnedMib : Nat)
  | helperGpu
  | ssdStreaming

def Offload.isNone : Offload → Bool
  | .none => true
  | _     => false

structure DeviceBudget where
  weights    : Nat
  replicated : Nat
  kv         : Nat
  experts    : Nat
  compute    : Nat
  overhead   : Nat
  reserve    : Nat
  deriving DecidableEq

def DeviceBudget.total (budget : DeviceBudget) : Except String Nat :=
  checkedSum u64Max "device budget overflow" 0 [budget.weights, budget.replicated, budget.kv,
    budget.experts, budget.compute, budget.overhead, budget.reserve]

structure Profile where
  id               : String
  «alias»          : String
  model            : String
  runtime          : Runtime
  executable       : String
  build            : String
  gpus             : List String
  strategy         : Strategy
  tensorParallel   : Nat
  pipelineParallel : Nat
  split            : List Float
  context          : Nat
  batch            : Nat
  parallel         : Nat
  cpuThreads       : Nat
  offload          : Offload
  kvCpu            : Bool
  memory           : List DeviceBudget
  hostBytes        : Nat
  nativeArgs       : List String

structure Plan where
  profile          : Profile
  modelIdentity    : String
  executableSha256 : String
  runtimeVersion   : String
  devices          : List Device
  strategy         : Strategy
  args             : List String
  environment      : ExtTreeMap String String
  fingerprint      : String
  reasons          : List String

inductive ModelFormat
  | gguf
  | safeTensors
  | pyTorch
  | onnx
  | mlx
  | tensorRt
  | openVino
  | tensorFlow
  | coreMl
  | unknown
  deriving DecidableEq

structure ModelManifest where
  id         : String
  format     : ModelFormat
  configPath : Option String
  modelPath  : Option String

-- The entries of a model's configuration that parallel placement reads.
structure ModelConfig where
  quantized         : Bool
  numAttentionHeads : Option Nat
  numKeyValueHeads  : Option Nat
  numHiddenLayers   : Option Nat
  numExperts        : Option Nat

-- What a resolution learns from the host: files, processes, the environment and the model store,
-- and how floating-point numbers and quoted strings are printed.
structure Host where
  get            : String → Except String ModelManifest
  config         : ModelManifest → String → Except String ModelConfig
  cpuExpertBytes : ModelManifest → String → Nat → Except String Nat
  envVar         : String → String
  modelIdentity  : ModelManifest → Except String String
  binaryDigest   : String → Except String String
  runtimeVersion : String → Except String String
  help           : String → List String → ExtTreeMap String String → Except String String
  fingerprint    : Plan → Except String String
  printFloat     : Float → String
  printFixed     : Float → String
  printQuoted    : String → String

end Deployments
