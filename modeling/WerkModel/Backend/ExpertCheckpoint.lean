import WerkModel.Backend.ModelPrefetch
import WerkModel.Lib.Spans

-- The inventory of a checkpoint with packed experts, from its configuration and the headers of its
-- shards.
open Checks
open Backend.ModelPrefetch (fromLeBytes)

namespace Backend.ExpertCheckpoint

abbrev Fallible (α : Type) := Except String α

def some? {α : Type} (error : String) : Option α → Fallible α
  | some a => .ok a
  | none   => .error error

-- The values of JSON texts. Of numbers with a fraction, only whether they are zero matters.
inductive Value
  | none
  | bool (value : Bool)
  | int (value : Int)
  | float (nonzero : Bool)
  | str (text : String)
  | list (values : List Value)
  | dict (entries : List (String × Value))

abbrev Dict := List (String × Value)

def get (dict : Dict) (key : String) : Value :=
  (dict.lookup key).getD .none

namespace Value

def truthy : Value → Bool
  | .none         => false
  | .bool value   => value
  | .int value    => value ≠ 0
  | .float value  => value
  | .str text     => text ≠ ""
  | .list values  => !values.isEmpty
  | .dict entries => !entries.isEmpty

def dict? : Value → Option Dict
  | .dict entries => some entries
  | _             => Option.none

def str? : Value → Option String
  | .str text => some text
  | _         => Option.none

-- Booleans are no integers here.
def natural? : Value → Option Nat
  | .int value => if 0 ≤ value then some value.toNat else Option.none
  | _          => Option.none

def positive? (value : Value) : Option Nat :=
  value.natural?.filter fun n => decide (n ≠ 0)

def naturals? : Value → Option (List Nat)
  | .list values => values.mapM natural?
  | _            => Option.none

def offsets? (value : Value) : Option (Nat × Nat) :=
  match value.naturals? with
  | some [start, stop] => some (start, stop)
  | _                  => Option.none

-- Lists and dictionaries are no keys.
def hashable : Value → Bool
  | .list _ | .dict _ => false
  | _                 => true

end Value

def repeated (seen : List String) : List String → Option String
  | []          => none
  | key :: keys => if key ∈ seen then some key else repeated (key :: seen) keys

mutual

-- A key that some object of a text has twice.
def Value.duplicate : Value → Option String
  | .list values  => duplicateOf values
  | .dict entries => (duplicateIn entries).or <| repeated [] (entries.map Prod.fst)
  | _             => Option.none

def duplicateOf : List Value → Option String
  | []              => none
  | value :: values => value.duplicate.or (duplicateOf values)

def duplicateIn : List (String × Value) → Option String
  | []                  => none
  | (_, value) :: entries => value.duplicate.or (duplicateIn entries)

end

-- The parser of JSON texts keeps the entries of objects in order.
def loadJson (loads : List UInt8 → Fallible Value) (text : List UInt8) : Fallible Value := do
  let value ← loads text
  match value.duplicate with
  | some key => .error <| "duplicate JSON key: " ++ key
  | none     => .ok value

def positiveInt (value : Value) (label : String) : Fallible Nat :=
  some? (label ++ " must be a positive integer") value.positive?

def dtypes : List (String × Nat) :=
  [("U32", 4), ("I32", 4), ("F32", 4), ("F16", 2), ("BF16", 2), ("I64", 8), ("U64", 8), ("I16", 2),
    ("U16", 2), ("I8", 1), ("U8", 1), ("BOOL", 1)]

def workspaceBytes : Nat := 1024 * 1024 * 1024

def maxHeaderBytes : Nat := 64 * 1024 * 1024

def maxConfigBytes : Nat := 4 * 1024 * 1024

structure Config where
  layers       : Nat
  experts      : Nat
  hidden       : Nat
  intermediate : Nat
  topK         : Nat
  quant        : Dict

-- A missing mode is affine.
def affine (quant : Dict) : Bool :=
  match quant.lookup "mode" with
  | none      => true
  | some mode => mode.str? = some "affine"

def defaultLoader : Value → Bool
  | .none         => true
  | .dict entries => !(get entries "quant_method").truthy
  | _             => false

def readConfig (value : Value) : Fallible Config := do
  let c ← some? "expert streaming config.json must contain an object" value.dict?
  ensure ((get c "model_type").str? = some "deepseek_v4" ∧ ¬(get c "model_file").truthy)
    "expert streaming requires a native deepseek_v4 checkpoint"
  let layers ← positiveInt (get c "num_hidden_layers") "num_hidden_layers"
  let experts ← positiveInt (get c "n_routed_experts") "n_routed_experts"
  let hidden ← positiveInt (get c "hidden_size") "hidden_size"
  let intermediate ← positiveInt (get c "moe_intermediate_size") "moe_intermediate_size"
  let topK ← positiveInt (get c "num_experts_per_tok") "num_experts_per_tok"
  ensure (layers ≤ 256 ∧ experts ≤ 4096 ∧ layers * experts ≤ 262144)
    "expert checkpoint geometry exceeds supported limits"
  ensure (topK ≤ experts ∧ ¬(get c "quantize_activations").truthy)
    "unsupported expert routing or activation quantization"
  let quant ← some? "expert streaming currently requires affine MLX quantization"
    ((get c "quantization").dict?.filter affine)
  ensure (defaultLoader (get c "quantization_config"))
    "expert streaming cannot use a custom quantization loader"
  ensure (["dspark_block_size", "n_mtp_layers", "dspark_target_layer_ids"].all
      fun key => !(get c key).truthy)
    "expert streaming does not support embedded speculative drafters"
  return { layers, experts, hidden, intermediate, topK, quant }

-- The identity of a version of a file.
structure Signature where
  dev     : Nat
  ino     : Nat
  size    : Nat
  mtimeNs : Nat
  deriving DecidableEq

structure Shard where
  path      : String
  name      : String
  signature : Signature
  content   : List UInt8

structure Info where
  path   : String
  offset : Nat
  bytes  : Nat
  dtype  : String
  shape  : List Nat
  deriving DecidableEq

def Info.span (info : Info) : Span where
  start  := info.offset
  length := info.bytes

abbrev Inventory := List (String × Info)

def Shard.headerLength (shard : Shard) : Nat :=
  fromLeBytes (shard.content.take 8)

section Headers

variable (loads : List UInt8 → Fallible Value)

def readHeader (shard : Shard) : Fallible Dict := do
  ensure ((shard.content.take 8).length = 8) ("truncated safetensors header: " ++ shard.name)
  ensure (2 ≤ shard.headerLength ∧
      shard.headerLength ≤ min maxHeaderBytes (shard.signature.size - 8))
    ("invalid safetensors header length: " ++ shard.name)
  let header ← loadJson loads ((shard.content.drop 8).take shard.headerLength)
  some? ("invalid safetensors header: " ++ shard.name) header.dict?

def readTensor (shard : Shard) (s : Inventory × List Span) (entry : String × Value) :
    Fallible (Inventory × List Span) :=
  let (name, value) := entry
  if name = "__metadata__" then
    .ok s
  else do
    ensure (s.1.lookup name = none) ("duplicate or invalid tensor: " ++ name)
    let info ← some? ("duplicate or invalid tensor: " ++ name) value.dict?
    ensure (get info "dtype").hashable "unhashable type"
    let dtype ← some? ("unsupported tensor dtype/shape: " ++ name) (get info "dtype").str?
    let width ← some? ("unsupported tensor dtype/shape: " ++ name) (dtypes.lookup dtype)
    let shape ← some? ("unsupported tensor dtype/shape: " ++ name) (get info "shape").naturals?
    let offsets ← some? ("invalid tensor offsets: " ++ name) (get info "data_offsets").offsets?
    let (start, stop) := offsets
    let bytes := shape.prod * width
    ensure (stop = start + bytes ∧ stop + 8 + shard.headerLength ≤ shard.signature.size)
      ("tensor range does not match shape or shard size: " ++ name)
    let info := {
      path := shard.path, offset := start + 8 + shard.headerLength, bytes, dtype, shape
    }
    return (s.1 ++ [(name, info)], s.2 ++ [⟨start, bytes⟩])

def readShard (tensors : Inventory) (shard : Shard) : Fallible Inventory := do
  let header ← readHeader loads shard
  let (tensors, ranges) ← header.foldlM (readTensor shard) (tensors, [])
  ensure (Span.overlaps (Span.sort ranges) = false)
    ("overlapping tensor data in " ++ shard.name)
  return tensors

end Headers

def projectionNames : List String := ["gate_proj", "up_proj", "down_proj"]

def suffixes : List String := ["weight", "scales", "biases"]

def projectionPath (layer : Nat) (projection : String) : String :=
  "model.layers." ++ toString layer ++ ".ffn.switch_mlp." ++ projection

def tensorName (layer : Nat) (projection suffix : String) : String :=
  projectionPath layer projection ++ "." ++ suffix

structure Quantization where
  bits      : Nat
  groupSize : Nat

def quantization (quant : Dict) (path : String) : Fallible Quantization := do
  let q ← match get quant path with
    | .none          => .ok quant
    | .dict override => .ok (override ++ quant)
    | _              => .error <| "invalid per-projection quantization: " ++ path
  let bits ← some? ("unsupported expert quantization: " ++ path) (get q "bits").natural?
  let groupSize ← some? ("unsupported expert quantization: " ++ path) (get q "group_size").natural?
  ensure (bits ∈ [2, 4, 8] ∧ groupSize ∈ [32, 64, 128] ∧ affine q)
    ("unsupported expert quantization: " ++ path)
  return { bits, groupSize }

section Geometry

variable (config : Config) (tensors : Inventory) (layer : Nat)

-- The part of a tensor that belongs to one expert, in bytes.
def expertShare (inputDims outputDims : Nat) (q : Quantization) (name suffix : String) :
    Fallible Nat := do
  let width := if suffix = "weight" then inputDims * q.bits / 32 else inputDims / q.groupSize
  let allowed := if suffix = "weight" then ["U32"] else ["F16", "BF16"]
  let info ← some? ("missing or unsupported packed expert tensor: " ++ name) (tensors.lookup name)
  ensure (info.shape = [config.experts, outputDims, width] ∧ info.dtype ∈ allowed)
    ("missing or unsupported packed expert tensor: " ++ name)
  return info.bytes / config.experts

def readProjection (projection : String) : Fallible (Quantization × List (String × Nat)) := do
  let path := projectionPath layer projection
  let q ← quantization config.quant path
  let inputDims := if projection = "down_proj" then config.intermediate else config.hidden
  let outputDims := if projection = "down_proj" then config.hidden else config.intermediate
  ensure (inputDims % q.groupSize = 0 ∧ inputDims * q.bits % 32 = 0)
    ("invalid expert quantization geometry: " ++ path)
  let shares ← suffixes.mapM fun suffix => do
    let name := tensorName layer projection suffix
    let share ← expertShare config tensors inputDims outputDims q name suffix
    return (name, share)
  return (q, shares)

-- The projections of a layer, with the names of their tensors and what these add to an expert.
def readLayer : Fallible (List (Quantization × List (String × Nat))) :=
  projectionNames.mapM (readProjection config tensors layer)

end Geometry

structure Checkpoint extends Config where
  files                 : List (String × Signature)
  tensors               : Inventory
  projections           : List ((Nat × String) × Quantization)
  expertBytes           : List Nat
  expertNames           : List String
  cacheBytes            : Nat
  baseBytes             : Nat
  totalExpertBytes      : Nat
  residentEstimateBytes : Nat

def checkName (expertNames : List String) (name : String) : Fallible Unit := do
  ensure (¬((".switch_mlp.".toList <:+: name.toList ∨ ".ffn.experts.".toList <:+: name.toList) ∧
      name ∉ expertNames))
    ("unrecognized expert tensor layout: " ++ name)
  ensure (¬"mtp.".toList <+: name.toList ∧
      ("model.".toList <+: name.toList ∨ "lm_head.".toList <+: name.toList))
    ("streaming requires sanitized MLX tensor names: " ++ name)

-- Without a budget, every expert is cached.
def readCacheBytes : Value → Fallible (Option Nat)
  | .int 0 => .ok none
  | value  => some <$> positiveInt value "expert cache bytes"

-- The shards are listed in the order of their paths.
def Checkpoint.new (loads : List UInt8 → Fallible Value) (configData : List UInt8)
    (files : List Shard) (cacheBytes : Value) : Fallible Checkpoint := do
  let budget ← readCacheBytes cacheBytes
  ensure (configData.length ≤ maxConfigBytes) "expert streaming config.json exceeds 4 MiB"
  let config ← readConfig (← loadJson loads configData)
  ensure (files ≠ [] ∧ files.length ≤ 1024)
    "expert streaming requires local model*.safetensors shards"
  let tensors ← files.foldlM (readShard loads) []
  let layers ← (List.range config.layers).mapM (readLayer config tensors)
  let expertNames := layers.flatMap (·.flatMap (·.2.map Prod.fst))
  let expertBytes := layers.map fun projections =>
    (projections.flatMap (·.2.map Prod.snd)).sum
  (tensors.map Prod.fst).forM (checkName expertNames)
  let cacheBytes := budget.getD (expertBytes.sum * config.experts)
  ensure (∀ bytes ∈ expertBytes, bytes ≤ cacheBytes)
    "expert cache must fit at least one complete routed expert"
  let baseBytes :=
    ((tensors.filter fun (name, _) => name ∉ expertNames).map fun (_, info) => info.bytes).sum
  let totalExpertBytes := expertBytes.sum * config.experts
  return {
    config with
    files       := files.map fun shard => (shard.path, shard.signature)
    projections := layers.zipIdx.flatMap fun (projections, layer) =>
      (projectionNames.zip projections).map fun (projection, q, _) => ((layer, projection), q)
    residentEstimateBytes := baseBytes + min cacheBytes totalExpertBytes + workspaceBytes
    tensors, expertBytes, expertNames, cacheBytes, baseBytes, totalExpertBytes
  }

structure Tensor where
  path      : String
  offset    : Nat
  size      : Nat
  shape     : List Nat
  dtype     : String
  signature : Signature
  deriving DecidableEq

def Tensor.span (tensor : Tensor) : Span where
  start  := tensor.offset
  length := tensor.size

def Tensor.rows (tensor : Tensor) (start count : Nat) : Fallible Tensor := do
  ensure (1 ≤ count) "row count must be an integer >= 1"
  ensure (tensor.shape ≠ [] ∧ start + count ≤ tensor.shape.headD 0) "tensor row range out of bounds"
  let stride := tensor.size / tensor.shape.headD 0
  return {
    tensor with
    offset := tensor.offset + start * stride
    size   := count * stride
    shape  := count :: tensor.shape.tail
  }

-- A tensor, or its part for one expert.
def Checkpoint.tensor (checkpoint : Checkpoint) (name : String) (expert : Option Nat) :
    Fallible Tensor := do
  let info ← some? "key error" (checkpoint.tensors.lookup name)
  let signature ← some? "key error" (checkpoint.files.lookup info.path)
  let tensor := { info with size := info.bytes, signature }
  match expert with
  | none        => return tensor
  | some expert => do
    ensure (expert < tensor.shape.headD 0) "expert index out of bounds"
    tensor.rows expert 1

-- The parts of an expert in all tensors of a layer.
def Checkpoint.expert (checkpoint : Checkpoint) (layer expert : Nat) : Fallible (List Tensor) :=
  (projectionNames.flatMap fun projection => suffixes.map (tensorName layer projection)).mapM
    fun name => checkpoint.tensor name (some expert)

end Backend.ExpertCheckpoint
