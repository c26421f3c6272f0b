import WerkModel.Lib.Json

-- What the metadata of an installed model says about its quantization.
namespace ModelStore

inductive QuantizationFormat
  | nvfp4
  | mxfp4
  | mixed
  | other
deriving DecidableEq

inductive ActivationScheme
  | nvfp4
  | weightOnly
  | other
  | unknown
  | mixed
deriving DecidableEq

inductive QuantizationEvidence
  | configuration
  | tensorMetadata
  | filename
deriving DecidableEq

structure QuantizationGroup where
  name             : String
  format           : QuantizationFormat
  algorithm        : Option String
  activationScheme : ActivationScheme
  groupSize        : Option Nat
  scaleDtype       : Option String
deriving DecidableEq

structure QuantizationProfile where
  format           : QuantizationFormat
  method           : Option String
  algorithm        : Option String
  activationScheme : ActivationScheme
  groupSize        : Option Nat
  mixedPrecision   : Bool
  perLayer         : Bool
  evidence         : QuantizationEvidence
  groups           : List QuantizationGroup
  nonempty         : groups ≠ []

namespace QuantizationProfile

def hasNvfp4 (profile : QuantizationProfile) : Bool :=
  profile.format = .nvfp4 ∨ profile.groups.any (·.format = .nvfp4)

def isAuthoritative (profile : QuantizationProfile) : Bool :=
  profile.evidence ≠ .filename

end QuantizationProfile

section Parsing

def asciiUpper (text : String) : List Char :=
  text.toList.map Char.toUpper

def asciiLower (text : String) : List Char :=
  text.toList.map Char.toLower

def string (value : Json) (key : String) : Option String :=
  (value.get key).bind Json.asString

def unsigned (value : Json) (key : String) : Option Nat :=
  (value.get key).bind Json.asUnsigned

def algorithm (value : Json) : Option String :=
  string value "quant_algo"

def algoFormat (algo : Option String) : QuantizationFormat :=
  let name := asciiUpper (algo.getD "")
  if name = "NVFP4".toList ∨ name = "W4A16_NVFP4".toList ∨ name = "W4A8_NVFP4_FP8".toList then
    .nvfp4
  else if name = "MXFP4".toList ∨ name = "W4A16_MXFP4".toList then .mxfp4
  else if name = "MIXED_PRECISION".toList then .mixed
  else .other

def algoActivation (algo : Option String) : ActivationScheme :=
  let name := asciiUpper (algo.getD "")
  if name = "NVFP4".toList then .nvfp4
  else if name = "W4A16_NVFP4".toList ∨ name = "W4A16_MXFP4".toList then .weightOnly
  else if name = "MIXED_PRECISION".toList then .mixed
  else if name = [] then .unknown
  else .other

def trimTorch : List Char → List Char
  | 't' :: 'o' :: 'r' :: 'c' :: 'h' :: '.' :: rest => trimTorch rest
  | text                                           => text

-- The format that a label stands for, and its group size.
def labelled (format : Option String) : Option (QuantizationFormat × Nat) :=
  let name := asciiLower (format.getD "")
  if name = "nvfp4-pack-quantized".toList then some (.nvfp4, 16)
  else if name = "mxfp4-pack-quantized".toList then some (.mxfp4, 32)
  else none

def tensorFormat (value : Json) (format : Option String) : QuantizationFormat :=
  let kind  := string value "type"
  let bits  := unsigned value "num_bits"
  let group := unsigned value "group_size"
  match labelled format with
  | some (format, expectedGroup) =>
    if kind.any (· ≠ "float") ∨ bits.any (· ≠ 4) ∨ group.any (· ≠ expectedGroup) then .other
    else format
  | none =>
    let scale := trimTorch ((string value "scale_dtype").getD "").toList
    if kind ≠ some "float" ∨ bits ≠ some 4 then .other
    else if group = some 16 ∧ (scale = "float8_e4m3fn".toList ∨ scale = "float8_e4m3".toList) then
      .nvfp4
    else if group = some 32 ∧ (scale = "uint8".toList ∨ scale = "float8_e8m0fnu".toList) then
      .mxfp4
    else .other

def quantizedLayers (value : Json) : Option (List (String × Json)) :=
  (value.get "quantized_layers").bind Json.asObject

def configGroups (value : Json) : Option (List (String × Json)) :=
  (value.get "config_groups").bind Json.asObject

def layerGroup (value : Json) (name : String) (layer : Json) : QuantizationGroup where
  name             := name
  format           := algoFormat (algorithm layer)
  activationScheme := algoActivation (algorithm layer)
  algorithm        := algorithm layer
  groupSize        := (unsigned layer "group_size").or (unsigned value "group_size")
  scaleDtype       := none

-- The label of a group, which goes before the one of the whole configuration.
def groupLabel (value group : Json) : Option String :=
  ((group.get "format").or (value.get "format")).bind Json.asString

def groupActivation (group : Json) : ActivationScheme :=
  match group.get "input_activations" with
  | none            => .weightOnly
  | some .null      => .weightOnly
  | some activation => if tensorFormat activation none = .nvfp4 then .nvfp4 else .other

def configGroup (value : Json) (name : String) (group : Json) : QuantizationGroup :=
  let weights := group.index "weights"
  {
    name
    format           := tensorFormat weights (groupLabel value group)
    algorithm        := groupLabel value group
    activationScheme := groupActivation group
    groupSize        := unsigned weights "group_size"
    scaleDtype       := string weights "scale_dtype"
  }

def defaultGroup (value : Json) : QuantizationGroup where
  name             := "default"
  format           := algoFormat (algorithm value)
  activationScheme := algoActivation (algorithm value)
  algorithm        := algorithm value
  groupSize        := unsigned value "group_size"
  scaleDtype       := none

-- The groups of the layers go before those of the configuration.
def listedGroups (value : Json) : List QuantizationGroup :=
  match quantizedLayers value with
  | some layers => layers.map fun layer => layerGroup value layer.1 layer.2
  | none        => ((configGroups value).getD []).map fun group => configGroup value group.1 group.2

def parsedGroups (value : Json) : List QuantizationGroup :=
  if listedGroups value = [] then [defaultGroup value] else listedGroups value

theorem parsedGroups_ne_nil (value : Json) : parsedGroups value ≠ [] := by
  rw [parsedGroups]
  split
  case isTrue    => exact List.cons_ne_nil _ _
  case isFalse h => exact h

def aggregate (method algorithm : Option String) (groups : List QuantizationGroup)
    (nonempty : groups ≠ []) (explicitMixed perLayer : Bool) : QuantizationProfile :=
  let first          := groups.head nonempty
  let sameFormat     := groups.all (·.format = first.format)
  let sameActivation := groups.all (·.activationScheme = first.activationScheme)
  let sameGroup      := groups.all (·.groupSize = first.groupSize)
  let mixedPrecision := explicitMixed || !sameFormat || !sameActivation || !sameGroup
  {
    format           := if mixedPrecision then .mixed else first.format
    method
    algorithm
    activationScheme := if sameActivation then first.activationScheme else .mixed
    groupSize        := if sameGroup then first.groupSize else none
    mixedPrecision
    perLayer
    evidence         := .configuration
    groups
    nonempty
  }

def quantMethod (value : Json) : Option String :=
  ((string value "quant_method").or (string value "quantization_method")).map fun method =>
    String.ofList (asciiLower method)

def parseConfig (value : Json) : Option QuantizationProfile :=
  if quantMethod value = none ∧ algorithm value = none ∧ quantizedLayers value = none ∧
      configGroups value = none then
    none
  else
    some (aggregate (quantMethod value) (algorithm value) (parsedGroups value)
      (parsedGroups_ne_nil value) (algoFormat (algorithm value) = .mixed)
      (quantizedLayers value).isSome)

end Parsing

section Merging

namespace QuantizationProfile

variable (first next : QuantizationProfile)

-- Older configurations only identify the exporter.
def exporterOnly : Prop :=
  first.format = .other ∧ first.algorithm = none ∧ first.groups.length = 1

def compatible : Prop :=
  first.format = next.format ∧ first.activationScheme = next.activationScheme ∧
  (first.groupSize = next.groupSize ∨ first.groupSize = none ∨ next.groupSize = none)

instance : Decidable first.exporterOnly :=
  inferInstanceAs (Decidable (_ ∧ _ ∧ _))

instance : Decidable (first.compatible next) :=
  inferInstanceAs (Decidable (_ ∧ _ ∧ (_ ∨ _ ∨ _)))

-- What the other one of two compatible profiles adds.
def filled : QuantizationProfile :=
  { first with
    groupSize := first.groupSize.or next.groupSize
    method    := first.method.or next.method
  }

end QuantizationProfile

def merge (first next : QuantizationProfile) : QuantizationProfile :=
  if first.exporterOnly then { next with method := next.method.or first.method }
  else if next.exporterOnly then first
  else if first.compatible next then
    if next.groups.length > first.groups.length then next.filled first else first.filled next
  else
    aggregate (first.method.or next.method) (some "MIXED_PRECISION") (first.groups ++ next.groups)
      (List.append_ne_nil_of_left_ne_nil first.nonempty _) true (first.perLayer || next.perLayer)

-- The last part of a path, if it names a file.
def fileName (path : String) : Option (List Char) :=
  match (path.toList.splitOn '/').reverse.dropWhile fun part => part = [] ∨ part = ['.'] with
  | []             => none
  | ['.', '.'] :: _ => none
  | name :: _      => some name

def filenameGroup (path : String) : Option (Option QuantizationGroup) := do
  let name ← fileName path
  let name := name.map Char.toLower
  let group (format : QuantizationFormat) : QuantizationGroup := {
    name             := path
    format
    algorithm        := none
    activationScheme := .unknown
    groupSize        := none
    scaleDtype       := none
  }
  return if "nvfp4".toList <:+: name then some (group .nvfp4)
    else if "mxfp4".toList <:+: name then some (group .mxfp4)
    else none

def filenameProfile (paths : List String) : Option QuantizationProfile := do
  let groups ← paths.mapM filenameGroup
  if h : groups.reduceOption = [] then none
  else return { aggregate none none groups.reduceOption h false false with evidence := .filename }

def configContent (config : Option Json) : Option Json :=
  config.bind (·.get "quantization_config")

def textContent (config : Option Json) : Option Json :=
  config.bind fun config => (config.get "text_config").bind (·.get "quantization_config")

def sidecarContent (sidecar : Option Json) : Option Json :=
  sidecar.map fun sidecar => (sidecar.get "quantization").getD sidecar

def producer (sidecar : Json) : Option String :=
  ((sidecar.get "producer").bind (string · "name")).map fun name => String.ofList (asciiLower name)

def sidecarProfile (sidecar : Option Json) : Option QuantizationProfile := do
  let profile ← (sidecarContent sidecar).bind parseConfig
  return { profile with method := profile.method.or (sidecar.bind producer) }

def inferProfile (config sidecar : Option Json) (paths : List String) :
    Option QuantizationProfile :=
  let profiles := ([configContent config, textContent config].reduceOption.filterMap parseConfig) ++
    (sidecarProfile sidecar).toList
  match profiles with
  | []            => filenameProfile paths
  | first :: rest => some (rest.foldl merge first)

end Merging

end ModelStore
