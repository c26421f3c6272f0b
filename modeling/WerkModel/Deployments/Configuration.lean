import WerkModel.Deployments.Arguments
import WerkModel.Lib.TreeMap

-- The plans of a configuration, whose profiles are resolved one after another against the devices
-- that are left over.
open Std Checks Saturating InferenceService

namespace Deployments

section Validate

variable (host : Host) (profile : Profile) (manifest : ModelManifest)

def validateDeploymentOffload : Except String Unit :=
  match profile.offload with
  | .cpuExperts layers =>
    match manifest.modelPath with
    | none      => .error "CPU expert placement requires a GGUF model path"
    | some path => do
      let totalBytes ← host.cpuExpertBytes manifest path layers
      ensure (0 < totalBytes) "requested CPU expert placement matches no expert tensors"
      ensure (totalBytes ≤ profile.hostBytes)
        "CPU expert weights alone exceed declared host RAM budget"
  | _ => .ok ()

-- Workers of vLLM do not place experts on the host.
def validateOffload : Except String Unit :=
  if profile.runtime = .vllmCuda then .ok () else validateDeploymentOffload host profile manifest

def required (entry : Option Nat) (error : String) : Except String Nat :=
  match entry with
  | none       => .error error
  | some value => .ok value

def validateParallelConfig (config : ModelConfig) : Except String Unit := do
  ensure (¬config.quantized) <|
    "quantized vLLM TP/PP/EP combinations need a model/build-specific validation and are not " ++
    "enabled in managed profiles yet"
  let heads ← required config.numAttentionHeads "num_attention_heads is required for TP planning"
  let tp := profile.tensorParallel
  ensure (0 < tp ∧ 0 < heads ∧ heads % tp = 0)
    "attention heads must divide evenly across TP ranks"
  ensure (∀ kv ∈ config.numKeyValueHeads, 0 < kv ∧ if tp ≤ kv then kv % tp = 0 else tp % kv = 0)
    "KV heads cannot be partitioned or replicated over this TP group"
  if 1 < profile.pipelineParallel then
    let layers ← required config.numHiddenLayers "num_hidden_layers is required for PP planning"
    ensure (profile.pipelineParallel ≤ layers) "PP exceeds model layer count"
  if profile.strategy = .expert then
    let experts ← required config.numExperts "EP requires a model with routed expert metadata"
    ensure (0 < experts ∧ experts % tp = 0) "experts must divide evenly across EP ranks"

def validateModelParallel : Except String Unit :=
  if profile.runtime ≠ .vllmCuda ∨ profile.tensorParallel = 1 ∧ profile.pipelineParallel = 1 then
    .ok ()
  else
    match manifest.configPath with
    | none      => .error "vLLM parallel placement requires local model config metadata"
    | some path => do validateParallelConfig profile (← host.config manifest path)

end Validate

structure Configuration where
  version  : Nat
  profiles : List Profile

structure Resolution where
  ids       : Finset String
  used      : Finset String
  aliases   : ExtTreeMap String String
  plans     : List Plan
  hostBytes : Nat

def Resolution.empty : Resolution where
  ids       := ∅
  used      := ∅
  aliases   := ∅
  plans     := []
  hostBytes := 0

-- Devices that are claimed by earlier profiles become invisible.
def hide (used : Finset String) (inventory : Inventory) : Inventory :=
  { inventory with
    devices := inventory.devices.map fun device =>
      if device.id ∈ used then { device with visibleIndex := none } else device }

def claimDevice (used : Finset String) (device : Device) : Except String (Finset String) := do
  ensure (device.id ∉ used) <|
    "GPU " ++ device.id ++ " overlaps independent profiles; sharing is unsupported"
  return insert device.id used

def resolveProfile (host : Host) (inventory : Inventory) (r : Resolution) (profile : Profile) :
    Except String Resolution := do
  ensure (profile.id ∉ r.ids) <| "duplicate deployment ID " ++ profile.id
  let manifest ← host.get profile.model
  validateOffload host profile manifest
  validateModelParallel host profile manifest
  ensure (∀ model ∈ r.aliases[profile.«alias»]?, model = profile.model)
    "replicas sharing an alias must use the same model"
  let plan ← profile.resolve host manifest (hide r.used inventory)
  let used ← plan.devices.foldlM claimDevice r.used
  let hostBytes ← checkedAdd u64Max "host budget overflow" r.hostBytes profile.hostBytes
  return {
    ids       := insert profile.id r.ids
    used
    aliases   := r.aliases.insert profile.«alias» profile.model
    plans     := r.plans ++ [plan]
    hostBytes
  }

def checkHost (inventory : Inventory) (hostBytes : Nat) : Except String Unit := do
  if 0 < hostBytes then
    let available ← required inventory.hostAvailableBytes "host RAM availability is unknown"
    ensure (hostBytes ≤ available) "combined host budgets exceed available RAM"

def Configuration.resolve (host : Host) (configuration : Configuration) (inventory : Inventory) :
    Except String (List Plan) := do
  ensure (configuration.version = 1) "unsupported deployment configuration version"
  ensure (configuration.profiles ≠ [] ∧ configuration.profiles.length ≤ 64)
    "deployment configuration must contain 1..64 profiles"
  let r ← configuration.profiles.foldlM (resolveProfile host inventory) .empty
  checkHost inventory r.hostBytes
  return r.plans

section Lemmas

variable {host : Host} {inventory : Inventory} {profile : Profile} {plan : Plan}
variable {configuration : Configuration} {used : Finset String} {device : Device}
variable {r r' : Resolution}

theorem mem_visible_hide :
    device ∈ (hide used inventory).visible ↔ device ∈ inventory.visible ∧ device.id ∉ used := by
  simp only [Inventory.mem_visible, hide, List.mem_map]
  constructor
  case mp =>
    intro ⟨⟨d, hd, he⟩, hv⟩
    split at he
    case isTrue =>
      rw [←he] at hv
      simp at hv
    case isFalse hu =>
      rw [he] at hd hu
      exact ⟨⟨hd, hv⟩, hu⟩
  case mpr =>
    intro ⟨⟨hd, hv⟩, hu⟩
    exact ⟨⟨device, hd, if_neg hu⟩, hv⟩

theorem claimDevices_eq_ok {devices : List Device} {used' : Finset String}
    (h : devices.foldlM claimDevice used = .ok used') :
    used' = used ∪ (devices.map Device.id).toFinset ∧ (devices.map Device.id).Nodup ∧
      ∀ device ∈ devices, device.id ∉ used := by
  induction devices generalizing used
  case nil =>
    cases h
    simp
  case cons d devices hi =>
    rw [List.foldlM_cons, bind_eq_ok] at h
    have ⟨_, hc, h⟩ := h
    rw [claimDevice, ensure_bind_eq_ok] at hc
    have ⟨hu, hc⟩ := hc
    cases hc
    have ⟨he, hn, hd⟩ := hi h
    refine ⟨by simp [he, Finset.insert_union], ?_, ?_⟩
    · rw [List.map_cons, List.nodup_cons]
      refine ⟨fun hm => ?_, hn⟩
      have ⟨d', hd', hi'⟩ := List.mem_map.mp hm
      exact hd d' hd' (hi' ▸ Finset.mem_insert_self ..)
    · rw [List.forall_mem_cons]
      exact ⟨hu, fun d' hd' hu' => hd d' hd' (Finset.mem_insert_of_mem hu')⟩

-- What the resolution of one more profile establishes.
structure Resolution.Extended (inventory : Inventory) (r : Resolution) (profile : Profile)
    (r' : Resolution) (plan : Plan) : Prop where
  id        : profile.id ∉ r.ids
  «alias»   : ∀ model ∈ r.aliases[profile.«alias»]?, model = profile.model
  resolved  : profile.Resolved (hide r.used inventory) plan
  unclaimed : ∀ device ∈ plan.devices, device.id ∉ r.used
  hostBytes : r.hostBytes + profile.hostBytes ≤ u64Max
  eq        : r' = {
    ids       := insert profile.id r.ids
    used      := r.used ∪ (plan.devices.map Device.id).toFinset
    aliases   := r.aliases.insert profile.«alias» profile.model
    plans     := r.plans ++ [plan]
    hostBytes := r.hostBytes + profile.hostBytes
  }

theorem resolveProfile_eq_ok (h : resolveProfile host inventory r profile = .ok r') :
    ∃ plan, r.Extended inventory profile r' plan := by
  rw [resolveProfile, ensure_bind_eq_ok, bind_eq_ok] at h
  have ⟨hi, _, _, h⟩ := h
  rw [bind_eq_ok] at h
  have ⟨_, _, h⟩ := h
  rw [bind_eq_ok] at h
  have ⟨_, _, h⟩ := h
  rw [ensure_bind_eq_ok] at h
  have ⟨ha, h⟩ := h
  simp only [bind_eq_ok] at h
  have ⟨plan, hr, _, hc, _, hb, h⟩ := h
  cases h
  have ⟨hu, _, hd⟩ := claimDevices_eq_ok hc
  have ⟨hs, hl⟩ := checkedAdd_eq_ok.mp hb
  exact ⟨plan, hi, ha, Profile.resolve_eq_ok hr, hd, hl, by rw [hu, hs]⟩

theorem required_eq_ok {entry : Option Nat} {error : String} {value : Nat} :
    required entry error = .ok value ↔ entry = some value := by
  cases entry
  case none   => simp [required]
  case some _ => simp [required]

theorem checkHost_eq_ok {hostBytes : Nat} (h : checkHost inventory hostBytes = .ok ⟨⟩)
    (hp : 0 < hostBytes) :
    ∃ available, inventory.hostAvailableBytes = some available ∧ hostBytes ≤ available := by
  simp only [checkHost, hp, if_true, bind_eq_ok, ensure_eq_ok] at h
  have ⟨available, ha, hl⟩ := h
  exact ⟨available, required_eq_ok.mp ha, hl⟩

end Lemmas
end Deployments
