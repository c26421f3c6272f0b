import WerkModel.Deployments.Profile
import WerkModel.RuntimeControl.Experts.Config

-- The checks of a profile that its plan has to pass, and the choice of its devices.
open Std Checks Saturating InferenceService
open RuntimeControl.Experts (isWhitespace)

namespace Deployments
namespace Profile

variable (host : Host) (profile : Profile)

def validateNativeArgs (runtime : Runtime) (args : List String) : Except String Unit :=
  let allowed :=
    match runtime with
    | .vllmCuda => ["--enforce-eager", "--disable-log-requests"]
    | _         => ["--no-warmup", "--jinja", "--log-disable"]
  args.forM fun arg =>
    ensure (arg ∈ allowed) <|
      "native option " ++ host.printQuoted arg ++ " is not permitted in a managed deployment; " ++
      "process/device/memory options must be structured"

def validate (manifest : ModelManifest) (inventory : Inventory) : Except String Unit := do
  ensure (profile.id.toList.all fun c => c.isAlphanum || c = '-' || c = '_' || c = '.')
    "deployment IDs require ASCII letters, digits, dot, dash or underscore"
  ensure (inventory.memoryTopology ≠ some .unified) <|
    "unified-memory deployment admission is not implemented; use the existing platform backend " ++
    "path to avoid double-counting RAM and GPU memory"
  ensure (0 < profile.id.utf8ByteSize ∧ profile.id.utf8ByteSize ≤ 128 ∧
    0 < profile.«alias».utf8ByteSize ∧ profile.«alias».utf8ByteSize ≤ 128)
    "deployment IDs and aliases must be 1..128 bytes"
  ensure (['/'] <+: profile.executable.toList ∧ ¬profile.build.toList.all isWhitespace)
    "profile needs an absolute executable and explicit build identity"
  ensure (0 < profile.context ∧ 0 < profile.batch ∧ 0 < profile.parallel ∧
    profile.parallel ≤ u32Max ∧ 0 < profile.cpuThreads ∧ profile.cpuThreads ≤ u32Max)
    "context, batch, parallel and CPU threads must be positive and in range"
  ensure (profile.context * profile.parallel ≤ usizeMax) "context capacity overflow"
  ensure (0 < profile.hostBytes) "profile must budget host RAM, runtime and transfer buffers"
  ensure (manifest.format = if profile.runtime = .vllmCuda then .safeTensors else .gguf)
    "profile runtime is incompatible with model format"
  ["WERK_LLAMA_ARGS", "WERK_VLLM_ARGS"].forM fun name =>
    ensure ((host.envVar name).toList.all isWhitespace) <|
      name ++ " conflicts with managed deployments; move permitted options into native_args"
  validateNativeArgs host profile.runtime profile.nativeArgs

section Place

def smallestFit (inventory : Inventory) (needed : Nat) : Option Device :=
  (inventory.visible.filter fun device => device.freeBytes.any fun free => needed ≤ free).argmin
    fun device => toLex (device.totalBytes, device.id)

def placeAuto (inventory : Inventory) : Except String (List Device) :=
  match profile.memory with
  | [budget] => do
    let needed ← budget.total
    match smallestFit inventory needed with
    | some device => .ok [device]
    | none        =>
      .error "no single visible GPU fits the declared auto budget; configure an explicit group"
  | _ => .error "auto requires one explicit per-GPU budget"

def placeExplicit (inventory : Inventory) : List String → List String → Except String (List Device)
  | _, []          => .ok []
  | seen, id :: ids => do
    ensure (id ∉ seen) "duplicate GPU in profile"
    match inventory.devices.find? fun device => device.id = id && device.visibleIndex.isSome with
    | some device => return device :: (← placeExplicit inventory (id :: seen) ids)
    | none        =>
      .error <| "GPU " ++ id ++ " is unknown or outside inherited visibility; " ++
        "full UUIDs are required"

def place (inventory : Inventory) : Except String (List Device) :=
  if profile.strategy = .auto ∧ profile.gpus = [] then
    profile.placeAuto inventory
  else if profile.gpus = [] then
    .error "explicit placement requires GPU UUIDs"
  else
    placeExplicit inventory [] profile.gpus

end Place

def checkBudget (device : Device) (budget : DeviceBudget) : Except String Unit := do
  ensure (device.runtime = "cuda") "selected runtime requires proven CUDA devices"
  ensure (0 < budget.reserve ∧ 0 < budget.overhead ∧ 0 < budget.compute)
    "each device needs compute, overhead and reserve budgets"
  let total ← budget.total
  match device.freeBytes with
  | none      => .error "GPU free memory is unknown"
  | some free =>
    ensure (total ≤ free) <| "GPU " ++ device.id ++ " cannot fit its declared budget"

def checkBudgets (devices : List Device) : Except String Unit := do
  ensure (devices.length = profile.memory.length)
    "memory must contain one budget per selected GPU, in the same order"
  (devices.zip profile.memory).forM fun (device, budget) => checkBudget device budget

def chooseStrategy (devices : List Device) : Except String Strategy :=
  match profile.strategy with
  | .auto => do
    ensure (devices.length = 1) <|
      "auto does not invent a multi-GPU strategy; select layer, tensor, pipeline or expert " ++
      "explicitly"
    return .single
  | .single => do
    ensure (devices.length = 1) "single uses exactly one GPU"
    return .single
  | strategy => .ok strategy

section Lemmas

variable {host profile} {manifest : ModelManifest} {inventory : Inventory} {device : Device}
variable {devices : List Device} {budget : DeviceBudget}

theorem hostBytes_pos (h : profile.validate host manifest inventory = .ok ⟨⟩) :
    0 < profile.hostBytes := by
  simp only [validate, ensure_bind_eq_ok] at h
  exact h.2.2.2.2.2.2.1

-- A device has room for a budget.
def Fits (device : Device) (budget : DeviceBudget) : Prop :=
  ∃ total free, budget.total = .ok total ∧ free ∈ device.freeBytes ∧ total ≤ free

structure SmallestFit (inventory : Inventory) (budget : DeviceBudget) (device : Device) :
    Prop where
  visible : device ∈ inventory.visible
  fits    : Fits device budget
  least   : ∀ other ∈ inventory.visible, Fits other budget → device.totalBytes ≤ other.totalBytes

structure Selected (inventory : Inventory) (devices : List Device) : Prop where
  visible : ∀ device ∈ devices, device ∈ inventory.visible
  nodup   : (devices.map Device.id).Nodup

theorem smallestFit_spec {needed : Nat} (hn : budget.total = .ok needed)
    (h : smallestFit inventory needed = some device) : SmallestFit inventory budget device := by
  have hf device : Fits device budget ↔ device.freeBytes.any fun free => needed ≤ free := by
    simp [Fits, hn, Option.any_eq_true]
  have ⟨hv, hd⟩ := List.mem_filter.mp (List.argmin_mem h)
  refine ⟨hv, (hf device).mpr hd, ?_⟩
  intro other ho hfo
  have hl := List.le_of_mem_argmin (List.mem_filter.mpr ⟨ho, (hf other).mp hfo⟩) h
  exact Prod.Lex.monotone_fst _ _ hl

theorem placeAuto_eq_ok (h : profile.placeAuto inventory = .ok devices) :
    ∃ budget device, profile.memory = [budget] ∧ devices = [device] ∧
      SmallestFit inventory budget device := by
  rw [placeAuto] at h
  split at h
  case h_2 => simp at h
  case h_1 budget hm =>
    rw [bind_eq_ok] at h
    have ⟨needed, hn, h⟩ := h
    split at h
    case h_2 => simp at h
    case h_1 device hd =>
      cases h
      exact ⟨budget, device, hm, rfl, smallestFit_spec hn hd⟩

theorem placeExplicit_eq_ok {ids seen : List String}
    (h : placeExplicit inventory seen ids = .ok devices) :
    devices.map Device.id = ids ∧ ids.Nodup ∧ (∀ id ∈ ids, id ∉ seen) ∧
      ∀ device ∈ devices, device ∈ inventory.visible := by
  induction ids generalizing seen devices
  case nil =>
    cases h
    simp
  case cons id ids hi =>
    rw [placeExplicit, ensure_bind_eq_ok] at h
    have ⟨hs, h⟩ := h
    split at h
    case h_2 => simp at h
    case h_1 device hf =>
      rw [bind_eq_ok] at h
      have ⟨rest, hr, h⟩ := h
      cases h
      have ⟨hm, hn, hd, hv⟩ := hi hr
      have hp := List.find?_some hf
      simp only [Bool.and_eq_true, decide_eq_true_eq] at hp
      have hv' := Inventory.mem_visible.mpr ⟨List.mem_of_find?_eq_some hf, hp.2⟩
      refine ⟨by simp [hm, hp.1], ?_, ?_, by simpa using ⟨hv', hv⟩⟩
      · exact List.nodup_cons.mpr ⟨fun hi => hd id hi List.mem_cons_self, hn⟩
      · intro id' hi'
        cases hi'
        case head    => exact hs
        case tail ht => exact fun hs' => hd id' ht (List.mem_cons_of_mem _ hs')

theorem place_eq_ok (h : profile.place inventory = .ok devices) : Selected inventory devices := by
  rw [place] at h
  split at h
  case isTrue =>
    have ⟨_, device, _, hd, hs⟩ := placeAuto_eq_ok h
    constructor <;> simp [hd, hs.visible]
  case isFalse =>
    split at h
    case isTrue  => simp at h
    case isFalse =>
      have ⟨hm, hn, _, hv⟩ := placeExplicit_eq_ok h
      exact ⟨hv, hm ▸ hn⟩

theorem place_auto (h : profile.place inventory = .ok devices) (ha : profile.strategy = .auto)
    (hg : profile.gpus = []) : ∃ budget device, profile.memory = [budget] ∧ devices = [device] ∧
      SmallestFit inventory budget device := by
  rw [place, if_pos ⟨ha, hg⟩] at h
  exact placeAuto_eq_ok h

theorem checkBudget_eq_ok (h : checkBudget device budget = .ok ⟨⟩) : Fits device budget := by
  rw [checkBudget, ensure_bind_eq_ok, ensure_bind_eq_ok, bind_eq_ok] at h
  have ⟨_, _, total, ht, h⟩ := h
  split at h
  case h_1 => simp at h
  case h_2 free hf => exact ⟨total, free, ht, hf, ensure_eq_ok.mp h⟩

-- Every device is paired with the budget at its position.
theorem checkBudgets_eq_ok (h : profile.checkBudgets devices = .ok ⟨⟩) :
    List.Forall₂ Fits devices profile.memory := by
  rw [checkBudgets, ensure_bind_eq_ok, forM_eq_ok] at h
  rw [List.forall₂_iff_zip]
  exact ⟨h.1, fun hz => checkBudget_eq_ok (h.2 _ hz)⟩

end Lemmas

end Profile
end Deployments
