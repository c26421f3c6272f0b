import WerkModel.InferenceService.Resources
import WerkModel.Lib.Tokens

-- The ledger of the service agrees with the live reservations, which never share a GPU.
open Std ExtTreeMap Tokens Checks Saturating Deployments

namespace InferenceService.Admission

variable {capacity : Nat} {w w' : World} {plan : Plan} {inventory : Inventory} {lease : Lease}

structure Consistent (capacity : Nat) (w : World) : Prop where
  capacity_eq : w.ledger.hostCapacity = capacity
  ids         : (w.live.map fun lease => lease.reservation.id).Nodup
  entries     : ∀ (id : String) entry, w.ledger.state[id]? = some entry ↔
    ∃ lease ∈ w.live, lease.reservation.id = id ∧ (lease.gpus, lease.hostBytes) = entry
  gpus        : (w.live.bind fun lease => (lease.gpus : Multiset String)).Nodup
  hostBytes   : (w.live.map Lease.hostBytes).sum = w.ledger.state.valueSum Prod.snd
  fits        : w.ledger.state.valueSum Prod.snd ≤ capacity

namespace Consistent

theorem init : Consistent capacity ⟨.new capacity, 0⟩ := by
  refine ⟨rfl, ?_, ?_, ?_, ?_, ?_⟩ <;> simp [Reservations.new, valueSum_empty]

variable (c : Consistent capacity w)
include c

theorem lookup (hl : lease ∈ w.live) :
    w.ledger.state[lease.reservation.id]? = some (lease.gpus, lease.hostBytes) :=
  (c.entries _ _).mpr ⟨lease, hl, rfl, rfl⟩

-- A resolved plan has a budget for each of its devices, so that every one of them is checked.
theorem fresh (hr : Resolvable plan) (ha : w.ledger.Admissible plan inventory) :
    ((plan.devices.map Device.id : List String) : Multiset String).Nodup ∧
    ∀ device ∈ plan.devices, ∀ lease ∈ w.live, device.id ∉ lease.gpus := by
  obtain ⟨host, configuration, inventory', plans, h, hp⟩ := hr
  obtain ⟨admits, _⟩ := resolve_eq_ok h
  constructor
  case left =>
    have hn := admits.gpus
    rw [claimed, List.nodup_flatMap] at hn
    exact Multiset.coe_nodup.mpr (hn.1 plan hp)
  case right =>
    intro device hd lease hl
    have hb := (admits.budgets plan hp).length_eq
    obtain ⟨i, hi, he⟩ := List.getElem_of_mem hd
    have hz : (device, plan.profile.memory[i]) ∈ plan.devices.zip plan.profile.memory := by
      rw [List.mem_iff_getElem]
      exact ⟨i, by simp; omega, by simp [he]⟩
    exact ha.gpus _ hz (lease.gpus, lease.hostBytes) (mem_valueList_iff.mpr ⟨_, c.lookup hl⟩)

theorem acquire (hr : Resolvable plan) (ha : w.ledger.Admissible plan inventory) :
    Consistent capacity {
      ledger := { w.ledger with
        state := w.ledger.state.insert plan.profile.id
          (plan.devices.map Device.id, plan.profile.hostBytes) }
      live   := Lease.ofPlan plan ::ₘ w.live
    } := by
  have hn := getElem?_eq_none ha.id
  have hs := valueSum_insert_of_none (f := Prod.snd)
    (v := (plan.devices.map Device.id, plan.profile.hostBytes)) hn
  have ⟨hd, hf⟩ := c.fresh hr ha
  have hi : ∀ lease ∈ w.live, lease.reservation.id ≠ plan.profile.id := by
    intro lease hl he
    rw [←he, c.lookup hl] at hn
    simp at hn
  constructor
  case capacity_eq => exact c.capacity_eq
  case ids =>
    rw [Multiset.map_cons, Multiset.nodup_cons]
    refine ⟨fun hm => ?_, c.ids⟩
    have ⟨lease, hl, he⟩ := Multiset.mem_map.mp hm
    exact hi lease hl he
  case entries =>
    intro id entry
    simp only [Multiset.mem_cons, exists_eq_or_imp]
    simp only [getElem?_insert, LawfulEqCmp.compare_eq_iff_eq]
    split
    case isTrue he =>
      rw [Option.some.injEq]
      refine ⟨fun h => .inl ⟨he, h⟩, ?_⟩
      rintro (⟨_, h⟩ | ⟨lease, hl, h, _⟩)
      · exact h
      · exact absurd (h.trans he.symm) (hi lease hl)
    case isFalse he =>
      rw [c.entries]
      exact ⟨.inr, fun h => h.resolve_left fun h' => he h'.1⟩
  case gpus =>
    rw [Multiset.cons_bind, Multiset.nodup_add]
    refine ⟨hd, c.gpus, Multiset.disjoint_left.mpr ?_⟩
    intro gpu hg hb
    have ⟨device, hd', he⟩ := List.mem_map.mp hg
    have ⟨lease, hl, hg'⟩ := Multiset.mem_bind.mp hb
    exact hf device hd' lease hl (he ▸ hg')
  case hostBytes =>
    rw [Multiset.map_cons, Multiset.sum_cons, c.hostBytes]
    exact hs.symm
  case fits =>
    have := ha.hostBytes
    rw [c.capacity_eq] at this
    simp only [hs]
    omega

theorem drop (hl : lease ∈ w.live) : Consistent capacity {
      ledger := w.ledger.drop lease.reservation
      live   := w.live.erase lease
    } := by
  have hs := valueSum_erase w.ledger.state lease.reservation.id Prod.snd
  rw [c.lookup hl] at hs
  have he := Multiset.cons_erase hl
  have hi := c.ids
  have hg := c.gpus
  have hh := c.hostBytes
  rw [←he, Multiset.map_cons, Multiset.nodup_cons] at hi
  rw [←he, Multiset.cons_bind, Multiset.nodup_add] at hg
  rw [←he, Multiset.map_cons, Multiset.sum_cons, hs] at hh
  constructor
  case capacity_eq => exact c.capacity_eq
  case ids         => exact hi.2
  case gpus        => exact hg.2.1
  case hostBytes   => exact Nat.add_left_cancel hh
  case fits        => exact Nat.le_trans (hs ▸ Nat.le_add_left ..) c.fits
  case entries     =>
    intro id entry
    simp only [Reservations.state_drop, getElem?_erase, LawfulEqCmp.compare_eq_iff_eq]
    have hm (l : Lease) (h : l ∈ w.live.erase lease) : l.reservation.id ≠ lease.reservation.id :=
      fun h' => hi.1 (Multiset.mem_map.mpr ⟨l, h, h'⟩)
    split
    case isTrue hk =>
      refine ⟨fun h => by simp at h, ?_⟩
      rintro ⟨l, h, h', _⟩
      exact absurd (h'.trans hk.symm) (hm l h)
    case isFalse hk =>
      rw [c.entries]
      constructor
      · rintro ⟨l, h, h'⟩
        refine ⟨l, (Multiset.mem_erase_of_ne ?_).mpr h, h'⟩
        exact fun h => hk (h ▸ h'.1)
      · exact fun ⟨l, h, h'⟩ => ⟨l, Multiset.mem_of_mem_erase h, h'⟩

end Consistent

theorem consistent : (system capacity).Invariant (Consistent capacity) where
  init w h := by
    rw [h]
    exact .init
  step w _ result w' c h := by
    cases h
    case acquire hr ha =>
      cases result
      case error => exact Reservations.acquire_of_error ha ▸ c
      case ok    =>
        have ⟨hs, _, he⟩ := Reservations.acquire_of_ok ha
        exact he ▸ c.acquire hr hs
    case drop hl => exact c.drop hl

-- The code sums the host memory of the ledger without overflow.
theorem reservedHost_eq (hc : capacity ≤ u64Max) (c : Consistent capacity w) :
    w.ledger.reservedHost = .ok (w.live.map Lease.hostBytes).sum :=
  Reservations.reservedHost_eq_ok.mpr ⟨c.hostBytes, c.hostBytes ▸ Nat.le_trans c.fits hc⟩

section Examples

def smallHost : Host where
  get _            := .ok ⟨"model", .gguf, none, none⟩
  config _ _       := .error ""
  cpuExpertBytes   := fun _ _ _ => .ok 0
  envVar _         := ""
  modelIdentity _  := .ok ""
  binaryDigest _   := .ok ""
  runtimeVersion _ := .ok ""
  help _ _ _       := .ok "--device DEVICES, --split-mode MODE, --main-gpu INDEX"
  fingerprint _    := .ok ""
  printFloat _     := ""
  printFixed _     := ""
  printQuoted      := id

def smallGpu (id : String) (index totalBytes : Nat) : Device where
  id            := id
  physicalIndex := index
  vendor        := "nvidia"
  name          := ""
  architecture  := none
  runtime       := "cuda"
  pciBusId      := ""
  totalBytes    := totalBytes
  freeBytes     := some totalBytes
  numaNode      := none
  pcieLink      := none
  visibleIndex  := some index

def smallInventory : Inventory where
  devices            := [smallGpu "GPU-a" 0 200, smallGpu "GPU-b" 1 100]
  hostAvailableBytes := some 1000
  memoryTopology     := some .discrete

def smallBudget : DeviceBudget :=
  ⟨1, 0, 1, 0, 1, 1, 1⟩

def smallProfile (id : String) (gpus : List String) (strategy : Strategy) : Profile where
  id               := id
  «alias»          := "assistant"
  model            := "model"
  runtime          := .llamaCuda
  executable       := "/llama-server"
  build            := "build"
  gpus             := gpus
  strategy         := strategy
  tensorParallel   := 1
  pipelineParallel := 1
  split            := []
  context          := 1
  batch            := 1
  parallel         := 1
  cpuThreads       := 1
  offload          := .none
  kvCpu            := false
  memory           := [smallBudget]
  hostBytes        := 10
  nativeArgs       := []

def smallConfiguration : Configuration :=
  ⟨1, [smallProfile "first" [] .auto, smallProfile "second" ["GPU-a"] .single]⟩

def smallPlans : List Plan :=
  (smallConfiguration.resolve smallHost smallInventory).toOption.getD []

theorem ok_getD {α : Type*} {x : Except String α} {a : α} (h : x.isOk) :
    x = .ok (x.toOption.getD a) := by
  cases x
  case error => simp [Except.isOk, Except.toBool] at h
  case ok    => rfl

theorem smallPlans_resolved :
    smallConfiguration.resolve smallHost smallInventory = .ok smallPlans :=
  ok_getD (by decide +kernel)

theorem smallPlans_devices : smallPlans.map (fun plan => plan.devices.map Device.id) =
    [["GPU-b"], ["GPU-a"]] := by
  decide +kernel

-- The world after the acquisition of a resolved plan.
theorem exists_acquired : ∃ w lease, (system 100).Reachable w ∧ w.live = {lease} ∧
    lease.gpus = ["GPU-b"] := by
  cases hp : smallPlans
  case nil          => simpa [hp] using smallPlans_devices
  case cons plan tl =>
    have hm : Resolvable plan :=
      ⟨_, _, _, _, smallPlans_resolved, hp ▸ List.mem_cons_self⟩
    have hd := smallPlans_devices
    rw [hp, List.map_cons, List.cons.injEq] at hd
    have ha : ((Reservations.new 100).acquire plan smallInventory).1.isOk := by
      have h : smallPlans.all fun plan =>
        ((Reservations.new 100).acquire plan smallInventory).1.isOk := by decide +kernel
      rw [hp, List.all_cons, Bool.and_eq_true] at h
      exact h.1
    have hs : Step ⟨.new 100, 0⟩ (.acquire plan smallInventory) _ _ := .acquire hm rfl
    exact ⟨_, .ofPlan plan, System.Reachable.step (.init rfl) hs, if_pos ha, hd.1⟩

def namedConfiguration : Configuration :=
  ⟨1, [smallProfile "named" ["GPU-a"] .auto]⟩

end Examples

end InferenceService.Admission
