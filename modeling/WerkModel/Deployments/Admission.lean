import WerkModel.Deployments.Configuration

-- What an accepted configuration guarantees of its plans.
open Std Checks Saturating InferenceService

namespace Deployments

def claimed (plans : List Plan) : List String :=
  plans.flatMap fun plan => plan.devices.map Device.id

-- A smallest device that fits a budget among the visible devices that are not claimed.
structure SmallestUnclaimed (inventory : Inventory) (claimed : List String)
    (budget : DeviceBudget) (device : Device) : Prop where
  visible   : device ∈ inventory.visible
  unclaimed : device.id ∉ claimed
  fits      : Profile.Fits device budget
  least     : ∀ other ∈ inventory.visible, other.id ∉ claimed → Profile.Fits other budget →
    device.totalBytes ≤ other.totalBytes

-- The plan gets a single device that an automatic placement may choose.
def PlacedAutomatically (inventory : Inventory) (claimed : List String) (plan : Plan) : Prop :=
  ∃ budget device, plan.profile.memory = [budget] ∧ plan.devices = [device] ∧
    SmallestUnclaimed inventory claimed budget device

structure Admits (inventory : Inventory) (profiles : List Profile) (plans : List Plan) :
    Prop where
  profiles_eq : plans.map Plan.profile = profiles
  ids         : (profiles.map Profile.id).Nodup
  devices     : ∀ plan ∈ plans, ∀ device ∈ plan.devices, device ∈ inventory.devices
  budgets     : ∀ plan ∈ plans, List.Forall₂ Profile.Fits plan.devices plan.profile.memory
  gpus        : (claimed plans).Nodup
  «aliases»   : ∀ p ∈ profiles, ∀ q ∈ profiles, p.«alias» = q.«alias» → p.model = q.model
  auto        : ∀ i plan, plans[i]? = some plan → plan.profile.strategy = .auto →
    plan.profile.gpus = [] → PlacedAutomatically inventory (claimed (plans.take i)) plan

-- The state of a resolution after some of the profiles.
structure Progress (inventory : Inventory) (passed : List Profile) (r : Resolution) : Prop where
  admits    : Admits inventory passed r.plans
  ids       : r.ids = (passed.map Profile.id).toFinset
  used      : r.used = (claimed r.plans).toFinset
  «aliases» : ∀ p ∈ passed, r.aliases[p.«alias»]? = some p.model
  hostBytes : r.hostBytes = (passed.map Profile.hostBytes).sum
  positive  : ∀ p ∈ passed, 0 < p.hostBytes

section Lemmas

variable {host : Host} {inventory : Inventory} {profile : Profile} {profiles passed : List Profile}
variable {plan : Plan} {plans : List Plan} {configuration : Configuration} {r r' : Resolution}

theorem claimed_append : claimed (plans ++ [plan]) = claimed plans ++ plan.devices.map Device.id := by
  simp [claimed]

theorem Profile.Resolved.selected (h : profile.Resolved inventory plan) :
    Profile.Selected inventory plan.devices :=
  Profile.place_eq_ok h.placed

theorem Profile.Resolved.auto {used : List String}
    (h : profile.Resolved (hide used.toFinset inventory) plan) (hs : profile.strategy = .auto)
    (hg : profile.gpus = []) : PlacedAutomatically inventory used plan := by
  have ⟨budget, device, hm, hd, hf⟩ := Profile.place_auto h.placed hs hg
  have ⟨hv, hu⟩ := mem_visible_hide.mp hf.visible
  refine ⟨budget, device, h.profile_eq ▸ hm, hd, hv, by simpa using hu, hf.fits, ?_⟩
  intro other ho hc hfo
  exact hf.least other (mem_visible_hide.mpr ⟨ho, by simpa using hc⟩) hfo

namespace Progress

theorem empty : Progress inventory [] .empty := by
  refine ⟨⟨?_, ?_, ?_, ?_, ?_, ?_, ?_⟩, ?_, ?_, ?_, ?_, ?_⟩ <;> simp [Resolution.empty, claimed]

variable (p : Progress inventory passed r) (e : r.Extended inventory profile r' plan)
include p e

theorem extend_ids : ((passed ++ [profile]).map Profile.id).Nodup := by
  have hi := e.id
  rw [p.ids, List.mem_toFinset] at hi
  rw [List.map_append, List.nodup_append]
  refine ⟨p.admits.ids, by simp, ?_⟩
  intro i hm j hj he
  rw [List.map_singleton, List.mem_singleton] at hj
  exact hi (hj ▸ he ▸ hm)

theorem extend_gpus : (claimed (r.plans ++ [plan])).Nodup := by
  rw [claimed_append, List.nodup_append]
  refine ⟨p.admits.gpus, e.resolved.selected.nodup, ?_⟩
  intro i hi j hj he
  have ⟨device, hd, hi'⟩ := List.mem_map.mp hj
  have hu := e.unclaimed device hd
  rw [p.used, List.mem_toFinset, hi', ←he] at hu
  exact hu hi

theorem model_of_alias {q : Profile} (hq : q ∈ passed) (ha : q.«alias» = profile.«alias») :
    q.model = profile.model :=
  e.alias q.model (ha ▸ p.aliases q hq)

theorem extend_aliases : ∀ q ∈ passed ++ [profile], ∀ q' ∈ passed ++ [profile],
    q.«alias» = q'.«alias» → q.model = q'.model := by
  intro q hq q' hq' ha
  rw [List.mem_append, List.mem_singleton] at hq hq'
  cases hq <;> cases hq'
  case inl.inl hq hq' => exact p.admits.aliases q hq q' hq' ha
  case inl.inr hq hq' => exact hq' ▸ model_of_alias p e hq (hq' ▸ ha)
  case inr.inl hq hq' => exact hq ▸ (model_of_alias p e hq' (hq ▸ ha.symm)).symm
  case inr.inr hq hq' => rw [hq, hq']

theorem extend_auto : ∀ i plan', (r.plans ++ [plan])[i]? = some plan' →
    plan'.profile.strategy = .auto → plan'.profile.gpus = [] →
    PlacedAutomatically inventory (claimed ((r.plans ++ [plan]).take i)) plan' := by
  intro i plan' hi hs hg
  rcases Nat.lt_trichotomy i r.plans.length with hl | hl | hl
  · rw [List.getElem?_append_left hl] at hi
    rw [List.take_append_of_le_length hl.le]
    exact p.admits.auto i plan' hi hs hg
  · rw [hl, List.getElem?_concat_length, Option.some.injEq] at hi
    rw [←hi, e.resolved.profile_eq] at hs hg
    rw [hl, List.take_left', ←hi]
    exact Profile.Resolved.auto (p.used ▸ e.resolved) hs hg
    rfl
  · rw [List.getElem?_eq_none (by simpa using hl)] at hi
    simp at hi

theorem extend_admits : Admits inventory (passed ++ [profile]) (r.plans ++ [plan]) where
  profiles_eq := by rw [List.map_append, p.admits.profiles_eq, List.map_singleton, e.resolved.profile_eq]
  ids         := extend_ids p e
  gpus        := extend_gpus p e
  «aliases»   := extend_aliases p e
  auto        := extend_auto p e
  devices     := by
    simp only [List.mem_append, List.mem_singleton]
    rintro plan' (hp | hp) device hd
    · exact p.admits.devices plan' hp device hd
    · have hv := e.resolved.selected.visible device (hp ▸ hd)
      exact (Inventory.mem_visible.mp (mem_visible_hide.mp hv).1).1
  budgets     := by
    simp only [List.mem_append, List.mem_singleton]
    rintro plan' (hp | hp)
    · exact p.admits.budgets plan' hp
    · rw [hp, e.resolved.profile_eq]
      exact e.resolved.budgets

theorem extend : Progress inventory (passed ++ [profile]) r' := by
  rw [e.eq]
  refine ⟨extend_admits p e, ?_, ?_, ?_, ?_, ?_⟩
  · simp [p.ids]
  · simp [p.used, claimed_append, List.toFinset_append]
  · intro q hq
    rw [List.mem_append, List.mem_singleton] at hq
    rw [ExtTreeMap.getElem?_insert]
    cases hq
    case inr hq => simp [hq]
    case inl hq =>
      split
      case isTrue ha =>
        rw [model_of_alias p e hq (LawfulEqCmp.eq_of_compare ha).symm]
      case isFalse => exact p.aliases q hq
  · simp [p.hostBytes]
  · simp only [List.mem_append, List.mem_singleton]
    rintro q (hq | hq)
    · exact p.positive q hq
    · exact hq ▸ e.resolved.hostBytes

end Progress

theorem resolve_eq_ok (h : configuration.resolve host inventory = .ok plans) :
    Admits inventory configuration.profiles plans ∧
    ∃ available, inventory.hostAvailableBytes = some available ∧
      (configuration.profiles.map Profile.hostBytes).sum ≤ available := by
  rw [Configuration.resolve, ensure_bind_eq_ok, ensure_bind_eq_ok, bind_eq_ok] at h
  have ⟨_, hl, r, hr, h⟩ := h
  rw [bind_eq_ok] at h
  have ⟨_, hc, h⟩ := h
  cases h
  have p : Progress inventory configuration.profiles r := by
    refine foldlM_invariant hr .empty ?_
    intro passed profile s s' hp hs
    have ⟨_, e⟩ := resolveProfile_eq_ok hs
    exact hp.extend e
  refine ⟨p.admits, p.hostBytes ▸ checkHost_eq_ok hc ?_⟩
  have ⟨profile, rest, he⟩ := List.exists_cons_of_ne_nil hl.1
  have := p.positive profile (he ▸ List.mem_cons_self)
  rw [p.hostBytes, he, List.map_cons, List.sum_cons]
  omega

end Lemmas
end Deployments
