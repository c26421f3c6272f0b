import WerkModel.Lib.Saturating
import WerkModel.Lib.TreeMap

open Std Saturating

namespace RuntimeControl.Memory

def BASIS_POINTS : Nat := 10000
def MAX_MEMORY_TIERS : Nat := 65
def MAX_MANAGED_ALLOCATIONS : Nat := 65536
def MAX_ACTIVE_RESERVATIONS : Nat := 65536
def MAX_ACTIONS_PER_CYCLE : Nat := 4096
def MAX_ACTION_COOLDOWN_MILLIS : Nat := 24 * 60 * 60 * 1000

inductive MemoryTier
  | host
  | accelerator (index : UInt16)
  deriving DecidableEq

namespace MemoryTier

-- The derived order of the source: the host before every accelerator.
def rank : MemoryTier → Nat
  | host              => 0
  | accelerator index => index.toNat + 1

theorem rank_injective : Function.Injective rank := by
  intro t₁ t₂ h
  cases t₁ <;> cases t₂ <;> simp_all [rank, UInt16.toNat_inj]

instance : Ord MemoryTier := ⟨compareOn rank⟩

instance : TransOrd MemoryTier := inferInstanceAs (TransCmp (compareOn rank))

instance : LawfulEqOrd MemoryTier := LawfulEqCmp.of_injective rank_injective

def display : MemoryTier → String
  | host              => "host"
  | accelerator index => s!"accelerator:{index}"

end MemoryTier

inductive MemoryTopology
  | discrete
  | unified
  deriving DecidableEq

-- Allocation ids are nonzero.
structure AllocationId where
  get     : UInt64
  nonzero : get ≠ 0
  deriving DecidableEq

namespace AllocationId

theorem one_ne_zero : (1 : UInt64) ≠ 0 := by
  decide

theorem two_ne_zero : (2 : UInt64) ≠ 0 := by
  decide

theorem get_injective : Function.Injective get :=
  fun ⟨_, _⟩ ⟨_, _⟩ h => by simp_all

instance : Ord AllocationId := ⟨compareOn get⟩

instance : TransOrd AllocationId := inferInstanceAs (TransCmp (compareOn get))

instance : LawfulEqOrd AllocationId := LawfulEqCmp.of_injective get_injective

end AllocationId

inductive MemoryError
  | invalidConfiguration (message : String)
  | invalidTelemetry (message : String)
  | invalidAllocation (message : String)
  | unknownTier (tier : MemoryTier)
  | unknownAllocation (id : AllocationId)
  | duplicateAllocation (id : AllocationId)
  | allocationLimitReached (limit : Nat)
  | reservationLimitReached (limit : Nat)
  | reservationDenied (tier : MemoryTier) (requestedBytes : Nat) (reason : String)
  | invalidReservation (message : String)
  | actionInFlight (id : AllocationId)
  | staleAction (id : AllocationId)
  | pinnedAllocation (id : AllocationId)
  deriving DecidableEq

def AllocationId.new (value : UInt64) : Except MemoryError AllocationId :=
  if h : value = 0 then
    .error (.invalidAllocation "allocation id must be nonzero")
  else
    .ok ⟨value, h⟩

inductive PressureLevel
  | normal
  | soft
  | hard
  | emergency
  deriving DecidableEq

namespace PressureLevel

def rank : PressureLevel → Nat
  | normal    => 0
  | soft      => 1
  | hard      => 2
  | emergency => 3

theorem rank_injective : Function.Injective rank := by
  intro l₁ l₂ h
  cases l₁ <;> cases l₂ <;> simp_all [rank]

instance : LinearOrder PressureLevel := LinearOrder.lift' rank rank_injective

end PressureLevel

structure PressureThresholds where
  softBasisPoints       : Nat
  hardBasisPoints       : Nat
  emergencyBasisPoints  : Nat
  hysteresisBasisPoints : Nat
  soft_pos              : 0 < softBasisPoints
  soft_lt_hard          : softBasisPoints < hardBasisPoints
  hard_lt_emergency     : hardBasisPoints < emergencyBasisPoints
  emergency_le          : emergencyBasisPoints ≤ BASIS_POINTS
  hysteresis_lt_soft    : hysteresisBasisPoints < softBasisPoints
  hysteresis_lt_gap     : hysteresisBasisPoints < hardBasisPoints - softBasisPoints
  hysteresis_lt_gap'    : hysteresisBasisPoints < emergencyBasisPoints - hardBasisPoints
  deriving DecidableEq

namespace PressureThresholds

def new (soft hard emergency hysteresis : Nat) : Except MemoryError PressureThresholds :=
  if h : soft = 0 ∨ soft ≥ hard ∨ hard ≥ emergency ∨ emergency > BASIS_POINTS then
    .error (.invalidConfiguration
      "pressure thresholds must satisfy 0 < soft < hard < emergency <= 10000")
  else if h' : hysteresis ≥ soft ∨ hysteresis ≥ hard - soft ∨ hysteresis ≥ emergency - hard then
    .error (.invalidConfiguration
      "pressure hysteresis must be smaller than the soft threshold and every threshold gap")
  else
    .ok {
      softBasisPoints       := soft
      hardBasisPoints       := hard
      emergencyBasisPoints  := emergency
      hysteresisBasisPoints := hysteresis
      soft_pos              := by omega
      soft_lt_hard          := by omega
      hard_lt_emergency     := by omega
      emergency_le          := by omega
      hysteresis_lt_soft    := by omega
      hysteresis_lt_gap     := by omega
      hysteresis_lt_gap'    := by omega
    }

def classify (thresholds : PressureThresholds) (utilization : Nat) : PressureLevel :=
  if utilization ≥ thresholds.emergencyBasisPoints then .emergency
  else if utilization ≥ thresholds.hardBasisPoints then .hard
  else if utilization ≥ thresholds.softBasisPoints then .soft
  else .normal

def classifyWithHysteresis
    (thresholds : PressureThresholds) (previous : PressureLevel) (utilization : Nat) :
    PressureLevel :=
  let candidate := thresholds.classify utilization
  if candidate ≥ previous then
    candidate
  else
    let entries : List (PressureLevel × Nat) := [
      (.emergency, thresholds.emergencyBasisPoints),
      (.hard, thresholds.hardBasisPoints),
      (.soft, thresholds.softBasisPoints)]
    let held := entries.find? fun (level, entry) =>
      previous ≥ level ∧ utilization ≥ entry - thresholds.hysteresisBasisPoints
    held.elim candidate Prod.fst

def actionTargetBasisPoints (thresholds : PressureThresholds) : PressureLevel → Option Nat
  | .normal | .soft => none
  | .hard           => some (thresholds.softBasisPoints - thresholds.hysteresisBasisPoints)
  | .emergency      => some (thresholds.hardBasisPoints - thresholds.hysteresisBasisPoints)

def default : PressureThresholds where
  softBasisPoints       := 7500
  hardBasisPoints       := 8500
  emergencyBasisPoints  := 9500
  hysteresisBasisPoints := 500
  soft_pos              := by decide
  soft_lt_hard          := by decide
  hard_lt_emergency     := by decide
  emergency_le          := by decide
  hysteresis_lt_soft    := by decide
  hysteresis_lt_gap     := by decide
  hysteresis_lt_gap'    := by decide

-- The defaults pass the check of `new`.
theorem new_default :
    new default.softBasisPoints default.hardBasisPoints default.emergencyBasisPoints
      default.hysteresisBasisPoints = .ok default := by
  decide

-- Admission tests `classify` against the hard level, which is a test against one threshold.
theorem classify_lt_hard_iff {thresholds : PressureThresholds} {utilization : Nat} :
    thresholds.classify utilization < .hard ↔ utilization < thresholds.hardBasisPoints := by
  have := thresholds.hard_lt_emergency
  simp only [classify]
  split
  case isTrue => exact ⟨fun h => absurd h (by decide), fun _ => by omega⟩
  case isFalse =>
    split
    case isTrue => exact ⟨fun h => absurd h (by decide), fun _ => by omega⟩
    case isFalse =>
      refine ⟨fun _ => by omega, fun _ => ?_⟩
      split <;> decide

theorem hard_lt_basisPoints (thresholds : PressureThresholds) :
    thresholds.hardBasisPoints < BASIS_POINTS :=
  Nat.lt_of_lt_of_le thresholds.hard_lt_emergency thresholds.emergency_le

end PressureThresholds

structure TierBudget where
  tier     : MemoryTier
  bytes    : Nat
  bytes_le : bytes ≤ u64Max
  deriving DecidableEq

-- The check every budget passes before a manager is configured with it.
def TierBudget.new (tier : MemoryTier) (bytes : Nat) (h : bytes ≤ u64Max) :
    Except MemoryError TierBudget :=
  if bytes = 0 then
    .error (.invalidConfiguration
      s!"memory budget for {tier.display} must be greater than zero")
  else
    .ok ⟨tier, bytes, h⟩

def validateLimit (label : String) (value maximum : Nat) : Except MemoryError Unit :=
  if value = 0 ∨ value > maximum then
    .error (.invalidConfiguration s!"{label} limit must be between 1 and {maximum}")
  else
    .ok ()

theorem validateLimit_ok_iff {label value maximum} :
    validateLimit label value maximum = .ok () ↔ 0 < value ∧ value ≤ maximum := by
  simp only [validateLimit]
  split <;> simp only [reduceCtorEq, false_iff, true_iff] <;> omega

structure MemoryManagerConfig where
  budgets              : List TierBudget
  topology             : MemoryTopology
  thresholds           : PressureThresholds
  actionCooldownMillis : Nat
  maxAllocations       : Nat
  maxReservations      : Nat
  maxActionsPerCycle   : Nat
  budgets_pos          : ∀ budget ∈ budgets, 0 < budget.bytes
  budgets_nodup        : (budgets.map TierBudget.tier).Nodup
  host_mem             : .host ∈ budgets.map TierBudget.tier
  budgets_length       : budgets.length ≤ MAX_MEMORY_TIERS
  cooldown_le          : actionCooldownMillis ≤ MAX_ACTION_COOLDOWN_MILLIS
  allocations_limit    : 0 < maxAllocations ∧ maxAllocations ≤ MAX_MANAGED_ALLOCATIONS
  reservations_limit   : 0 < maxReservations ∧ maxReservations ≤ MAX_ACTIVE_RESERVATIONS
  actions_limit        : 0 < maxActionsPerCycle ∧ maxActionsPerCycle ≤ MAX_ACTIONS_PER_CYCLE

namespace MemoryManagerConfig

-- The loop over the budgets; `tiers` are the tiers seen so far.
def collectTiers : List TierBudget → Finset MemoryTier → Except MemoryError (Finset MemoryTier)
  | [], tiers => .ok tiers
  | budget :: budgets, tiers =>
    if budget.bytes = 0 then
      .error (.invalidConfiguration
        s!"memory budget for {budget.tier.display} must be greater than zero")
    else if budget.tier ∈ tiers then
      .error (.invalidConfiguration s!"memory budget for {budget.tier.display} is duplicated")
    else
      collectTiers budgets (insert budget.tier tiers)

theorem collectTiers_ok {budgets tiers tiers'} (h : collectTiers budgets tiers = .ok tiers') :
    (∀ budget ∈ budgets, 0 < budget.bytes) ∧ (budgets.map TierBudget.tier).Nodup ∧
    (∀ tier ∈ budgets.map TierBudget.tier, tier ∉ tiers) ∧
    tiers' = tiers ∪ (budgets.map TierBudget.tier).toFinset := by
  induction budgets generalizing tiers
  case nil => simp_all [collectTiers]
  case cons hd tl hi =>
    simp only [collectTiers] at h
    split at h
    case isTrue => cases h
    case isFalse hb =>
      split at h
      case isTrue => cases h
      case isFalse ht =>
        have ⟨h₁, h₂, h₃, h₄⟩ := hi h
        refine ⟨?pos, ?nodup, ?disjoint, ?eq⟩
        case pos =>
          intro budget hm
          cases hm
          case head    => omega
          case tail hm => exact h₁ _ hm
        case nodup =>
          rw [List.map_cons, List.nodup_cons]
          exact ⟨fun hm => h₃ _ hm (Finset.mem_insert_self ..), h₂⟩
        case disjoint =>
          intro tier hm
          cases hm
          case head    => exact ht
          case tail hm => exact fun hm' => h₃ _ hm (Finset.mem_insert_of_mem hm')
        case eq =>
          rw [h₄, List.map_cons, List.toFinset_cons, Finset.insert_union, Finset.union_insert]

def new (budgets : List TierBudget) (topology : MemoryTopology) (thresholds : PressureThresholds)
    (actionCooldownMillis maxAllocations maxReservations maxActionsPerCycle : Nat) :
    Except MemoryError MemoryManagerConfig :=
  if hl : budgets = [] ∨ budgets.length > MAX_MEMORY_TIERS then
    .error (.invalidConfiguration
      s!"memory manager requires between 1 and {MAX_MEMORY_TIERS} tier budgets")
  else match ht : collectTiers budgets ∅ with
  | .error error => .error error
  | .ok tiers =>
    if hh : .host ∉ tiers then
      .error (.invalidConfiguration "memory manager requires a host tier budget")
    else if hc : actionCooldownMillis > MAX_ACTION_COOLDOWN_MILLIS then
      .error (.invalidConfiguration
        s!"action cooldown must not exceed {MAX_ACTION_COOLDOWN_MILLIS} milliseconds")
    else match ha : validateLimit "managed allocation" maxAllocations MAX_MANAGED_ALLOCATIONS with
    | .error error => .error error
    | .ok () =>
      match hr : validateLimit "active reservation" maxReservations MAX_ACTIVE_RESERVATIONS with
      | .error error => .error error
      | .ok () =>
        match hp : validateLimit "pressure action" maxActionsPerCycle MAX_ACTIONS_PER_CYCLE with
        | .error error => .error error
        | .ok () => .ok {
            budgets              := budgets
            topology             := topology
            thresholds           := thresholds
            actionCooldownMillis := actionCooldownMillis
            maxAllocations       := maxAllocations
            maxReservations      := maxReservations
            maxActionsPerCycle   := maxActionsPerCycle
            budgets_pos          := (collectTiers_ok ht).1
            budgets_nodup        := (collectTiers_ok ht).2.1
            host_mem             := by simpa [(collectTiers_ok ht).2.2.2] using hh
            budgets_length       := by omega
            cooldown_le          := by omega
            allocations_limit    := validateLimit_ok_iff.mp ha
            reservations_limit   := validateLimit_ok_iff.mp hr
            actions_limit        := validateLimit_ok_iff.mp hp
          }

end MemoryManagerConfig
end RuntimeControl.Memory
