import WerkModel.RuntimeControl.Memory.Manager

open Std Saturating

namespace RuntimeControl.Memory

structure PressureActionPlan where
  tier                    : MemoryTier
  pressure                : PressureLevel
  actions                 : List PressureAction
  plannedReliefBytes      : Nat
  unresolvedPressureBytes : Nat
  deferredByCooldown      : Bool
  deriving DecidableEq

def emptyActionPlan (tier : MemoryTier) (pressure : PressureLevel) (deferredByCooldown : Bool) :
    PressureActionPlan where
  tier                    := tier
  pressure                := pressure
  actions                 := []
  plannedReliefBytes      := 0
  unresolvedPressureBytes := 0
  deferredByCooldown      := deferredByCooldown

-- The local variables of the planning loops.
structure Planning where
  actions         : List PressureAction
  plannedIds      : Finset AllocationId
  plannedIncoming : ExtTreeMap MemoryTier Nat
  relieved        : Nat

namespace Planning

def empty : Planning where
  actions         := []
  plannedIds      := ∅
  plannedIncoming := ∅
  relieved        := 0

-- The condition both loops end at.
def Done (config : MemoryManagerConfig) (requiredRelief : Nat) (planning : Planning) : Prop :=
  planning.relieved ≥ requiredRelief ∨ planning.actions.length ≥ config.maxActionsPerCycle

instance {config requiredRelief planning} : Decidable (Done config requiredRelief planning) :=
  inferInstanceAs (Decidable (_ ∨ _))

def push (planning : Planning) (allocation : ManagedAllocation) (action : PressureAction) :
    Planning :=
  { planning with
    actions    := planning.actions ++ [action]
    plannedIds := insert allocation.id planning.plannedIds
    relieved   := add u64Max planning.relieved allocation.bytes }

end Planning

-- The first loop, over the candidates that have a demotion target.
def planDemotions (config : MemoryManagerConfig) (state : ManagerState) (tier : MemoryTier)
    (requiredRelief : Nat) : List ManagedAllocation → Planning → Planning
  | [], planning => planning
  | allocation :: allocations, planning =>
    match allocation.demotionTarget with
    | none        => planDemotions config state tier requiredRelief allocations planning
    | some target =>
      if planning.Done config requiredRelief then
        planning
      else
        let alreadyPlanned := planning.plannedIncoming.getD target 0
        if canAcceptBytes state target allocation.bytes alreadyPlanned config.topology
            config.thresholds then
          let incoming := add u64Max alreadyPlanned allocation.bytes
          let planned  := { planning with
            plannedIncoming := planning.plannedIncoming.insert target incoming }
          planDemotions config state tier requiredRelief allocations <|
            planned.push allocation (.demote allocation.id tier target allocation.bytes)
        else
          planDemotions config state tier requiredRelief allocations planning

-- The second loop, over the candidates that are not demoted.
def planEvictions (config : MemoryManagerConfig) (requiredRelief : Nat) :
    List ManagedAllocation → Planning → Planning
  | [], planning => planning
  | allocation :: allocations, planning =>
    if planning.Done config requiredRelief then
      planning
    else if allocation.id ∈ planning.plannedIds then
      planEvictions config requiredRelief allocations planning
    else
      planEvictions config requiredRelief allocations <|
        planning.push allocation (.evict allocation.id allocation.tier allocation.bytes)

-- Least recently used first, and by id among those.
def leastRecentlyUsed (a₁ a₂ : ManagedAllocation) : Bool :=
  a₁.lastUsedMillis < a₂.lastUsedMillis ∨
  (a₁.lastUsedMillis = a₂.lastUsedMillis ∧ a₁.id.get ≤ a₂.id.get)

def planCandidates (config : MemoryManagerConfig) (state : ManagerState) (tier : MemoryTier)
    (eligible : Option (Finset AllocationId)) : List ManagedAllocation :=
  let candidates := state.allocations.valueList.filter fun allocation =>
    (config.topology = .unified ∨ allocation.tier = tier) ∧
    ¬allocation.pinned ∧
    (∀ ids ∈ eligible, allocation.id ∈ ids) ∧
    allocation.id ∉ state.pendingPromotions ∧
    allocation.id ∉ state.pendingActions
  candidates.mergeSort leastRecentlyUsed

-- Pressure below the hard level asks for relief only where a reservation needs it. The target of
-- such a plan is one basis point below the level that rejects the reservation.
def targetBasisPoints (thresholds : PressureThresholds) (pressure : PressureLevel)
    (requestedBytes : Nat) : Option Nat :=
  match thresholds.actionTargetBasisPoints pressure, requestedBytes with
  | some target, _ => some target
  | none, 0        => none
  | none, _        => some (thresholds.hardBasisPoints - 1)

def targetBytes (effectiveBudget targetBasisPoints : Nat) : Nat :=
  min (effectiveBudget * targetBasisPoints / BASIS_POINTS) u64Max

def requiredRelief (config : MemoryManagerConfig) (state : ManagerState) (tier : MemoryTier)
    (requestedBytes targetBasisPoints : Nat) : Nat :=
  let (effectiveBudget, effectiveUsed) := effectiveAccounting state tier config.topology
  add u64Max effectiveUsed requestedBytes - targetBytes effectiveBudget targetBasisPoints

def lastAction (config : MemoryManagerConfig) (state : ManagerState) (account : TierAccount) :
    Option Nat :=
  match config.topology with
  | .discrete => account.lastActionMillis
  | .unified  => (state.tiers.valueList.filterMap TierAccount.lastActionMillis).max?

-- The plan over the refreshed accounts.
def planRelief (config : MemoryManagerConfig) (tier : MemoryTier) (requestedBytes : Nat)
    (eligible : Option (Finset AllocationId)) (now : Nat) (state : ManagerState) :
    Except MemoryError PressureActionPlan :=
  match state.tiers[tier]? with
  | none         => .error (.unknownTier tier)
  | some account =>
    match targetBasisPoints config.thresholds account.pressure requestedBytes with
    | none        => .ok (emptyActionPlan tier account.pressure false)
    | some target =>
      let required := requiredRelief config state tier requestedBytes target
      if required = 0 then
        .ok (emptyActionPlan tier account.pressure false)
      else if ∃ last ∈ lastAction config state account,
          now - last < config.actionCooldownMillis then
        .ok { emptyActionPlan tier account.pressure true with unresolvedPressureBytes := required }
      else
        let candidates := planCandidates config state tier eligible
        let demotions := match config.topology with
          | .discrete => planDemotions config state tier required candidates .empty
          | .unified  => .empty
        let planning := planEvictions config required candidates demotions
        .ok {
          tier                    := tier
          pressure                := account.pressure
          actions                 := planning.actions
          plannedReliefBytes      := planning.relieved
          unresolvedPressureBytes := required - planning.relieved
          deferredByCooldown      := false
        }

def planPressureActionsFor (config : MemoryManagerConfig) (telemetry : Telemetry)
    (tier : MemoryTier) (requestedBytes : Nat) (eligible : Option (Finset AllocationId))
    (now : Nat) (state : ManagerState) : Except MemoryError PressureActionPlan × ManagerState :=
  withRefreshed config telemetry state fun state =>
    (planRelief config tier requestedBytes eligible now state, state)

-- `plan_pressure_actions` and `plan_pressure_actions_among`, which differ in `eligible`.
def planPressureActions (config : MemoryManagerConfig) (telemetry : Telemetry)
    (tier : MemoryTier) (eligible : Option (Finset AllocationId)) (now : Nat) :
    ManagerState → Except MemoryError PressureActionPlan × ManagerState :=
  planPressureActionsFor config telemetry tier 0 eligible now

-- `plan_for_reservation` and `plan_for_reservation_among`.
def planForReservation (config : MemoryManagerConfig) (telemetry : Telemetry)
    (tier : MemoryTier) (requestedBytes : Nat) (eligible : Option (Finset AllocationId))
    (now : Nat) (state : ManagerState) : Except MemoryError PressureActionPlan × ManagerState :=
  if requestedBytes = 0 then
    (.error (.invalidReservation "reservation size must be greater than zero"), state)
  else
    planPressureActionsFor config telemetry tier requestedBytes eligible now state

end RuntimeControl.Memory
