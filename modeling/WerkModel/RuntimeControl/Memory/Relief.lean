import WerkModel.RuntimeControl.Memory.Headroom

-- How much relief a plan asks for, and how that compares with what an admission needs.
open Std ExtTreeMap Saturating

namespace RuntimeControl.Memory

open ManagerState

section Outcomes

variable {config : MemoryManagerConfig} {s s' : ManagerState} {tier : MemoryTier} {bytes now : Nat}
variable {eligible : Option (Finset AllocationId)} {account : TierAccount}
variable {plan : PressureActionPlan} {telemetry : Telemetry}

-- The loops of a plan, one after the other.
def planning (config : MemoryManagerConfig) (s : ManagerState) (tier : MemoryTier) (required : Nat)
    (eligible : Option (Finset AllocationId)) : Planning :=
  let candidates := planCandidates config s tier eligible
  planEvictions config required candidates <| match config.topology with
    | .discrete => planDemotions config s tier required candidates .empty
    | .unified  => .empty

-- The plan that needs relief and is not deferred.
def drawnPlan (config : MemoryManagerConfig) (s : ManagerState) (tier : MemoryTier)
    (pressure : PressureLevel) (required : Nat) (eligible : Option (Finset AllocationId)) :
    PressureActionPlan :=
  let planning := planning config s tier required eligible
  {
    tier                    := tier
    pressure                := pressure
    actions                 := planning.actions
    plannedReliefBytes      := planning.relieved
    unresolvedPressureBytes := required - planning.relieved
    deferredByCooldown      := false
  }

-- What a plan for an account can be.
inductive Outcome (config : MemoryManagerConfig) (s : ManagerState) (tier : MemoryTier) (bytes : Nat)
    (eligible : Option (Finset AllocationId)) (account : TierAccount) : PressureActionPlan → Prop
  | relaxed :
    targetBasisPoints config.thresholds account.pressure bytes = none →
    Outcome config s tier bytes eligible account (emptyActionPlan tier account.pressure false)
  | met {target} :
    targetBasisPoints config.thresholds account.pressure bytes = some target →
    requiredRelief config s tier bytes target = 0 →
    Outcome config s tier bytes eligible account (emptyActionPlan tier account.pressure false)
  | deferred {target} :
    targetBasisPoints config.thresholds account.pressure bytes = some target →
    requiredRelief config s tier bytes target ≠ 0 →
    Outcome config s tier bytes eligible account
      { emptyActionPlan tier account.pressure true with
        unresolvedPressureBytes := requiredRelief config s tier bytes target }
  | drawn {target} :
    targetBasisPoints config.thresholds account.pressure bytes = some target →
    requiredRelief config s tier bytes target ≠ 0 →
    Outcome config s tier bytes eligible account
      (drawnPlan config s tier account.pressure (requiredRelief config s tier bytes target) eligible)

theorem planRelief_outcome (ha : s.tiers[tier]? = some account)
    (h : planRelief config tier bytes eligible now s = .ok plan) :
    Outcome config s tier bytes eligible account plan := by
  rw [planRelief, ha] at h
  simp only at h
  split at h
  case h_1 ht =>
    cases h
    exact .relaxed ht
  case h_2 ht =>
    split_ifs at h with hr hd
    case pos =>
      cases h
      exact .met ht hr
    case pos =>
      cases h
      exact .deferred ht hr
    case neg =>
      cases h
      exact .drawn ht hr

theorem planForReservation_eq_ok (ha : s.tiers[tier]? = some account)
    (h : planForReservation config telemetry tier bytes eligible now s' = (.ok plan, s)) :
    bytes ≠ 0 ∧ s = s'.refreshed config telemetry ∧
      Outcome config s tier bytes eligible account plan := by
  rw [planForReservation] at h
  split at h
  case isTrue => cases h
  case isFalse hb =>
    rw [planPressureActionsFor, withRefreshed] at h
    split at h
    case h_1 => cases h
    case h_2 observations ho =>
      have hs := congrArg Prod.snd h
      simp only at hs
      rw [hs] at h
      exact ⟨hb, by rw [ManagerState.refreshed, ho]; exact hs.symm,
        planRelief_outcome ha (congrArg Prod.fst h)⟩

theorem planForReservation_state (hb : bytes ≠ 0) :
    (planForReservation config telemetry tier bytes eligible now s').2 =
      s'.refreshed config telemetry := by
  rw [planForReservation, if_neg hb, planPressureActionsFor, withRefreshed, ManagerState.refreshed]
  cases sampleTelemetry s' telemetry <;> rfl

-- A plan asks for nothing exactly where nothing is required.
theorem Outcome.eq_empty_iff {target} (h : Outcome config s tier bytes eligible account plan)
    (ht : targetBasisPoints config.thresholds account.pressure bytes = some target) :
    plan = emptyActionPlan tier account.pressure false ↔
      requiredRelief config s tier bytes target = 0 := by
  cases h
  case relaxed hn => cases ht.symm.trans hn
  case met target' ht' hr =>
    cases ht.symm.trans ht'
    exact iff_of_true rfl hr
  case deferred target' ht' hr =>
    cases ht.symm.trans ht'
    refine iff_of_false (fun h => ?_) hr
    cases congrArg PressureActionPlan.deferredByCooldown h
  case drawn target' ht' hr =>
    cases ht.symm.trans ht'
    refine iff_of_false (fun h => ?_) hr
    have hp : (planning config s tier (requiredRelief config s tier bytes target)
        eligible).relieved = 0 := congrArg PressureActionPlan.plannedReliefBytes h
    have hu : requiredRelief config s tier bytes target - (planning config s tier
        (requiredRelief config s tier bytes target) eligible).relieved = 0 :=
      congrArg PressureActionPlan.unresolvedPressureBytes h
    omega

end Outcomes

section Agreement

variable {config : MemoryManagerConfig} {s s' : ManagerState} {tier : MemoryTier} {bytes now : Nat}
variable {eligible : Option (Finset AllocationId)} {account : TierAccount} {telemetry : Telemetry}
variable {plan : PressureActionPlan}

-- The tests of `reserve_locked` against hard pressure.
def PassesPressure (config : MemoryManagerConfig) (s : ManagerState) (tier : MemoryTier)
    (account : TierAccount) (bytes : Nat) : Prop :=
  underHardPressure config.thresholds account bytes ∧
  (config.topology = .unified →
    let (sharedBudget, sharedUsed) := effectiveAccounting s tier .unified
    config.thresholds.classify
      (utilizationBasisPoints (add u64Max sharedUsed bytes) sharedBudget) < .hard)

-- The budget and the projected use that both sides compare.
def reliefBudget (config : MemoryManagerConfig) (s : ManagerState) (tier : MemoryTier) : Nat :=
  (effectiveAccounting s tier config.topology).1

def reliefUse (config : MemoryManagerConfig) (s : ManagerState) (tier : MemoryTier) (bytes : Nat) :
    Nat :=
  add u64Max (effectiveAccounting s tier config.topology).2 bytes

-- The projected use is in the last basis point below the hard threshold.
def InLastBasisPoint (config : MemoryManagerConfig) (s : ManagerState) (tier : MemoryTier)
    (bytes : Nat) : Prop :=
  reliefBudget config s tier * (config.thresholds.hardBasisPoints - 1) <
    reliefUse config s tier bytes * BASIS_POINTS ∧
  reliefUse config s tier bytes * BASIS_POINTS <
    reliefBudget config s tier * config.thresholds.hardBasisPoints

theorem reliefBudget_bounds (hs : s.Refreshed) (ha : s.tiers[tier]? = some account) :
    0 < reliefBudget config s tier ∧ reliefBudget config s tier ≤ u64Max := by
  have hr := hs tier account ha
  rw [reliefBudget]
  cases config.topology
  case discrete =>
    rw [effectiveAccounting, ha]
    exact ⟨hr.effectiveBudget_pos, hr.effectiveBudget_le⟩
  case unified =>
    rw [effectiveAccounting_unified]
    exact ⟨hs.pooledBudget_pos ha, (pooledBudget_le ha).trans hr.effectiveBudget_le⟩

theorem passesPressure_iff (hs : s.Refreshed) (ha : s.tiers[tier]? = some account) :
    PassesPressure config s tier account bytes ↔ reliefUse config s tier bytes * BASIS_POINTS <
      reliefBudget config s tier * config.thresholds.hardBasisPoints := by
  have hr := hs tier account ha
  have ⟨hb, _⟩ : 0 < reliefBudget config s tier ∧ _ := reliefBudget_bounds hs ha
  rw [PassesPressure, Nat.mul_comm (reliefBudget config s tier), ←utilization_lt_iff hb]
  cases htop : config.topology
  case discrete =>
    simp only [reduceCtorEq, false_implies, and_true, underHardPressure, decide_eq_true_eq,
      PressureThresholds.classify_lt_hard_iff]
    rw [reliefUse, reliefBudget, htop, effectiveAccounting, ha]
  case unified =>
    simp only [forall_true_left, PressureThresholds.classify_lt_hard_iff]
    rw [reliefUse, reliefBudget, htop]
    refine and_iff_right_of_imp fun hp => hr.underHardPressure_iff.mpr ?_
    rw [effectiveAccounting_unified, add_pooledUse, utilization_saturated_lt_iff
      (hs.pooledBudget_pos ha) ((pooledBudget_le ha).trans hr.effectiveBudget_le)] at hp
    calc
      _ ≤ s.pooledUse bytes * BASIS_POINTS := Nat.mul_le_mul_right _ (projectedUse_le_pooledUse ha)
      _ < config.thresholds.hardBasisPoints * s.pooledBudget := hp
      _ ≤ _ := Nat.mul_le_mul_left _ (pooledBudget_le ha)

-- The target in bytes does not saturate.
theorem requiredRelief_eq {target} (hs : s.Refreshed) (ha : s.tiers[tier]? = some account)
    (ht : target ≤ BASIS_POINTS) : requiredRelief config s tier bytes target =
      reliefUse config s tier bytes - reliefBudget config s tier * target / BASIS_POINTS := by
  have ⟨_, hb⟩ : _ ∧ reliefBudget config s tier ≤ u64Max := reliefBudget_bounds hs ha
  have hd : reliefBudget config s tier * target / BASIS_POINTS ≤ u64Max :=
    calc
      _ ≤ reliefBudget config s tier * BASIS_POINTS / BASIS_POINTS :=
        Nat.div_le_div_right (Nat.mul_le_mul_left _ ht)
      _ = reliefBudget config s tier := Nat.mul_div_cancel _ (by decide)
      _ ≤ u64Max := hb
  have he : requiredRelief config s tier bytes target = reliefUse config s tier bytes -
    targetBytes (reliefBudget config s tier) target := rfl
  rw [he, targetBytes, Nat.min_eq_left hd]

theorem targetBasisPoints_calm {pressure : PressureLevel} (hp : pressure < .hard) (hb : bytes ≠ 0) :
    targetBasisPoints config.thresholds pressure bytes =
      some (config.thresholds.hardBasisPoints - 1) := by
  have hn : config.thresholds.actionTargetBasisPoints pressure = none := by
    cases pressure
    case hard      => exact absurd hp (by decide)
    case emergency => exact absurd hp (by decide)
    all_goals rfl
  cases bytes
  case zero => exact absurd rfl hb
  case succ =>
    rw [targetBasisPoints.eq_def, hn]
    rfl

-- Below hard pressure, a plan agrees with the admission except in the last basis point, where the
-- admission still has room but the plan, which rounds its target down, asks for relief.
theorem plan_agrees_iff
    (h : planForReservation config telemetry tier bytes eligible now s' = (.ok plan, s))
    (hs : s.Refreshed) (ha : s.tiers[tier]? = some account) (hp : account.pressure < .hard) :
    (plan = emptyActionPlan tier account.pressure false ↔
      PassesPressure config s tier account bytes) ↔ ¬InLastBasisPoint config s tier bytes := by
  have ⟨hb, _, ho⟩ := planForReservation_eq_ok ha h
  have ht : targetBasisPoints config.thresholds _ _ = _ := targetBasisPoints_calm hp hb
  have hl := config.thresholds.hard_lt_basisPoints
  have hw := config.thresholds.soft_lt_hard
  have ⟨hpos, _⟩ : 0 < reliefBudget config s tier ∧ _ := reliefBudget_bounds hs ha
  have hm : reliefBudget config s tier * (config.thresholds.hardBasisPoints - 1) <
      reliefBudget config s tier * config.thresholds.hardBasisPoints :=
    Nat.mul_lt_mul_of_pos_left (by omega) hpos
  rw [ho.eq_empty_iff ht, requiredRelief_eq hs ha (by omega), passesPressure_iff hs ha,
    InLastBasisPoint, Nat.sub_eq_zero_iff_le, Nat.le_div_iff_mul_le (by decide)]
  omega

end Agreement

-- A host with 100000 bytes. Requests between 84991 and 84999 bytes are admitted, but planned for.

def hostConfig : MemoryManagerConfig where
  budgets              := [⟨.host, 100000, by decide⟩]
  topology             := .discrete
  thresholds           := .default
  actionCooldownMillis := 0
  maxAllocations       := 2
  maxReservations      := 2
  maxActionsPerCycle   := 2
  budgets_pos          := by decide
  budgets_nodup        := by decide
  host_mem             := by decide
  budgets_length       := by decide
  cooldown_le          := smallConfig.cooldown_le
  allocations_limit    := smallConfig.allocations_limit
  reservations_limit   := smallConfig.reservations_limit
  actions_limit        := smallConfig.actions_limit

def hostTelemetry : Telemetry :=
  .ok [⟨.host, 100000, 100000⟩]

def hostState : ManagerState :=
  (World.new hostConfig).state.refreshed hostConfig hostTelemetry

theorem refreshed_hostState : hostState.Refreshed :=
  refreshed_of_reachable (.init rfl) (by decide +kernel)

def hostAccount : TierAccount where
  budgetBytes        := 100000
  managedUsedBytes   := 0
  reservedBytes      := 0
  activeReservations := 0
  pressure           := .normal
  lastActionMillis   := none
  observation        := some ⟨.host, 100000, 100000⟩

theorem lookup_hostState : hostState.tiers[MemoryTier.host]? = some hostAccount := by
  decide +kernel

theorem plan_asks_for_admitted :
    ∃ plan, planForReservation hostConfig hostTelemetry .host 84995 none 0 (.new hostConfig) =
        (.ok plan, hostState) ∧
      hostState.tiers[MemoryTier.host]? = some hostAccount ∧ hostAccount.pressure = .normal ∧
      PassesPressure hostConfig hostState .host hostAccount 84995 ∧
      plan ≠ emptyActionPlan .host .normal false ∧ plan.unresolvedPressureBytes = 5 := by
  have hp : (planForReservation hostConfig hostTelemetry .host 84995 none 0 (.new hostConfig)).1 =
      .ok { emptyActionPlan .host .normal false with unresolvedPressureBytes := 5 } := by
    decide +kernel
  exact ⟨_, Prod.ext hp (planForReservation_state (by decide)), lookup_hostState, rfl,
    ⟨by decide, nofun⟩, by decide, rfl⟩

theorem plan_agrees_small :
    ((emptyActionPlan .host .normal false = emptyActionPlan .host .normal false ↔
      PassesPressure hostConfig hostState .host hostAccount 84990) ↔
        ¬InLastBasisPoint hostConfig hostState .host 84990) := by
  have hp : (planForReservation hostConfig hostTelemetry .host 84990 none 0 (.new hostConfig)).1 =
      .ok (emptyActionPlan .host .normal false) := by
    decide +kernel
  exact plan_agrees_iff (Prod.ext hp (planForReservation_state (by decide))) refreshed_hostState
    lookup_hostState (by decide)

end RuntimeControl.Memory
