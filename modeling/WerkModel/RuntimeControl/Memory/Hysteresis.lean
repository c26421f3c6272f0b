import WerkModel.Lib.Latch
import WerkModel.RuntimeControl.Memory.Conservation

-- Every pressure level is a latch on the utilizations that were measured so far: it is entered at its
-- threshold, and left when the utilization falls below the threshold by more than the hysteresis.
open Std ExtTreeMap Latch

namespace RuntimeControl.Memory

namespace PressureThresholds

variable {thresholds : PressureThresholds} {previous level : PressureLevel} {utilization : Nat}

-- The utilization at which a level is entered.
def entry (thresholds : PressureThresholds) : PressureLevel → Nat
  | .normal    => 0
  | .soft      => thresholds.softBasisPoints
  | .hard      => thresholds.hardBasisPoints
  | .emergency => thresholds.emergencyBasisPoints

-- The utilization that keeps a level once it is entered.
def exit (thresholds : PressureThresholds) (level : PressureLevel) : Nat :=
  thresholds.entry level - thresholds.hysteresisBasisPoints

theorem level_le_iff {level level' : PressureLevel} : level ≤ level' ↔ level.rank ≤ level'.rank :=
  Iff.rfl

theorem le_classify_iff (hl : level ≠ .normal) :
    level ≤ thresholds.classify utilization ↔ thresholds.entry level ≤ utilization := by
  have hs := thresholds.soft_lt_hard
  have hh := thresholds.hard_lt_emergency
  simp only [classify]
  cases level
  case normal => exact absurd rfl hl
  all_goals
    simp only [entry]
    split_ifs <;> simp only [level_le_iff, PressureLevel.rank] <;> omega

-- A level that was reached before and is not left.
def Kept (thresholds : PressureThresholds) (previous : PressureLevel) (utilization : Nat)
    (level : PressureLevel) : Prop :=
  level ≤ previous ∧ thresholds.exit level ≤ utilization

instance : Decidable (Kept thresholds previous utilization level) :=
  inferInstanceAs (Decidable (_ ∧ _))

theorem exit_mono (thresholds : PressureThresholds) : Monotone thresholds.exit := by
  have hs := thresholds.soft_lt_hard
  have hh := thresholds.hard_lt_emergency
  intro l₁ l₂ h
  cases l₁ <;> cases l₂ <;> simp only [level_le_iff, PressureLevel.rank] at h <;>
    simp only [exit, entry] <;> omega

theorem Kept.mono {level' : PressureLevel} (h : Kept thresholds previous utilization level)
    (hl : level' ≤ level) : Kept thresholds previous utilization level' :=
  ⟨hl.trans h.1, (thresholds.exit_mono hl).trans h.2⟩

-- The scan over the levels stops at the highest one that is kept.
theorem scan_eq (h : thresholds.classify utilization < previous) :
    thresholds.classifyWithHysteresis previous utilization =
      if Kept thresholds previous utilization .emergency then .emergency
      else if Kept thresholds previous utilization .hard then .hard
      else if Kept thresholds previous utilization .soft then .soft
      else thresholds.classify utilization := by
  have hn : ¬thresholds.classify utilization ≥ previous := h.not_ge
  rw [classifyWithHysteresis]
  simp only [if_neg hn]
  split_ifs with he hh hs
  all_goals
    simp only [Kept, exit, entry] at *
    simp only [List.find?_cons, List.find?_nil, ge_iff_le, *, decide_true, decide_false, and_self,
      Option.elim_some, Option.elim_none]

-- One step of the scan over all levels is a step of the latch of each level. This needs the order of
-- the thresholds, but not the gaps between them.
theorem le_classifyWithHysteresis_iff (hl : level ≠ .normal) :
    level ≤ thresholds.classifyWithHysteresis previous utilization ↔
      next (thresholds.entry level) (thresholds.exit level) (level ≤ previous) utilization := by
  have hx (level) : thresholds.entry level ≤ utilization → thresholds.exit level ≤ utilization :=
    (Nat.sub_le ..).trans
  by_cases hp : previous ≤ thresholds.classify utilization
  case pos =>
    have he : thresholds.classifyWithHysteresis previous utilization =
        thresholds.classify utilization := if_pos hp
    rw [he, le_classify_iff hl, next]
    exact ⟨.inl, fun h => h.elim id fun h => (le_classify_iff hl).mp (h.1.trans hp)⟩
  case neg =>
    have hp : thresholds.classify utilization < previous := lt_of_not_ge hp
    -- A level that is entered now was reached before.
    have hk (level) (hl : level ≠ .normal) (h : thresholds.entry level ≤ utilization) :
        Kept thresholds previous utilization level :=
      ⟨((le_classify_iff hl).mpr h).trans hp.le, hx level h⟩
    have hn : next (thresholds.entry level) (thresholds.exit level) (level ≤ previous) utilization ↔
        Kept thresholds previous utilization level :=
      ⟨fun h => h.elim (hk level hl) id, .inr⟩
    rw [hn, scan_eq hp]
    split_ifs with he hh hs
    case pos => exact ⟨he.mono, fun _ => by cases level <;> decide⟩
    case pos => exact ⟨hh.mono, fun h => by cases level <;> first | decide | exact absurd h he⟩
    case pos =>
      exact ⟨hs.mono, fun h => by
        cases level <;> first | decide | exact absurd h he | exact absurd h hh⟩
    case neg =>
      refine ⟨fun h => hk level hl ((le_classify_iff hl).mp h), fun h => ?_⟩
      cases level
      case normal    => exact absurd rfl hl
      case soft      => exact absurd h hs
      case hard      => exact absurd h hh
      case emergency => exact absurd h he

end PressureThresholds

-- The levels of the tiers, which only a refresh changes.
namespace ManagerState

variable {config : MemoryManagerConfig} {s s' : ManagerState} {tier : MemoryTier} {bytes : Nat}

def pressures (s : ManagerState) : ExtTreeMap MemoryTier PressureLevel :=
  s.tiers.map fun _ => TierAccount.pressure

theorem getElem?_pressures : s.pressures[tier]? = (s.tiers[tier]?).map (·.pressure) :=
  getElem?_map

theorem pressures_modifyBalance (s : ManagerState) (tier : MemoryTier)
    (update : TierBalance → TierBalance) : (s.modifyBalance tier update).pressures = s.pressures :=
  map_modify_of_eq fun _ => rfl

theorem pressures_hold : (s.hold tier bytes).pressures = s.pressures :=
  pressures_modifyBalance s tier (·.hold bytes)

theorem pressures_unhold : (s.unhold tier bytes).pressures = s.pressures :=
  pressures_modifyBalance s tier (·.unhold bytes)

theorem pressures_place {allocation : ManagedAllocation} :
    (s.place allocation).pressures = s.pressures :=
  pressures_modifyBalance s allocation.tier (·.charge allocation.bytes)

theorem pressures_remove {id} : (s.remove id tier bytes).pressures = s.pressures :=
  pressures_modifyBalance s tier (·.discharge bytes)

theorem pressures_move {id source target update} :
    (s.move id source target bytes update).pressures = s.pressures :=
  (pressures_modifyBalance (s.modifyBalance source (·.discharge bytes)) target (·.charge bytes)).trans
    (pressures_modifyBalance s source (·.discharge bytes))

theorem pressures_recordAction {topology now unixMillis} :
    (recordAction topology tier now unixMillis s).pressures = s.pressures := by
  cases topology
  case discrete => exact map_modify_of_eq fun _ => rfl
  case unified  => exact map_map_of_eq fun _ _ => rfl

theorem pressures_releaseReservation {reservation : MemoryReservation} :
    (releaseReservationLocked s reservation).pressures = s.pressures := by
  have ⟨_, _, binding⟩ := reservation
  cases binding <;> exact pressures_unhold

theorem pressures_releaseAction {action : PressureAction} :
    (releasePressureActionLocked s action).pressures = s.pressures := by
  cases action
  case demote => exact map_modify_of_eq fun _ => rfl
  case evict  => rfl

theorem pressures_reserveLocked {binding} :
    (reserveLocked config s tier bytes binding).2.pressures = s.pressures := by
  rw [reserveLocked]
  split
  case isTrue => rfl
  case isFalse =>
    split
    case isTrue => rfl
    case isFalse =>
      split
      case h_1 => rfl
      case h_2 =>
        simp only
        split_ifs <;> first | rfl | exact pressures_hold

theorem pressures_reserved {binding}
    {accept : MemoryReservation → ManagerState → ManagerState}
    (h : ∀ reservation s, (accept reservation s).pressures = s.pressures) :
    (match reserveLocked config s tier bytes binding with
      | (.error error, s)    => (.error error, s)
      | (.ok reservation, s) => (.ok reservation, accept reservation s) :
      Except MemoryError MemoryReservation × ManagerState).2.pressures = s.pressures := by
  have hl : (reserveLocked config s tier bytes binding).2.pressures = s.pressures :=
    pressures_reserveLocked
  split
  case h_1 he => exact (congrArg (·.2.pressures) he).symm.trans hl
  case h_2 he => exact (h _ _).trans <| (congrArg (·.2.pressures) he).symm.trans hl

-- The state that the operations which read the telemetry continue with.
def refreshed (config : MemoryManagerConfig) (telemetry : Telemetry) (s : ManagerState) :
    ManagerState :=
  match sampleTelemetry s telemetry with
  | .error _         => s
  | .ok observations => refreshAccounts s observations config.topology config.thresholds

theorem pressures_withRefreshed {α} {telemetry : Telemetry}
    {operation : ManagerState → Except MemoryError α × ManagerState}
    (h : ∀ s₁, (operation s₁).2.pressures = s₁.pressures) :
    (withRefreshed config telemetry s operation).2.pressures =
      (s.refreshed config telemetry).pressures := by
  rw [withRefreshed, refreshed]
  cases sampleTelemetry s telemetry
  case error => rfl
  case ok    => exact h _

theorem pressures_updateIdleAllocation {id update} :
    (updateIdleAllocation id update s).2.pressures = s.pressures := by
  rw [updateIdleAllocation]
  split_ifs <;> rfl

theorem pressures_recordFailedRelease {id} :
    (recordFailedRelease id s).2.pressures = s.pressures := by
  have h (update) : (updateIdleAllocation id update s).2.pressures = s.pressures :=
    pressures_updateIdleAllocation
  rw [recordFailedRelease]
  split
  case h_1 hu => exact (congrArg (·.2.pressures) hu).symm.trans (h _)
  case h_2 hu => exact (congrArg (·.2.pressures) hu).symm.trans (h _)

theorem pressures_removeAllocation {id} : (removeAllocation id s).2.pressures = s.pressures := by
  rw [removeAllocation]
  split
  case isTrue => rfl
  case isFalse =>
    split
    case h_1 => rfl
    case h_2 => exact pressures_remove

theorem pressures_recordOrphanedRelease {orphan} :
    (recordOrphanedRelease tier orphan s).2.pressures = s.pressures := by
  rw [recordOrphanedRelease]
  split
  case h_1 => rfl
  case h_2 account _ =>
    exact pressures_modifyBalance s tier (·.charge (accountedBytes account orphan))

theorem pressures_beginPressureAction {action} :
    (beginPressureAction config action s).2.pressures = s.pressures := by
  rw [beginPressureAction]
  simp only
  split
  case isTrue => rfl
  case isFalse =>
    split
    case h_1 => rfl
    case h_2 =>
      split
      case isTrue => rfl
      case isFalse =>
        split
        all_goals split_ifs <;> first | rfl | exact pressures_hold

end ManagerState

open ManagerState

section Commits

variable {config : MemoryManagerConfig} {s : ManagerState}

theorem MemoryReservation.pressures_commitLoad {reservation : MemoryReservation} {now} :
    (reservation.commitLoad now s).2.pressures = s.pressures := by
  rw [commitLoad]
  split
  case h_1 => rfl
  case h_2 =>
    split
    case isTrue  => rfl
    case isFalse => exact pressures_place.trans pressures_releaseReservation

theorem MemoryReservation.pressures_commitPromotion {reservation : MemoryReservation} {now} :
    (reservation.commitPromotion now s).2.pressures = s.pressures := by
  rw [commitPromotion]
  split
  case h_1 => rfl
  case h_2 =>
    split
    case h_1 => rfl
    case h_2 =>
      split
      case isTrue  => rfl
      case isFalse => exact pressures_move.trans pressures_releaseReservation

theorem PressureActionPermit.pressures_commit {permit : PressureActionPermit} {now unixMillis} :
    (permit.commit config now unixMillis s).2.pressures = s.pressures := by
  have hr : (releasePressureActionLocked s permit.action).pressures = s.pressures :=
    pressures_releaseAction
  rw [commit]
  simp only
  split
  case isTrue => rfl
  case isFalse =>
    split
    case h_1 => rfl
    case h_2 =>
      split
      all_goals
        split
        case isTrue => rfl
      case h_1 =>
        refine pressures_recordAction.trans (Eq.trans ?_ hr)
        exact @pressures_move _ _ permit.action.allocationId _ _ id
      case h_2 =>
        refine pressures_recordAction.trans (Eq.trans ?_ hr)
        exact @pressures_remove _ _ _ permit.action.allocationId

end Commits

-- The telemetry that an operation reads.
def Operation.telemetry : Operation → Option Telemetry
  | .refresh telemetry _ | .reserveLoad telemetry .. | .reservePromotion telemetry .. |
    .planPressureActions telemetry .. => some telemetry
  | .planForReservation telemetry _ requestedBytes .. =>
    if requestedBytes = 0 then none else some telemetry
  | _ => none

namespace World

variable {config : MemoryManagerConfig} {world : World}

theorem state_settle {α} {result : Except MemoryError α × ManagerState}
    {accept : α → World → Output × World} (h : ∀ a w, (accept a w).2.state = w.state) :
    (world.settle result accept).2.state = result.2 := by
  have ⟨result, s⟩ := result
  cases result
  case error => rfl
  case ok    => exact h _ _

theorem state_addOrphan {tier bytes} : (addOrphan tier bytes world).state = world.state := by
  rw [addOrphan]
  split <;> rfl

theorem pressures_commitReservation {reservation : MemoryReservation}
    {commit : ManagerState → Except MemoryError Unit × ManagerState}
    (h : (commit world.state).2.pressures = world.state.pressures) :
    (world.commitReservation reservation commit).2.state.pressures = world.state.pressures := by
  rw [commitReservation]
  split
  case h_1 he =>
    rw [he] at h
    exact pressures_releaseReservation.trans h
  case h_2 he =>
    rw [he] at h
    exact h

theorem pressures_commitPermit {permit : PressureActionPermit}
    {commit : ManagerState → Except MemoryError Unit × ManagerState}
    (h : (commit world.state).2.pressures = world.state.pressures) :
    (world.commitPermit permit commit).2.state.pressures = world.state.pressures := by
  rw [commitPermit]
  split
  case h_1 he =>
    rw [he] at h
    exact pressures_releaseAction.trans h
  case h_2 he =>
    rw [he] at h
    exact h

-- Only the refresh of an operation changes the levels.
theorem pressures_apply (operation : Operation) :
    (world.apply config operation).2.state.pressures =
      (operation.telemetry.elim world.state (world.state.refreshed config)).pressures := by
  have hr {α} (output : α → Output) (a : α) (w : World) : (report output a w).2.state = w.state :=
    rfl
  cases operation
  case refresh =>
    rw [apply, state_settle (hr _)]
    exact pressures_withRefreshed fun _ => rfl
  case accountingSnapshot => rfl
  case reserveLoad id tier bytes pinned demotionTarget =>
    rw [apply, state_settle fun _ _ => rfl]
    refine pressures_withRefreshed fun s => ?_
    split
    case isTrue => rfl
    case isFalse =>
      split
      case isTrue => rfl
      case isFalse =>
        split
        case h_1 => rfl
        case h_2 => exact pressures_reserved fun _ _ => rfl
  case reservePromotion =>
    rw [apply, state_settle fun _ _ => rfl]
    refine pressures_withRefreshed fun s => ?_
    split
    case h_1 => rfl
    case h_2 =>
      split_ifs
      case neg => exact pressures_reserved fun _ _ => rfl
      all_goals rfl
  case commitLoad =>
    exact pressures_commitReservation MemoryReservation.pressures_commitLoad
  case commitPromotion =>
    exact pressures_commitReservation MemoryReservation.pressures_commitPromotion
  case dropReservation => exact pressures_releaseReservation
  case touch =>
    rw [apply, state_settle (hr _)]
    exact pressures_updateIdleAllocation
  case setPinned =>
    rw [apply, state_settle (hr _)]
    exact pressures_updateIdleAllocation
  case removeAllocation =>
    rw [apply, state_settle (hr _)]
    exact pressures_removeAllocation
  case recordFailedRelease =>
    rw [apply, state_settle (hr _)]
    exact pressures_recordFailedRelease
  case recordOrphanedRelease =>
    rw [apply, state_settle fun _ _ => state_addOrphan]
    exact pressures_recordOrphanedRelease
  case planPressureActions =>
    rw [apply, state_settle (hr _)]
    exact pressures_withRefreshed fun _ => rfl
  case planForReservation telemetry tier requestedBytes eligible now =>
    rw [apply, state_settle (hr _), planForReservation, Operation.telemetry]
    split
    case isTrue  => rfl
    case isFalse => exact pressures_withRefreshed fun _ => rfl
  case beginPressureAction =>
    rw [apply, state_settle fun _ _ => rfl]
    exact pressures_beginPressureAction
  case commitPermit => exact pressures_commitPermit PressureActionPermit.pressures_commit
  case dropPermit   => exact pressures_releaseAction

end World

section Refresh

variable {config : MemoryManagerConfig} {s : ManagerState} {telemetry : Telemetry}
variable {observations : Observations} {tier : MemoryTier}

-- An accepted reading of the telemetry covers every configured tier.
theorem sampleTelemetry_mem (h : sampleTelemetry s telemetry = .ok observations)
    (ht : tier ∈ s.tiers) : tier ∈ observations := by
  cases telemetry
  case error => cases h
  case ok =>
    rw [sampleTelemetry] at h
    split at h
    case isTrue => cases h
    case isFalse =>
      split at h
      case h_1 => cases h
      case h_2 =>
        split at h
        case h_1 => cases h
        case h_2 hf =>
          cases h
          simpa using List.find?_eq_none.mp hf tier (mem_keys.mpr ht)

-- The utilization that a refresh measures for a tier, or for the shared pool.
def measuredBasisPoints (config : MemoryManagerConfig) (s : ManagerState) (tier : MemoryTier) :
    Nat :=
  let (budget, used) := effectiveAccounting s tier config.topology
  utilizationBasisPoints used budget

-- The levels are those of `levels`, which in unified memory all tiers share.
structure Levels (config : MemoryManagerConfig) (levels : MemoryTier → PressureLevel)
    (s : ManagerState) : Prop where
  level  : ∀ (tier : MemoryTier) level, s.pressures[tier]? = some level → level = levels tier
  shared : config.topology = .unified → ∀ tier tier', levels tier = levels tier'

variable {levels : MemoryTier → PressureLevel}

theorem max?_getD_eq {l : List PressureLevel} {level : PressureLevel}
    (h : ∀ level' ∈ l, level' = level) (hl : l ≠ []) : l.max?.getD .normal = level := by
  have ⟨top, ht⟩ := Option.isSome_iff_exists.mp <|
    List.isSome_max?_of_mem (List.head_mem hl)
  rw [ht]
  exact h top (List.max?_mem ht)

theorem Levels.discrete (h : Levels config levels s) (htop : config.topology = .discrete)
    (hm : ∀ tier : MemoryTier, tier ∈ s.tiers → tier ∈ observations) :
    Levels config
      (fun tier => config.thresholds.classifyWithHysteresis (levels tier) <|
        measuredBasisPoints config
          (refreshAccounts s observations config.topology config.thresholds) tier)
      (refreshAccounts s observations config.topology config.thresholds) where
  shared hu := by rw [htop] at hu; cases hu
  level tier level hp := by
    rw [htop] at hp ⊢
    rw [getElem?_pressures, refreshAccounts, getElem?_map, Option.map_map] at hp
    obtain ⟨account, ha, he⟩ := Option.map_eq_some_iff.mp hp
    obtain ⟨observation, ho⟩ := exists_lookup <| hm tier (mem_of_lookup ha)
    have hl := h.level tier account.pressure (by rw [getElem?_pressures, ha]; rfl)
    rw [measuredBasisPoints, htop, effectiveAccounting, refreshAccounts, getElem?_map, ha]
    simp only [Function.comp_apply, refreshAccount, ho] at he
    simp only [Option.map_some, refreshAccount, ho, ←hl, ←he]
    rfl

-- The two halves of a refresh in unified memory.
def observe (s : ManagerState) (observations : Observations) : ManagerState :=
  { s with
    tiers := s.tiers.map fun tier account =>
      { account with observation := observations[tier]? } }

def withPressure (s : ManagerState) (level : PressureLevel) : ManagerState :=
  { s with tiers := s.tiers.map fun _ account => { account with pressure := level } }

def topPressure (s : ManagerState) : PressureLevel :=
  (s.tiers.valueList.map TierAccount.pressure).max?.getD .normal

theorem refreshAccounts_unified {thresholds : PressureThresholds} :
    refreshAccounts s observations .unified thresholds = withPressure (observe s observations)
      (thresholds.classifyWithHysteresis (topPressure (observe s observations))
        (utilizationBasisPoints (effectiveAccounting (observe s observations) .host .unified).2
          (effectiveAccounting (observe s observations) .host .unified).1)) :=
  rfl

theorem effectiveAccounting_withPressure {level : PressureLevel} :
    effectiveAccounting (withPressure s level) tier .unified = effectiveAccounting s .host .unified := by
  simp only [effectiveAccounting, withPressure, sharedManaged, sharedReserved, valueList_map,
    List.map_map]
  simp only [valueList, List.map_map]
  rfl

theorem pressures_observe : (observe s observations).pressures = s.pressures :=
  map_map_of_eq fun _ _ => rfl

theorem lookup_withPressure {level level' : PressureLevel}
    (h : (withPressure s level).pressures[tier]? = some level') : tier ∈ s.tiers ∧ level' = level := by
  rw [getElem?_pressures, withPressure, getElem?_map, Option.map_map] at h
  have ⟨account, ha, he⟩ := Option.map_eq_some_iff.mp h
  exact ⟨mem_of_lookup ha, he.symm⟩

theorem Levels.topPressure_eq (h : Levels config levels s) (htop : config.topology = .unified)
    (ht : tier ∈ s.tiers) : topPressure s = levels tier := by
  refine max?_getD_eq (fun level hl => ?level) ?nonempty
  case level =>
    have ⟨account, hm, hl⟩ := List.mem_map.mp hl
    have ⟨tier', ht'⟩ := mem_valueList_iff.mp hm
    have hp : s.pressures[tier']? = some level := by
      rw [getElem?_pressures, ht', Option.map_some, hl]
    rw [h.level tier' level hp, h.shared htop tier' tier]
  case nonempty =>
    have ⟨account, ha⟩ := exists_lookup ht
    exact List.ne_nil_of_mem <| List.mem_map_of_mem <| mem_valueList_iff.mpr ⟨_, ha⟩

theorem Levels.congr {s' : ManagerState} (h : Levels config levels s)
    (hp : s'.pressures = s.pressures) : Levels config levels s' :=
  ⟨fun tier level hl => h.level tier level (hp ▸ hl), h.shared⟩

theorem Levels.unified (h : Levels config levels s) (htop : config.topology = .unified) :
    Levels config
      (fun tier => config.thresholds.classifyWithHysteresis (levels tier) <|
        measuredBasisPoints config
          (refreshAccounts s observations config.topology config.thresholds) tier)
      (refreshAccounts s observations config.topology config.thresholds) where
  shared _ tier tier' := by
    simp only [measuredBasisPoints, htop, effectiveAccounting]
    rw [h.shared htop tier tier']
  level tier level hp := by
    rw [htop, refreshAccounts_unified] at hp ⊢
    have ⟨ht, hl⟩ := lookup_withPressure hp
    simp only [measuredBasisPoints, htop, effectiveAccounting_withPressure]
    rw [hl, (h.congr pressures_observe).topPressure_eq htop ht]

-- The levels after a refresh.
theorem Levels.refreshed (h : Levels config levels s)
    (ho : sampleTelemetry s telemetry = .ok observations) :
    Levels config
      (fun tier => config.thresholds.classifyWithHysteresis (levels tier) <|
        measuredBasisPoints config (s.refreshed config telemetry) tier)
      (s.refreshed config telemetry) := by
  rw [ManagerState.refreshed, ho]
  cases htop : config.topology
  case discrete =>
    have hl := h.discrete htop fun tier => sampleTelemetry_mem ho
    rwa [htop] at hl
  case unified =>
    have hl : Levels config _ (refreshAccounts s observations config.topology _) := h.unified htop
    rwa [htop] at hl

end Refresh

-- A sequence of operations in any order, with the utilizations that its refreshes measure for a tier.
def World.run (config : MemoryManagerConfig) (world : World) (operations : List Operation) : World :=
  operations.foldl (fun world operation => (world.apply config operation).2) world

def measurement (config : MemoryManagerConfig) (s : ManagerState) (tier : MemoryTier)
    (telemetry : Telemetry) : List Nat :=
  match sampleTelemetry s telemetry with
  | .error _ => []
  | .ok _    => [measuredBasisPoints config (s.refreshed config telemetry) tier]

def measurements (config : MemoryManagerConfig) (tier : MemoryTier) :
    World → List Operation → List Nat
  | _, []                           => []
  | world, operation :: operations =>
    operation.telemetry.elim [] (measurement config world.state tier) ++
      measurements config tier (world.apply config operation).2 operations

section Runs

variable {config : MemoryManagerConfig} {world : World} {levels : MemoryTier → PressureLevel}
variable {operations : List Operation} {tier : MemoryTier} {account : TierAccount}

theorem Levels.apply (h : Levels config levels world.state) (operation : Operation) :
    Levels config
      (fun tier => (operation.telemetry.elim [] (measurement config world.state tier)).foldl
        config.thresholds.classifyWithHysteresis (levels tier))
      (world.apply config operation).2.state := by
  refine Levels.congr ?_ (world.pressures_apply operation)
  cases operation.telemetry
  case none => exact h
  case some telemetry =>
    simp only [Option.elim_some, measurement]
    cases ho : sampleTelemetry world.state telemetry
    case error =>
      refine h.congr ?_
      rw [ManagerState.refreshed, ho]
    case ok => exact h.refreshed ho

theorem Levels.run (h : Levels config levels world.state) (operations : List Operation) :
    Levels config
      (fun tier => (measurements config tier world operations).foldl
        config.thresholds.classifyWithHysteresis (levels tier))
      (world.run config operations).state := by
  induction operations generalizing world levels
  case nil => exact h
  case cons operation operations hi =>
    simp only [measurements, List.foldl_append]
    exact hi (h.apply operation)

theorem Levels.new : Levels config (fun _ => .normal) (World.new config).state where
  shared _ _ _ := rfl
  level tier level hp := by
    rw [getElem?_pressures] at hp
    have ⟨account, ha, he⟩ := Option.map_eq_some_iff.mp hp
    have ⟨_, _, _, hn⟩ := tiers_new_eq ha
    rw [←he, hn]
    rfl

-- The level of a sequence of utilizations, and that the level of a tier is the one of the utilizations
-- that were measured for it.
theorem pressure_latched :
    (∀ (thresholds : PressureThresholds) (inputs : List Nat) (level : PressureLevel),
      level ≠ .normal →
      (level ≤ inputs.foldl thresholds.classifyWithHysteresis .normal ↔
        Held (thresholds.entry level) (thresholds.exit level) inputs)) ∧
    ∀ (config : MemoryManagerConfig) (operations : List Operation) (tier : MemoryTier)
      (account : TierAccount),
      ((World.new config).run config operations).state.tiers[tier]? = some account →
      account.pressure = (measurements config tier (World.new config) operations).foldl
        config.thresholds.classifyWithHysteresis .normal := by
  refine ⟨fun thresholds inputs level hl => ?sequence, fun config operations tier account ha => ?tier⟩
  case sequence =>
    refine held_foldl ?_ (fun _ _ => PressureThresholds.le_classifyWithHysteresis_iff hl) inputs
    intro h
    cases level
    case normal => exact hl rfl
    all_goals exact absurd h (by decide)
  case tier =>
    refine (Levels.new.run operations).level tier account.pressure ?_
    rw [getElem?_pressures, ha]
    rfl

theorem pressure_latched_small :
    (PressureLevel.hard ≤
        [9000, 8000].foldl PressureThresholds.default.classifyWithHysteresis .normal ↔
      Held 8500 8000 [9000, 8000]) ∧
    ∀ account, (World.run smallConfig (.new smallConfig) [smallLoad]).state.tiers[
        MemoryTier.accelerator 0]? = some account →
      account.pressure = .normal :=
  ⟨pressure_latched.1 .default [9000, 8000] .hard (by decide), fun account h =>
    (pressure_latched.2 smallConfig [smallLoad] (.accelerator 0) account h).trans
      (by decide +kernel)⟩

end Runs
end RuntimeControl.Memory
