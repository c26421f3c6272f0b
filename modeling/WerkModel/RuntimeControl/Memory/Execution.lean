import WerkModel.RuntimeControl.Memory.Planning

-- A plan is carried out without interference: its actions are begun in their order, and every
-- permit is kept open or committed at any time.
open Std ExtTreeMap Saturating

namespace RuntimeControl.Memory

open World ManagerState

structure Execution where
  tried     : List PressureAction
  remaining : List PressureAction
  opened    : Multiset PressureAction
  committed : Multiset PressureAction
  world     : World

inductive Execution.Step (config : MemoryManagerConfig) (execution : Execution) :
    Operation → Result → Execution → Prop
  | begun {action rest output world} :
    execution.remaining = action :: rest →
    execution.world.apply config (.beginPressureAction action) = (.ok output, world) →
    Step config execution (.beginPressureAction action) (.ok output) { execution with
      tried     := execution.tried ++ [action]
      remaining := rest
      opened    := action ::ₘ execution.opened
      world     := world }
  | failed {action rest error world} :
    execution.remaining = action :: rest →
    execution.world.apply config (.beginPressureAction action) = (.error error, world) →
    Step config execution (.beginPressureAction action) (.error error) { execution with
      tried     := execution.tried ++ [action]
      remaining := rest
      world     := world }
  | committed {action now unixMillis result world} :
    action ∈ execution.opened →
    execution.world.apply config (.commitPermit ⟨action⟩ now unixMillis) = (result, world) →
    Step config execution (.commitPermit ⟨action⟩ now unixMillis) result { execution with
      opened    := execution.opened.erase action
      committed := action ::ₘ execution.committed
      world     := world }

-- The executions of a plan from a world on.
def executions (config : MemoryManagerConfig) (world : World) (actions : List PressureAction) :
    System Execution Operation Result where
  Init execution := execution = ⟨[], actions, 0, 0, world⟩
  Step           := Execution.Step config

namespace ManagerState

def observations (s : ManagerState) : ExtTreeMap MemoryTier (Option MemoryObservation) :=
  s.tiers.map fun _ => TierAccount.observation

variable {s s' : ManagerState} {id : AllocationId} {tier : MemoryTier}

theorem observations_modifyBalance {update : TierBalance → TierBalance} :
    (s.modifyBalance tier update).observations = s.observations :=
  map_modify_of_eq fun _ => rfl

theorem observations_recordAction {topology now unixMillis} :
    (recordAction topology tier now unixMillis s).observations = s.observations := by
  cases topology
  case discrete => exact map_modify_of_eq fun _ => rfl
  case unified  => exact map_map_of_eq fun _ _ => rfl

theorem observations_releaseAction {action : PressureAction} :
    (releasePressureActionLocked s action).observations = s.observations := by
  cases action
  case demote => exact map_modify_of_eq fun _ => rfl
  case evict  => rfl

-- What an action leaves alone: the observations, and all other allocations with their claims.
structure Elsewhere (id : AllocationId) (s s' : ManagerState) : Prop where
  observations : s'.observations = s.observations
  allocations  : ∀ id' ≠ id, s'.allocations[id']? = s.allocations[id']?
  promotions   : ∀ id' ≠ id, id' ∈ s'.pendingPromotions → id' ∈ s.pendingPromotions
  actions      : ∀ id' ≠ id, id' ∈ s'.pendingActions → id' ∈ s.pendingActions

namespace Elsewhere

theorem refl : Elsewhere id s s := ⟨rfl, fun _ _ => rfl, fun _ _ h => h, fun _ _ h => h⟩

theorem trans {s'' : ManagerState} (h : Elsewhere id s s') (h' : Elsewhere id s' s'') :
    Elsewhere id s s'' where
  observations        := h'.observations.trans h.observations
  allocations id' hn  := (h'.allocations id' hn).trans (h.allocations id' hn)
  promotions id' hn hm := h.promotions id' hn (h'.promotions id' hn hm)
  actions id' hn hm   := h.actions id' hn (h'.actions id' hn hm)

theorem claimAction {permit : PressureActionPermit} :
    Elsewhere permit.action.allocationId s (s.claimAction permit) where
  observations         := by
    have ⟨action⟩ := permit
    cases action
    case demote => exact map_modify_of_eq fun _ => rfl
    case evict  => rfl
  allocations _ _      := by rw [allocations_claimAction]
  promotions _ _ hm    := pendingPromotions_claimAction ▸ hm
  actions id' hn hm    := by
    rw [pendingActions_claimAction] at hm
    exact (Finset.mem_union.mp hm).resolve_left fun h => hn (Finset.mem_singleton.mp h)

theorem release {action : PressureAction} :
    Elsewhere action.allocationId s (releasePressureActionLocked s action) where
  observations      := observations_releaseAction
  allocations _ _   := by rw [allocations_releaseAction]
  promotions _ _ hm := pendingPromotions_releaseAction ▸ hm
  actions _ _ hm    := Finset.mem_of_mem_erase (pendingActions_releaseAction ▸ hm)

theorem move {source target bytes update} :
    Elsewhere id s (s.move id source target bytes update) where
  observations        := by
    have h : ((s.modifyBalance source (·.discharge bytes)).modifyBalance target
      (·.charge bytes)).observations = s.observations :=
      observations_modifyBalance.trans observations_modifyBalance
    exact h
  allocations id' hn  := by
    have hc : compare id id' ≠ .eq := fun hc => hn (LawfulEqCmp.eq_of_compare hc).symm
    exact getElem?_modify.trans (if_neg hc)
  promotions _ _ hm   := hm
  actions _ _ hm      := hm

theorem remove {bytes} : Elsewhere id s (s.remove id tier bytes) where
  observations        := map_modify_of_eq fun _ => rfl
  allocations id' hn  := by
    have hc : compare id id' ≠ .eq := fun hc => hn (LawfulEqCmp.eq_of_compare hc).symm
    exact getElem?_erase.trans (if_neg hc)
  promotions _ _ hm   := Finset.mem_of_mem_erase hm
  actions _ _ hm      := hm

theorem recordAction {topology now unixMillis completedDemotions completedEvictions}
    (h : Elsewhere id s s') :
    Elsewhere id s (recordAction topology tier now unixMillis
      { s' with completedDemotions, completedEvictions }) :=
  ⟨observations_recordAction.trans h.observations, h.allocations, h.promotions, h.actions⟩

end Elsewhere
end ManagerState

section Steps

variable {config : MemoryManagerConfig} {s : ManagerState} {action : PressureAction}
variable {permit : PressureActionPermit} {now unixMillis : Nat}

theorem elsewhere_commit :
    Elsewhere permit.action.allocationId s (permit.commit config now unixMillis s).2 := by
  rw [PressureActionPermit.commit]
  split
  case isTrue => exact .refl
  case isFalse =>
    split
    case h_1 => exact .refl
    case h_2 =>
      have hr : Elsewhere permit.action.allocationId s _ := .release
      split
      case h_1 =>
        split
        case isTrue  => exact .refl
        case isFalse => exact (hr.trans .move).recordAction
      case h_2 =>
        split
        case isTrue  => exact .refl
        case isFalse => exact (hr.trans .remove).recordAction

-- The allocation that an action is about is as the plan has found it, and nobody claims it.
structure PressureAction.Ready (config : MemoryManagerConfig) (s : ManagerState)
    (action : PressureAction) : Prop where
  stored     : ∃ allocation, s.allocations[action.allocationId]? = some allocation ∧
                 ¬allocation.pinned ∧ action.Moves config allocation
  promotions : action.allocationId ∉ s.pendingPromotions
  actions    : action.allocationId ∉ s.pendingActions

theorem PressureAction.Ready.elsewhere {s' : ManagerState} {id : AllocationId}
    (h : action.Ready config s) (he : Elsewhere id s s') (hn : action.allocationId ≠ id) :
    action.Ready config s' where
  stored     :=
    have ⟨allocation, hl, ha⟩ := h.stored
    ⟨allocation, (he.allocations _ hn).trans hl, ha⟩
  promotions := fun hm => h.promotions (he.promotions _ hn hm)
  actions    := fun hm => h.actions (he.actions _ hn hm)

theorem Candidate.ready {tier eligible allocation} (h : Candidate config s tier eligible allocation)
    (ha : action.Moves config allocation) : action.Ready config s where
  stored     := ⟨allocation, ha.id_eq ▸ h.stored, h.unpinned, ha⟩
  promotions := ha.id_eq ▸ h.promotions
  actions    := ha.id_eq ▸ h.actions

theorem mem_tiers_of_canAcceptBytes {tier bytes additional topology thresholds}
    (h : canAcceptBytes s tier bytes additional topology thresholds) : tier ∈ s.tiers := by
  rw [canAcceptBytes] at h
  split at h
  case h_1    => cases h
  case h_2 hl => exact mem_of_lookup hl

-- A ready action whose bytes are accepted can only fail for want of a slot.
theorem begin_of_ready (h : action.Ready config s)
    (hc : ∀ claim ∈ action.claim,
      canAcceptBytes s claim.1 claim.2 0 config.topology config.thresholds) :
    beginPressureAction config action s = (.ok ⟨action⟩, s.claimAction ⟨action⟩) ∨
    (beginPressureAction config action s =
        (.error (.reservationLimitReached config.maxReservations), s) ∧
      action.claim.isSome ∧ config.maxReservations ≤ s.activeReservations) := by
  have ⟨allocation, hl, hp, hm⟩ := h.stored
  rw [beginPressureAction]
  simp only
  rw [if_neg (not_or.mpr ⟨h.actions, h.promotions⟩), hl]
  simp only
  rw [if_neg hp]
  cases hm
  case demote target htop ht =>
    have ha := hc _ rfl
    simp only
    rw [if_neg (by simp [ht, htop])]
    by_cases hr : s.activeReservations ≥ config.maxReservations
    case pos =>
      rw [if_pos hr]
      exact .inr ⟨rfl, rfl, hr⟩
    case neg =>
      rw [if_neg hr, if_neg (not_not.mpr ha), if_neg (not_not.mpr (mem_tiers_of_canAcceptBytes ha))]
      exact .inl rfl
  case evict =>
    rw [ManagedAllocation.eviction]
    simp only
    rw [if_neg (by simp)]
    exact .inl rfl

end Steps

-- The balance of a tier as an action begins and as it is committed.
section Balances

namespace TierBalance

-- The use of a tier of which `observed` bytes are seen in use.
def load (observed : Nat) (balance : TierBalance) : Nat :=
  max observed balance.managedUsedBytes + balance.reservedBytes

end TierBalance

namespace PressureAction

def hold (action : PressureAction) (tier : MemoryTier) (balance : TierBalance) : TierBalance :=
  match action with
  | demote _ _ target bytes => if target = tier then balance.hold bytes else balance
  | evict ..                => balance

def settle (action : PressureAction) (tier : MemoryTier) (balance : TierBalance) : TierBalance :=
  match action with
  | demote _ source target bytes =>
    let released   := if target = tier then balance.unhold bytes else balance
    let discharged := if source = tier then released.discharge bytes else released
    if target = tier then discharged.charge bytes else discharged
  | evict _ source bytes => if source = tier then balance.discharge bytes else balance

variable {action : PressureAction} {tier : MemoryTier} {balance : TierBalance} {observed : Nat}

theorem load_hold :
    (action.hold tier balance).load observed ≤ balance.load observed + action.brings tier := by
  cases action
  case demote =>
    simp only [hold, brings, claim, Option.elim_some]
    split
    case isTrue  => simp only [TierBalance.load, TierBalance.hold, add]; omega
    case isFalse => exact Nat.le_add_right ..
  case evict => exact Nat.le_add_right ..

-- The bytes that a demotion has held are charged to its target.
theorem load_settle (h : action.brings tier ≤ balance.reservedBytes) :
    (action.settle tier balance).load observed ≤ balance.load observed := by
  cases action
  case demote =>
    simp only [brings, claim, Option.elim_some] at h
    simp only [settle]
    split at h
    case isTrue ht =>
      rw [if_pos ht, if_pos ht]
      split <;> simp only [TierBalance.load, TierBalance.unhold, TierBalance.discharge,
        TierBalance.charge, add] <;> omega
    case isFalse ht =>
      rw [if_neg ht, if_neg ht]
      split
      case isTrue  => simp only [TierBalance.load, TierBalance.discharge]; omega
      case isFalse => exact le_rfl
  case evict =>
    simp only [settle]
    split
    case isTrue  => simp only [TierBalance.load, TierBalance.discharge]; omega
    case isFalse => exact le_rfl

end PressureAction
end Balances

section Permits

variable {config : MemoryManagerConfig} {world : World} {action : PressureAction}
variable {tier : MemoryTier} {balance : TierBalance}

theorem balance_claimAction {s : ManagerState}
    (h : (s.claimAction ⟨action⟩).balances[tier]? = some balance) :
    ∃ before, s.balances[tier]? = some before ∧ balance = action.hold tier before := by
  rw [balances_claimAction] at h
  cases action
  case demote => exact lookup_modify h
  case evict  => exact ⟨balance, h, rfl⟩

theorem begin_step
    (h : beginPressureAction config action world.state =
      (.ok ⟨action⟩, world.state.claimAction ⟨action⟩)) :
    world.apply config (.beginPressureAction action) = (.ok (.permit ⟨action⟩),
      addPermit ⟨action⟩ { world with state := world.state.claimAction ⟨action⟩ }) := by
  rw [apply, h]
  rfl

-- What the commit of an action does to the state.
structure Settled (action : PressureAction) (s s' : ManagerState) : Prop where
  elsewhere : Elsewhere action.allocationId s s'
  balances  : ∀ (tier : MemoryTier) balance, s'.balances[tier]? = some balance →
                ∃ before, s.balances[tier]? = some before ∧ balance = action.settle tier before
  loads     : s'.pendingLoads = s.pendingLoads
  kept      : ∀ id ∈ s'.placements, id ∈ s.placements
  size      : s'.placements.size ≤ s.placements.size
  active    : s'.activeReservations =
                (releasePressureActionLocked s action).activeReservations

-- A permit of a reachable world is committed.
theorem commit_step (now unixMillis : Nat) (hx : world.Exclusive config)
    (hm : ⟨action⟩ ∈ world.permits) :
    ∃ s, world.apply config (.commitPermit ⟨action⟩ now unixMillis) =
        (.ok .done, removePermit ⟨action⟩ { world with state := s }) ∧
      Settled action world.state s := by
  have hw : Elsewhere action.allocationId world.state
    ((⟨action⟩ : PressureActionPermit).commit config now unixMillis world.state).2 :=
    elsewhere_commit
  cases action
  case demote id source target bytes =>
    obtain ⟨s, he, hs⟩ := commit_demote now unixMillis hx hm rfl
    rw [he] at hw
    let update' (p : Placement) : Placement := { p with tier := target, demotionTarget := none }
    have hp : s.placements = world.state.placements.modify id update' :=
      hs.placements.trans <| (placements_move fun _ => rfl).trans <| by
        rw [placements_releaseAction]
    refine ⟨s, by simp only [apply, World.commitPermit, he], hw, fun tier balance h => ?balance,
      hs.loads, fun id hm => ?kept, ?size, hs.active⟩
    case balance =>
      rw [hs.balances, balances_move, balances_releaseAction] at h
      obtain ⟨_, h₁, he₁⟩ := lookup_modify h
      obtain ⟨_, h₂, he₂⟩ := lookup_modify h₁
      obtain ⟨before, h₃, he₃⟩ := lookup_modify h₂
      exact ⟨before, h₃, by rw [he₁, he₂, he₃]; rfl⟩
    case kept => exact mem_modify.mp (hp ▸ hm)
    case size => exact (hp ▸ size_modify).le
  case evict id source bytes =>
    obtain ⟨s, he, hs⟩ := commit_evict now unixMillis hx hm rfl
    rw [he] at hw
    have hp : s.placements = world.state.placements.erase id :=
      hs.placements.trans <| placements_remove.trans <| by rw [placements_releaseAction]
    refine ⟨s, by simp only [apply, World.commitPermit, he], hw, fun tier balance h => ?balance,
      hs.loads, fun id hm => ?kept, ?size, hs.active⟩
    case balance =>
      rw [hs.balances, balances_remove, balances_releaseAction] at h
      exact lookup_modify h
    case kept => exact (mem_erase.mp (hp ▸ hm)).2
    case size => exact hp ▸ size_erase_le

-- The bytes that an open demotion holds are reserved.
theorem brings_le_reserved (h : world.Covered config) (hm : ⟨action⟩ ∈ world.permits)
    (hb : world.state.balances[tier]? = some balance) :
    action.brings tier ≤ balance.reservedBytes := by
  refine Nat.le_trans ?_ (h.reserved tier balance hb)
  rw [claims_dropPermit hm]
  cases action
  case demote =>
    rw [PressureActionPermit.claim, PressureAction.claim, Option.elim_some, bytesOn_cons]
    exact Nat.le_add_right ..
  case evict => exact Nat.zero_le _

end Permits

-- What a plan has to be like for its actions to be carried out.
structure Feasible (config : MemoryManagerConfig) (s : ManagerState)
    (actions : List PressureAction) : Prop where
  refreshed : s.Refreshed
  distinct  : (actions.map (·.allocationId)).Nodup
  ready     : ∀ action ∈ actions, action.Ready config s
  fits      : ∀ earlier action, earlier ++ [action] <+: actions →
                ∀ claim ∈ action.claim, canAcceptBytes s claim.1 claim.2
                  (incoming earlier claim.1) config.topology config.thresholds

-- What holds while they are carried out. The use of a tier grows by no more than what the tried
-- actions bring to it.
structure Execution.Underway (config : MemoryManagerConfig) (start : World)
    (actions : List PressureAction) (execution : Execution) : Prop where
  reachable    : (system config).Reachable execution.world
  split        : execution.tried ++ execution.remaining = actions
  opened       : execution.opened.map PressureActionPermit.mk ≤ execution.world.permits
  mem_tried    : ∀ action ∈ execution.opened, action ∈ execution.tried
  ready        : ∀ action ∈ execution.remaining, action.Ready config execution.world.state
  observations : execution.world.state.observations = start.state.observations
  load         : ∀ (tier : MemoryTier) balance,
                   execution.world.state.balances[tier]? = some balance →
                   ∃ before, start.state.balances[tier]? = some before ∧
                     ∀ observed, balance.load observed ≤
                       before.load observed + incoming execution.tried tier

section Accounts

variable {config : MemoryManagerConfig} {s s' : ManagerState} {tier : MemoryTier}
variable {account : TierAccount} {bytes : Nat}

theorem account_congr (ho : s'.observations = s.observations) (hb : s'.budgets = s.budgets)
    (ha : s'.tiers[tier]? = some account) :
    ∃ before, s.tiers[tier]? = some before ∧ account.observation = before.observation ∧
      account.budgetBytes = before.budgetBytes := by
  have ho := congrArg (·[tier]?) ho
  simp only [ManagerState.observations, getElem?_map, ha, Option.map_some] at ho
  have ⟨before, hs, he⟩ := Option.map_eq_some_iff.mp ho.symm
  have hb := congrArg (·[tier]?) hb
  simp only [getElem?_budgets, getElem?_balances, ha, hs, Option.map_some, Option.some.injEq] at hb
  exact ⟨before, hs, he.symm, hb⟩

theorem ManagerState.Refreshed.congr (h : s.Refreshed) (ho : s'.observations = s.observations)
    (hb : s'.budgets = s.budgets) : s'.Refreshed := by
  intro tier account ha
  have ⟨before, hs, he, he'⟩ := account_congr ho hb ha
  have ⟨h₁, h₂, h₃, h₄, h₅⟩ := h tier before hs
  refine ⟨he' ▸ h₁, he' ▸ h₂, he ▸ h₃, ?_, ?_⟩
  · rwa [TierAccount.totalBytes, he]
  · rwa [TierAccount.availableBytes, TierAccount.totalBytes, he]

theorem canAcceptBytes_discrete (hs : s.Refreshed) (ha : s.tiers[tier]? = some account)
    (htop : config.topology = .discrete) :
    canAcceptBytes s tier bytes 0 config.topology config.thresholds ↔
      account.projectedUse bytes * BASIS_POINTS <
        config.thresholds.hardBasisPoints * account.effectiveBudget := by
  rw [canAcceptBytes_iff_admits hs ha, Admits, htop]
  simp only [ha, Option.some.injEq, exists_eq_left',
    committedBasisPoints_lt_iff (hs tier account ha).effectiveBudget_pos]

end Accounts

namespace Execution.Underway

variable {config : MemoryManagerConfig} {start : World} {actions rest : List PressureAction}
variable {action : PressureAction} {execution execution' : Execution} {operation : Operation}
variable {result : Result}

theorem init (h : (system config).Reachable start) (hf : Feasible config start.state actions) :
    Underway config start actions ⟨[], actions, 0, 0, start⟩ where
  reachable         := h
  split             := rfl
  opened            := Multiset.zero_le _
  mem_tried _ hm    := absurd hm (Multiset.notMem_zero _)
  ready             := hf.ready
  observations      := rfl
  load _ balance hb := ⟨balance, hb, fun _ => Nat.le_add_right ..⟩

theorem budgets_eq (h : Underway config start actions execution)
    (hr : (system config).Reachable start) :
    execution.world.state.budgets = start.state.budgets :=
  have hb {world} (h : (system config).Reachable world) := ((covered config).reachable h).budgets
  (hb h.reachable).trans (hb hr).symm

-- The bytes of the next demotion still fit its target.
theorem accepted (h : Underway config start actions execution)
    (hr : (system config).Reachable start) (hf : Feasible config start.state actions)
    (hn : execution.remaining = action :: rest) :
    ∀ claim ∈ action.claim, canAcceptBytes execution.world.state claim.1 claim.2 0 config.topology
      config.thresholds := by
  intro ⟨tier, bytes⟩ hc
  have hb := h.budgets_eq hr
  have hs := hf.refreshed.congr h.observations hb
  have hp : execution.tried ++ [action] <+: actions :=
    ⟨rest, by rw [←h.split, hn, List.append_assoc, List.singleton_append]⟩
  have ha := hf.fits _ _ hp _ hc
  have ⟨_, _, _, hm⟩ := (h.ready action (hn ▸ List.mem_cons_self)).stored
  have ⟨htop, _⟩ := hm.discrete hc
  rw [canAcceptBytes_additional] at ha
  have ⟨before, ht⟩ := exists_lookup (mem_tiers_of_canAcceptBytes ha)
  have ⟨account, ht', he, he'⟩ := account_congr h.observations.symm hb.symm ht
  have hl := (canAcceptBytes_discrete hf.refreshed ht htop).mp ha
  refine (canAcceptBytes_discrete hs ht' htop).mpr ?_
  have ⟨balance, hb, hload⟩ := h.load tier account.toTierBalance (balance_of_account .refl ht')
  cases Option.some.inj (hb.symm.trans (balance_of_account .refl ht))
  have hobs : account.observedUsedBytes = before.observedUsedBytes := by
    rw [TierAccount.observedUsedBytes, TierAccount.observedUsedBytes, he]
  have heff : account.effectiveBudget = before.effectiveBudget := by
    rw [TierAccount.effectiveBudget, TierAccount.effectiveBudget, he', TierAccount.totalBytes,
      TierAccount.totalBytes, he]
  rw [heff]
  refine (Nat.mul_le_mul_right _ ?_).trans_lt hl
  calc
    account.projectedUse bytes = account.load before.observedUsedBytes + bytes := by rw [←hobs]; rfl
    _ ≤ before.load before.observedUsedBytes + incoming execution.tried tier + bytes :=
      Nat.add_le_add_right (hload _) _
    _ = before.projectedUse (incoming execution.tried tier + bytes) := Nat.add_assoc ..

-- What the next action does.
theorem begin_cases (h : Underway config start actions execution)
    (hr : (system config).Reachable start) (hf : Feasible config start.state actions)
    (hn : execution.remaining = action :: rest) :
    execution.world.apply config (.beginPressureAction action) = (.ok (.permit ⟨action⟩),
        addPermit ⟨action⟩ { execution.world with
          state := execution.world.state.claimAction ⟨action⟩ }) ∨
    (execution.world.apply config (.beginPressureAction action) =
        (.error (.reservationLimitReached config.maxReservations), execution.world) ∧
      action.claim.isSome ∧ config.maxReservations ≤ execution.world.state.activeReservations) := by
  have ha := h.ready action (hn ▸ List.mem_cons_self)
  refine (begin_of_ready ha (h.accepted hr hf hn)).imp begin_step fun ⟨he, hs⟩ => ⟨?_, hs⟩
  rw [apply, he]
  rfl

theorem mem_permits (h : Underway config start actions execution)
    (hm : action ∈ execution.opened) : ⟨action⟩ ∈ execution.world.permits :=
  Multiset.mem_of_le h.opened (Multiset.mem_map_of_mem _ hm)

-- An action that was tried is about another allocation than those that remain.
theorem ne_of_tried (h : Underway config start actions execution)
    (hf : Feasible config start.state actions) {action' : PressureAction}
    (hm : action ∈ execution.tried) (hm' : action' ∈ execution.remaining) :
    action'.allocationId ≠ action.allocationId := by
  have hd := hf.distinct
  rw [←h.split, List.map_append, List.nodup_append] at hd
  exact fun he => hd.2.2 _ (List.mem_map_of_mem hm) _ (List.mem_map_of_mem hm') he.symm

theorem step (h : Underway config start actions execution) (hr : (system config).Reachable start)
    (hf : Feasible config start.state actions)
    (hs : execution.Step config operation result execution') :
    Underway config start actions execution' := by
  cases hs
  case begun action rest output world hn ha =>
    have hsplit : (execution.tried ++ [action]) ++ rest = actions := by
      rw [←h.split, hn, List.append_assoc, List.singleton_append]
    have hc := (h.begin_cases hr hf hn).resolve_right fun hc => nomatch ha.symm.trans hc.1
    cases ha.symm.trans hc
    have hd : ∀ action' ∈ rest, action'.allocationId ≠ action.allocationId := by
      intro action' hm he
      have hd := hf.distinct
      rw [←h.split, hn, List.map_append, List.map_cons] at hd
      exact (List.nodup_cons.mp hd.of_append_right).1 (List.mem_map.mpr ⟨action', hm, he⟩)
    have hw : Elsewhere action.allocationId execution.world.state
      (execution.world.state.claimAction ⟨action⟩) := .claimAction
    constructor
    case reachable    => exact h.reachable.step (i := .beginPressureAction action) ⟨trivial, hc⟩
    case split        => exact hsplit
    case opened       =>
      rw [Multiset.map_cons]
      exact Multiset.cons_le_cons _ h.opened
    case mem_tried    =>
      intro action' hm
      cases Multiset.mem_cons.mp hm
      case inl he => exact List.mem_append_right _ (List.mem_singleton.mpr he)
      case inr hm => exact List.mem_append_left _ (h.mem_tried _ hm)
    case ready        =>
      intro action' hm
      exact (h.ready action' (hn ▸ List.mem_cons_of_mem _ hm)).elsewhere hw (hd _ hm)
    case observations => exact hw.observations.trans h.observations
    case load         =>
      intro tier balance hb
      have ⟨between, hb, he⟩ := balance_claimAction hb
      have ⟨before, hb, hl⟩ := h.load tier between hb
      refine ⟨before, hb, fun observed => ?_⟩
      rw [he, incoming_concat, ←Nat.add_assoc]
      exact PressureAction.load_hold.trans (Nat.add_le_add_right (hl observed) _)
  case failed action rest error world hn ha =>
    have hsplit : (execution.tried ++ [action]) ++ rest = actions := by
      rw [←h.split, hn, List.append_assoc, List.singleton_append]
    have hc := (h.begin_cases hr hf hn).resolve_left fun hc => nomatch ha.symm.trans hc
    cases ha.symm.trans hc.1
    refine ⟨h.reachable, hsplit, h.opened, fun action' hm => ?_, fun action' hm => ?_,
      h.observations, fun tier balance hb => ?_⟩
    · exact List.mem_append_left _ (h.mem_tried _ hm)
    · exact h.ready action' (hn ▸ List.mem_cons_of_mem _ hm)
    · have ⟨before, hb, hl⟩ := h.load tier balance hb
      refine ⟨before, hb, fun observed => (hl observed).trans ?_⟩
      rw [incoming_concat, ←Nat.add_assoc]
      exact Nat.le_add_right ..
  case committed action now unixMillis world hm ha =>
    have hx := (exclusive config).reachable h.reachable
    have hp := h.mem_permits hm
    have ⟨s, hc, hw⟩ := commit_step now unixMillis hx hp
    cases ha.symm.trans hc
    have ht := h.mem_tried _ hm
    constructor
    case reachable    =>
      exact h.reachable.step (i := .commitPermit ⟨action⟩ now unixMillis) ⟨hp, hc⟩
    case split        => exact h.split
    case opened       =>
      rw [Multiset.map_erase_of_mem _ _ hm]
      exact Multiset.erase_le_erase _ h.opened
    case mem_tried    => exact fun _ hm => h.mem_tried _ (Multiset.mem_of_mem_erase hm)
    case ready        =>
      intro action' hm
      exact (h.ready action' hm).elsewhere hw.elsewhere (h.ne_of_tried hf ht hm)
    case observations => exact hw.elsewhere.observations.trans h.observations
    case load         =>
      intro tier balance hb'
      have ⟨between, hb', he⟩ := hw.balances tier balance hb'
      have ⟨before, hb'', hl⟩ := h.load tier between hb'
      refine ⟨before, hb'', fun observed => ?_⟩
      have hr := brings_le_reserved ((covered config).reachable h.reachable) hp hb'
      exact he ▸ (PressureAction.load_settle hr).trans (hl observed)

end Execution.Underway

section Plans

variable {config : MemoryManagerConfig} {world : World} {s : ManagerState}
variable {tier target : MemoryTier}
variable {eligible : Option (Finset AllocationId)} {required bytes now : Nat}
variable {actions : List PressureAction} {plan : PressureActionPlan} {telemetry : Telemetry}
variable {execution execution' : Execution} {operation : Operation} {result : Result}

theorem underway (h : (system config).Reachable world) (hf : Feasible config world.state actions) :
    (executions config world actions).Invariant (Execution.Underway config world actions) where
  init _ he           := he ▸ .init h hf
  step _ _ _ _ h' hst := h'.step h hf hst

theorem PressureActionPlan.WellFormed.feasible (h : plan.WellFormed config s tier eligible required)
    (hs : s.Refreshed) : Feasible config s plan.actions where
  refreshed       := hs
  distinct        := h.distinct
  ready action hm :=
    have ⟨_, hc, ha⟩ := h.moves action hm
    hc.ready ha
  fits            := h.fits

-- The demotions of a plan fit their target together, because the last one fits after the others.
theorem Feasible.together (h : Feasible config s actions) (hi : 0 < incoming actions target) :
    canAcceptBytes s target (incoming actions target) 0 config.topology config.thresholds := by
  have hp : ∀ earlier, earlier <+: actions → 0 < incoming earlier target →
      canAcceptBytes s target (incoming earlier target) 0 config.topology config.thresholds := by
    intro earlier
    induction earlier using List.reverseRecOn
    case nil => exact fun _ hi => absurd hi (Nat.lt_irrefl 0)
    case append_singleton earlier action hr =>
      intro hp hi
      rw [incoming_concat] at hi ⊢
      by_cases hb : action.brings target = 0
      case pos =>
        rw [hb, Nat.add_zero] at hi ⊢
        exact hr ((List.prefix_append ..).trans hp) hi
      case neg =>
        have hf := h.fits _ _ hp
        rw [PressureAction.brings] at hb ⊢
        cases hc : action.claim
        case none => exact absurd (by rw [hc]; rfl) hb
        case some claim =>
          rw [hc, Option.elim_some] at hb
          have ht : claim.1 = target := by
            by_contra hn
            exact hb (if_neg hn)
          rw [Option.elim_some, if_pos ht, ←canAcceptBytes_additional, ←ht]
          exact hf claim hc
  exact hp actions List.prefix_rfl hi

theorem Execution.Underway.step_result (h : execution.Underway config world actions)
    (hr : (system config).Reachable world) (hf : Feasible config world.state actions)
    (hs : execution.Step config operation result execution') :
    (∃ output, result = .ok output) ∨
    ((∃ action, operation = .beginPressureAction action ∧ action.claim.isSome) ∧
      result = .error (.reservationLimitReached config.maxReservations)) := by
  cases hs
  case begun => exact .inl ⟨_, rfl⟩
  case failed action rest error world' hn ha =>
    have hc := (h.begin_cases hr hf hn).resolve_left fun hc => nomatch ha.symm.trans hc
    cases ha.symm.trans hc.1
    exact .inr ⟨⟨action, rfl, hc.2.1⟩, rfl⟩
  case committed action now unixMillis world' hm ha =>
    have hx := (exclusive config).reachable h.reachable
    have ⟨_, hc, _⟩ := commit_step now unixMillis hx (h.mem_permits hm)
    exact .inl ⟨_, congrArg Prod.fst (ha.symm.trans hc)⟩

-- A plan that is not deferred is well formed, its demotions fit together, and carrying it out fails
-- for want of reservation slots only.
theorem plan_executable (h : (system config).Reachable world)
    (hp : planPressureActionsFor config telemetry tier bytes eligible now world.state =
      (.ok plan, s)) (hd : ¬plan.deferredByCooldown) :
    (∃ account, s.tiers[tier]? = some account ∧
      plan.WellFormed config s tier eligible (requirement config s tier account bytes)) ∧
    (∀ target, 0 < incoming plan.actions target →
      canAcceptBytes s target (incoming plan.actions target) 0 config.topology config.thresholds) ∧
    ∀ execution, (executions config { world with state := s } plan.actions).Reachable execution →
      ∀ operation result execution', execution.Step config operation result execution' →
        (∃ output, result = .ok output) ∨
        ((∃ action, operation = .beginPressureAction action ∧ action.claim.isSome) ∧
          result = .error (.reservationLimitReached config.maxReservations)) := by
  have ⟨account, ha, hw⟩ := plan_wellFormed h hp hd
  have hr := reachable_planned h hp
  have hs : s.Refreshed := by
    have ⟨he, _⟩ := planPressureActionsFor_outcome hp
    refine he ▸ refreshed_of_reachable h ?_
    rw [planPressureActionsFor, withRefreshed] at hp
    split at hp
    case h_1       => cases hp
    case h_2 he => rw [he]; rfl
  have hf := hw.feasible hs
  refine ⟨⟨account, ha, hw⟩, fun _ => hf.together, fun execution he _ _ _ hst => ?_⟩
  exact ((underway hr hf).reachable he).step_result hr hf hst

end Plans

-- The small machine with 840 bytes on the accelerator, which then sees 900 of them in use.

def pressedWorld : World :=
  let reservation := { smallReservation with bytes := 840 }
  let reserved := ((World.new smallConfig).apply smallConfig <|
    .reserveLoad smallTelemetry ⟨1, AllocationId.one_ne_zero⟩ (.accelerator 0) 840 false (some .host)).2
  (reserved.apply smallConfig <| .commitLoad reservation 0).2

theorem reachable_pressedWorld : (system smallConfig).Reachable pressedWorld :=
  reachable_apply (reachable_apply (.init rfl) trivial) <| by
    change _ ∈ (_ : Multiset MemoryReservation)
    decide +kernel

def pressedTelemetry : Telemetry :=
  .ok [⟨.host, 1000, 1000⟩, ⟨.accelerator 0, 1000, 100⟩]

def pressedPlan : PressureActionPlan where
  tier                    := .accelerator 0
  pressure                := .hard
  actions                 := [.demote ⟨1, AllocationId.one_ne_zero⟩ (.accelerator 0) .host 840]
  plannedReliefBytes      := 840
  unresolvedPressureBytes := 0
  deferredByCooldown      := false

theorem plan_executable_small :
    (planPressureActionsFor smallConfig pressedTelemetry (.accelerator 0) 0 none 0
      pressedWorld.state).1 = .ok pressedPlan ∧
    incoming pressedPlan.actions .host = 840 ∧
    canAcceptBytes (planPressureActionsFor smallConfig pressedTelemetry (.accelerator 0) 0 none 0
      pressedWorld.state).2 .host (incoming pressedPlan.actions .host) 0 .discrete .default :=
  have hp : (planPressureActionsFor smallConfig pressedTelemetry (.accelerator 0) 0 none 0
      pressedWorld.state).1 = .ok pressedPlan := by
    decide +kernel
  have hi : incoming pressedPlan.actions .host = 840 := by decide
  ⟨hp, hi, (plan_executable reachable_pressedWorld (Prod.ext hp rfl) (by decide)).2.1 .host
    (hi ▸ by decide)⟩

end RuntimeControl.Memory
