import WerkModel.RuntimeControl.Memory.Readings
import WerkModel.RuntimeControl.Memory.Retry

-- Whether the relief of a plan is enough for the load that it was drawn for.
open Std ExtTreeMap Saturating

namespace RuntimeControl.Memory

open World ManagerState

-- The use that the bytes of a request would lead to, in exact arithmetic.
def projected (config : MemoryManagerConfig) (s : ManagerState) (tier : MemoryTier) (bytes : Nat) :
    Nat :=
  match config.topology with
  | .discrete => (s.tiers[tier]?).elim 0 (·.projectedUse bytes)
  | .unified  => s.pooledUse bytes

section Projection

variable {config : MemoryManagerConfig} {s : ManagerState} {tier : MemoryTier} {bytes : Nat}
variable {account : TierAccount}

theorem reliefUse_eq (ha : s.tiers[tier]? = some account) :
    reliefUse config s tier bytes = min (projected config s tier bytes) u64Max := by
  rw [reliefUse, projected]
  cases config.topology
  case discrete =>
    rw [effectiveAccounting, ha]
    exact add_effectiveUsed
  case unified =>
    rw [effectiveAccounting_unified]
    exact add_pooledUse

theorem admits_iff (hs : s.Refreshed) (ha : s.tiers[tier]? = some account) :
    Admits config s tier bytes ↔ projected config s tier bytes * BASIS_POINTS <
      config.thresholds.hardBasisPoints * reliefBudget config s tier := by
  rw [Admits, projected, reliefBudget]
  cases config.topology
  case discrete =>
    simp only [ha, Option.some.injEq, exists_eq_left', effectiveAccounting, Option.elim_some,
      committedBasisPoints_lt_iff (hs tier account ha).effectiveBudget_pos]
  case unified =>
    simp only [effectiveAccounting_unified, committedBasisPoints_lt_iff (hs.pooledBudget_pos ha)]

end Projection

-- The ways in which relief that meets the target of a plan is not enough for the admission.
inductive Fails (config : MemoryManagerConfig) (s : ManagerState) (tier : MemoryTier)
    (pressure : PressureLevel) (bytes relief : Nat) : Prop
  -- Without hysteresis, the target at emergency pressure is the hard threshold, and the relief ends
  -- exactly there.
  | exact :
    pressure = .emergency → config.thresholds.hysteresisBasisPoints = 0 →
    projected config s tier bytes ≤ u64Max →
    projected config s tier bytes * BASIS_POINTS =
      config.thresholds.hardBasisPoints * reliefBudget config s tier + relief * BASIS_POINTS →
    Fails config s tier pressure bytes relief
  -- The use is not a 64-bit number, and the plan counts a smaller one.
  | saturated {target} :
    u64Max < projected config s tier bytes →
    targetBasisPoints config.thresholds pressure bytes = some target →
    u64Max ≤ reliefBudget config s tier * target / BASIS_POINTS + relief →
    config.thresholds.hardBasisPoints * reliefBudget config s tier ≤
      (projected config s tier bytes - relief) * BASIS_POINTS →
    Fails config s tier pressure bytes relief

section Targets

variable {config : MemoryManagerConfig} {s : ManagerState} {tier : MemoryTier}
variable {bytes relief target : Nat} {account : TierAccount} {pressure : PressureLevel}

theorem target_cases {thresholds : PressureThresholds}
    (h : targetBasisPoints thresholds pressure bytes = some target) :
    target < thresholds.hardBasisPoints ∨
    (pressure = .emergency ∧ thresholds.hysteresisBasisPoints = 0 ∧
      target = thresholds.hardBasisPoints) := by
  have hs := thresholds.soft_lt_hard
  rw [targetBasisPoints.eq_def] at h
  cases pressure
  case normal | soft =>
    cases bytes
    case zero => cases h
    case succ =>
      cases h
      exact .inl (by omega)
  case hard =>
    cases h
    exact .inl (by omega)
  case emergency =>
    cases h
    by_cases hz : thresholds.hysteresisBasisPoints = 0
    case pos => exact .inr ⟨rfl, hz, by rw [hz, Nat.sub_zero]⟩
    case neg => exact .inl (by omega)

theorem targetBasisPoints_ne_none (hb : bytes ≠ 0) :
    ∃ target, targetBasisPoints config.thresholds pressure bytes = some target := by
  rw [targetBasisPoints.eq_def]
  cases config.thresholds.actionTargetBasisPoints pressure
  case some target => exact ⟨target, rfl⟩
  case none =>
    cases bytes
    case zero => exact absurd rfl hb
    case succ => exact ⟨_, rfl⟩

-- Relief meets the target of a plan without being enough, exactly in these ways.
theorem fails_iff (hs : s.Refreshed) (ha : s.tiers[tier]? = some account)
    (ht : targetBasisPoints config.thresholds pressure bytes = some target) :
    (requiredRelief config s tier bytes target ≤ relief ∧
      config.thresholds.hardBasisPoints * reliefBudget config s tier ≤
        (projected config s tier bytes - relief) * BASIS_POINTS) ↔
    Fails config s tier pressure bytes relief := by
  have ⟨hpos, hmax⟩ : 0 < reliefBudget config s tier ∧ _ := reliefBudget_bounds hs ha
  have hlt := config.thresholds.hard_lt_basisPoints
  have hhard := config.thresholds.soft_lt_hard
  have hle : target ≤ config.thresholds.hardBasisPoints :=
    (target_cases ht).elim Nat.le_of_lt fun h => h.2.2.le
  rw [requiredRelief_eq hs ha (by omega), reliefUse_eq ha]
  have hdiv := Nat.div_mul_le_self (reliefBudget config s tier * target) BASIS_POINTS
  have hbp : 0 < config.thresholds.hardBasisPoints * reliefBudget config s tier :=
    Nat.mul_pos (by omega) hpos
  constructor
  case mp =>
    intro ⟨hr, hl⟩
    by_cases hu : projected config s tier bytes ≤ u64Max
    case neg => exact .saturated (by omega) ht (by omega) hl
    case pos =>
      rw [Nat.min_eq_left hu] at hr
      have hq : projected config s tier bytes - relief ≤
          reliefBudget config s tier * target / BASIS_POINTS :=
        Nat.sub_le_of_le_add <| Nat.add_comm .. ▸ Nat.sub_le_iff_le_add.mp hr
      have hm := (Nat.mul_le_mul_right BASIS_POINTS hq).trans hdiv
      cases target_cases ht
      case inl hlt' =>
        have hlt' := Nat.mul_lt_mul_of_pos_left hlt' hpos
        rw [Nat.mul_comm config.thresholds.hardBasisPoints] at hl
        omega
      case inr he =>
        have ⟨hp, hz, he⟩ := he
        rw [he, Nat.mul_comm (reliefBudget config s tier)] at hm
        refine .exact hp hz hu ?_
        have heq := Nat.le_antisymm hl hm
        rw [heq, ←Nat.add_mul, Nat.sub_add_cancel]
        by_contra hn
        rw [Nat.sub_eq_zero_of_le (by omega), Nat.zero_mul] at heq
        omega
  case mpr =>
    intro hf
    cases hf
    case exact hp hz hu he =>
      have htarget : target = config.thresholds.hardBasisPoints := by
        rw [targetBasisPoints.eq_def, hp] at ht
        cases ht
        rw [hz, Nat.sub_zero]
      have hsub : (projected config s tier bytes - relief) * BASIS_POINTS =
          config.thresholds.hardBasisPoints * reliefBudget config s tier := by
        rw [Nat.sub_mul, he, Nat.add_sub_cancel]
      have hquot : reliefBudget config s tier * target / BASIS_POINTS =
          projected config s tier bytes - relief := by
        rw [htarget, Nat.mul_comm, ←hsub, Nat.mul_div_cancel _ (by decide)]
      rw [Nat.min_eq_left hu, hquot]
      exact ⟨by omega, hsub.ge⟩
    case saturated target' hu ht' hr hl =>
      cases ht.symm.trans ht'
      rw [Nat.min_eq_right (by omega)]
      exact ⟨by omega, hl⟩

end Targets

section Relief

variable {config : MemoryManagerConfig} {start : World} {s : ManagerState} {execution : Execution}
variable {tier tier' : MemoryTier} {eligible : Option (Finset AllocationId)}
variable {required bytes : Nat} {plan : PressureActionPlan}

theorem spared_of_pool (hw : plan.WellFormed config s tier eligible required) (ht : s.Tidy)
    (hp : tier' ∈ config.pool tier) : Spared plan.actions tier' := by
  intro action hm claim hc
  obtain ⟨allocation, hca, ha⟩ := hw.moves action hm
  obtain ⟨htop, hd⟩ := ha.discrete hc
  obtain ⟨hh, hn⟩ := (ht _ _ hca.stored).2 _ hd
  rw [MemoryManagerConfig.pool, htop] at hp
  cases Finset.mem_singleton.mp hp
  have hpl := hca.placed.resolve_left fun hu => by
    rw [htop] at hu
    cases hu
  exact fun he => hn (hpl.trans (he.symm.trans hh))

-- An account of the pool before and after the actions of the plan.
structure Aftermath (actions : List PressureAction) (tier : MemoryTier)
    (before after : TierAccount) : Prop where
  budget   : after.budgetBytes = before.budgetBytes
  reserved : after.reservedBytes = before.reservedBytes
  managed  : after.managedUsedBytes = before.managedUsedBytes - freedOn actions tier
  freed    : freedOn actions tier ≤ before.managedUsedBytes

theorem exists_aftermath (hr : (system config).Reachable start)
    (hw : plan.WellFormed config start.state tier eligible required)
    (hd : Execution.Drained start plan.actions execution)
    (hu : execution.Underway config start plan.actions)
    (hc : execution.committed = (plan.actions : Multiset PressureAction))
    (hs : execution.world.state.SameBooks s) (ht : tier' ∈ config.tiers)
    (hp : tier' ∈ config.pool tier) :
    ∃ before after, start.state.tiers[tier']? = some before ∧ s.tiers[tier']? = some after ∧
      Aftermath plan.actions tier' before after := by
  have hcov := (covered config).reachable hr
  have hb := ((covered config).reachable hu.reachable).budgets_of_sameBooks hs
  rw [←keySet_tiers hb, mem_keySet_iff] at ht
  have ⟨after, ha⟩ := exists_lookup ht
  have ⟨balance, hl, hres, hman⟩ :=
    hd.spared tier' (spared_of_pool hw ((tidy config).reachable hr).state hp) _
      (balance_of_account hs ha)
  rw [getElem?_balances] at hl
  have ⟨before, hb₁, he⟩ := Option.map_eq_some_iff.mp hl
  cases he
  refine ⟨before, after, hb₁, ha, ?budget, hres, hc ▸ hman, ?freed⟩
  case budget =>
    have hb' := congrArg (·[tier']?) (hb.trans hcov.budgets.symm)
    simpa [getElem?_budgets, getElem?_balances, ha, hb₁] using hb'
  case freed =>
    have hf : freedOn plan.actions tier' ≤ start.state.allocatedOn tier' :=
      relief_le_allocatedOn hw.distinct hw.moves
    exact hf.trans (hcov.managed _ _ (balance_of_account .refl hb₁))

theorem sum_freedOn (hr : (system config).Reachable start)
    (hw : plan.WellFormed config start.state tier eligible required) :
    ∑ tier ∈ config.pool tier, freedOn plan.actions tier = plan.plannedReliefBytes := by
  rw [hw.relief]
  exact (reliefOf_eq_sum ((covered config).reachable hr) hw.moves).symm

-- The relief is taken from the use that a request leads to, and the budget is as it was.
theorem projected_relieved (hr : (system config).Reachable start)
    (hw : plan.WellFormed config start.state tier eligible required)
    (hd : Execution.Drained start plan.actions execution)
    (hu : execution.Underway config start plan.actions)
    (hc : execution.committed = (plan.actions : Multiset PressureAction))
    (hs : execution.world.state.SameBooks s) (ht : tier ∈ config.tiers)
    (hv : Relieved config start.state s tier plan.plannedReliefBytes) :
    projected config s tier bytes =
        projected config start.state tier bytes - plan.plannedReliefBytes ∧
      reliefBudget config s tier = reliefBudget config start.state tier := by
  have hsum := sum_freedOn hr hw
  rw [MemoryManagerConfig.pool] at hsum
  rw [Relieved] at hv
  rw [projected, projected, reliefBudget, reliefBudget]
  have hafter {tier' : MemoryTier} (ht : tier' ∈ config.tiers) (hp : tier' ∈ config.pool tier) :
      ∃ before after, start.state.tiers[tier']? = some before ∧ s.tiers[tier']? = some after ∧ _ :=
    exists_aftermath hr hw hd hu hc hs ht hp
  simp only [MemoryManagerConfig.pool] at hafter
  cases htop : config.topology
  case discrete =>
    simp only [htop] at hsum hv hafter ⊢
    rw [Finset.sum_singleton] at hsum
    obtain ⟨before, after, hb, ha, hm⟩ := hafter ht (Finset.mem_singleton_self _)
    obtain ⟨htot, hobs⟩ := hv before after hb ha
    have hf := hm.freed
    have hman := hm.managed
    rw [hsum] at hf hman
    simp only [effectiveAccounting, ha, hb, Option.elim_some, TierAccount.projectedUse,
      TierAccount.effectiveBudget, htot, hm.budget, and_true, hobs, hman, hm.reserved]
    omega
  case unified =>
    simp only [htop] at hsum hv hafter ⊢
    have hks := keySet_tiers (((covered config).reachable hu.reachable).budgets_of_sameBooks hs)
    have hkb := keySet_tiers ((covered config).reachable hr).budgets
    have hagree {α} {f : TierAccount → α} (hf : ∀ tier' before after,
        start.state.tiers[tier']? = some before → s.tiers[tier']? = some after →
        Aftermath plan.actions tier' before after → f after = f before) :
        s.tiers.valueList.map f = start.state.tiers.valueList.map f := by
      refine valueList_map_congr fun tier' => ?_
      by_cases hm : tier' ∈ config.tiers
      case pos =>
        obtain ⟨before, after, hb, ha, hm⟩ := hafter hm hm
        rw [hb, ha, Option.map_some, Option.map_some, hf tier' before after hb ha hm]
      case neg =>
        have hn := hm
        rw [←hks, mem_keySet_iff] at hm
        rw [←hkb, mem_keySet_iff] at hn
        rw [getElem?_eq_none hm, getElem?_eq_none hn]
    have hres : s.tiers.valueSum (·.reservedBytes) = start.state.tiers.valueSum (·.reservedBytes) :=
      congrArg List.sum <| hagree fun _ _ _ _ _ hm => hm.reserved
    have hman : s.tiers.valueSum (·.managedUsedBytes) + plan.plannedReliefBytes =
        start.state.tiers.valueSum (·.managedUsedBytes) := by
      rw [valueSum_eq_sum, valueSum_eq_sum, hks, hkb, ←hsum, ←Finset.sum_add_distrib]
      refine Finset.sum_congr rfl fun tier' hm => ?_
      obtain ⟨before, after, hb, ha, hm⟩ := hafter hm hm
      rw [hb, ha, Option.elim_some, Option.elim_some, hm.managed, Nat.sub_add_cancel hm.freed]
    have hbud : s.pooledBudget = start.state.pooledBudget := by
      refine congrArg (·.min?.getD 0) <| hagree fun tier' before after hb ha hm => ?_
      rw [TierAccount.effectiveBudget, TierAccount.effectiveBudget, hm.budget,
        hv.1 tier' before after hb ha]
    rw [effectiveAccounting_unified, effectiveAccounting_unified]
    refine ⟨?_, hbud⟩
    simp only [pooledUse, hv.2, hres]
    omega

end Relief

-- The bytes of some allocations.
def sizeOfIds (s : ManagerState) (ids : Finset AllocationId) : Nat :=
  ∑ id ∈ ids, (s.allocations[id]?).elim 0 (·.bytes)

-- Some allocations that a plan may choose free enough for its target, but not for the admission.
def Shortfall (config : MemoryManagerConfig) (s : ManagerState) (tier : MemoryTier) (bytes : Nat) :
    Prop :=
  ∃ account, s.tiers[tier]? = some account ∧ ∃ ids : Finset AllocationId,
    (∀ id ∈ ids, ∃ allocation, allocation.id = id ∧ Candidate config s tier none allocation) ∧
    ids.card ≤ config.maxActionsPerCycle ∧
    Fails config s tier account.pressure bytes (sizeOfIds s ids)

section Plans

variable {config : MemoryManagerConfig} {s s' : ManagerState} {world : World} {tier : MemoryTier}
variable {eligible : Option (Finset AllocationId)} {required bytes now target : Nat}
variable {actions : List PressureAction} {account : TierAccount} {telemetry : Telemetry}
variable {plan : PressureActionPlan} {ids : Finset AllocationId}

theorem reliefOf_eq_sizeOfIds (hd : (actions.map (·.allocationId)).Nodup)
    (hm : ∀ action ∈ actions, ∃ allocation, Candidate config s tier eligible allocation ∧
      action.Moves config allocation) :
    reliefOf actions = sizeOfIds s (actions.map (·.allocationId)).toFinset := by
  rw [sizeOfIds, List.sum_toFinset _ hd, List.map_map, reliefOf]
  refine congrArg List.sum <| List.map_congr_left fun action ha => ?_
  obtain ⟨allocation, hc, hv⟩ := hm action ha
  have hl : s.allocations[action.allocationId]? = some allocation := hv.id_eq ▸ hc.stored
  simp only [Function.comp_apply, hl, Option.elim_some]
  exact hv.bytes_eq

-- A plan whose eligible allocations are enough for its target relieves enough, and no more than what
-- they free.
theorem Planning.Chosen.suffices {planning : Planning}
    (h : planning.Chosen config s tier (some ids) required) (ht : s.Tidy)
    (hd : planning.Done config required ∨
      ∀ a ∈ planCandidates config s tier (some ids), a.id ∈ planning.plannedIds)
    (hi : ∀ id ∈ ids, ∃ allocation, allocation.id = id ∧ Candidate config s tier none allocation)
    (hc : ids.card ≤ config.maxActionsPerCycle) (hr : required ≤ sizeOfIds s ids) :
    required ≤ reliefOf planning.actions ∧ reliefOf planning.actions ≤ sizeOfIds s ids := by
  have hm (action) (ha : action ∈ planning.actions) : ∃ allocation,
      Candidate config s tier (some ids) allocation ∧ action.Moves config allocation := by
    have ⟨allocation, hm, hv⟩ := h.moves action ha
    exact ⟨allocation, (mem_planCandidates ht).mp hm, hv⟩
  have he := reliefOf_eq_sizeOfIds h.distinct hm
  have hsub : (planning.actions.map (·.allocationId)).toFinset ⊆ ids := by
    intro id hid
    have ⟨action, ha, hid⟩ := List.mem_map.mp (List.mem_toFinset.mp hid)
    have ⟨allocation, hc, hv⟩ := hm action ha
    exact hid ▸ hv.id_eq ▸ hc.eligible ids rfl
  have hall (hs : ids ⊆ (planning.actions.map (·.allocationId)).toFinset) :
      required ≤ reliefOf planning.actions := by
    rw [he, Finset.Subset.antisymm hsub hs]
    exact hr
  refine ⟨?_, he ▸ Finset.sum_le_sum_of_subset hsub⟩
  cases hd
  case inl hd =>
    cases hd
    case inl hd => exact hd.trans (h.relieved.trans_le (Nat.min_le_left ..))
    case inr hd =>
      refine hall (Finset.eq_of_subset_of_card_le hsub ?_).ge
      rw [List.toFinset_card_of_nodup h.distinct, List.length_map]
      exact hc.trans hd
  case inr hd =>
    refine hall fun id hid => ?_
    have ⟨allocation, ha, hca⟩ := hi id hid
    have hmem : allocation ∈ planCandidates config s tier (some ids) := by
      refine (mem_planCandidates ht).mpr { hca with eligible := fun ids' hids => ?_ }
      exact Option.mem_some_iff.mp hids ▸ ha ▸ hid
    exact List.mem_toFinset.mpr (ha ▸ (h.ids _).mp (hd _ hmem))

-- The plan that is drawn once the cooldown is over.
theorem planRelief_eq (ha : s.tiers[tier]? = some account)
    (ht : targetBasisPoints config.thresholds account.pressure bytes = some target)
    (hn : ∀ last ∈ lastAction config s account, config.actionCooldownMillis ≤ now - last) :
    planRelief config tier bytes eligible now s = .ok
      (if requiredRelief config s tier bytes target = 0 then
        emptyActionPlan tier account.pressure false
      else
        drawnPlan config s tier account.pressure (requiredRelief config s tier bytes target)
          eligible) := by
  rw [planRelief, ha]
  simp only [ht]
  have hn' : ¬∃ last ∈ lastAction config s account, now - last < config.actionCooldownMillis := by
    rintro ⟨last, hl, hlt⟩
    exact absurd (hn last hl) (Nat.not_le.mpr hlt)
  by_cases hr : requiredRelief config s tier bytes target = 0
  case pos => rw [if_pos hr, if_pos hr]
  case neg =>
    rw [if_neg hr, if_neg hr, if_neg hn']
    rfl

theorem exists_now (last : Option Nat) (cooldown : Nat) :
    ∃ now, ∀ at' ∈ last, cooldown ≤ now - at' := by
  refine ⟨last.getD 0 + cooldown, fun at' ha => ?_⟩
  cases Option.mem_def.mp ha
  exact (Nat.add_sub_cancel_left ..).ge

end Plans

-- A load that is retried once all actions of a plan for it are committed is granted, if the telemetry
-- then shows the relief of the plan and there is a free slot.
def Sufficient (config : MemoryManagerConfig) (world : World) (telemetry : Telemetry)
    (id : AllocationId) (tier : MemoryTier) (bytes : Nat) (pinned : Bool)
    (demotionTarget : Option MemoryTier) : Prop :=
  ∀ eligible now plan s,
    planForReservation config telemetry tier bytes eligible now world.state = (.ok plan, s) →
    plan.unresolvedPressureBytes = 0 →
    ∀ execution telemetry',
      (executions config { world with state := s } plan.actions).Reachable execution →
      execution.committed = (plan.actions : Multiset PressureAction) →
      (sampleTelemetry execution.world.state telemetry').isOk →
      Relieved config s (execution.world.state.refreshed config telemetry') tier
        plan.plannedReliefBytes →
      execution.world.state.activeReservations < config.maxReservations →
      ∃ reservation, (reserveLoad config telemetry' id tier bytes pinned demotionTarget
        execution.world.state).1 = .ok reservation

section Retries

variable {config : MemoryManagerConfig} {world start : World} {s : ManagerState} {tier : MemoryTier}
variable {eligible : Option (Finset AllocationId)} {required bytes now : Nat} {pinned : Bool}
variable {id : AllocationId} {demotionTarget : Option MemoryTier} {account : TierAccount}
variable {telemetry telemetry' : Telemetry} {samples : List MemoryObservation}
variable {plan : PressureActionPlan} {execution : Execution}

-- The retry is granted if the relief brings the use below the hard threshold.
theorem retry_iff (hr : (system config).Reachable start) (hs : start.state.Refreshed)
    (hw : plan.WellFormed config start.state tier eligible required)
    (hl : Loadable config start.state id tier demotionTarget) (hb : bytes ≠ 0)
    (ha : start.state.tiers[tier]? = some account)
    (he : (executions config start plan.actions).Reachable execution)
    (hc : execution.committed = (plan.actions : Multiset PressureAction))
    (ho : (sampleTelemetry execution.world.state telemetry').isOk)
    (hv : Relieved config start.state (execution.world.state.refreshed config telemetry') tier
      plan.plannedReliefBytes)
    (hn : execution.world.state.activeReservations < config.maxReservations) :
    (∃ reservation, (reserveLoad config telemetry' id tier bytes pinned demotionTarget
      execution.world.state).1 = .ok reservation) ↔
    (projected config start.state tier bytes - plan.plannedReliefBytes) * BASIS_POINTS <
      config.thresholds.hardBasisPoints * reliefBudget config start.state tier := by
  have ⟨hu, hd⟩ := (drained hr (hw.feasible hs)).reachable he
  have hsame : execution.world.state.SameBooks
    (execution.world.state.refreshed config telemetry') := sameBooks_refreshed
  have hkeys : (execution.world.state.refreshed config telemetry').tiers.keySet =
      start.state.tiers.keySet :=
    (keySet_tiers (((covered config).reachable hu.reachable).budgets_of_sameBooks hsame)).trans
      (keySet_tiers ((covered config).reachable hr).budgets).symm
  have hmem (tier') : tier' ∈ (execution.world.state.refreshed config telemetry').tiers ↔
      tier' ∈ start.state.tiers := by
    rw [←mem_keySet_iff, hkeys, mem_keySet_iff]
  have ht : tier ∈ config.tiers := by
    rw [←keySet_tiers ((covered config).reachable hr).budgets, mem_keySet_iff]
    exact mem_of_lookup ha
  have hin := (hmem tier).mpr (mem_of_lookup ha)
  have ⟨account', ha'⟩ := exists_lookup hin
  have hload := (hl.mono hd.loads hd.kept hd.size fun tier' hm =>
    mem_tiers_refreshed.mp ((hmem tier').mpr hm)).of_sameBooks hsame
  have hfresh := refreshed_of_reachable hu.reachable ho
  have hrel : projected config _ tier bytes = _ ∧ _ := projected_relieved hr hw hd hu hc hsame ht hv
  have ⟨hp, hbud⟩ := hrel
  rw [reserveLoad_iff ho hload hfresh hb (hsame.active ▸ hn) hin, admits_iff hfresh ha', hp, hbud]

theorem planPressureActionsFor_refreshed (ho : (sampleTelemetry world.state telemetry).isOk) :
    planPressureActionsFor config telemetry tier bytes eligible now world.state =
      (planRelief config tier bytes eligible now (world.state.refreshed config telemetry),
        world.state.refreshed config telemetry) := by
  rw [planPressureActionsFor, withRefreshed, ManagerState.refreshed]
  cases hs : sampleTelemetry world.state telemetry
  case error => rw [hs] at ho; cases ho
  case ok    => rfl

-- Allocations that are enough for the target are planned, as far as they are needed.
theorem exists_plan {ids : Finset AllocationId} {target} (hr : (system config).Reachable world)
    (ho : (sampleTelemetry world.state telemetry).isOk)
    (hs : s = world.state.refreshed config telemetry) (ha : s.tiers[tier]? = some account)
    (ht : targetBasisPoints config.thresholds account.pressure bytes = some target)
    (hi : ∀ id ∈ ids, ∃ allocation, allocation.id = id ∧ Candidate config s tier none allocation)
    (hc : ids.card ≤ config.maxActionsPerCycle)
    (hq : requiredRelief config s tier bytes target ≤ sizeOfIds s ids) :
    ∃ now plan, planPressureActionsFor config telemetry tier bytes (some ids) now world.state =
        (.ok plan, s) ∧ plan.unresolvedPressureBytes = 0 ∧ ¬plan.deferredByCooldown ∧
      plan.plannedReliefBytes ≤ sizeOfIds s ids := by
  have ⟨now, hnow⟩ := exists_now (lastAction config s account) config.actionCooldownMillis
  have hp : planPressureActionsFor config telemetry tier bytes (some ids) now world.state = _ :=
    planPressureActionsFor_refreshed ho
  rw [←hs, planRelief_eq ha ht hnow] at hp
  refine ⟨now, _, hp, ?_⟩
  split
  case isTrue => exact ⟨rfl, nofun, Nat.zero_le _⟩
  case isFalse =>
    have hready : (system config).Reachable { world with state := s } := reachable_planned hr hp
    have htidy := ((tidy config).reachable hready).state
    have hm : tier ∈ config.tiers := by
      rw [←keySet_tiers ((covered config).reachable hready).budgets, mem_keySet_iff]
      exact mem_of_lookup ha
    have hw : (drawnPlan config s tier account.pressure (requiredRelief config s tier bytes target)
        (some ids)).WellFormed config s tier (some ids) _ :=
      drawnPlan_wellFormed ((covered config).reachable hready) htidy hm
    have ⟨hle, hge⟩ := (planning_chosen htidy).suffices htidy planning_complete hi hc hq
    have he : (drawnPlan config s tier account.pressure _ (some ids)).plannedReliefBytes =
      reliefOf _ := hw.relief
    refine ⟨?_, nofun, he.trans_le hge⟩
    exact hw.unresolved.trans (Nat.sub_eq_zero_of_le (hle.trans he.ge))

-- A shortfall is met by the plan that may choose from its allocations only.
theorem not_sufficient (hr : (system config).Reachable world)
    (hl : Loadable config world.state id tier demotionTarget) (hb : bytes ≠ 0)
    (hn : world.state.activeReservations < config.maxReservations)
    (ho : (sampleTelemetry world.state telemetry).isOk)
    (hf : Shortfall config (world.state.refreshed config telemetry) tier bytes) :
    ¬Sufficient config world telemetry id tier bytes pinned demotionTarget := by
  intro hsuff
  have ⟨account, ha, ids, hids, hcard, hfails⟩ := hf
  have htarget : ∃ target, targetBasisPoints config.thresholds account.pressure bytes = some target :=
    targetBasisPoints_ne_none hb
  have ⟨target, ht⟩ := htarget
  have hs : (world.state.refreshed config telemetry).Refreshed := refreshed_of_reachable hr ho
  have ⟨hreq, hshort⟩ := (fails_iff hs ha ht).mpr hfails
  have ⟨now, plan, hp, hu, hd, hle⟩ := exists_plan hr ho rfl ha ht hids hcard hreq
  have hr' := reachable_planned hr hp
  have ⟨_, _, hw⟩ := plan_wellFormed hr hp hd
  have hsame : world.state.SameBooks (world.state.refreshed config telemetry) := sameBooks_refreshed
  have ⟨execution, he, hc, ha'⟩ := exists_complete hr' (hw.feasible hs) (hsame.active ▸ hn)
  have hbud := ((covered config).reachable hr').budgets
  have hu' := (underway hr' (hw.feasible hs)).reachable he
  have hread : (sampleTelemetry execution.world.state (.ok (reading _ _))).isOk ∧
    Relieved config _ _ tier plan.plannedReliefBytes :=
    relieved_reading hs hbud ((covered config).reachable hu'.reachable).budgets
  have hfree : execution.world.state.activeReservations < config.maxReservations :=
    ha' ▸ hsame.active ▸ hn
  have hgranted := hsuff _ now plan _ ((if_neg hb).trans hp) hu execution _ he hc hread.1 hread.2
    hfree
  have hlt := (retry_iff hr' hs hw (hl.of_sameBooks hsame) hb ha he hc hread.1 hread.2 hfree).mp
    hgranted
  have hmul := Nat.mul_le_mul_right BASIS_POINTS <| Nat.sub_le_sub_left hle
    (projected config (world.state.refreshed config telemetry) tier bytes)
  exact absurd (hlt.trans_le (hshort.trans hmul)) (Nat.lt_irrefl _)

theorem requirement_eq {target}
    (ht : targetBasisPoints config.thresholds account.pressure bytes = some target) :
    requirement config s tier account bytes = requiredRelief config s tier bytes target := by
  rw [requirement, ht, Option.elim_some]

-- The allocations of a plan that relieves what is required, but not enough.
theorem shortfall_of_plan {target} (hs : s.Refreshed) (ha : s.tiers[tier]? = some account)
    (ht : targetBasisPoints config.thresholds account.pressure bytes = some target)
    (hw : plan.WellFormed config s tier eligible (requirement config s tier account bytes))
    (hu : plan.unresolvedPressureBytes = 0)
    (hd : config.thresholds.hardBasisPoints * reliefBudget config s tier ≤
      (projected config s tier bytes - plan.plannedReliefBytes) * BASIS_POINTS) :
    Shortfall config s tier bytes := by
  have he : plan.plannedReliefBytes = sizeOfIds s (plan.actions.map (·.allocationId)).toFinset :=
    hw.relief.trans (reliefOf_eq_sizeOfIds hw.distinct hw.moves)
  have hr := Nat.le_of_sub_eq_zero (hw.unresolved.symm.trans hu)
  rw [requirement_eq ht] at hr
  refine ⟨account, ha, _, fun id hm => ?_, ?_, he ▸ (fails_iff hs ha ht).mp ⟨hr, hd⟩⟩
  · have ⟨action, hm, hid⟩ := List.mem_map.mp (List.mem_toFinset.mp hm)
    have ⟨allocation, hc, hv⟩ := hw.moves action hm
    exact ⟨allocation, hv.id_eq.symm.trans hid, { hc with eligible := nofun }⟩
  · rw [List.toFinset_card_of_nodup hw.distinct, List.length_map]
    exact hw.limit

theorem reachable_refused {error} (h : (system config).Reachable world)
    (hd : reserveLoad config telemetry id tier bytes pinned demotionTarget world.state =
      (.error error, s)) : (system config).Reachable { world with state := s } := by
  have hr : (system config).Reachable (world.apply config
      (.reserveLoad telemetry id tier bytes pinned demotionTarget)).2 :=
    reachable_apply h trivial
  simpa only [World.apply, hd, World.settle] using hr

-- The plan for a load that was denied relieves enough for it, exactly if no shortfall is possible.
theorem relief_sufficient_iff {tier' bytes' reason} (h : (system config).Reachable world)
    (hd : reserveLoad config (.ok samples) id tier bytes pinned demotionTarget world.state =
      (.error (.reservationDenied tier' bytes' reason), s)) :
    Sufficient config { world with state := s } telemetry id tier bytes pinned demotionTarget ↔
      ((sampleTelemetry s telemetry).isOk →
        ¬Shortfall config (s.refreshed config telemetry) tier bytes) := by
  obtain ⟨_, hl, hb, hn, ht⟩ := reserveLoad_denied hd
  have hr := reachable_refused h hd
  constructor
  case mp => exact fun hsuff ho hf => not_sufficient hr hl hb hn ho hf hsuff
  case mpr =>
    intro hf eligible now plan s' hp hu execution telemetry' he hc ho' hv hfree
    rw [planForReservation, if_neg hb] at hp
    have ho : (sampleTelemetry s telemetry).isOk := by
      rw [planPressureActionsFor, withRefreshed] at hp
      split at hp
      case h_1      => cases hp
      case h_2 _ hs => exact hs ▸ rfl
    obtain ⟨hs', account, ha, hout⟩ := planPressureActionsFor_outcome hp
    have hdef : ¬plan.deferredByCooldown := by
      cases hout
      case deferred hz => exact absurd hu hz
      all_goals exact Bool.false_ne_true
    obtain ⟨account', ha', hw⟩ := plan_wellFormed hr hp hdef
    cases ha.symm.trans ha'
    have hs : s'.Refreshed := hs' ▸ refreshed_of_reachable hr ho
    have htarget :
        ∃ target, targetBasisPoints config.thresholds account.pressure bytes = some target :=
      targetBasisPoints_ne_none hb
    obtain ⟨target, htarget⟩ := htarget
    have hl' : Loadable config s' id tier demotionTarget :=
      hl.of_sameBooks (hs' ▸ sameBooks_refreshed)
    refine (retry_iff (reachable_planned hr hp) hs hw hl' hb ha he hc ho' hv hfree).mpr ?_
    by_contra hlt
    exact hf ho (hs' ▸ shortfall_of_plan hs ha htarget hw hu (Nat.not_lt.mp hlt))

end Retries

-- A host with 1000 bytes and no hysteresis, 150 of them allocated and 950 seen in use. A request for 50
-- bytes is planned down to 850 bytes in use, which is the hard threshold.

def strictConfig : MemoryManagerConfig where
  budgets              := [⟨.host, 1000, smallBudget_le⟩]
  topology             := .discrete
  thresholds           := {
    softBasisPoints       := 7500
    hardBasisPoints       := 8500
    emergencyBasisPoints  := 9500
    hysteresisBasisPoints := 0
    soft_pos              := PressureThresholds.default.soft_pos
    soft_lt_hard          := PressureThresholds.default.soft_lt_hard
    hard_lt_emergency     := PressureThresholds.default.hard_lt_emergency
    emergency_le          := PressureThresholds.default.emergency_le
    hysteresis_lt_soft    := PressureThresholds.default.soft_pos
    hysteresis_lt_gap     := by decide
    hysteresis_lt_gap'    := by decide
  }
  actionCooldownMillis := 0
  maxAllocations       := 2
  maxReservations      := 2
  maxActionsPerCycle   := 2
  budgets_pos          := by decide
  budgets_nodup        := by decide
  host_mem             := by decide
  budgets_length       := by decide
  cooldown_le          := smallConfig.cooldown_le
  allocations_limit    := smallConfig.allocations_limit
  reservations_limit   := smallConfig.reservations_limit
  actions_limit        := smallConfig.actions_limit

def strictReservation : MemoryReservation where
  tier    := .host
  bytes   := 150
  binding := .load ⟨1, AllocationId.one_ne_zero⟩ false none

def strictWorld : World :=
  let reserved := ((World.new strictConfig).apply strictConfig <|
    .reserveLoad (.ok [⟨.host, 1000, 1000⟩]) ⟨1, AllocationId.one_ne_zero⟩ .host 150 false none).2
  (reserved.apply strictConfig <| .commitLoad strictReservation 0).2

theorem reachable_strictWorld : (system strictConfig).Reachable strictWorld :=
  reachable_apply (reachable_apply (.init rfl) trivial) <| by
    change _ ∈ (_ : Multiset MemoryReservation)
    decide +kernel

def strictSamples : List MemoryObservation :=
  [⟨.host, 1000, 50⟩]

-- The manager after the denied request.
def strictState : ManagerState :=
  (reserveLoad strictConfig (.ok strictSamples) ⟨2, AllocationId.two_ne_zero⟩ .host 50 false none
    strictWorld.state).2

def strictAllocation : ManagedAllocation where
  id             := ⟨1, AllocationId.one_ne_zero⟩
  tier           := .host
  bytes          := 150
  pinned         := false
  demotionTarget := none
  lastUsedMillis := 0

def strictAccount : TierAccount where
  budgetBytes        := 1000
  managedUsedBytes   := 150
  reservedBytes      := 0
  activeReservations := 0
  pressure           := .emergency
  lastActionMillis   := none
  observation        := some ⟨.host, 1000, 50⟩

theorem shortfall_strictState :
    Shortfall strictConfig (strictState.refreshed strictConfig (.ok strictSamples)) .host 50 := by
  have ha : (strictState.refreshed strictConfig (.ok strictSamples)).tiers[MemoryTier.host]? =
      some strictAccount := by
    decide +kernel
  refine ⟨strictAccount, ha, {strictAllocation.id}, fun id hm => ?_, by decide, ?_⟩
  · refine ⟨strictAllocation, (Finset.mem_singleton.mp hm).symm, ?_⟩
    exact ⟨by decide +kernel, .inr rfl, nofun, nofun, by decide +kernel, by decide +kernel⟩
  · exact .exact rfl rfl (by decide +kernel) (by decide +kernel)

theorem relief_not_sufficient :
    (system strictConfig).Reachable strictWorld ∧
    (∃ reason, reserveLoad strictConfig (.ok strictSamples) ⟨2, AllocationId.two_ne_zero⟩ .host 50 false none
      strictWorld.state = (.error (.reservationDenied .host 50 reason), strictState)) ∧
    ¬Sufficient strictConfig { strictWorld with state := strictState } (.ok strictSamples)
      ⟨2, AllocationId.two_ne_zero⟩ .host 50 false none := by
  have hd : (reserveLoad strictConfig (.ok strictSamples) ⟨2, AllocationId.two_ne_zero⟩ .host 50 false none
      strictWorld.state).1 = .error
        (.reservationDenied .host 50 "projected pressure would be hard or emergency") := by
    decide +kernel
  have hr := reachable_refused reachable_strictWorld (Prod.ext hd rfl)
  have ⟨_, hl, hb, hn, _⟩ := reserveLoad_denied (Prod.ext hd rfl)
  exact ⟨reachable_strictWorld, ⟨_, Prod.ext hd rfl⟩,
    not_sufficient hr hl hb hn (by decide +kernel) shortfall_strictState⟩


-- The pressed machine has hysteresis, so what is planned there is enough.
theorem relief_sufficient_small :
    Sufficient smallConfig
      { pressedWorld with
        state := (reserveLoad smallConfig pressedTelemetry ⟨2, AllocationId.two_ne_zero⟩ (.accelerator 0) 50 false
          none pressedWorld.state).2 }
      pressedTelemetry ⟨2, AllocationId.two_ne_zero⟩ (.accelerator 0) 50 false none := by
  have hd : (reserveLoad smallConfig pressedTelemetry ⟨2, AllocationId.two_ne_zero⟩ (.accelerator 0) 50 false none
      pressedWorld.state).1 = .error (.reservationDenied (.accelerator 0) 50
        "projected pressure would be hard or emergency") := by
    decide +kernel
  refine (relief_sufficient_iff reachable_pressedWorld (Prod.ext hd rfl)).mpr fun _ hf => ?_
  have ⟨account, _, ids, _, _, hf⟩ := hf
  cases hf
  case exact hz _ _         => exact absurd hz (by decide)
  case saturated _ hu _ _ _ => exact absurd hu (by decide +kernel)

end RuntimeControl.Memory
