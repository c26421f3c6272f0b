import WerkModel.RuntimeControl.Memory.Capacity
import WerkModel.RuntimeControl.Memory.Hysteresis

-- What the overlapping tests of an admission come down to on refreshed accounts: the projected use of
-- the tier, or of the shared pool, stays below the hard threshold of its budget.
open Std ExtTreeMap Saturating

namespace RuntimeControl.Memory

-- An account after a refresh with valid telemetry.
structure TierAccount.Refreshed (account : TierAccount) : Prop where
  budget_pos   : 0 < account.budgetBytes
  budget_le    : account.budgetBytes ≤ u64Max
  observed     : account.observation.isSome
  total_pos    : 0 < account.totalBytes
  available_le : account.availableBytes ≤ account.totalBytes

def ManagerState.Refreshed (s : ManagerState) : Prop :=
  ∀ (tier : MemoryTier) account, s.tiers[tier]? = some account → account.Refreshed

-- The use that an admission of `bytes` projects, in exact arithmetic.
def TierAccount.projectedUse (account : TierAccount) (bytes : Nat) : Nat :=
  max account.observedUsedBytes account.managedUsedBytes + account.reservedBytes + bytes

namespace ManagerState

-- The same for the shared pool, with the smallest budget that a tier leaves it.
def observedPeak (s : ManagerState) : Nat :=
  (s.tiers.valueList.map TierAccount.observedUsedBytes).max?.getD 0

def pooledUse (s : ManagerState) (bytes : Nat) : Nat :=
  max s.observedPeak (s.tiers.valueSum (·.managedUsedBytes)) + s.tiers.valueSum (·.reservedBytes) +
    bytes

def pooledBudget (s : ManagerState) : Nat :=
  (s.tiers.valueList.map TierAccount.effectiveBudget).min?.getD 0

end ManagerState

section Accounts

variable {thresholds : PressureThresholds} {account : TierAccount} {used budget bytes : Nat}

theorem utilization_lt_iff (hb : 0 < budget) :
    utilizationBasisPoints used budget < thresholds.hardBasisPoints ↔
      used * BASIS_POINTS < thresholds.hardBasisPoints * budget := by
  refine ⟨utilization_lt, fun h => ?_⟩
  rw [utilizationBasisPoints, if_neg (by omega)]
  exact (Nat.min_le_left ..).trans_lt ((Nat.div_lt_iff_lt_mul hb).mpr h)

-- A saturated use is above the threshold of every budget.
theorem utilization_saturated_lt_iff (hb : 0 < budget) (hm : budget ≤ u64Max) :
    utilizationBasisPoints (min used u64Max) budget < thresholds.hardBasisPoints ↔
      used * BASIS_POINTS < thresholds.hardBasisPoints * budget := by
  rw [utilization_lt_iff hb]
  by_cases hu : used ≤ u64Max
  case pos => rw [Nat.min_eq_left hu]
  case neg =>
    have ht := Nat.mul_le_mul_right budget <| Nat.le_of_lt thresholds.hard_lt_basisPoints
    simp only [BASIS_POINTS] at ht ⊢
    rw [Nat.min_eq_right (by omega)]
    omega

theorem add_effectiveUsed :
    add u64Max account.effectiveUsed bytes = min (account.projectedUse bytes) u64Max := by
  simp only [TierAccount.effectiveUsed, TierAccount.projectedUse, add]
  omega

namespace TierAccount.Refreshed

theorem effectiveBudget_pos (h : account.Refreshed) : 0 < account.effectiveBudget :=
  lt_min h.budget_pos h.total_pos

theorem effectiveBudget_le (h : account.Refreshed) : account.effectiveBudget ≤ u64Max :=
  (Nat.min_le_left ..).trans h.budget_le

theorem underHardPressure_iff (h : account.Refreshed) :
    underHardPressure thresholds account bytes ↔
      account.projectedUse bytes * BASIS_POINTS <
        thresholds.hardBasisPoints * account.effectiveBudget := by
  rw [underHardPressure, decide_eq_true_iff, PressureThresholds.classify_lt_hard_iff,
    add_effectiveUsed, utilization_saturated_lt_iff h.effectiveBudget_pos h.effectiveBudget_le]

theorem observedUsed_add (h : account.Refreshed) :
    account.observedUsedBytes + account.availableBytes = account.totalBytes := by
  have ha := h.available_le
  simp only [observedUsedBytes, availableBytes, totalBytes] at ha ⊢
  revert ha
  cases account.observation
  case none => exact fun _ => rfl
  case some => exact Nat.sub_add_cancel

end TierAccount.Refreshed

theorem lt_budget_of_mul_lt (h : used * BASIS_POINTS < thresholds.hardBasisPoints * budget) :
    used < budget := by
  have ht := Nat.mul_le_mul_right budget <| Nat.le_of_lt thresholds.hard_lt_basisPoints
  simp only [BASIS_POINTS] at *
  omega

-- The tests of the budget and of the availability of a tier follow from the test of its pressure.
theorem TierAccount.Refreshed.fits (h : account.Refreshed)
    (hp : account.projectedUse bytes < account.effectiveBudget) :
    add u64Max (add u64Max account.managedUsedBytes account.reservedBytes) bytes ≤
      account.budgetBytes ∧
    add u64Max account.reservedBytes bytes ≤ account.availableBytes := by
  have ho := h.observedUsed_add
  have hl : account.effectiveBudget ≤ account.budgetBytes := Nat.min_le_left ..
  have hr : account.effectiveBudget ≤ account.totalBytes := Nat.min_le_right ..
  simp only [TierAccount.projectedUse] at hp
  simp only [add]
  omega

end Accounts

section Pool

variable {thresholds : PressureThresholds} {s : ManagerState} {tier : MemoryTier}
variable {account : TierAccount} {bytes : Nat}

theorem le_max?_getD {l : List Nat} {a : Nat} (h : a ∈ l) : a ≤ l.max?.getD 0 := by
  have ⟨b, hb⟩ := Option.isSome_iff_exists.mp <| List.isSome_max?_of_mem h
  rw [hb]
  exact (List.max?_eq_some_iff.mp hb).2 a h

theorem lt_min?_getD {l : List Nat} {a : Nat} (hl : l ≠ []) (h : ∀ b ∈ l, a < b) :
    a < l.min?.getD 0 := by
  have ⟨b, hb⟩ := Option.isSome_iff_exists.mp <| List.isSome_min?_of_mem (List.head_mem hl)
  rw [hb]
  exact h b (List.min?_mem hb)

theorem mem_values {α} {f : TierAccount → α} (ha : s.tiers[tier]? = some account) :
    f account ∈ s.tiers.valueList.map f :=
  List.mem_map_of_mem <| mem_valueList_iff.mpr ⟨_, ha⟩

theorem pooledBudget_le (ha : s.tiers[tier]? = some account) :
    s.pooledBudget ≤ account.effectiveBudget :=
  min?_getD_le (mem_values ha)

theorem projectedUse_le_pooledUse (ha : s.tiers[tier]? = some account) :
    account.projectedUse bytes ≤ s.pooledUse bytes := by
  have ho : account.observedUsedBytes ≤ s.observedPeak := le_max?_getD (mem_values ha)
  have hm : account.managedUsedBytes ≤ s.tiers.valueSum (·.managedUsedBytes) :=
    le_valueSum (f := fun account => account.managedUsedBytes) ha
  have hr : account.reservedBytes ≤ s.tiers.valueSum (·.reservedBytes) :=
    le_valueSum (f := fun account => account.reservedBytes) ha
  simp only [TierAccount.projectedUse, ManagerState.pooledUse]
  omega

theorem effectiveAccounting_unified :
    effectiveAccounting s tier .unified = (s.pooledBudget, min (s.pooledUse 0) u64Max) := by
  simp only [effectiveAccounting, ManagerState.sharedManaged, ManagerState.sharedReserved,
    foldl_add_zero]
  rw [Prod.mk.injEq]
  refine ⟨rfl, ?_⟩
  simp only [ManagerState.pooledUse, ManagerState.observedPeak, valueSum, add]
  omega

theorem add_pooledUse : add u64Max (min (s.pooledUse 0) u64Max) bytes =
    min (s.pooledUse bytes) u64Max := by
  simp only [ManagerState.pooledUse, add]
  omega

namespace ManagerState.Refreshed

theorem pooledBudget_pos (h : s.Refreshed) (ha : s.tiers[tier]? = some account) :
    0 < s.pooledBudget := by
  refine lt_min?_getD (List.ne_nil_of_mem (mem_values ha)) fun budget hm => ?_
  have ⟨account', hm, he⟩ := List.mem_map.mp hm
  have ⟨tier', ha'⟩ := mem_valueList_iff.mp hm
  exact he ▸ (h tier' account' ha').effectiveBudget_pos

-- The availability of the shared pool follows from its pressure: every tier observes the pool.
theorem sharedPoolAccepts_iff (h : s.Refreshed) (ha : s.tiers[tier]? = some account) :
    sharedPoolAccepts s thresholds tier bytes ↔
      s.pooledUse bytes * BASIS_POINTS < thresholds.hardBasisPoints * s.pooledBudget := by
  have hb : s.pooledBudget ≤ u64Max := (pooledBudget_le ha).trans (h _ _ ha).effectiveBudget_le
  rw [sharedPoolAccepts, effectiveAccounting_unified]
  simp only
  rw [decide_eq_true_iff, PressureThresholds.classify_lt_hard_iff, add_pooledUse,
    utilization_saturated_lt_iff (h.pooledBudget_pos ha) hb]
  refine and_iff_right_of_imp fun hp => ?_
  have hl := lt_budget_of_mul_lt hp
  rw [sharedReserved, foldl_add_zero, sharedAvailable]
  refine Nat.le_of_lt <| lt_min?_getD (List.ne_nil_of_mem (mem_values ha)) fun available hm => ?_
  obtain ⟨account', hm, he⟩ := List.mem_map.mp hm
  obtain ⟨tier', ha'⟩ := mem_valueList_iff.mp hm
  have ho := (h tier' account' ha').observedUsed_add
  have hp : account'.observedUsedBytes ≤ s.observedPeak := le_max?_getD (mem_values ha')
  have ht : s.pooledBudget ≤ account'.totalBytes :=
    (pooledBudget_le ha').trans (Nat.min_le_right ..)
  simp only [pooledUse, valueSum] at hl
  simp only [add]
  omega

end ManagerState.Refreshed
end Pool

section Admission

variable {config : MemoryManagerConfig} {s s' : ManagerState} {tier : MemoryTier} {bytes : Nat}
variable {account : TierAccount}

-- The one predicate of an admission.
def Admits (config : MemoryManagerConfig) (s : ManagerState) (tier : MemoryTier) (bytes : Nat) :
    Prop :=
  match config.topology with
  | .discrete =>
    ∃ account, s.tiers[tier]? = some account ∧
      committedBasisPoints (account.projectedUse bytes) account.effectiveBudget <
        config.thresholds.hardBasisPoints
  | .unified =>
    committedBasisPoints (s.pooledUse bytes) s.pooledBudget < config.thresholds.hardBasisPoints

theorem committedBasisPoints_lt_iff {used budget hard : Nat} (hb : 0 < budget) :
    committedBasisPoints used budget < hard ↔ used * BASIS_POINTS < hard * budget :=
  Nat.div_lt_iff_lt_mul hb

-- The tests of `can_accept_bytes`, whose first three are implied by the others.
theorem canAcceptBytes_iff_admits (hs : s.Refreshed) (ha : s.tiers[tier]? = some account) :
    canAcceptBytes s tier bytes 0 config.topology config.thresholds ↔ Admits config s tier bytes := by
  have hr := hs tier account ha
  rw [canAcceptBytes_iff ha (.inr hr.observed), hr.underHardPressure_iff,
    hs.sharedPoolAccepts_iff ha, Admits]
  cases config.topology
  case discrete =>
    simp only [true_or, and_true, ha, Option.some.injEq, exists_eq_left',
      committedBasisPoints_lt_iff hr.effectiveBudget_pos]
    refine ⟨fun h => h.2.2, fun h => ?_⟩
    have hf := hr.fits (lt_budget_of_mul_lt h)
    exact ⟨hf.1, hf.2, h⟩
  case unified =>
    simp only [reduceCtorEq, false_or, committedBasisPoints_lt_iff (hs.pooledBudget_pos ha)]
    refine ⟨fun h => h.2.2.2, fun h => ?_⟩
    have ht : account.projectedUse bytes * BASIS_POINTS <
        config.thresholds.hardBasisPoints * account.effectiveBudget :=
      calc
        _ ≤ s.pooledUse bytes * BASIS_POINTS := Nat.mul_le_mul_right _ (projectedUse_le_pooledUse ha)
        _ < config.thresholds.hardBasisPoints * s.pooledBudget := h
        _ ≤ _ := Nat.mul_le_mul_left _ (pooledBudget_le ha)
    have hf := hr.fits (lt_budget_of_mul_lt ht)
    exact ⟨hf.1, hf.2, ht, h⟩

-- What `reserve_locked` tests besides, and what it leaves behind.
theorem reserveLocked_iff {binding} (ha : s.tiers[tier]? = some account) (hb : bytes ≠ 0)
    (hf : s.activeReservations < config.maxReservations) :
    reserveLocked config s tier bytes binding = (.ok ⟨tier, bytes, binding⟩, s.hold tier bytes) ↔
      canAcceptBytes s tier bytes 0 config.topology config.thresholds := by
  rw [canAcceptBytes_iff ha (.inl hb), reserveLocked, if_neg hb, if_neg (by omega), ha]
  simp only
  split_ifs with hm hv hp hu
  case pos => exact iff_of_false (by simp) fun h => absurd h.1 (by omega)
  case pos => exact iff_of_false (by simp) fun h => absurd h.2.1 (by omega)
  case pos =>
    refine iff_of_false (by simp) fun h => h.2.2.2.elim (fun hd => ?_) hu.2
    rw [hu.1] at hd
    cases hd
  case neg =>
    refine iff_of_true rfl ⟨by omega, by omega, hp, ?_⟩
    cases htop : config.topology
    case discrete => exact .inl rfl
    case unified  => exact .inr <| not_not.mp fun hn => hu ⟨htop, hn⟩
  case neg => exact iff_of_false (by simp) fun h => hp h.2.2.1

-- A reservation of free slots is granted exactly where the bytes are accepted.
theorem admission_collapses {binding} (hs : s.Refreshed) (ht : tier ∈ s.tiers) (hb : bytes ≠ 0)
    (hf : s.activeReservations < config.maxReservations) :
    ((∃ reservation, (reserveLocked config s tier bytes binding).1 = .ok reservation) ↔
      Admits config s tier bytes) ∧
    (canAcceptBytes s tier bytes 0 config.topology config.thresholds ↔
      Admits config s tier bytes) := by
  have ⟨account, ha⟩ := exists_lookup ht
  have hc : _ ↔ Admits config s tier bytes := canAcceptBytes_iff_admits hs ha
  refine ⟨?_, hc⟩
  rw [←hc]
  constructor
  case mp =>
    intro ⟨reservation, hr⟩
    have hl := reserveLocked_cases (.refl (s := s)) (Prod.ext hr rfl)
    exact (hl.resolve_left Rejected.not_ok).2.2.accepted
  case mpr => exact fun h => ⟨_, congrArg Prod.fst <| (reserveLocked_iff ha hb hf).mpr h⟩

end Admission

open ManagerState

-- The states that the operations of a reachable world continue with are refreshed.
section Refreshed

variable {config : MemoryManagerConfig} {world : World} {telemetry : Telemetry} {s : ManagerState}
variable {observations observations' : Observations} {tier : MemoryTier} {account : TierAccount}

theorem budget_bounds (h : s.budgets = (ManagerState.new config).budgets)
    (ha : s.tiers[tier]? = some account) : 0 < account.budgetBytes ∧ account.budgetBytes ≤ u64Max :=
  have ⟨budget, hm, _, hb⟩ := budget_of_account h ha
  hb ▸ ⟨config.budgets_pos budget hm, budget.bytes_le⟩

def MemoryObservation.Valid (observation : MemoryObservation) : Prop :=
  0 < observation.totalBytes ∧ observation.availableBytes ≤ observation.totalBytes

def Observations.Valid (observations : Observations) : Prop :=
  ∀ (tier : MemoryTier) observation, observations[tier]? = some observation → observation.Valid

theorem collectSamples_valid {samples : List MemoryObservation}
    (h : collectSamples samples observations = .ok observations')
    (hv : Observations.Valid observations) : Observations.Valid observations' := by
  induction samples generalizing observations
  case nil => cases h; exact hv
  case cons sample samples hi =>
    rw [collectSamples] at h
    split_ifs at h with hz ha hm
    refine hi h fun tier observation ho => ?_
    rw [getElem?_insert] at ho
    split at ho
    case isTrue =>
      cases ho
      exact ⟨by omega, by omega⟩
    case isFalse => exact hv tier observation ho

theorem sampleTelemetry_valid (h : sampleTelemetry s telemetry = .ok observations) :
    Observations.Valid observations := by
  cases telemetry
  case error => cases h
  case ok =>
    rw [sampleTelemetry] at h
    split at h
    case isTrue => cases h
    case isFalse =>
      split at h
      case h_1 => cases h
      case h_2 hc =>
        split at h
        case h_1 => cases h
        case h_2 =>
          cases h
          exact collectSamples_valid hc fun _ _ ho => by simp at ho

-- A refreshed account has the balance that it had before, and the observation of its tier.
theorem lookup_refreshAccounts {topology thresholds} (hm : tier ∈ observations)
    (ha : (refreshAccounts s observations topology thresholds).tiers[tier]? = some account) :
    ∃ before, s.tiers[tier]? = some before ∧ account.toTierBalance = before.toTierBalance ∧
      account.lastActionMillis = before.lastActionMillis ∧
      account.observation = observations[tier]? := by
  obtain ⟨observation, ho⟩ := exists_lookup hm
  cases topology
  case discrete =>
    rw [refreshAccounts, getElem?_map] at ha
    obtain ⟨before, hb, he⟩ := Option.map_eq_some_iff.mp ha
    rw [refreshAccount, ho] at he
    exact ⟨before, hb, by rw [←he], by rw [←he], by rw [←he, ho]⟩
  case unified =>
    rw [refreshAccounts_unified, withPressure, observe, getElem?_map, getElem?_map,
      Option.map_map] at ha
    obtain ⟨before, hb, he⟩ := Option.map_eq_some_iff.mp ha
    exact ⟨before, hb, by rw [←he]; rfl, by rw [←he]; rfl, by rw [←he]; rfl⟩

theorem refreshed_refreshAccounts (h : (system config).Reachable world)
    (hs : sampleTelemetry world.state telemetry = .ok observations) :
    (refreshAccounts world.state observations config.topology config.thresholds).Refreshed := by
  intro tier account ha
  have hb := ((budgets_constant config).reachable h).2
  have hm : tier ∈ world.state.tiers := by
    have hu := sameBooks_refreshAccounts (s := world.state) observations config.topology
      config.thresholds
    exact hu.mem_tiers.mp (mem_of_lookup ha)
  have ho := sampleTelemetry_mem hs hm
  have ⟨before, hl, ht, _, hn⟩ := lookup_refreshAccounts ho ha
  have ⟨observation, hv⟩ := exists_lookup ho
  have ⟨hp, hle⟩ := budget_bounds hb hl
  have hw := sampleTelemetry_valid hs tier observation hv
  rw [hv] at hn
  refine ⟨ht ▸ hp, ht ▸ hle, by rw [hn]; rfl, ?_, ?_⟩
  · rw [TierAccount.totalBytes, hn]
    exact hw.1
  · rw [TierAccount.availableBytes, TierAccount.totalBytes, hn]
    exact hw.2

theorem refreshed_of_reachable (h : (system config).Reachable world)
    (ho : (sampleTelemetry world.state telemetry).isOk) :
    (world.state.refreshed config telemetry).Refreshed := by
  rw [ManagerState.refreshed]
  cases hs : sampleTelemetry world.state telemetry
  case error => rw [hs] at ho; cases ho
  case ok    => exact refreshed_refreshAccounts h hs

end Refreshed

-- The state in which the small machine grants its first reservation.
def smallRefreshed : ManagerState :=
  (World.new smallConfig).state.refreshed smallConfig smallTelemetry

theorem refreshed_smallRefreshed : smallRefreshed.Refreshed :=
  refreshed_of_reachable (.init rfl) (by decide +kernel)

theorem admission_collapses_small :
    ((∃ reservation, (reserveLocked smallConfig smallRefreshed (.accelerator 0) 850
        smallReservation.binding).1 = .ok reservation) ↔
      Admits smallConfig smallRefreshed (.accelerator 0) 850) ∧
    canAcceptBytes smallRefreshed (.accelerator 0) 850 0 .discrete .default = false ∧
    ¬Admits smallConfig smallRefreshed (.accelerator 0) 850 := by
  have h : ((∃ reservation, (reserveLocked smallConfig smallRefreshed (.accelerator 0) 850
        smallReservation.binding).1 = .ok reservation) ↔
      Admits smallConfig smallRefreshed (.accelerator 0) 850) ∧
      (canAcceptBytes smallRefreshed (.accelerator 0) 850 0 .discrete .default ↔
        Admits smallConfig smallRefreshed (.accelerator 0) 850) :=
    admission_collapses refreshed_smallRefreshed (by decide +kernel) (by decide) (by decide +kernel)
  have hc : canAcceptBytes smallRefreshed (.accelerator 0) 850 0 .discrete .default = false := by
    decide +kernel
  exact ⟨h.1, hc, fun ha => absurd (h.2.mpr ha) (by simp [hc])⟩

end RuntimeControl.Memory
