import WerkModel.RuntimeControl.Memory.Execution

-- The state in which the executed actions of a plan leave the manager: what they have freed, and that
-- a load which could be reserved before can be reserved again.
open Std ExtTreeMap Saturating

namespace RuntimeControl.Memory

open World ManagerState

-- No action of a plan demotes to the tier.
def Spared (actions : List PressureAction) (tier : MemoryTier) : Prop :=
  ∀ action ∈ actions, ∀ claim ∈ action.claim, claim.1 ≠ tier

-- The bytes that actions have freed on a tier.
def freedOn (actions : Multiset PressureAction) (tier : MemoryTier) : Nat :=
  bytesOn (actions.map PressureAction.relief) tier

section Balances

variable {action : PressureAction} {actions : Multiset PressureAction} {tier : MemoryTier}
variable {balance : TierBalance}

theorem freedOn_cons : freedOn (action ::ₘ actions) tier =
    (if action.tier = tier then action.bytes else 0) + freedOn actions tier := by
  rw [freedOn, Multiset.map_cons, bytesOn_cons]
  rfl

theorem hold_of_spared (h : ∀ claim ∈ action.claim, claim.1 ≠ tier) :
    action.hold tier balance = balance := by
  cases action
  case demote => exact if_neg (h _ rfl)
  case evict  => rfl

theorem settle_of_spared (h : ∀ claim ∈ action.claim, claim.1 ≠ tier) :
    action.settle tier balance =
      if action.tier = tier then balance.discharge action.bytes else balance := by
  cases action
  case demote =>
    have hn := h _ rfl
    simp only [PressureAction.settle]
    rw [if_neg hn, if_neg hn]
    rfl
  case evict => rfl

end Balances

-- What an execution has changed so far.
structure Execution.Drained (start : World) (actions : List PressureAction)
    (execution : Execution) : Prop where
  loads  : execution.world.state.pendingLoads = start.state.pendingLoads
  kept   : ∀ id ∈ execution.world.state.placements, id ∈ start.state.placements
  size   : execution.world.state.placements.size ≤ start.state.placements.size
  spared : ∀ tier, Spared actions tier →
             ∀ balance, execution.world.state.balances[tier]? = some balance →
               ∃ before, start.state.balances[tier]? = some before ∧
                 balance.reservedBytes = before.reservedBytes ∧
                 balance.managedUsedBytes =
                   before.managedUsedBytes - freedOn execution.committed tier

section Runs

variable {config : MemoryManagerConfig} {start : World} {actions rest : List PressureAction}
variable {action : PressureAction} {execution execution' : Execution} {operation : Operation}
variable {result : Result}

theorem Execution.Drained.init : Execution.Drained start actions ⟨[], actions, 0, 0, start⟩ where
  loads                 := rfl
  kept _ hm             := hm
  size                  := le_rfl
  spared _ _ balance hb := ⟨balance, hb, rfl, rfl⟩

theorem Execution.Drained.step (h : Execution.Drained start actions execution)
    (hu : execution.Underway config start actions) (hr : (system config).Reachable start)
    (hf : Feasible config start.state actions)
    (hs : execution.Step config operation result execution') :
    Execution.Drained start actions execution' := by
  have hmem {action} (hm : action ∈ execution.tried ++ execution.remaining) : action ∈ actions :=
    hu.split ▸ hm
  cases hs
  case begun action rest output world hn ha =>
    have hc := (hu.begin_cases hr hf hn).resolve_right fun hc => nomatch ha.symm.trans hc.1
    cases ha.symm.trans hc
    constructor
    case loads  => exact pendingLoads_claimAction.trans h.loads
    case kept   => exact fun id hm => h.kept id (placements_claimAction ▸ hm)
    case size   => exact (congrArg _ placements_claimAction).trans_le h.size
    case spared =>
      intro tier ht balance hb
      have ⟨between, hb, he⟩ := balance_claimAction hb
      have hin : action ∈ actions := hmem (List.mem_append_right _ (hn ▸ List.mem_cons_self))
      rw [hold_of_spared (ht action hin)] at he
      exact he ▸ h.spared tier ht between hb
  case failed action rest error world hn ha =>
    have hc := (hu.begin_cases hr hf hn).resolve_left fun hc => nomatch ha.symm.trans hc
    cases ha.symm.trans hc.1
    exact ⟨h.loads, h.kept, h.size, h.spared⟩
  case committed action now unixMillis world hm ha =>
    have ⟨s, hc, hw⟩ := commit_step now unixMillis ((exclusive config).reachable hu.reachable)
      (hu.mem_permits hm)
    cases ha.symm.trans hc
    constructor
    case loads  => exact hw.loads.trans h.loads
    case kept   => exact fun id hm => h.kept id (hw.kept id hm)
    case size   => exact hw.size.trans h.size
    case spared =>
      intro tier ht balance hb
      have ⟨between, hb, he⟩ := hw.balances tier balance hb
      have hin : action ∈ actions := hmem (List.mem_append_left _ (hu.mem_tried _ hm))
      rw [settle_of_spared (ht action hin)] at he
      have ⟨before, hb, hr, hm⟩ := h.spared tier ht between hb
      refine ⟨before, hb, ?_, ?_⟩
      · rw [he, ←hr]
        split <;> rfl
      · rw [he, freedOn_cons]
        split
        case isTrue  => simp only [TierBalance.discharge]; omega
        case isFalse => omega

theorem drained (hr : (system config).Reachable start) (hf : Feasible config start.state actions) :
    (executions config start actions).Invariant fun execution =>
      execution.Underway config start actions ∧ Execution.Drained start actions execution :=
  (underway hr hf).strengthen (fun _ he => he ▸ .init) fun _ _ _ _ hu h hs => h.step hu hr hf hs

-- An action that is committed right after it has begun gives its slot back.
theorem active_round {s : ManagerState} (h : s.activeReservations < usizeMax) :
    (releasePressureActionLocked (s.claimAction ⟨action⟩) action).activeReservations =
      s.activeReservations := by
  cases action
  case demote =>
    have he : add usizeMax s.activeReservations 1 = s.activeReservations + 1 := add_eq h
    change add usizeMax s.activeReservations 1 - 1 = _
    rw [he, Nat.add_sub_cancel]
  case evict => rfl

-- One action after the other is begun and committed. By induction on the remaining actions, none of
-- which is open when the next one begins.
theorem exists_drained (hr : (system config).Reachable start)
    (hf : Feasible config start.state actions)
    (ha : start.state.activeReservations < config.maxReservations)
    (he : (executions config start actions).Reachable execution)
    (hn : execution.remaining = rest) (ho : execution.opened = 0)
    (hc : execution.committed = (execution.tried : Multiset PressureAction))
    (hs : execution.world.state.activeReservations = start.state.activeReservations) :
    ∃ execution', (executions config start actions).Reachable execution' ∧
      execution'.remaining = [] ∧
      execution'.committed = (execution'.tried : Multiset PressureAction) ∧
      execution'.world.state.activeReservations = start.state.activeReservations := by
  have hmax : start.state.activeReservations < usizeMax := by
    have h₁ := config.reservations_limit.2
    simp only [MAX_ACTIVE_RESERVATIONS, usizeMax] at *
    omega
  induction rest generalizing execution
  case nil => exact ⟨execution, he, hn, hc, hs⟩
  case cons action rest hi =>
    have hu := (underway hr hf).reachable he
    have hb := (hu.begin_cases hr hf hn).resolve_right fun hb => by omega
    have he₁ := he.step (Execution.Step.begun hn hb)
    have hu₁ := (underway hr hf).reachable he₁
    have hm : action ∈ action ::ₘ execution.opened := Multiset.mem_cons_self ..
    obtain ⟨s, hw, hset⟩ := commit_step 0 0 ((exclusive config).reachable hu₁.reachable)
      (hu₁.mem_permits hm)
    refine hi (he₁.step (Execution.Step.committed hm hw)) rfl ?_ ?_ ?_
    · rw [Multiset.erase_cons_head, ho]
    · rw [hc, ←Multiset.coe_add, Multiset.add_comm, Multiset.coe_singleton,
        Multiset.singleton_add]
    · exact hset.active.trans ((active_round (hs ▸ hmax)).trans hs)

-- All actions can be committed while there is a free slot.
theorem exists_complete (hr : (system config).Reachable start)
    (hf : Feasible config start.state actions)
    (ha : start.state.activeReservations < config.maxReservations) :
    ∃ execution, (executions config start actions).Reachable execution ∧
      execution.committed = (actions : Multiset PressureAction) ∧
      execution.world.state.activeReservations = start.state.activeReservations := by
  have ⟨execution, he, hn, hc, hs⟩ := exists_drained hr hf ha (.init rfl) rfl rfl rfl rfl
  have hu := (underway hr hf).reachable he
  have ht : execution.tried = actions := by rw [←hu.split, hn, List.append_nil]
  exact ⟨execution, he, ht ▸ hc, hs⟩

end Runs

-- The guards of a load that do not depend on memory.
structure Loadable (config : MemoryManagerConfig) (s : ManagerState) (id : AllocationId)
    (tier : MemoryTier) (demotionTarget : Option MemoryTier) : Prop where
  fresh   : id ∉ s.allocations
  idle    : id ∉ s.pendingLoads
  space   : add usizeMax s.allocations.size s.pendingLoads.card < config.maxAllocations
  target  : validateDemotionTarget s tier demotionTarget = .ok ()

section Loads

variable {config : MemoryManagerConfig} {s s' : ManagerState} {id : AllocationId}
variable {tier : MemoryTier} {demotionTarget : Option MemoryTier} {bytes : Nat} {pinned : Bool}
variable {telemetry : Telemetry} {samples : List MemoryObservation}

theorem validateDemotionTarget_mono (hb : ∀ tier ∈ s.tiers, tier ∈ s'.tiers)
    (h : validateDemotionTarget s tier demotionTarget = .ok ()) :
    validateDemotionTarget s' tier demotionTarget = .ok () := by
  rw [validateDemotionTarget.eq_def] at h ⊢
  cases demotionTarget
  case none => rfl
  case some target =>
    simp only at h ⊢
    split at h
    case h_1 =>
      split at h
      case isTrue hm => exact if_pos (hb _ hm)
      case isFalse   => cases h
    case h_2 => cases h

theorem Loadable.mono (h : Loadable config s id tier demotionTarget)
    (hl : s'.pendingLoads = s.pendingLoads) (hk : ∀ id ∈ s'.placements, id ∈ s.placements)
    (hz : s'.placements.size ≤ s.placements.size) (hb : ∀ tier ∈ s.tiers, tier ∈ s'.tiers) :
    Loadable config s' id tier demotionTarget where
  fresh hm := h.fresh (mem_placements.mp (hk _ (mem_placements.mpr hm)))
  idle     := hl ▸ h.idle
  space    := by
    have hs := h.space
    rw [size_placements, size_placements] at hz
    rw [hl]
    simp only [add] at hs ⊢
    omega
  target   := validateDemotionTarget_mono hb h.target

theorem collectSamples_error {observations error}
    (h : collectSamples samples observations = .error error) :
    ∃ reason, error = .invalidTelemetry reason := by
  induction samples generalizing observations
  case nil => cases h
  case cons sample samples hi =>
    rw [collectSamples] at h
    split at h
    case isTrue => cases h; exact ⟨_, rfl⟩
    case isFalse =>
      split at h
      case isTrue => cases h; exact ⟨_, rfl⟩
      case isFalse =>
        split at h
        case isTrue  => cases h; exact ⟨_, rfl⟩
        case isFalse => exact hi h

-- A reading that arrives is only refused as invalid.
theorem sampleTelemetry_error {error} (h : sampleTelemetry s (.ok samples) = .error error) :
    ∃ reason, error = .invalidTelemetry reason := by
  rw [sampleTelemetry] at h
  split at h
  case isTrue => cases h; exact ⟨_, rfl⟩
  case isFalse =>
    split at h
    case h_1 he => cases h; exact collectSamples_error he
    case h_2 =>
      split at h
      case h_1 => cases h; exact ⟨_, rfl⟩
      case h_2 => cases h

theorem validateDemotionTarget_error {error}
    (h : validateDemotionTarget s tier demotionTarget = .error error) :
    ∃ reason, error = .invalidAllocation reason := by
  rw [validateDemotionTarget.eq_def] at h
  cases demotionTarget
  case none => cases h
  case some target =>
    simp only at h
    split at h
    case h_1 =>
      split at h
      case isTrue  => cases h
      case isFalse => cases h; exact ⟨_, rfl⟩
    case h_2 => cases h; exact ⟨_, rfl⟩

theorem reserveLocked_denied {binding tier' bytes' reason}
    (h : reserveLocked config s tier bytes binding =
      (.error (.reservationDenied tier' bytes' reason), s')) :
    s' = s ∧ bytes ≠ 0 ∧ s.activeReservations < config.maxReservations ∧ tier ∈ s.tiers := by
  rw [reserveLocked] at h
  split at h
  case isTrue => cases h
  case isFalse hb =>
    split at h
    case isTrue => cases h
    case isFalse ha =>
      split at h
      case h_1 => cases h
      case h_2 ht =>
        refine ⟨?_, hb, by omega, mem_of_lookup ht⟩
        simp only at h
        split_ifs at h <;> cases h <;> rfl

theorem reserveLoad_denied {tier' bytes' reason}
    (h : reserveLoad config (.ok samples) id tier bytes pinned demotionTarget s =
      (.error (.reservationDenied tier' bytes' reason), s')) :
    s' = s.refreshed config (.ok samples) ∧ Loadable config s' id tier demotionTarget ∧ bytes ≠ 0 ∧
      s'.activeReservations < config.maxReservations ∧ tier ∈ s'.tiers := by
  rw [reserveLoad, withRefreshed] at h
  split at h
  case h_1 he =>
    obtain ⟨_, hi⟩ := sampleTelemetry_error he
    rw [hi] at h
    cases h
  case h_2 observations ho =>
    have hs : s.refreshed config (.ok samples) =
        refreshAccounts s observations config.topology config.thresholds := by
      rw [ManagerState.refreshed, ho]
    rw [←hs] at h
    split at h
    case isTrue => cases h
    case isFalse hd =>
      split at h
      case isTrue => cases h
      case isFalse hl =>
        split at h
        case h_1 hv =>
          obtain ⟨_, hi⟩ := validateDemotionTarget_error hv
          rw [hi] at h
          cases h
        case h_2 hv =>
          split at h
          case h_2 => cases h
          case h_1 hr =>
            cases h
            obtain ⟨he, hb, ha, ht⟩ := reserveLocked_denied hr
            obtain ⟨hd₁, hd₂⟩ := not_or.mp hd
            subst he
            exact ⟨rfl, ⟨hd₁, hd₂, Nat.lt_of_not_ge hl, hv⟩, hb, ha, ht⟩

-- What is granted to a load whose guards pass.
theorem reserveLoad_iff (ho : (sampleTelemetry s telemetry).isOk)
    (hl : Loadable config (s.refreshed config telemetry) id tier demotionTarget)
    (hs : (s.refreshed config telemetry).Refreshed) (hb : bytes ≠ 0)
    (ha : (s.refreshed config telemetry).activeReservations < config.maxReservations)
    (ht : tier ∈ (s.refreshed config telemetry).tiers) :
    (∃ reservation, (reserveLoad config telemetry id tier bytes pinned demotionTarget s).1 =
      .ok reservation) ↔ Admits config (s.refreshed config telemetry) tier bytes := by
  have hc : (∃ reservation, (reserveLocked config (s.refreshed config telemetry) tier bytes
      (.load id pinned demotionTarget)).1 = .ok reservation) ↔ _ :=
    (admission_collapses hs ht hb ha).1
  rw [←hc, reserveLoad, withRefreshed]
  split
  case h_1 he => rw [he] at ho; cases ho
  case h_2 observations he =>
    have hr : refreshAccounts s observations config.topology config.thresholds =
        s.refreshed config telemetry := by
      rw [ManagerState.refreshed, he]
    rw [hr, if_neg (not_or.mpr ⟨hl.fresh, hl.idle⟩), if_neg (Nat.not_le.mpr hl.space), hl.target]
    simp only
    split
    case h_1 he => rw [he]
    case h_2 he => rw [he]

theorem sameBooks_refreshed : s.SameBooks (s.refreshed config telemetry) := by
  rw [ManagerState.refreshed]
  split
  case h_1 => exact .refl
  case h_2 => exact sameBooks_refreshAccounts ..

theorem mem_tiers_refreshed : tier ∈ (s.refreshed config telemetry).tiers ↔ tier ∈ s.tiers := by
  rw [←mem_balances, ←mem_balances, sameBooks_refreshed.balances]

theorem Loadable.of_sameBooks {s' : ManagerState} (h : Loadable config s id tier demotionTarget)
    (hs : s.SameBooks s') : Loadable config s' id tier demotionTarget :=
  h.mono hs.loads (fun _ hm => hs.placements ▸ hm) (congrArg _ hs.placements).le
    fun _ hm => mem_balances.mp (hs.balances ▸ mem_balances.mpr hm)

end Loads
end RuntimeControl.Memory
