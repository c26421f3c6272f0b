import WerkModel.RuntimeControl.Memory.Claims

-- What one step of the world can do, said once for all invariants.
open Std ExtTreeMap Saturating

namespace RuntimeControl.Memory

namespace ManagerState

-- The state that a failed operation leaves behind: at most refreshed.
structure Unchanged (s s' : ManagerState) : Prop extends SameBooks s s' where
  allocations : s'.allocations = s.allocations

variable {s s' : ManagerState}

theorem Unchanged.refl : Unchanged s s := ⟨.refl, rfl⟩

theorem unchanged_refreshAccounts (observations topology thresholds) :
    Unchanged s (refreshAccounts s observations topology thresholds) :=
  ⟨sameBooks_refreshAccounts .., allocations_refreshAccounts ..⟩

end ManagerState

open ManagerState

section Operations

variable {config : MemoryManagerConfig} {s₀ s s' : ManagerState} {telemetry : Telemetry}
variable {tier : MemoryTier} {bytes : Nat} {id : AllocationId}

-- An operation that fails leaves the state as it is, but for the refresh.
def Rejected {α} (result : Except MemoryError α) (s s' : ManagerState) : Prop :=
  (∃ error, result = .error error) ∧ Unchanged s s'

theorem Rejected.of_eq {α error} {result : Except MemoryError α} (hs : Unchanged s₀ s)
    (h : (.error error, s) = (result, s')) : Rejected result s₀ s' := by
  cases h
  exact ⟨⟨error, rfl⟩, hs⟩

theorem Rejected.not_ok {α} {value : α} : ¬Rejected (.ok value) s s' :=
  nofun

-- One guard of an operation.
theorem guard {α c P error rest} {result : Except MemoryError α} [Decidable c]
    (hs : Unchanged s₀ s) (h : (if c then (.error error, s) else rest) = (result, s'))
    (hr : ¬c → rest = (result, s') → Rejected result s₀ s' ∨ P) : Rejected result s₀ s' ∨ P := by
  split at h
  case isTrue     => exact .inl <| .of_eq hs h
  case isFalse hc => exact hr hc h

theorem withRefreshed_cases {α P} {operation : ManagerState → Except MemoryError α × ManagerState}
    {result} (h : withRefreshed config telemetry s operation = (result, s'))
    (hr : ∀ s₁, Unchanged s s₁ → operation s₁ = (result, s') → Rejected result s s' ∨ P) :
    Rejected result s s' ∨ P := by
  simp only [withRefreshed] at h
  split at h
  case h_1 => exact .inl <| .of_eq .refl h
  case h_2 => exact hr _ (unchanged_refreshAccounts ..) h

theorem underHardPressure_min {thresholds account} :
    underHardPressure thresholds account (min bytes u64Max) =
      underHardPressure thresholds account bytes := by
  simp only [underHardPressure, add_min]

theorem sharedPoolAccepts_min {thresholds} :
    sharedPoolAccepts s thresholds tier (min bytes u64Max) =
      sharedPoolAccepts s thresholds tier bytes := by
  simp only [sharedPoolAccepts, add_min]

-- The test of `reserve_locked`, written as that of `can_accept_bytes`.
theorem canAcceptBytes_iff {account : TierAccount} (ht : s.tiers[tier]? = some account)
    (hb : bytes ≠ 0 ∨ account.observation.isSome) :
    canAcceptBytes s tier bytes 0 config.topology config.thresholds ↔
      add u64Max (add u64Max account.managedUsedBytes account.reservedBytes) bytes ≤
        account.budgetBytes ∧
      add u64Max account.reservedBytes bytes ≤ account.availableBytes ∧
      underHardPressure config.thresholds account bytes ∧
      (config.topology = .discrete ∨ sharedPoolAccepts s config.thresholds tier bytes) := by
  simp only [canAcceptBytes, ht, zero_add, add_min, underHardPressure_min, sharedPoolAccepts_min,
    TierAccount.availableBytes]
  revert hb
  cases account.observation
  case some => simp
  case none =>
    intro hb
    have hn := hb.resolve_right nofun
    have hp : 0 < add u64Max account.reservedBytes bytes := by
      simp only [add, u64Max]; omega
    simp only [Bool.false_eq_true, Option.elim_none, false_iff]
    omega

theorem canAcceptBytes_pressure {account : TierAccount} (ht : s.tiers[tier]? = some account)
    (h : canAcceptBytes s tier bytes 0 config.topology config.thresholds) :
    underHardPressure config.thresholds account bytes ∧
    (config.topology = .discrete ∨ sharedPoolAccepts s config.thresholds tier bytes) := by
  simp only [canAcceptBytes, ht, zero_add, underHardPressure_min, sharedPoolAccepts_min] at h
  split at h
  case h_1 => cases h
  case h_2 =>
    simp only [decide_eq_true_eq] at h
    exact h.2.2

-- What a granted reservation or demotion has passed.
structure Admitted (config : MemoryManagerConfig) (s : ManagerState) (tier : MemoryTier)
    (bytes : Nat) : Prop where
  configured : tier ∈ s.balances
  active     : s.activeReservations < config.maxReservations
  accepted   : canAcceptBytes s tier bytes 0 config.topology config.thresholds

theorem reserveLocked_cases {binding result} (hs : Unchanged s₀ s)
    (h : reserveLocked config s tier bytes binding = (result, s')) :
    Rejected result s₀ s' ∨
    (result = .ok ⟨tier, bytes, binding⟩ ∧ s' = s.hold tier bytes ∧ Admitted config s tier bytes) := by
  refine guard hs h fun hb h => guard hs h fun ha h => ?_
  split at h
  case h_1 => exact .inl <| .of_eq hs h
  case h_2 account ht =>
    refine guard hs h fun hm h => guard hs h fun hv h => guard hs h fun hp h =>
      guard hs h fun hu h => .inr ?_
    cases h
    have ht' : tier ∈ s.balances := mem_balances.mpr <| mem_of_lookup ht
    refine ⟨rfl, rfl, ht', by omega, (canAcceptBytes_iff ht (.inl hb)).mpr ⟨by omega, by omega, ?_, ?_⟩⟩
    · simpa using hp
    · cases hc : config.topology <;> simp_all

-- A reservation that is granted in `s`.
structure Grantable (config : MemoryManagerConfig) (s : ManagerState)
    (reservation : MemoryReservation) : Prop where
  admitted   : Admitted config s reservation.tier reservation.bytes
  backed     : reservation.Backed s
  loads      : ∀ id ∈ reservation.loadIds, s.placements[id]? = none ∧ id ∉ s.pendingLoads
  space      : ∀ id ∈ reservation.loadIds,
                 s.placements.size + s.pendingLoads.card < config.maxAllocations
  promotions : ∀ id ∈ reservation.promotionIds,
                 id ∉ s.pendingPromotions ∧ id ∉ s.pendingActions

def Granted (config : MemoryManagerConfig) (s : ManagerState)
    (result : Except MemoryError MemoryReservation) (s' : ManagerState) : Prop :=
  ∃ s₁ reservation, Unchanged s s₁ ∧ Grantable config s₁ reservation ∧ result = .ok reservation ∧
    s' = s₁.claim reservation

theorem reserveLoad_cases {pinned demotionTarget result}
    (h : reserveLoad config telemetry id tier bytes pinned demotionTarget s = (result, s')) :
    Rejected result s s' ∨ Granted config s result s' := by
  refine withRefreshed_cases h fun s₁ hs h => guard hs h fun hd h => guard hs h fun hl h => ?_
  split at h
  case h_1 => exact .inl <| .of_eq hs h
  case h_2 =>
    split at h
    case h_1 hr =>
      cases h
      exact (reserveLocked_cases hs hr).imp_right nofun
    case h_2 hr =>
      cases h
      obtain ⟨he, rfl, ha⟩ := (reserveLocked_cases hs hr).resolve_left Rejected.not_ok
      cases he
      have ⟨hd₁, hd₂⟩ := not_or.mp hd
      refine .inr ⟨s₁, _, hs, ⟨ha, ⟨ha.configured, trivial⟩, ?loads, ?space,
        fun _ hi => absurd hi (Finset.notMem_empty _)⟩, rfl, ?state⟩
      case loads =>
        intro id' hi
        rw [Finset.mem_singleton.mp hi]
        exact ⟨placement_none hd₁, hd₂⟩
      case space =>
        intro _ _
        rw [size_placements]
        simp only [add, usizeMax] at hl
        have := config.allocations_limit.2
        simp only [MAX_MANAGED_ALLOCATIONS] at this
        omega
      case state =>
        simp [claim, MemoryReservation.loadIds, MemoryReservation.promotionIds, hold, modifyBalance]

theorem reservePromotion_cases {target result}
    (h : reservePromotion config telemetry id target s = (result, s')) :
    Rejected result s s' ∨ Granted config s result s' := by
  refine withRefreshed_cases h fun s₁ hs h => ?_
  split at h
  case h_1 => exact .inl <| .of_eq hs h
  case h_2 allocation hi =>
    refine guard hs h fun _ h => guard hs h fun hp h => guard hs h fun ha h =>
      guard hs h fun _ h => ?_
    simp only at h
    split at h
    case h_1 hr =>
      cases h
      exact (reserveLocked_cases hs hr).imp_right nofun
    case h_2 hr =>
      cases h
      obtain ⟨he, rfl, hm⟩ := (reserveLocked_cases hs hr).resolve_left Rejected.not_ok
      cases he
      have hn (id' : AllocationId) : id' ∉ (∅ : Finset AllocationId) := Finset.notMem_empty _
      refine .inr ⟨s₁, _, hs, ⟨hm, ⟨hm.configured, ?placement⟩, fun _ hi => absurd hi (hn _),
        fun _ hi => absurd hi (hn _), ?promotions⟩, rfl, ?state⟩
      case placement => exact ⟨_, placement_of_allocation hi, rfl, rfl⟩
      case promotions =>
        intro id' hi
        rw [Finset.mem_singleton.mp hi]
        exact ⟨hp, ha⟩
      case state =>
        simp [claim, MemoryReservation.loadIds, MemoryReservation.promotionIds, hold, modifyBalance]

theorem updateIdleAllocation_cases {update result}
    (h : updateIdleAllocation id update s = (result, s')) :
    Rejected result s s' ∨
    (result = .ok () ∧ s' = { s with allocations := s.allocations.modify id update }) := by
  refine guard .refl h fun _ h => guard .refl h fun _ h => .inr ?_
  cases h
  exact ⟨rfl, rfl⟩

theorem touch_cases {now result} (h : touch now id s = (result, s')) :
    Rejected result s s' ∨ (result = .ok () ∧ SameBooks s s') := by
  refine (updateIdleAllocation_cases h).imp_right ?_
  rintro ⟨rfl, rfl⟩
  exact ⟨rfl, sameBooks_modify_allocation fun _ => rfl⟩

theorem setPinned_cases {pinned result} (h : setPinned id pinned s = (result, s')) :
    Rejected result s s' ∨ (result = .ok () ∧ SameBooks s s') := by
  refine (updateIdleAllocation_cases h).imp_right ?_
  rintro ⟨rfl, rfl⟩
  exact ⟨rfl, sameBooks_modify_allocation fun _ => rfl⟩

theorem recordFailedRelease_cases {result} (h : recordFailedRelease id s = (result, s')) :
    Rejected result s s' ∨ (result = .ok () ∧ SameBooks s s') := by
  simp only [recordFailedRelease] at h
  split at h
  case h_1 hu =>
    cases h
    exact (updateIdleAllocation_cases hu).imp_right nofun
  case h_2 hu =>
    cases h
    obtain ⟨_, rfl⟩ := (updateIdleAllocation_cases hu).resolve_left Rejected.not_ok
    have hs : SameBooks s { s with
        allocations := s.allocations.modify id fun allocation =>
          { allocation with pinned := true } } := sameBooks_modify_allocation fun _ => rfl
    exact .inr ⟨rfl, hs.trans ⟨rfl, rfl, rfl, rfl, rfl, rfl⟩⟩

theorem removeAllocation_cases {result} (h : removeAllocation id s = (result, s')) :
    Rejected result s s' ∨ ∃ placement, result = .ok () ∧
      s.placements[id]? = some placement ∧ s' = s.remove id placement.tier placement.bytes ∧
      id ∉ s.pendingActions ∧ id ∉ s.pendingPromotions := by
  refine guard .refl h fun hc h => ?_
  split at h
  case h_1 => exact .inl <| .of_eq .refl h
  case h_2 allocation hi =>
    cases h
    have ⟨ha, hp⟩ := not_or.mp hc
    exact .inr ⟨_, rfl, placement_of_allocation hi, rfl, ha, hp⟩

theorem recordOrphanedRelease_cases {orphan result}
    (h : recordOrphanedRelease tier orphan s = (result, s')) :
    Rejected result s s' ∨ ∃ account, result = .ok () ∧ s.tiers[tier]? = some account ∧
      s' = { s.modifyBalance tier (·.charge (accountedBytes account orphan)) with
        failedReleases       := add u64Max s.failedReleases 1
        orphanedReleaseBytes :=
          add u64Max s.orphanedReleaseBytes (accountedBytes account orphan) } := by
  simp only [recordOrphanedRelease] at h
  split at h
  case h_1 => exact .inl <| .of_eq .refl h
  case h_2 account ht =>
    cases h
    exact .inr ⟨account, rfl, ht, rfl⟩

-- A permit that is granted in `s`.
structure Permissible (config : MemoryManagerConfig) (s : ManagerState)
    (permit : PressureActionPermit) : Prop where
  backed     : permit.action.Backed s
  actions    : permit.action.allocationId ∉ s.pendingActions
  promotions : permit.action.allocationId ∉ s.pendingPromotions
  admitted   : ∀ claim ∈ permit.action.claim,
                 config.topology = .discrete ∧ Admitted config s claim.1 claim.2

theorem beginPressureAction_cases {action result}
    (h : beginPressureAction config action s = (result, s')) :
    Rejected result s s' ∨ (result = .ok ⟨action⟩ ∧ s' = s.claimAction ⟨action⟩ ∧
      Permissible config s ⟨action⟩) := by
  refine guard .refl h fun hc h => ?_
  have ⟨ha, hp⟩ := not_or.mp hc
  split at h
  case h_1 => exact .inl <| .of_eq .refl h
  case h_2 allocation hi =>
    refine guard .refl h fun _ h => ?_
    rcases action with ⟨_, source, target, bytes⟩ | ⟨_, tier, bytes⟩
    case demote =>
      refine guard .refl h fun hs h => guard .refl h fun hl h => guard .refl h fun hb h =>
        guard .refl h fun ht h => .inr ?_
      cases h
      simp only [not_or, not_not] at hs hb ht
      have ⟨hs₁, hs₂, hs₃, hs₄⟩ := hs
      have ht' : target ∈ s.balances := mem_balances.mpr ht
      refine ⟨rfl, rfl, ⟨_, placement_of_allocation hi, hs₁, hs₂, hs₃, ht'⟩, ha, hp, ?_⟩
      intro claim hm
      cases Option.mem_some_iff.mp hm
      exact ⟨hs₄, ht', by omega, hb⟩
    case evict =>
      refine guard .refl h fun hs h => .inr ?_
      cases h
      simp only [not_or, not_not] at hs
      exact ⟨rfl, rfl, ⟨_, placement_of_allocation hi, hs.1, hs.2, trivial⟩, ha, hp, nofun⟩

theorem refresh_cases {unixMillis result}
    (h : refresh config telemetry unixMillis s = (result, s')) : Unchanged s s' := by
  simp only [refresh, withRefreshed] at h
  split at h
  case h_1 => cases h; exact .refl
  case h_2 => cases h; exact unchanged_refreshAccounts ..

theorem planPressureActionsFor_cases {requestedBytes eligible now result}
    (h : planPressureActionsFor config telemetry tier requestedBytes eligible now s = (result, s')) :
    Unchanged s s' := by
  simp only [planPressureActionsFor, withRefreshed] at h
  split at h
  case h_1 => cases h; exact .refl
  case h_2 => cases h; exact unchanged_refreshAccounts ..

theorem planForReservation_cases {requestedBytes eligible now result}
    (h : planForReservation config telemetry tier requestedBytes eligible now s = (result, s')) :
    Unchanged s s' := by
  simp only [planForReservation] at h
  split at h
  case isTrue  => cases h; exact .refl
  case isFalse => exact planPressureActionsFor_cases h

end Operations

section Commits

variable {config : MemoryManagerConfig} {world : World} {id : AllocationId}
variable {reservation : MemoryReservation} {permit : PressureActionPermit}

-- The commits of live tokens succeed, because no other claim has touched their allocation.

theorem commitLoad_eq {now pinned demotionTarget} (h : world.Exclusive config)
    (hm : reservation ∈ world.reservations)
    (hb : reservation.binding = .load id pinned demotionTarget) :
    reservation.commitLoad now world.state =
      (.ok (), (releaseReservationLocked world.state reservation).place {
        id             := id
        tier           := reservation.tier
        bytes          := reservation.bytes
        pinned         := pinned
        demotionTarget := demotionTarget
        lastUsedMillis := now
      }) := by
  have hi : id ∈ world.state.pendingLoads :=
    h.loads.subset hm <| by simp [MemoryReservation.loadIds, hb]
  have ha : id ∉ world.state.allocations := by
    rw [←mem_placements, mem_iff_isSome_getElem?, h.fresh id hi]
    exact Bool.false_ne_true
  simp only [MemoryReservation.commitLoad, hb]
  rw [if_neg (by simp [hi, ha])]

theorem commitPromotion_eq {now source} (h : world.Exclusive config)
    (hm : reservation ∈ world.reservations) (hb : reservation.binding = .promotion id source) :
    reservation.commitPromotion now world.state =
      (.ok (), (releaseReservationLocked world.state reservation).move id source reservation.tier
        reservation.bytes fun allocation => { allocation with
          tier           := reservation.tier
          demotionTarget := some source
          lastUsedMillis := now }) := by
  have hr := (h.reserved _ hm).2
  rw [hb] at hr
  have ⟨placement, hp, ht, hy⟩ := hr
  rw [getElem?_placements] at hp
  have ⟨allocation, ha, he⟩ := Option.map_eq_some_iff.mp hp
  cases he
  simp only [MemoryReservation.commitPromotion, hb, ha]
  rw [if_neg (by simp [ht, hy])]

theorem commit_demote (now unixMillis : Nat) {source target bytes} (h : world.Exclusive config)
    (hm : permit ∈ world.permits) (he : permit.action = .demote id source target bytes) :
    ∃ s, permit.commit config now unixMillis world.state = (.ok (), s) ∧
      SameBooks ((releasePressureActionLocked world.state permit.action).move id source target bytes
        fun allocation => { allocation with tier := target, demotionTarget := none }) s := by
  have hi := h.actions.subset hm <| Finset.mem_singleton_self _
  have ⟨placement, hp, ht, hy, hd⟩ := h.permitted _ hm
  rw [he] at hi hp ht hy hd
  rw [getElem?_placements] at hp
  have ⟨allocation, ha, hq⟩ := Option.map_eq_some_iff.mp hp
  cases hq
  simp only [PressureActionPermit.commit, he]
  rw [if_neg (not_not.mpr hi)]
  simp only [ha]
  rw [if_neg (by simp_all [PressureAction.tier, PressureAction.bytes])]
  refine ⟨_, rfl, ?_⟩
  exact sameBooks_recordAction ⟨rfl, rfl, rfl, rfl, rfl, rfl⟩

theorem commit_evict (now unixMillis : Nat) {tier bytes} (h : world.Exclusive config)
    (hm : permit ∈ world.permits) (he : permit.action = .evict id tier bytes) :
    ∃ s, permit.commit config now unixMillis world.state = (.ok (), s) ∧
      SameBooks ((releasePressureActionLocked world.state permit.action).remove id tier bytes) s := by
  have hi := h.actions.subset hm <| Finset.mem_singleton_self _
  have ⟨placement, hp, ht, hy, _⟩ := h.permitted _ hm
  rw [he] at hi hp ht hy
  rw [getElem?_placements] at hp
  have ⟨allocation, ha, hq⟩ := Option.map_eq_some_iff.mp hp
  cases hq
  simp only [PressureActionPermit.commit, he]
  rw [if_neg (not_not.mpr hi)]
  simp only [ha]
  rw [if_neg (by simp_all [PressureAction.tier, PressureAction.bytes])]
  refine ⟨_, rfl, ?_⟩
  exact sameBooks_recordAction ⟨rfl, rfl, rfl, rfl, rfl, rfl⟩

end Commits

namespace Operation

-- The operation commits the reservation as the kind that it is not.
def Mismatches (reservation : MemoryReservation) : Operation → Prop
  | .commitLoad r _      => r = reservation ∧ reservation.loadIds = ∅
  | .commitPromotion r _ => r = reservation ∧ reservation.promotionIds = ∅
  | _                    => False

def Commits : Operation → Prop
  | .commitLoad .. | .commitPromotion .. | .commitPermit .. => True
  | _                                                       => False

end Operation

open World

inductive Effect (config : MemoryManagerConfig) (world : World) :
    Operation → Result → World → Prop
  | rejected {operation error s} :
    ¬operation.Commits → world.state.Unchanged s →
    Effect config world operation (.error error) { world with state := s }
  | mismatched {operation error reservation} :
    reservation ∈ world.reservations → operation.Mismatches reservation →
    Effect config world operation (.error error) (dropReservation reservation world)
  | quiet {operation output s} :
    world.state.SameBooks s → Effect config world operation (.ok output) { world with state := s }
  | reserved {operation output s reservation} :
    world.state.Unchanged s → Grantable config s reservation →
    Effect config world operation (.ok output)
      (addReservation reservation { world with state := s.claim reservation })
  | permitted {operation output permit} :
    Permissible config world.state permit →
    Effect config world operation (.ok output)
      (addPermit permit { world with state := world.state.claimAction permit })
  | droppedReservation {operation output reservation} :
    reservation ∈ world.reservations →
    Effect config world operation (.ok output) (dropReservation reservation world)
  | droppedPermit {operation output permit} :
    permit ∈ world.permits → Effect config world operation (.ok output) (dropPermit permit world)
  | loaded {operation output reservation allocation} :
    reservation ∈ world.reservations → reservation.loadIds = {allocation.id} →
    allocation.tier = reservation.tier → allocation.bytes = reservation.bytes →
    Effect config world operation (.ok output) { dropReservation reservation world with
      state := (dropReservation reservation world).state.place allocation }
  | promoted {operation output reservation id source update} (update' : Placement → Placement) :
    reservation ∈ world.reservations → reservation.binding = .promotion id source →
    (∀ a : ManagedAllocation, (update a).toPlacement = update' a.toPlacement) →
    (∀ p, (update' p).tier = reservation.tier ∧ (update' p).bytes = p.bytes) →
    Effect config world operation (.ok output) { dropReservation reservation world with
      state := (dropReservation reservation world).state.move id source reservation.tier
        reservation.bytes update }
  | demoted {operation output permit id source target bytes update s}
      (update' : Placement → Placement) :
    permit ∈ world.permits → permit.action = .demote id source target bytes →
    (∀ a : ManagedAllocation, (update a).toPlacement = update' a.toPlacement) →
    (∀ p, (update' p).tier = target ∧ (update' p).bytes = p.bytes) →
    ((dropPermit permit world).state.move id source target bytes update).SameBooks s →
    Effect config world operation (.ok output) { dropPermit permit world with state := s }
  | evicted {operation output permit id tier bytes s} :
    permit ∈ world.permits → permit.action = .evict id tier bytes →
    ((dropPermit permit world).state.remove id tier bytes).SameBooks s →
    Effect config world operation (.ok output) { dropPermit permit world with state := s }
  | removed {operation output id} {placement : Placement} :
    world.state.placements[id]? = some placement → id ∉ world.state.pendingActions →
    id ∉ world.state.pendingPromotions →
    Effect config world operation (.ok output)
      { world with state := world.state.remove id placement.tier placement.bytes }
  | orphaned {tier bytes output accounted failedReleases orphanedReleaseBytes} :
    tier ∈ world.state.balances →
    Effect config world (.recordOrphanedRelease tier bytes) (.ok output) { world with
      state := { world.state.modifyBalance tier (·.charge accounted) with
        failedReleases, orphanedReleaseBytes }
      orphans := (tier, accounted) ::ₘ world.orphans }

section Inversion

variable {config : MemoryManagerConfig} {world world' : World} {operation : Operation}
variable {result : Result}

-- An operation that the world settles without new tokens.
theorem effect_of_report {α} {r : Except MemoryError α × ManagerState} {output : α → Output}
    (hc : ¬operation.Commits)
    (hr : Rejected r.1 world.state r.2 ∨ ((∃ value, r.1 = .ok value) ∧ world.state.SameBooks r.2))
    (h : world.settle r (report output) = (result, world')) :
    Effect config world operation result world' := by
  have ⟨value, s⟩ := r
  cases hr
  case inl hr =>
    have ⟨⟨error, he⟩, hs⟩ := hr
    cases he
    cases h
    exact .rejected hc hs
  case inr hr =>
    have ⟨⟨value, he⟩, hs⟩ := hr
    cases he
    cases h
    exact .quiet hs

-- An operation that only reads the refreshed state.
theorem effect_of_query {α} {r : Except MemoryError α × ManagerState} {output : α → Output}
    (hc : ¬operation.Commits) (hs : world.state.Unchanged r.2)
    (h : world.settle r (report output) = (result, world')) :
    Effect config world operation result world' := by
  refine effect_of_report hc ?_ h
  cases hr : r.1
  case error => exact .inl ⟨⟨_, rfl⟩, hs⟩
  case ok    => exact .inr ⟨⟨_, rfl⟩, hs.toSameBooks⟩

theorem effect_of_update {r : Except MemoryError Unit × ManagerState} {output : Unit → Output}
    (hc : ¬operation.Commits)
    (hr : Rejected r.1 world.state r.2 ∨ (r.1 = .ok () ∧ world.state.SameBooks r.2))
    (h : world.settle r (report output) = (result, world')) :
    Effect config world operation result world' :=
  effect_of_report hc (hr.imp_right fun ⟨h, hs⟩ => ⟨⟨_, h⟩, hs⟩) h

theorem effect_of_reserve {r : Except MemoryError MemoryReservation × ManagerState}
    (hc : ¬operation.Commits)
    (hr : Rejected r.1 world.state r.2 ∨ Granted config world.state r.1 r.2)
    (h : world.settle r (fun reservation world => (.reservation reservation,
      addReservation reservation world)) = (result, world')) :
    Effect config world operation result world' := by
  have ⟨value, s⟩ := r
  cases hr
  case inl hr =>
    have ⟨⟨error, he⟩, hs⟩ := hr
    cases he
    cases h
    exact .rejected hc hs
  case inr hr =>
    have ⟨s₁, reservation, hs, hg, he, hs'⟩ := hr
    cases he
    cases hs'
    cases h
    exact .reserved hs hg

theorem effect_of_remove {id} (h : world.apply config (.removeAllocation id) = (result, world')) :
    Effect config world (.removeAllocation id) result world' := by
  rw [apply] at h
  cases hr : removeAllocation id world.state
  rw [hr] at h
  cases removeAllocation_cases hr
  case inl hr =>
    have ⟨⟨error, he⟩, hs⟩ := hr
    cases he
    cases h
    exact .rejected nofun hs
  case inr hr =>
    have ⟨placement, he, hp, hs, ha, hq⟩ := hr
    cases he
    cases hs
    cases h
    exact .removed hp ha hq

theorem effect_of_orphan {tier bytes}
    (h : world.apply config (.recordOrphanedRelease tier bytes) = (result, world')) :
    Effect config world (.recordOrphanedRelease tier bytes) result world' := by
  rw [apply] at h
  cases hr : recordOrphanedRelease tier bytes world.state
  rw [hr] at h
  cases recordOrphanedRelease_cases hr
  case inl hr =>
    have ⟨⟨error, he⟩, hs⟩ := hr
    cases he
    cases h
    exact .rejected nofun hs
  case inr hr =>
    have ⟨account, he, ht, hs⟩ := hr
    cases he
    cases hs
    have hm : tier ∈ world.state.balances := mem_balances.mpr <| mem_of_lookup ht
    simp only [settle, addOrphan, modifyBalance, getElem?_modify, ReflCmp.compare_self, if_true, ht,
      Option.map_some] at h
    cases h
    exact .orphaned hm

theorem effect_of_begin {action}
    (h : world.apply config (.beginPressureAction action) = (result, world')) :
    Effect config world (.beginPressureAction action) result world' := by
  rw [apply] at h
  cases hr : beginPressureAction config action world.state
  rw [hr] at h
  cases beginPressureAction_cases hr
  case inl hr =>
    have ⟨⟨error, he⟩, hs⟩ := hr
    cases he
    cases h
    exact .rejected nofun hs
  case inr hr =>
    have ⟨he, hs, hp⟩ := hr
    cases he
    cases hs
    cases h
    exact .permitted hp

theorem effect_of_commitLoad {reservation now} (hx : world.Exclusive config)
    (hm : reservation ∈ world.reservations)
    (h : world.commitReservation reservation (reservation.commitLoad now) = (result, world')) :
    Effect config world (.commitLoad reservation now) result world' := by
  cases hb : reservation.binding
  case load id pinned demotionTarget =>
    simp only [commitReservation, commitLoad_eq hx hm hb] at h
    cases h
    exact .loaded hm (by simp [MemoryReservation.loadIds, hb]) rfl rfl
  case promotion =>
    simp only [commitReservation, MemoryReservation.commitLoad, hb] at h
    cases h
    exact .mismatched hm ⟨rfl, by simp [MemoryReservation.loadIds, hb]⟩

theorem effect_of_commitPromotion {reservation now} (hx : world.Exclusive config)
    (hm : reservation ∈ world.reservations)
    (h : world.commitReservation reservation (reservation.commitPromotion now) =
      (result, world')) :
    Effect config world (.commitPromotion reservation now) result world' := by
  cases hb : reservation.binding
  case load =>
    simp only [commitReservation, MemoryReservation.commitPromotion, hb] at h
    cases h
    exact .mismatched hm ⟨rfl, by simp [MemoryReservation.promotionIds, hb]⟩
  case promotion id source =>
    simp only [commitReservation, commitPromotion_eq hx hm hb] at h
    cases h
    let update' (p : Placement) : Placement :=
      { p with tier := reservation.tier, demotionTarget := some source }
    exact .promoted update' hm hb (fun _ => rfl) (fun _ => ⟨rfl, rfl⟩)

theorem effect_of_commitPermit {permit now unixMillis} (hx : world.Exclusive config)
    (hm : permit ∈ world.permits)
    (h : commitPermit permit world (permit.commit config now unixMillis) = (result, world')) :
    Effect config world operation result world' := by
  cases ha : permit.action
  case demote id source target bytes =>
    have ⟨s, he, hs⟩ := commit_demote now unixMillis hx hm ha
    simp only [commitPermit, he] at h
    cases h
    let update' (p : Placement) : Placement :=
      { p with tier := target, demotionTarget := none }
    exact .demoted update' hm ha (fun _ => rfl) (fun _ => ⟨rfl, rfl⟩) hs
  case evict id tier bytes =>
    have ⟨s, he, hs⟩ := commit_evict now unixMillis hx hm ha
    simp only [commitPermit, he] at h
    cases h
    exact .evicted hm ha hs

-- Every step from a world with exclusive claims has one of these effects.
theorem apply_effect (hx : world.Exclusive config) (hl : world.Holds operation)
    (h : world.apply config operation = (result, world')) :
    Effect config world operation result world' := by
  cases operation
  case refresh               => exact effect_of_query id (refresh_cases rfl) h
  case accountingSnapshot    => cases h; exact .quiet .refl
  case reserveLoad           => exact effect_of_reserve id (reserveLoad_cases rfl) h
  case reservePromotion      => exact effect_of_reserve id (reservePromotion_cases rfl) h
  case commitLoad            => exact effect_of_commitLoad hx hl h
  case commitPromotion       => exact effect_of_commitPromotion hx hl h
  case dropReservation       => cases h; exact .droppedReservation hl
  case touch                 => exact effect_of_update id (touch_cases rfl) h
  case setPinned             => exact effect_of_update id (setPinned_cases rfl) h
  case removeAllocation      => exact effect_of_remove h
  case recordFailedRelease   => exact effect_of_update id (recordFailedRelease_cases rfl) h
  case recordOrphanedRelease => exact effect_of_orphan h
  case planPressureActions   => exact effect_of_query id (planPressureActionsFor_cases rfl) h
  case planForReservation    => exact effect_of_query id (planForReservation_cases rfl) h
  case beginPressureAction   => exact effect_of_begin h
  case commitPermit          => exact effect_of_commitPermit hx hl h
  case dropPermit            => cases h; exact .droppedPermit hl

end Inversion
end RuntimeControl.Memory
