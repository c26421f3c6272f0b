import WerkModel.RuntimeControl.Memory.Manager

-- The part of the manager's state that accounts for bytes and claims, and what each update of the
-- state does to it. Pressure, observations, pins and times are left out.
open Std ExtTreeMap Saturating

namespace RuntimeControl.Memory.ManagerState

variable {s s' s'' : ManagerState} {tier : MemoryTier} {id : AllocationId} {bytes : Nat}

def balances (s : ManagerState) : ExtTreeMap MemoryTier TierBalance :=
  s.tiers.map fun _ => TierAccount.toTierBalance

def placements (s : ManagerState) : ExtTreeMap AllocationId Placement :=
  s.allocations.map fun _ => ManagedAllocation.toPlacement

def budgets (s : ManagerState) : ExtTreeMap MemoryTier Nat :=
  s.balances.map fun _ => TierBalance.budgetBytes

theorem getElem?_budgets : s.budgets[tier]? = (s.balances[tier]?).map (·.budgetBytes) :=
  getElem?_map

theorem budgets_of_balances (h : s'.balances = s.balances) : s'.budgets = s.budgets :=
  congrArg (map fun _ => TierBalance.budgetBytes) h

theorem getElem?_balances : s.balances[tier]? = (s.tiers[tier]?).map (·.toTierBalance) :=
  getElem?_map

theorem getElem?_placements : s.placements[id]? = (s.allocations[id]?).map (·.toPlacement) :=
  getElem?_map

theorem mem_balances : tier ∈ s.balances ↔ tier ∈ s.tiers :=
  mem_map

theorem mem_placements : id ∈ s.placements ↔ id ∈ s.allocations :=
  mem_map

theorem size_placements : s.placements.size = s.allocations.size :=
  size_map

theorem placement_of_allocation {allocation} (h : s.allocations[id]? = some allocation) :
    s.placements[id]? = some allocation.toPlacement := by
  simp [getElem?_placements, h]

theorem placement_none (h : id ∉ s.allocations) : s.placements[id]? = none :=
  getElem?_eq_none <| mem_placements.not.mpr h

structure SameBooks (s s' : ManagerState) : Prop where
  balances   : s'.balances           = s.balances
  placements : s'.placements         = s.placements
  loads      : s'.pendingLoads       = s.pendingLoads
  promotions : s'.pendingPromotions  = s.pendingPromotions
  actions    : s'.pendingActions     = s.pendingActions
  active     : s'.activeReservations = s.activeReservations

theorem SameBooks.refl : SameBooks s s := ⟨rfl, rfl, rfl, rfl, rfl, rfl⟩

theorem SameBooks.trans (h : SameBooks s s') (h' : SameBooks s' s'') : SameBooks s s'' where
  balances   := h'.balances.trans h.balances
  placements := h'.placements.trans h.placements
  loads      := h'.loads.trans h.loads
  promotions := h'.promotions.trans h.promotions
  actions    := h'.actions.trans h.actions
  active     := h'.active.trans h.active

theorem SameBooks.mem_tiers (h : SameBooks s s') : tier ∈ s'.tiers ↔ tier ∈ s.tiers := by
  rw [←mem_balances, ←mem_balances, h.balances]

theorem balances_modifyBalance (update : TierBalance → TierBalance) :
    (s.modifyBalance tier update).balances = s.balances.modify tier update :=
  map_modify fun _ => rfl

theorem mem_balances_modifyBalance {update : TierBalance → TierBalance} {tier' : MemoryTier} :
    tier' ∈ (s.modifyBalance tier update).balances ↔ tier' ∈ s.balances := by
  rw [balances_modifyBalance, mem_modify]

theorem balances_place {allocation : ManagedAllocation} :
    (s.place allocation).balances =
      s.balances.modify allocation.tier (·.charge allocation.bytes) :=
  map_modify fun _ => rfl

theorem placements_place {allocation : ManagedAllocation} :
    (s.place allocation).placements = s.placements.insert allocation.id allocation.toPlacement :=
  map_insert

theorem balances_remove :
    (s.remove id tier bytes).balances = s.balances.modify tier (·.discharge bytes) :=
  map_modify fun _ => rfl

theorem placements_remove : (s.remove id tier bytes).placements = s.placements.erase id :=
  map_erase

-- No update changes a budget.
theorem budgets_of_modify {update : TierBalance → TierBalance}
    (hb : s'.balances = s.balances.modify tier update)
    (hu : ∀ balance, (update balance).budgetBytes = balance.budgetBytes) :
    s'.budgets = s.budgets := by
  rw [budgets, hb]
  exact map_modify_of_eq hu

section Move

variable {source target : MemoryTier} {update : ManagedAllocation → ManagedAllocation}

theorem balances_move :
    (s.move id source target bytes update).balances =
      (s.balances.modify source (·.discharge bytes)).modify target (·.charge bytes) := by
  rw [←balances_modifyBalance, ←balances_modifyBalance]
  rfl

theorem budgets_move : (s.move id source target bytes update).budgets = s.budgets := by
  rw [budgets, balances_move, map_modify_of_eq (by intro; rfl), map_modify_of_eq (by intro; rfl)]
  rfl

theorem placements_move {update' : Placement → Placement}
    (h : ∀ a, (update a).toPlacement = update' a.toPlacement) :
    (s.move id source target bytes update).placements = s.placements.modify id update' :=
  map_modify h

end Move

theorem sameBooks_refreshAccounts (observations topology thresholds) :
    SameBooks s (refreshAccounts s observations topology thresholds) := by
  cases topology
  case discrete =>
    refine ⟨map_map_of_eq ?_, rfl, rfl, rfl, rfl, rfl⟩
    intro tier account
    simp only [refreshAccount]
    split <;> rfl
  case unified =>
    refine ⟨?_, rfl, rfl, rfl, rfl, rfl⟩
    simp only [balances, refreshAccounts]
    rw [map_map_of_eq, map_map_of_eq] <;> intros <;> rfl

theorem allocations_refreshAccounts (observations topology thresholds) :
    (refreshAccounts s observations topology thresholds).allocations = s.allocations := by
  cases topology <;> rfl

theorem sameBooks_recordAction {topology tier now unixMillis} (h : SameBooks s s') :
    SameBooks s (recordAction topology tier now unixMillis s') := by
  refine h.trans ⟨?_, rfl, rfl, rfl, rfl, rfl⟩
  cases topology
  case discrete => exact map_modify_of_eq fun _ => rfl
  case unified  => exact map_map_of_eq fun _ _ => rfl

theorem sameBooks_modify_allocation {update : ManagedAllocation → ManagedAllocation}
    (h : ∀ a, (update a).toPlacement = a.toPlacement) :
    SameBooks s { s with allocations := s.allocations.modify id update } :=
  ⟨rfl, map_modify_of_eq h, rfl, rfl, rfl, rfl⟩

end RuntimeControl.Memory.ManagerState
