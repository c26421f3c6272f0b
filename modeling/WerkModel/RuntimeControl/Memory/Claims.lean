import WerkModel.Lib.Tokens
import WerkModel.RuntimeControl.Memory.Books
import WerkModel.RuntimeControl.Memory.World

-- The claims of the active tokens on allocation ids: that every id is claimed at most once, and that
-- a token's operation on the allocation it claims is still possible when the token is committed.
open Std ExtTreeMap Saturating Tokens

namespace RuntimeControl.Memory

namespace MemoryReservation

def loadIds (reservation : MemoryReservation) : Finset AllocationId :=
  match reservation.binding with
  | .load id _ _  => {id}
  | .promotion .. => ∅

theorem loadIds_card_le (reservation : MemoryReservation) : reservation.loadIds.card ≤ 1 := by
  have ⟨_, _, binding⟩ := reservation
  cases binding <;> simp [loadIds]

def promotionIds (reservation : MemoryReservation) : Finset AllocationId :=
  match reservation.binding with
  | .load ..         => ∅
  | .promotion id _  => {id}

theorem promotionIds_eq {reservation : MemoryReservation} {id source}
    (h : reservation.binding = .promotion id source) : reservation.promotionIds = {id} := by
  rw [promotionIds, h]

-- The allocation that the reservation promotes is the one it was made for.
def Backed (reservation : MemoryReservation) (state : ManagerState) : Prop :=
  reservation.tier ∈ state.balances ∧
  match reservation.binding with
  | .load ..             => True
  | .promotion id source =>
    ∃ placement, state.placements[id]? = some placement ∧ placement.tier = source ∧
      placement.bytes = reservation.bytes

variable {reservation : MemoryReservation} {state state' : ManagerState} {id : AllocationId}

theorem Backed.congr (h : reservation.Backed state)
    (hb : ∀ tier, tier ∈ state.balances → tier ∈ state'.balances)
    (hp : ∀ id ∈ reservation.promotionIds, state'.placements[id]? = state.placements[id]?) :
    reservation.Backed state' := by
  refine ⟨hb _ h.1, ?placement⟩
  have hs := h.2
  rw [promotionIds] at hp
  split
  case h_1 => trivial
  case h_2 id source he =>
    rw [he] at hs hp
    rwa [hp id <| Finset.mem_singleton_self _]

end MemoryReservation

namespace PressureAction

def bytes : PressureAction → Nat
  | demote _ _ _ bytes | evict _ _ bytes => bytes

-- A demotion holds bytes of its target tier.
def claim : PressureAction → Option (MemoryTier × Nat)
  | demote _ _ target bytes => some (target, bytes)
  | evict ..                => none

def Backed (action : PressureAction) (state : ManagerState) : Prop :=
  ∃ placement, state.placements[action.allocationId]? = some placement ∧
    placement.tier = action.tier ∧ placement.bytes = action.bytes ∧
    match action with
    | demote _ _ target _ => placement.demotionTarget = some target ∧ target ∈ state.balances
    | evict ..            => True

variable {action : PressureAction} {state state' : ManagerState}

theorem Backed.congr (h : action.Backed state)
    (hb : ∀ tier, tier ∈ state.balances → tier ∈ state'.balances)
    (hp : state'.placements[action.allocationId]? = state.placements[action.allocationId]?) :
    action.Backed state' := by
  have ⟨placement, hs, ht, hy, hd⟩ := h
  refine ⟨placement, hp.trans hs, ht, hy, ?target⟩
  cases action
  case demote => exact ⟨hd.1, hb _ hd.2⟩
  case evict  => trivial

end PressureAction

namespace PressureActionPermit

def actionIds (permit : PressureActionPermit) : Finset AllocationId :=
  {permit.action.allocationId}

end PressureActionPermit

namespace ManagerState

-- What granting a reservation or a permit does to the state.

def claim (state : ManagerState) (reservation : MemoryReservation) : ManagerState :=
  { state.hold reservation.tier reservation.bytes with
    pendingLoads      := reservation.loadIds ∪ state.pendingLoads
    pendingPromotions := reservation.promotionIds ∪ state.pendingPromotions }

def claimAction (state : ManagerState) (permit : PressureActionPermit) : ManagerState :=
  let held := match permit.action with
    | .demote _ _ target bytes => state.hold target bytes
    | .evict ..                => state
  { held with pendingActions := permit.actionIds ∪ state.pendingActions }

variable {state : ManagerState} {reservation : MemoryReservation} {permit : PressureActionPermit}
variable {tier : MemoryTier}

theorem balances_claim :
    (state.claim reservation).balances =
      state.balances.modify reservation.tier (·.hold reservation.bytes) :=
  map_modify fun _ => rfl

theorem mem_balances_claim : tier ∈ (state.claim reservation).balances ↔ tier ∈ state.balances := by
  rw [balances_claim, mem_modify]

theorem balances_claimAction :
    (state.claimAction permit).balances = match permit.action with
      | .demote _ _ target bytes => state.balances.modify target (·.hold bytes)
      | .evict ..                => state.balances := by
  have ⟨action⟩ := permit
  cases action
  case demote => exact map_modify fun _ => rfl
  case evict  => rfl

theorem mem_balances_claimAction :
    tier ∈ (state.claimAction permit).balances ↔ tier ∈ state.balances := by
  rw [balances_claimAction]
  split
  case h_1 => exact mem_modify
  case h_2 => exact Iff.rfl

section ClaimAction

theorem placements_claimAction : (state.claimAction permit).placements = state.placements := by
  have ⟨action⟩ := permit
  cases action <;> rfl

theorem pendingLoads_claimAction :
    (state.claimAction permit).pendingLoads = state.pendingLoads := by
  have ⟨action⟩ := permit
  cases action <;> rfl

theorem pendingPromotions_claimAction :
    (state.claimAction permit).pendingPromotions = state.pendingPromotions := by
  have ⟨action⟩ := permit
  cases action <;> rfl

theorem pendingActions_claimAction :
    (state.claimAction permit).pendingActions = permit.actionIds ∪ state.pendingActions := by
  have ⟨action⟩ := permit
  cases action <;> rfl

end ClaimAction

section ReleaseAction

variable {action : PressureAction}

theorem balances_releaseAction :
    (releasePressureActionLocked state action).balances = match action with
      | .demote _ _ target bytes => state.balances.modify target (·.unhold bytes)
      | .evict ..                => state.balances := by
  cases action
  case demote => exact map_modify fun _ => rfl
  case evict  => rfl

theorem mem_balances_releaseAction :
    tier ∈ (releasePressureActionLocked state action).balances ↔ tier ∈ state.balances := by
  rw [balances_releaseAction]
  split
  case h_1 => exact mem_modify
  case h_2 => exact Iff.rfl

theorem placements_releaseAction :
    (releasePressureActionLocked state action).placements = state.placements := by
  cases action <;> rfl

theorem pendingLoads_releaseAction :
    (releasePressureActionLocked state action).pendingLoads = state.pendingLoads := by
  cases action <;> rfl

theorem pendingPromotions_releaseAction :
    (releasePressureActionLocked state action).pendingPromotions = state.pendingPromotions := by
  cases action <;> rfl

theorem pendingActions_releaseAction :
    (releasePressureActionLocked state action).pendingActions =
      state.pendingActions.erase action.allocationId := by
  cases action <;> rfl

theorem active_releaseAction_le :
    (releasePressureActionLocked state action).activeReservations ≤ state.activeReservations := by
  cases action
  case demote => exact Nat.sub_le ..
  case evict  => exact Nat.le_refl _

end ReleaseAction

section Release

theorem pendingLoads_release :
    (releaseReservationLocked state reservation).pendingLoads =
      state.pendingLoads \ reservation.loadIds := by
  have ⟨_, _, binding⟩ := reservation
  cases binding
  case load      => exact (Finset.sdiff_singleton_eq_erase ..).symm
  case promotion => exact Finset.sdiff_empty.symm

theorem pendingPromotions_release :
    (releaseReservationLocked state reservation).pendingPromotions =
      state.pendingPromotions \ reservation.promotionIds := by
  have ⟨_, _, binding⟩ := reservation
  cases binding
  case load      => exact Finset.sdiff_empty.symm
  case promotion => exact (Finset.sdiff_singleton_eq_erase ..).symm

theorem pendingActions_release :
    (releaseReservationLocked state reservation).pendingActions = state.pendingActions := by
  have ⟨_, _, binding⟩ := reservation
  cases binding <;> rfl

theorem placements_release :
    (releaseReservationLocked state reservation).placements = state.placements := by
  have ⟨_, _, binding⟩ := reservation
  cases binding <;> rfl

theorem balances_release :
    (releaseReservationLocked state reservation).balances =
      state.balances.modify reservation.tier (·.unhold reservation.bytes) := by
  have ⟨_, _, binding⟩ := reservation
  cases binding <;> exact map_modify fun _ => rfl

theorem mem_balances_release :
    tier ∈ (releaseReservationLocked state reservation).balances ↔ tier ∈ state.balances := by
  rw [balances_release, mem_modify]

theorem active_release :
    (releaseReservationLocked state reservation).activeReservations =
      state.activeReservations - 1 := by
  have ⟨_, _, binding⟩ := reservation
  cases binding <;> rfl

end Release
end ManagerState

namespace World

structure Exclusive (config : MemoryManagerConfig) (world : World) : Prop where
  loads       : Hold MemoryReservation.loadIds world.reservations world.state.pendingLoads
  promotions  : Hold MemoryReservation.promotionIds world.reservations world.state.pendingPromotions
  actions     : Hold PressureActionPermit.actionIds world.permits world.state.pendingActions
  fresh       : ∀ id ∈ world.state.pendingLoads, world.state.placements[id]? = none
  disjoint    : Disjoint world.state.pendingPromotions world.state.pendingActions
  reserved    : ∀ reservation ∈ world.reservations, reservation.Backed world.state
  permitted   : ∀ permit ∈ world.permits, permit.action.Backed world.state
  configured  : ∀ (id : AllocationId) placement,
                  world.state.placements[id]? = some placement →
                  placement.tier ∈ world.state.balances
  allocations : world.state.placements.size + world.state.pendingLoads.card ≤ config.maxAllocations
  active      : world.state.activeReservations ≤ config.maxReservations

namespace Exclusive

open ManagerState

variable {config : MemoryManagerConfig} {world : World} {state : ManagerState}
variable {reservation : MemoryReservation} {permit : PressureActionPermit}
variable {id : AllocationId} {placement : Placement}

theorem sameBooks (h : Exclusive config world) (hs : world.state.SameBooks state) :
    Exclusive config { world with state := state } where
  loads       := hs.loads ▸ h.loads
  promotions  := hs.promotions ▸ h.promotions
  actions     := hs.actions ▸ h.actions
  fresh       := by simpa only [hs.loads, hs.placements] using h.fresh
  disjoint    := by simpa only [hs.promotions, hs.actions] using h.disjoint
  configured  := by simpa only [hs.balances, hs.placements] using h.configured
  allocations := by simpa only [hs.loads, hs.placements] using h.allocations
  active      := hs.active ▸ h.active
  reserved    := by
    intro reservation hm
    refine (h.reserved _ hm).congr (fun _ => ?_) (fun _ _ => ?_)
    · simp only [hs.balances, imp_self]
    · simp only [hs.placements]
  permitted   := by
    intro permit hm
    refine (h.permitted _ hm).congr (fun _ => ?_) ?_
    · simp only [hs.balances, imp_self]
    · simp only [hs.placements]

-- The placements of claimed allocations.

theorem placement_of_promotion (h : Exclusive config world) (hi : id ∈ world.state.pendingPromotions) :
    ∃ placement, world.state.placements[id]? = some placement := by
  have ⟨reservation, hm, hk⟩ := h.promotions.mem_iff.mp hi
  have hb := (h.reserved _ hm).2
  rw [MemoryReservation.promotionIds] at hk
  split at hk
  case h_1 => simp at hk
  case h_2 id' source he =>
    rw [he] at hb
    rw [Finset.mem_singleton.mp hk]
    exact ⟨_, hb.choose_spec.1⟩

theorem placement_of_action (h : Exclusive config world) (hi : id ∈ world.state.pendingActions) :
    ∃ placement, world.state.placements[id]? = some placement := by
  have ⟨permit, hm, hk⟩ := h.actions.mem_iff.mp hi
  have ⟨placement, hp, _⟩ := h.permitted _ hm
  exact ⟨placement, Finset.mem_singleton.mp hk ▸ hp⟩

theorem load_disjoint_promotion (h : Exclusive config world) :
    Disjoint world.state.pendingLoads world.state.pendingPromotions := by
  rw [Finset.disjoint_left]
  intro id hl hp
  have ⟨_, hs⟩ := h.placement_of_promotion hp
  simp [h.fresh id hl] at hs

theorem load_disjoint_action (h : Exclusive config world) :
    Disjoint world.state.pendingLoads world.state.pendingActions := by
  rw [Finset.disjoint_left]
  intro id hl ha
  have ⟨_, hs⟩ := h.placement_of_action ha
  simp [h.fresh id hl] at hs

-- New claims, and claims that are given back. Placements stay where they are.

theorem claim (h : Exclusive config world) (hb : reservation.Backed world.state)
    (hl : ∀ id ∈ reservation.loadIds,
      world.state.placements[id]? = none ∧ id ∉ world.state.pendingLoads)
    (hp : ∀ id ∈ reservation.promotionIds,
      id ∉ world.state.pendingPromotions ∧ id ∉ world.state.pendingActions)
    (hs : ∀ id ∈ reservation.loadIds,
      world.state.placements.size + world.state.pendingLoads.card < config.maxAllocations)
    (ha : world.state.activeReservations < config.maxReservations) :
    Exclusive config <| addReservation reservation
      { world with state := world.state.claim reservation } where
  loads       := h.loads.add <| Finset.disjoint_left.mpr fun _ hm => (hl _ hm).2
  promotions  := h.promotions.add <| Finset.disjoint_left.mpr fun _ hm => (hp _ hm).1
  actions     := h.actions
  disjoint    := Finset.disjoint_union_left.mpr
    ⟨Finset.disjoint_left.mpr fun _ hm => (hp _ hm).2, h.disjoint⟩
  active      := add_le.trans ha
  configured  := fun _ _ hs => ManagerState.mem_balances_claim.mpr <| h.configured _ _ hs
  permitted   := fun _ hm =>
    (h.permitted _ hm).congr (fun _ => ManagerState.mem_balances_claim.mpr) rfl
  fresh       := by
    intro id hm
    cases Finset.mem_union.mp hm
    case inl hm => exact (hl _ hm).1
    case inr hm => exact h.fresh _ hm
  reserved    := by
    intro reservation' hm
    have hb' : reservation'.Backed world.state := by
      cases Multiset.mem_cons.mp hm
      case inl he => exact he ▸ hb
      case inr hm => exact h.reserved _ hm
    exact hb'.congr (fun _ => ManagerState.mem_balances_claim.mpr) (fun _ _ => rfl)
  allocations := by
    have hc := Finset.card_union_le reservation.loadIds world.state.pendingLoads
    cases reservation.loadIds.eq_empty_or_nonempty
    case inl he =>
      simp only [addReservation, ManagerState.claim, he, Finset.empty_union]
      exact h.allocations
    case inr hn =>
      have h₁ := reservation.loadIds_card_le
      have h₂ := hs _ hn.choose_spec
      calc
        _ ≤ world.state.placements.size + (1 + world.state.pendingLoads.card) :=
          Nat.add_le_add_left (hc.trans <| Nat.add_le_add_right h₁ _) _
        _ ≤ config.maxAllocations := by omega

theorem claimAction (h : Exclusive config world) (hb : permit.action.Backed world.state)
    (ha : permit.action.allocationId ∉ world.state.pendingActions)
    (hp : permit.action.allocationId ∉ world.state.pendingPromotions)
    (hr : (world.state.claimAction permit).activeReservations ≤ config.maxReservations) :
    Exclusive config <| addPermit permit
      { world with state := world.state.claimAction permit } := by
  have hb' (permit' : PressureActionPermit) (hm : permit' ∈ permit ::ₘ world.permits) :
      permit'.action.Backed world.state := by
    cases Multiset.mem_cons.mp hm
    case inl he => exact he ▸ hb
    case inr hm => exact h.permitted _ hm
  refine ⟨?_, ?_, ?_, ?_, ?_, ?_, ?_, ?_, ?_, hr⟩
  all_goals
    simp only [addPermit, pendingLoads_claimAction, pendingPromotions_claimAction,
      pendingActions_claimAction, placements_claimAction, mem_balances_claimAction]
  · exact h.loads
  · exact h.promotions
  · exact h.actions.add <| Finset.disjoint_singleton_left.mpr ha
  · exact h.fresh
  · exact Finset.disjoint_union_right.mpr ⟨Finset.disjoint_singleton_right.mpr hp, h.disjoint⟩
  · exact fun _ hm => (h.reserved _ hm).congr (fun _ => mem_balances_claimAction.mpr)
      fun _ _ => by rw [placements_claimAction]
  · exact fun _ hm => (hb' _ hm).congr (fun _ => mem_balances_claimAction.mpr)
      (by rw [placements_claimAction])
  · exact h.configured
  · exact h.allocations

theorem dropReservation (h : Exclusive config world) (hm : reservation ∈ world.reservations) :
    Exclusive config (World.dropReservation reservation world) := by
  refine ⟨?_, ?_, ?_, ?_, ?_, ?_, ?_, ?_, ?_, ?_⟩
  all_goals
    simp only [World.dropReservation, removeReservation, MemoryReservation.drop,
      pendingLoads_release, pendingPromotions_release, pendingActions_release,
      placements_release, mem_balances_release, active_release]
  · exact h.loads.remove hm
  · exact h.promotions.remove hm
  · exact h.actions
  · exact fun _ hi => h.fresh _ (Finset.sdiff_subset hi)
  · exact h.disjoint.mono_left Finset.sdiff_subset
  · exact fun _ hm => (h.reserved _ (Multiset.mem_of_mem_erase hm)).congr
      (fun _ => mem_balances_release.mpr) fun _ _ => by rw [placements_release]
  · exact fun _ hm => (h.permitted _ hm).congr (fun _ => mem_balances_release.mpr)
      (by rw [placements_release])
  · exact h.configured
  · exact Nat.le_trans (Nat.add_le_add_left (Finset.card_le_card Finset.sdiff_subset) _)
      h.allocations
  · exact Nat.le_trans (Nat.sub_le ..) h.active

theorem dropPermit (h : Exclusive config world) (hm : permit ∈ world.permits) :
    Exclusive config (World.dropPermit permit world) := by
  refine ⟨?_, ?_, ?_, ?_, ?_, ?_, ?_, ?_, ?_, ?_⟩
  all_goals
    simp only [World.dropPermit, removePermit, PressureActionPermit.drop,
      pendingLoads_releaseAction, pendingPromotions_releaseAction, pendingActions_releaseAction,
      placements_releaseAction, mem_balances_releaseAction]
  · exact h.loads
  · exact h.promotions
  · exact h.actions.remove_singleton hm rfl
  · exact h.fresh
  · exact h.disjoint.mono_right <| Finset.erase_subset ..
  · exact fun _ hm => (h.reserved _ hm).congr (fun _ => mem_balances_releaseAction.mpr)
      fun _ _ => by rw [placements_releaseAction]
  · exact fun _ hm => (h.permitted _ (Multiset.mem_of_mem_erase hm)).congr
      (fun _ => mem_balances_releaseAction.mpr) (by rw [placements_releaseAction])
  · exact h.configured
  · exact h.allocations
  · exact Nat.le_trans active_releaseAction_le h.active

-- Changes of placements that nobody claims.

theorem backed_reservation {state : ManagerState} (h : Exclusive config world)
    (hm : reservation ∈ world.reservations)
    (hb : ∀ tier, tier ∈ world.state.balances → tier ∈ state.balances)
    (hp : ∀ id ∈ world.state.pendingPromotions,
      state.placements[id]? = world.state.placements[id]?) :
    reservation.Backed state :=
  (h.reserved _ hm).congr hb fun _ hi => hp _ <| h.promotions.subset hm hi

theorem backed_action {state : ManagerState} (h : Exclusive config world)
    (hm : permit ∈ world.permits)
    (hb : ∀ tier, tier ∈ world.state.balances → tier ∈ state.balances)
    (hp : ∀ id ∈ world.state.pendingActions,
      state.placements[id]? = world.state.placements[id]?) :
    permit.action.Backed state :=
  (h.permitted _ hm).congr hb <| hp _ <| h.actions.subset hm <| Finset.mem_singleton_self _

theorem place {allocation : ManagedAllocation} (h : Exclusive config world)
    (ht : allocation.tier ∈ world.state.balances)
    (hp : world.state.placements[allocation.id]? = none)
    (hl : allocation.id ∉ world.state.pendingLoads)
    (hs : world.state.placements.size + world.state.pendingLoads.card < config.maxAllocations) :
    Exclusive config { world with state := world.state.place allocation } := by
  have hb (tier) (hm : tier ∈ world.state.balances) :
      tier ∈ (world.state.place allocation).balances :=
    balances_place ▸ mem_modify.mpr hm
  have hne (id : AllocationId) (hs : ∃ placement, world.state.placements[id]? = some placement) :
      (world.state.place allocation).placements[id]? = world.state.placements[id]? := by
    rw [placements_place, getElem?_insert]
    split
    case isTrue he =>
      have ⟨_, hs⟩ := hs
      simp [LawfulEqCmp.compare_eq_iff_eq.mp he ▸ hp] at hs
    case isFalse => rfl
  refine ⟨h.loads, h.promotions, h.actions, ?_, h.disjoint, ?_, ?_, ?_, ?_, h.active⟩
  case refine_1 =>
    intro id hi
    rw [placements_place, getElem?_insert]
    split
    case isTrue he => exact absurd (LawfulEqCmp.compare_eq_iff_eq.mp he ▸ hi) hl
    case isFalse   => exact h.fresh _ hi
  case refine_2 =>
    exact fun _ hm => h.backed_reservation hm hb fun _ hi => hne _ <| h.placement_of_promotion hi
  case refine_3 =>
    exact fun _ hm => h.backed_action hm hb fun _ hi => hne _ <| h.placement_of_action hi
  case refine_4 =>
    intro id placement hi
    refine hb _ ?_
    rw [placements_place, getElem?_insert] at hi
    split at hi
    case isTrue  => exact Option.some.inj hi ▸ ht
    case isFalse => exact h.configured _ _ hi
  case refine_5 =>
    have hz : (world.state.place allocation).placements.size ≤ world.state.placements.size + 1 :=
      placements_place ▸ size_insert_le
    have hc := Nat.add_le_add_right hz world.state.pendingLoads.card
    exact hc.trans (by omega)

theorem remove {tier bytes} (h : Exclusive config world) (ha : id ∉ world.state.pendingActions)
    (hp : id ∉ world.state.pendingPromotions) :
    Exclusive config { world with state := world.state.remove id tier bytes } := by
  have hb (tier') (hm : tier' ∈ world.state.balances) :
      tier' ∈ (world.state.remove id tier bytes).balances :=
    balances_remove ▸ mem_modify.mpr hm
  have hq : (world.state.remove id tier bytes).pendingPromotions =
      world.state.pendingPromotions := Finset.erase_eq_of_notMem hp
  have hne (id' : AllocationId) (hn : id' ≠ id) :
      (world.state.remove id tier bytes).placements[id']? = world.state.placements[id']? := by
    rw [placements_remove, getElem?_erase, if_neg]
    exact fun he => hn (LawfulEqCmp.compare_eq_iff_eq.mp he).symm
  refine ⟨h.loads, hq ▸ h.promotions, h.actions, ?_, hq ▸ h.disjoint, ?_, ?_, ?_, ?_, h.active⟩
  case refine_1 =>
    intro id' hi
    rw [placements_remove, getElem?_erase]
    split
    case isTrue  => rfl
    case isFalse => exact h.fresh _ hi
  case refine_2 =>
    exact fun _ hm => h.backed_reservation hm hb fun _ hi => hne _ fun he => hp (he ▸ hi)
  case refine_3 =>
    exact fun _ hm => h.backed_action hm hb fun _ hi => hne _ fun he => ha (he ▸ hi)
  case refine_4 =>
    intro id' placement hi
    refine hb _ ?_
    rw [placements_remove, getElem?_erase] at hi
    split at hi
    case isTrue  => cases hi
    case isFalse => exact h.configured _ _ hi
  case refine_5 =>
    have hz : (world.state.remove id tier bytes).placements.size ≤ world.state.placements.size :=
      placements_remove ▸ size_erase_le
    exact Nat.le_trans (Nat.add_le_add_right hz _) h.allocations

theorem move {source target bytes} {update : ManagedAllocation → ManagedAllocation}
    {update' : Placement → Placement} (h : Exclusive config world)
    (hu : ∀ a, (update a).toPlacement = update' a.toPlacement)
    (hu' : ∀ placement, (update' placement).tier = target) (ht : target ∈ world.state.balances)
    (ha : id ∉ world.state.pendingActions) (hp : id ∉ world.state.pendingPromotions) :
    Exclusive config { world with state := world.state.move id source target bytes update } := by
  have hm : (world.state.move id source target bytes update).placements =
      world.state.placements.modify id update' := placements_move hu
  have hb (tier) (hm : tier ∈ world.state.balances) :
      tier ∈ (world.state.move id source target bytes update).balances :=
    balances_move ▸ mem_modify.mpr (mem_modify.mpr hm)
  have hne (id' : AllocationId) (hn : id' ≠ id) :
      (world.state.move id source target bytes update).placements[id']? =
        world.state.placements[id']? := by
    rw [hm, getElem?_modify, if_neg]
    exact fun he => hn (LawfulEqCmp.compare_eq_iff_eq.mp he).symm
  refine ⟨h.loads, h.promotions, h.actions, ?_, h.disjoint, ?_, ?_, ?_, ?_, h.active⟩
  case refine_1 =>
    intro id' hi
    rw [hm, getElem?_modify]
    split
    case isTrue he => rw [LawfulEqCmp.compare_eq_iff_eq.mp he, h.fresh _ hi]; rfl
    case isFalse   => exact h.fresh _ hi
  case refine_2 =>
    exact fun _ hm => h.backed_reservation hm hb fun _ hi => hne _ fun he => hp (he ▸ hi)
  case refine_3 =>
    exact fun _ hm => h.backed_action hm hb fun _ hi => hne _ fun he => ha (he ▸ hi)
  case refine_4 =>
    intro id' placement hi
    refine hb _ ?_
    rw [hm, getElem?_modify] at hi
    split at hi
    case isTrue =>
      have ⟨_, _, he⟩ := Option.map_eq_some_iff.mp hi
      exact he ▸ (hu' _).symm ▸ ht
    case isFalse => exact h.configured _ _ hi
  case refine_5 =>
    have hz : (world.state.move id source target bytes update).placements.size =
        world.state.placements.size := hm ▸ size_modify
    exact hz ▸ h.allocations

theorem charge {tier bytes failedReleases orphanedReleaseBytes orphans}
    (h : Exclusive config world) :
    Exclusive config { world with
      state := { world.state.modifyBalance tier (·.charge bytes) with
        failedReleases, orphanedReleaseBytes }
      orphans } := by
  have hb (tier') (hm : tier' ∈ world.state.balances) :
      tier' ∈ (world.state.modifyBalance tier (·.charge bytes)).balances :=
    mem_balances_modifyBalance.mpr hm
  refine ⟨h.loads, h.promotions, h.actions, h.fresh, h.disjoint, ?_, ?_, ?_, h.allocations,
    h.active⟩
  case refine_1 => exact fun _ hm => h.backed_reservation hm hb fun _ _ => rfl
  case refine_2 => exact fun _ hm => h.backed_action hm hb fun _ _ => rfl
  case refine_3 => exact fun _ _ hi => hb _ <| h.configured _ _ hi

end Exclusive
end World
end RuntimeControl.Memory
