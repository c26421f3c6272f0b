import WerkModel.RuntimeControl.Memory.Capacity

-- Where allocations may be demoted to: in every reachable state, from an accelerator to the host.
open Std ExtTreeMap Saturating

namespace RuntimeControl.Memory

open World ManagerState

-- Memory is demoted from an accelerator to the host.
def ManagedAllocation.Directed (allocation : ManagedAllocation) : Prop :=
  ∀ target ∈ allocation.demotionTarget, target = .host ∧ allocation.tier ≠ .host

def MemoryReservation.Directed (reservation : MemoryReservation) : Prop :=
  match reservation.binding with
  | .load _ _ demotionTarget => ∀ target ∈ demotionTarget, target = .host ∧ reservation.tier ≠ .host
  | .promotion _ source      => source = .host ∧ reservation.tier ≠ .host

def ManagerState.Tidy (s : ManagerState) : Prop :=
  ∀ (id : AllocationId) allocation, s.allocations[id]? = some allocation →
    allocation.id = id ∧ allocation.Directed

structure World.Tidy (world : World) : Prop where
  state        : world.state.Tidy
  reservations : ∀ reservation ∈ world.reservations, reservation.Directed

section Tidy

variable {config : MemoryManagerConfig} {world : World} {s s' : ManagerState} {id : AllocationId}

namespace ManagerState.Tidy

theorem congr (h : s.Tidy) (ha : s'.allocations = s.allocations) : s'.Tidy :=
  fun id allocation hl => h id allocation (ha ▸ hl)

theorem modify {update : ManagedAllocation → ManagedAllocation} (h : s.Tidy)
    (ha : s'.allocations = s.allocations.modify id update)
    (hu : ∀ a, a.Directed → (update a).id = a.id ∧ (update a).Directed) : s'.Tidy := by
  intro id' allocation hl
  have ⟨before, hb, he⟩ := lookup_modify (ha ▸ hl)
  have ⟨hi, hd⟩ := h id' before hb
  rw [he]
  split
  case isTrue  => exact ⟨(hu before hd).1.trans hi, (hu before hd).2⟩
  case isFalse => exact ⟨hi, hd⟩

theorem erase (h : s.Tidy) (ha : s'.allocations = s.allocations.erase id) : s'.Tidy := by
  intro id' allocation hl
  rw [ha, getElem?_erase] at hl
  split at hl
  case isTrue  => cases hl
  case isFalse => exact h id' allocation hl

theorem insert {allocation : ManagedAllocation} (h : s.Tidy)
    (ha : s'.allocations = s.allocations.insert allocation.id allocation)
    (hd : allocation.Directed) : s'.Tidy := by
  intro id' allocation' hl
  rw [ha, getElem?_insert] at hl
  split at hl
  case isTrue he =>
    cases hl
    exact ⟨LawfulEqCmp.eq_of_compare he, hd⟩
  case isFalse => exact h id' allocation' hl

end ManagerState.Tidy

theorem allocations_releaseReservation {reservation : MemoryReservation} :
    (releaseReservationLocked s reservation).allocations = s.allocations := by
  have ⟨_, _, binding⟩ := reservation
  cases binding <;> rfl

theorem allocations_claimAction {permit : PressureActionPermit} :
    (s.claimAction permit).allocations = s.allocations := by
  have ⟨action⟩ := permit
  cases action <;> rfl

theorem allocations_releaseAction {action : PressureAction} :
    (releasePressureActionLocked s action).allocations = s.allocations := by
  cases action <;> rfl

theorem allocations_recordAction {topology tier now unixMillis} :
    (recordAction topology tier now unixMillis s).allocations = s.allocations :=
  rfl

-- Where the operations that grant a reservation may take memory from and to.

theorem validateDemotionTarget_ok {tier : MemoryTier} {demotionTarget : Option MemoryTier}
    (h : validateDemotionTarget s tier demotionTarget = .ok ()) :
    ∀ target ∈ demotionTarget, target = .host ∧ tier ≠ .host := by
  intro target ht
  rw [Option.mem_def.mp ht, validateDemotionTarget.eq_def] at h
  simp only at h
  split at h
  case h_1 => exact ⟨rfl, nofun⟩
  case h_2 => cases h

theorem reserveLoad_directed {telemetry : Telemetry} {tier : MemoryTier} {bytes : Nat} {pinned}
    {demotionTarget : Option MemoryTier} {reservation : MemoryReservation}
    (h : reserveLoad config telemetry id tier bytes pinned demotionTarget s =
      (.ok reservation, s')) : reservation.Directed := by
  refine (withRefreshed_cases h fun s₁ hs h => guard hs h fun _ h => guard hs h fun _ h =>
    ?_).resolve_left Rejected.not_ok
  split at h
  case h_1 => exact .inl <| .of_eq hs h
  case h_2 hv =>
    split at h
    case h_1 => cases h
    case h_2 hr =>
      cases h
      cases ((reserveLocked_cases hs hr).resolve_left Rejected.not_ok).1
      exact .inr <| validateDemotionTarget_ok hv

theorem reservePromotion_directed {telemetry : Telemetry} {target : MemoryTier}
    {reservation : MemoryReservation}
    (h : reservePromotion config telemetry id target s = (.ok reservation, s')) :
    reservation.Directed := by
  refine (withRefreshed_cases h fun s₁ hs h => ?_).resolve_left Rejected.not_ok
  split at h
  case h_1 => exact .inl <| .of_eq hs h
  case h_2 allocation _ =>
    refine guard hs h fun _ h => guard hs h fun _ h => guard hs h fun _ h =>
      guard hs h fun hd h => ?_
    simp only at h
    split at h
    case h_1 => cases h
    case h_2 hr =>
      cases h
      cases ((reserveLocked_cases hs hr).resolve_left Rejected.not_ok).1
      simp only [not_or, not_not] at hd
      exact .inr hd

-- One step of an operation.

theorem tidy_granted {result : Except MemoryError MemoryReservation} (h : s.Tidy)
    (hr : Rejected result s s' ∨ Granted config s result s') : s'.Tidy := by
  cases hr
  case inl hr => exact h.congr hr.2.allocations
  case inr hr =>
    have ⟨_, _, hu, _, _, he⟩ := hr
    exact h.congr <| (congrArg ManagerState.allocations he).trans hu.allocations

theorem tidy_beginPressureAction {action result} (h : s.Tidy)
    (hb : beginPressureAction config action s = (result, s')) : s'.Tidy := by
  cases beginPressureAction_cases hb
  case inl hr => exact h.congr hr.2.allocations
  case inr hr => exact h.congr <| hr.2.1 ▸ allocations_claimAction

theorem tidy_updateIdleAllocation {update : ManagedAllocation → ManagedAllocation} (h : s.Tidy)
    (hu : ∀ a, a.Directed → (update a).id = a.id ∧ (update a).Directed) :
    (updateIdleAllocation id update s).2.Tidy := by
  rw [updateIdleAllocation]
  split
  case isTrue => exact h
  case isFalse =>
    split
    case isTrue  => exact h
    case isFalse => exact h.modify rfl hu

theorem tidy_recordFailedRelease (h : s.Tidy) : (recordFailedRelease id s).2.Tidy := by
  have hu : (updateIdleAllocation id ({ · with pinned := true }) s).2.Tidy :=
    tidy_updateIdleAllocation h fun _ hd => ⟨rfl, hd⟩
  rw [recordFailedRelease]
  split
  case h_1 he => rwa [he] at hu
  case h_2 he =>
    rw [he] at hu
    exact ManagerState.Tidy.congr hu rfl

theorem tidy_removeAllocation (h : s.Tidy) : (removeAllocation id s).2.Tidy := by
  rw [removeAllocation]
  split
  case isTrue => exact h
  case isFalse =>
    split
    case h_1 => exact h
    case h_2 => exact h.erase rfl

theorem tidy_recordOrphanedRelease {tier : MemoryTier} {bytes : Option Nat} (h : s.Tidy) :
    (recordOrphanedRelease tier bytes s).2.Tidy := by
  rw [recordOrphanedRelease]
  split
  case h_1 => exact h
  case h_2 => exact h.congr rfl

theorem tidy_commitLoad {reservation : MemoryReservation} (now : Nat) (h : s.Tidy)
    (hr : reservation.Directed) : (reservation.commitLoad now s).2.Tidy := by
  rw [MemoryReservation.commitLoad]
  split
  case h_1 => exact h
  case h_2 hb =>
    split
    case isTrue => exact h
    case isFalse =>
      rw [MemoryReservation.Directed, hb] at hr
      exact (h.congr allocations_releaseReservation).insert rfl hr

theorem tidy_commitPromotion {reservation : MemoryReservation} (now : Nat) (h : s.Tidy)
    (hr : reservation.Directed) : (reservation.commitPromotion now s).2.Tidy := by
  rw [MemoryReservation.commitPromotion]
  split
  case h_1 => exact h
  case h_2 hb =>
    rw [MemoryReservation.Directed, hb] at hr
    split
    case h_1 => exact h
    case h_2 =>
      split
      case isTrue => exact h
      case isFalse =>
        refine (h.congr allocations_releaseReservation).modify rfl fun _ _ => ⟨rfl, ?_⟩
        intro target ht
        exact ⟨(Option.mem_some_iff.mp ht).symm.trans hr.1, hr.2⟩

theorem tidy_commitPermit {permit : PressureActionPermit} (now unixMillis : Nat) (h : s.Tidy) :
    (permit.commit config now unixMillis s).2.Tidy := by
  rw [PressureActionPermit.commit]
  split
  case isTrue => exact h
  case isFalse =>
    split
    case h_1 => exact h
    case h_2 =>
      have hr : (releasePressureActionLocked s permit.action).Tidy :=
        h.congr allocations_releaseAction
      split
      case h_1 =>
        split
        case isTrue  => exact h
        case isFalse =>
          refine ManagerState.Tidy.congr ?_ allocations_recordAction
          exact hr.modify rfl fun _ _ => ⟨rfl, fun _ ht => absurd ht (Option.not_mem_none _)⟩
      case h_2 =>
        split
        case isTrue  => exact h
        case isFalse =>
          refine ManagerState.Tidy.congr ?_ allocations_recordAction
          exact hr.erase rfl

namespace World.Tidy

theorem withState (h : world.Tidy) (hs : s.Tidy) : World.Tidy { world with state := s } :=
  ⟨hs, h.reservations⟩

theorem settle {α} {result : Except MemoryError α × ManagerState}
    {accept : α → World → Output × World} (h : world.Tidy) (hs : result.2.Tidy)
    (ha : ∀ value, result.1 = .ok value →
      (accept value { world with state := result.2 }).2.Tidy) :
    (world.settle result accept).2.Tidy := by
  have ⟨value, s⟩ := result
  cases value
  case error => exact h.withState hs
  case ok    => exact ha _ rfl

theorem report {α} {result : Except MemoryError α × ManagerState} {output : α → Output}
    (h : world.Tidy) (hs : result.2.Tidy) : (world.settle result (report output)).2.Tidy :=
  h.settle hs fun _ _ => h.withState hs

theorem reserve {result : Except MemoryError MemoryReservation × ManagerState} (h : world.Tidy)
    (hs : world.state.Tidy → result.2.Tidy)
    (hd : ∀ reservation, result.1 = .ok reservation → reservation.Directed) :
    (world.settle result fun reservation world =>
      (.reservation reservation, addReservation reservation world)).2.Tidy := by
  refine h.settle (hs h.state) fun value hv => ⟨hs h.state, fun reservation hm => ?_⟩
  cases Multiset.mem_cons.mp hm
  case inl he => exact he ▸ hd _ hv
  case inr hm => exact h.reservations _ hm

theorem removeReservation {reservation : MemoryReservation} (h : world.Tidy) :
    (removeReservation reservation world).Tidy :=
  ⟨h.state, fun _ hm => h.reservations _ (Multiset.mem_of_mem_erase hm)⟩

theorem dropReservation {reservation : MemoryReservation} (h : world.Tidy) :
    (dropReservation reservation world).Tidy :=
  (h.withState <| h.state.congr allocations_releaseReservation).removeReservation

theorem commitReservation {reservation : MemoryReservation}
    {commit : ManagerState → Except MemoryError Unit × ManagerState} (h : world.Tidy)
    (hc : (commit world.state).2.Tidy) : (world.commitReservation reservation commit).2.Tidy := by
  rw [World.commitReservation]
  split
  case h_1 he =>
    rw [he] at hc
    exact (h.withState hc).dropReservation
  case h_2 he =>
    rw [he] at hc
    exact (h.withState hc).removeReservation

theorem removePermit {permit : PressureActionPermit} (h : world.Tidy) :
    (removePermit permit world).Tidy :=
  ⟨h.state, h.reservations⟩

theorem dropPermit {permit : PressureActionPermit} (h : world.Tidy) :
    (dropPermit permit world).Tidy :=
  (h.withState <| h.state.congr allocations_releaseAction).removePermit

theorem commitPermit {permit : PressureActionPermit} (h : world.Tidy) (now unixMillis : Nat) :
    (commitPermit permit world (permit.commit config now unixMillis)).2.Tidy := by
  have hc : (permit.commit config now unixMillis world.state).2.Tidy :=
    tidy_commitPermit now unixMillis h.state
  rw [World.commitPermit]
  split
  case h_1 he =>
    rw [he] at hc
    exact (h.withState hc).dropPermit
  case h_2 he =>
    rw [he] at hc
    exact (h.withState hc).removePermit

theorem reserveLoad {telemetry tier bytes pinned demotionTarget} (h : world.Tidy) :
    (world.apply config (.reserveLoad telemetry id tier bytes pinned demotionTarget)).2.Tidy :=
  h.reserve (fun hs => tidy_granted hs (reserveLoad_cases rfl))
    fun _ hr => reserveLoad_directed (Prod.ext hr rfl)

theorem reservePromotion {telemetry target} (h : world.Tidy) :
    (world.apply config (.reservePromotion telemetry id target)).2.Tidy :=
  h.reserve (fun hs => tidy_granted hs (reservePromotion_cases rfl))
    fun _ hr => reservePromotion_directed (Prod.ext hr rfl)

theorem beginPressureAction {action} (h : world.Tidy) :
    (world.apply config (.beginPressureAction action)).2.Tidy :=
  have hs : (Memory.beginPressureAction config action world.state).2.Tidy :=
    tidy_beginPressureAction h.state rfl
  h.settle hs fun _ _ => ⟨hs, h.reservations⟩

theorem recordOrphanedRelease {tier bytes} (h : world.Tidy) :
    (world.apply config (.recordOrphanedRelease tier bytes)).2.Tidy := by
  have hs : (Memory.recordOrphanedRelease tier bytes world.state).2.Tidy :=
    tidy_recordOrphanedRelease h.state
  refine h.settle hs fun _ _ => ?_
  simp only [addOrphan]
  split
  case h_1 => exact h.withState hs
  case h_2 => exact ⟨hs, h.reservations⟩

theorem apply {operation} (h : world.Tidy) (hl : world.Holds operation) :
    (world.apply config operation).2.Tidy := by
  cases operation
  case refresh               => exact h.report (h.state.congr (refresh_cases rfl).allocations)
  case accountingSnapshot    => exact h
  case reserveLoad           => exact h.reserveLoad
  case reservePromotion      => exact h.reservePromotion
  case commitLoad            =>
    exact h.commitReservation <| tidy_commitLoad _ h.state (h.reservations _ hl)
  case commitPromotion       =>
    exact h.commitReservation <| tidy_commitPromotion _ h.state (h.reservations _ hl)
  case dropReservation       => exact h.dropReservation
  case touch                 =>
    exact h.report <| tidy_updateIdleAllocation h.state fun _ hd => ⟨rfl, hd⟩
  case setPinned             =>
    exact h.report <| tidy_updateIdleAllocation h.state fun _ hd => ⟨rfl, hd⟩
  case removeAllocation      => exact h.report (tidy_removeAllocation h.state)
  case recordFailedRelease   => exact h.report (tidy_recordFailedRelease h.state)
  case recordOrphanedRelease => exact h.recordOrphanedRelease
  case planPressureActions   =>
    exact h.report (h.state.congr (planPressureActionsFor_cases rfl).allocations)
  case planForReservation    =>
    exact h.report (h.state.congr (planForReservation_cases rfl).allocations)
  case beginPressureAction   => exact h.beginPressureAction
  case commitPermit          => exact h.commitPermit _ _
  case dropPermit            => exact h.dropPermit

end World.Tidy

theorem tidy (config : MemoryManagerConfig) : (system config).Invariant World.Tidy where
  init _ h            := h ▸ ⟨fun _ _ hl => by simp [World.new, ManagerState.new] at hl,
    fun _ hm => absurd hm (Multiset.notMem_zero _)⟩
  step _ _ _ _ h hstp := by
    have ht : (World.apply config _ _).2.Tidy := h.apply hstp.1
    rwa [hstp.2] at ht

end Tidy
end RuntimeControl.Memory
