import WerkModel.RuntimeControl.Memory.Admission

-- The operations of the memory manager. Each of them takes the state under the manager's lock, and
-- returns its result with the state it leaves behind; readings of the telemetry and of the clocks
-- are arguments.
open Std Saturating

namespace RuntimeControl.Memory

inductive PressureAction
  | demote (allocationId : AllocationId) (source target : MemoryTier) (bytes : Nat)
  | evict (allocationId : AllocationId) (tier : MemoryTier) (bytes : Nat)
  deriving DecidableEq

def PressureAction.allocationId : PressureAction → AllocationId
  | demote id .. | evict id .. => id

-- The tier that the action relieves.
def PressureAction.tier : PressureAction → MemoryTier
  | demote _ source .. => source
  | evict _ tier _     => tier

-- A permit is active until it is committed or dropped; `World` holds the active ones.
structure PressureActionPermit where
  action : PressureAction
  deriving DecidableEq

-- Runs an operation on the refreshed accounts. They stay refreshed when the operation fails.
def withRefreshed {α} (config : MemoryManagerConfig) (telemetry : Telemetry)
    (state : ManagerState) (operation : ManagerState → Except MemoryError α × ManagerState) :
    Except MemoryError α × ManagerState :=
  match sampleTelemetry state telemetry with
  | .error error     => (.error error, state)
  | .ok observations =>
    operation <| refreshAccounts state observations config.topology config.thresholds

def refresh (config : MemoryManagerConfig) (telemetry : Telemetry) (unixMillis : Nat)
    (state : ManagerState) : Except MemoryError MemorySnapshot × ManagerState :=
  withRefreshed config telemetry state fun state =>
    (.ok (snapshotFromState state unixMillis config.topology), state)

def reserveLoad (config : MemoryManagerConfig) (telemetry : Telemetry) (id : AllocationId)
    (tier : MemoryTier) (bytes : Nat) (pinned : Bool) (demotionTarget : Option MemoryTier)
    (state : ManagerState) : Except MemoryError MemoryReservation × ManagerState :=
  withRefreshed config telemetry state fun state =>
    if id ∈ state.allocations ∨ id ∈ state.pendingLoads then
      (.error (.duplicateAllocation id), state)
    else if add usizeMax state.allocations.size state.pendingLoads.card ≥
        config.maxAllocations then
      (.error (.allocationLimitReached config.maxAllocations), state)
    else match validateDemotionTarget state tier demotionTarget with
    | .error error => (.error error, state)
    | .ok ()       =>
      match reserveLocked config state tier bytes (.load id pinned demotionTarget) with
      | (.error error, state)    => (.error error, state)
      | (.ok reservation, state) =>
        (.ok reservation, { state with pendingLoads := insert id state.pendingLoads })

def reservePromotion (config : MemoryManagerConfig) (telemetry : Telemetry) (id : AllocationId)
    (target : MemoryTier) (state : ManagerState) :
    Except MemoryError MemoryReservation × ManagerState :=
  withRefreshed config telemetry state fun state =>
    match state.allocations[id]? with
    | none            => (.error (.unknownAllocation id), state)
    | some allocation =>
      if allocation.tier = target then
        (.error (.invalidReservation
          s!"allocation {id.get} is already on {target.display}"), state)
      else if id ∈ state.pendingPromotions then
        (.error (.invalidReservation
          s!"allocation {id.get} already has a pending promotion"), state)
      else if id ∈ state.pendingActions then
        (.error (.actionInFlight id), state)
      else if allocation.tier ≠ .host ∨ target = .host then
        (.error (.invalidReservation
          "promotion must move an allocation from host memory to an accelerator"), state)
      else
        let binding := .promotion id allocation.tier
        match reserveLocked config state target allocation.bytes binding with
        | (.error error, state)    => (.error error, state)
        | (.ok reservation, state) =>
          (.ok reservation, { state with pendingPromotions := insert id state.pendingPromotions })

-- The guard and the lookup that `touch`, `set_pinned` and `record_failed_release` share.
def updateIdleAllocation (id : AllocationId) (update : ManagedAllocation → ManagedAllocation)
    (state : ManagerState) : Except MemoryError Unit × ManagerState :=
  if id ∈ state.pendingActions then
    (.error (.actionInFlight id), state)
  else if id ∉ state.allocations then
    (.error (.unknownAllocation id), state)
  else
    (.ok (), { state with allocations := state.allocations.modify id update })

def touch (now : Nat) (id : AllocationId) :
    ManagerState → Except MemoryError Unit × ManagerState :=
  updateIdleAllocation id fun allocation => { allocation with lastUsedMillis := now }

def setPinned (id : AllocationId) (pinned : Bool) :
    ManagerState → Except MemoryError Unit × ManagerState :=
  updateIdleAllocation id fun allocation => { allocation with pinned := pinned }

-- Keeps an allocation visible whose cleanup the backend refused. It is pinned, because no policy
-- movement can be retried without a state handle.
def recordFailedRelease (id : AllocationId) (state : ManagerState) :
    Except MemoryError Unit × ManagerState :=
  match updateIdleAllocation id (fun allocation => { allocation with pinned := true }) state with
  | (.error error, state) => (.error error, state)
  | (.ok (), state)       =>
    (.ok (), { state with failedReleases := add u64Max state.failedReleases 1 })

def removeAllocation (id : AllocationId) (state : ManagerState) :
    Except MemoryError Unit × ManagerState :=
  if id ∈ state.pendingActions ∨ id ∈ state.pendingPromotions then
    (.error (.actionInFlight id), state)
  else match state.allocations[id]? with
  | none            => (.error (.unknownAllocation id), state)
  | some allocation =>
    (.ok (), state.remove id allocation.tier allocation.bytes)

-- A size that cannot be trusted is charged as the whole budget of the tier.
def accountedBytes (account : TierAccount) (bytes : Option Nat) : Nat :=
  (bytes.filter (0 < ·)).getD account.budgetBytes

def recordOrphanedRelease (tier : MemoryTier) (bytes : Option Nat) (state : ManagerState) :
    Except MemoryError Unit × ManagerState :=
  match state.tiers[tier]? with
  | none         => (.error (.unknownTier tier), state)
  | some account =>
    let accounted := accountedBytes account bytes
    (.ok (), { state.modifyBalance tier (·.charge accounted) with
      failedReleases       := add u64Max state.failedReleases 1
      orphanedReleaseBytes := add u64Max state.orphanedReleaseBytes accounted })

def beginPressureAction (config : MemoryManagerConfig) (action : PressureAction)
    (state : ManagerState) : Except MemoryError PressureActionPermit × ManagerState :=
  let id := action.allocationId
  if id ∈ state.pendingActions ∨ id ∈ state.pendingPromotions then
    (.error (.actionInFlight id), state)
  else match state.allocations[id]? with
  | none            => (.error (.staleAction id), state)
  | some allocation =>
    if allocation.pinned then
      (.error (.pinnedAllocation id), state)
    else match action with
    | .demote _ source target bytes =>
      if allocation.tier ≠ source ∨ allocation.bytes ≠ bytes ∨
          allocation.demotionTarget ≠ some target ∨ config.topology ≠ .discrete then
        (.error (.staleAction id), state)
      else if state.activeReservations ≥ config.maxReservations then
        (.error (.reservationLimitReached config.maxReservations), state)
      else if ¬canAcceptBytes state target bytes 0 config.topology config.thresholds then
        (.error (.reservationDenied target bytes "demotion target capacity changed after planning"),
          state)
      else if target ∉ state.tiers then
        (.error (.unknownTier target), state)
      else
        (.ok ⟨action⟩, { state.hold target bytes with
          pendingActions := insert id state.pendingActions })
    | .evict _ tier bytes =>
      if allocation.tier ≠ tier ∨ allocation.bytes ≠ bytes then
        (.error (.staleAction id), state)
      else
        (.ok ⟨action⟩, { state with pendingActions := insert id state.pendingActions })

-- Commits consume their token. The state they return on an error is the one before the token is
-- dropped, which `MemoryReservation.drop` and `PressureActionPermit.drop` do afterwards.
namespace MemoryReservation

def commitLoad (reservation : MemoryReservation) (now : Nat) (state : ManagerState) :
    Except MemoryError Unit × ManagerState :=
  match reservation.binding with
  | .promotion .. =>
    (.error (.invalidReservation "a promotion reservation cannot commit a new load"), state)
  | .load id pinned demotionTarget =>
    if id ∉ state.pendingLoads ∨ id ∈ state.allocations then
      (.error (.invalidReservation
        s!"allocation {id.get} is no longer reserved for loading"), state)
    else
      (.ok (), (releaseReservationLocked state reservation).place {
        id             := id
        tier           := reservation.tier
        bytes          := reservation.bytes
        pinned         := pinned
        demotionTarget := demotionTarget
        lastUsedMillis := now
      })

def commitPromotion (reservation : MemoryReservation) (now : Nat) (state : ManagerState) :
    Except MemoryError Unit × ManagerState :=
  match reservation.binding with
  | .load .. =>
    (.error (.invalidReservation "a load reservation cannot commit a promotion"), state)
  | .promotion id source =>
    match state.allocations[id]? with
    | none            => (.error (.unknownAllocation id), state)
    | some allocation =>
      if allocation.tier ≠ source ∨ allocation.bytes ≠ reservation.bytes then
        (.error (.invalidReservation
          s!"allocation {id.get} changed while its promotion was reserved"), state)
      else
        let released := releaseReservationLocked state reservation
        (.ok (), released.move id source reservation.tier reservation.bytes fun allocation =>
          { allocation with
            tier           := reservation.tier
            demotionTarget := some source
            lastUsedMillis := now })

def drop (reservation : MemoryReservation) (state : ManagerState) : ManagerState :=
  releaseReservationLocked state reservation

end MemoryReservation

def releasePressureActionLocked (state : ManagerState) (action : PressureAction) :
    ManagerState :=
  let released := { state with pendingActions := state.pendingActions.erase action.allocationId }
  match action with
  | .demote _ _ target bytes => released.unhold target bytes
  | .evict ..                => released

-- The last action is noted on the relieved tier, and on every tier of a unified pool.
def recordAction (topology : MemoryTopology) (tier : MemoryTier) (now unixMillis : Nat)
    (state : ManagerState) : ManagerState :=
  let note (account : TierAccount) := { account with lastActionMillis := some now }
  { state with
    tiers := match topology with
      | .discrete => state.tiers.modify tier note
      | .unified  => state.tiers.map fun _ account => note account
    lastActionUnixMillis := some unixMillis }

namespace PressureActionPermit

def commit (config : MemoryManagerConfig) (permit : PressureActionPermit)
    (now unixMillis : Nat) (state : ManagerState) : Except MemoryError Unit × ManagerState :=
  let id := permit.action.allocationId
  if id ∉ state.pendingActions then
    (.error (.staleAction id), state)
  else match state.allocations[id]? with
  | none            => (.error (.staleAction id), state)
  | some allocation =>
    match permit.action with
    | .demote _ source target bytes =>
      if allocation.tier ≠ source ∨ allocation.bytes ≠ bytes ∨
          allocation.demotionTarget ≠ some target then
        (.error (.staleAction id), state)
      else
        let released := releasePressureActionLocked state permit.action
        let moved := released.move id source target bytes fun allocation =>
          { allocation with
            tier           := target
            demotionTarget := none }
        (.ok (), recordAction config.topology source now unixMillis { moved with
          completedDemotions := add u64Max moved.completedDemotions 1 })
    | .evict _ tier bytes =>
      if allocation.tier ≠ tier ∨ allocation.bytes ≠ bytes then
        (.error (.staleAction id), state)
      else
        let released := releasePressureActionLocked state permit.action
        let evicted := released.remove id tier bytes
        (.ok (), recordAction config.topology tier now unixMillis { evicted with
          completedEvictions := add u64Max evicted.completedEvictions 1 })

def drop (permit : PressureActionPermit) (state : ManagerState) : ManagerState :=
  releasePressureActionLocked state permit.action

end PressureActionPermit
end RuntimeControl.Memory
