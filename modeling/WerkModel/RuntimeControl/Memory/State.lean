import WerkModel.RuntimeControl.Memory.Config

open Std Saturating

namespace RuntimeControl.Memory

structure MemoryObservation where
  tier           : MemoryTier
  totalBytes     : Nat
  availableBytes : Nat
  deriving DecidableEq

def MemoryObservation.usedBytes (observation : MemoryObservation) : Nat :=
  observation.totalBytes - observation.availableBytes

-- The fields of an allocation that say where its bytes are and where they may go.
structure Placement where
  tier           : MemoryTier
  bytes          : Nat
  demotionTarget : Option MemoryTier
  deriving DecidableEq

structure ManagedAllocation extends Placement where
  id             : AllocationId
  pinned         : Bool
  lastUsedMillis : Nat
  deriving DecidableEq

-- The fields of an account that operations count in.
structure TierBalance where
  budgetBytes        : Nat
  managedUsedBytes   : Nat
  reservedBytes      : Nat
  activeReservations : Nat
  deriving DecidableEq

namespace TierBalance

-- The bookkeeping of one reservation or demotion on its target tier.
def hold (balance : TierBalance) (bytes : Nat) : TierBalance :=
  { balance with
    reservedBytes      := add u64Max balance.reservedBytes bytes
    activeReservations := add usizeMax balance.activeReservations 1 }

def unhold (balance : TierBalance) (bytes : Nat) : TierBalance :=
  { balance with
    reservedBytes      := balance.reservedBytes - bytes
    activeReservations := balance.activeReservations - 1 }

def charge (balance : TierBalance) (bytes : Nat) : TierBalance :=
  { balance with managedUsedBytes := add u64Max balance.managedUsedBytes bytes }

def discharge (balance : TierBalance) (bytes : Nat) : TierBalance :=
  { balance with managedUsedBytes := balance.managedUsedBytes - bytes }

end TierBalance

structure TierAccount extends TierBalance where
  pressure           : PressureLevel
  lastActionMillis   : Option Nat
  observation        : Option MemoryObservation
  deriving DecidableEq

namespace TierAccount

def new (budget : TierBudget) : TierAccount where
  budgetBytes        := budget.bytes
  managedUsedBytes   := 0
  reservedBytes      := 0
  activeReservations := 0
  pressure           := .normal
  lastActionMillis   := none
  observation        := none

-- The observation of an account that was never refreshed reads as zero. The operations of the
-- manager that need an observation either refresh the account first or test for its presence.
def totalBytes (account : TierAccount) : Nat :=
  account.observation.elim 0 MemoryObservation.totalBytes

def availableBytes (account : TierAccount) : Nat :=
  account.observation.elim 0 MemoryObservation.availableBytes

def observedUsedBytes (account : TierAccount) : Nat :=
  account.observation.elim 0 MemoryObservation.usedBytes

-- The budget as limited by the memory that is physically present.
def effectiveBudget (account : TierAccount) : Nat :=
  min account.budgetBytes account.totalBytes

def effectiveUsed (account : TierAccount) : Nat :=
  add u64Max (max account.observedUsedBytes account.managedUsedBytes) account.reservedBytes

def managedAvailableBytes (account : TierAccount) : Nat :=
  account.budgetBytes - account.managedUsedBytes - account.reservedBytes

end TierAccount

structure ManagerState where
  tiers                 : ExtTreeMap MemoryTier TierAccount
  allocations           : ExtTreeMap AllocationId ManagedAllocation
  pendingLoads          : Finset AllocationId
  pendingPromotions     : Finset AllocationId
  pendingActions        : Finset AllocationId
  activeReservations    : Nat
  lastActionUnixMillis  : Option Nat
  completedDemotions    : Nat
  completedEvictions    : Nat
  failedReleases        : Nat
  orphanedReleaseBytes  : Nat

-- The state of a manager as `MemoryManager::new` creates it.
def ManagerState.new (config : MemoryManagerConfig) : ManagerState where
  tiers                := .ofList <| config.budgets.map fun budget =>
    (budget.tier, TierAccount.new budget)
  allocations          := ∅
  pendingLoads         := ∅
  pendingPromotions    := ∅
  pendingActions       := ∅
  activeReservations   := 0
  lastActionUnixMillis := none
  completedDemotions   := 0
  completedEvictions   := 0
  failedReleases       := 0
  orphanedReleaseBytes := 0

namespace ManagerState

-- Updates the balance of one tier. The source looks the account up with `get_mut`, and nothing
-- happens here for a tier that is not configured.
def modifyBalance (state : ManagerState) (tier : MemoryTier)
    (update : TierBalance → TierBalance) : ManagerState :=
  { state with
    tiers := state.tiers.modify tier fun account =>
      { account with toTierBalance := update account.toTierBalance } }

-- Takes `bytes` of `tier` for a reservation or a demotion.
def hold (state : ManagerState) (tier : MemoryTier) (bytes : Nat) : ManagerState :=
  { state.modifyBalance tier (·.hold bytes) with
    activeReservations := add usizeMax state.activeReservations 1 }

def unhold (state : ManagerState) (tier : MemoryTier) (bytes : Nat) : ManagerState :=
  { state.modifyBalance tier (·.unhold bytes) with
    activeReservations := state.activeReservations - 1 }

-- The three ways in which managed bytes change with the allocation they belong to.
def place (state : ManagerState) (allocation : ManagedAllocation) : ManagerState :=
  { state.modifyBalance allocation.tier (·.charge allocation.bytes) with
    allocations := state.allocations.insert allocation.id allocation }

def remove (state : ManagerState) (id : AllocationId) (tier : MemoryTier) (bytes : Nat) :
    ManagerState :=
  { state.modifyBalance tier (·.discharge bytes) with
    allocations       := state.allocations.erase id
    pendingPromotions := state.pendingPromotions.erase id }

def move (state : ManagerState) (id : AllocationId) (source target : MemoryTier) (bytes : Nat)
    (update : ManagedAllocation → ManagedAllocation) : ManagerState :=
  { (state.modifyBalance source (·.discharge bytes)).modifyBalance target (·.charge bytes) with
    allocations := state.allocations.modify id update }

def managedAllocations (state : ManagerState) (tier : MemoryTier) : Nat :=
  (state.allocations.valueList.filter (·.tier = tier)).length

end ManagerState

structure TierMemorySnapshot where
  tier                  : MemoryTier
  totalBytes            : Nat
  availableBytes        : Nat
  observedUsedBytes     : Nat
  managedUsedBytes      : Nat
  reservedBytes         : Nat
  budgetBytes           : Nat
  managedAvailableBytes : Nat
  activeReservations    : Nat
  managedAllocations    : Nat
  pressure              : PressureLevel
  deriving DecidableEq

structure MemorySnapshot where
  observedAtUnixMillis : Nat
  topology             : MemoryTopology
  tiers                : List TierMemorySnapshot
  lastActionUnixMillis : Option Nat
  completedDemotions   : Nat
  completedEvictions   : Nat
  failedReleases       : Nat
  orphanedReleaseBytes : Nat
  actionsInFlight      : Nat
  deriving DecidableEq

-- Both snapshots of the source differ in the available bytes of a tier only: in unified memory the
-- refreshed one reports the availability of the shared pool.
def snapshotTiers (state : ManagerState) (unifiedManagedAvailable : Option Nat) :
    List TierMemorySnapshot :=
  state.tiers.toList.map fun (tier, account) => {
    tier                  := tier
    totalBytes            := account.totalBytes
    availableBytes        := account.availableBytes
    observedUsedBytes     := account.observedUsedBytes
    managedUsedBytes      := account.managedUsedBytes
    reservedBytes         := account.reservedBytes
    budgetBytes           := account.budgetBytes
    managedAvailableBytes := unifiedManagedAvailable.getD account.managedAvailableBytes
    activeReservations    := account.activeReservations
    managedAllocations    := state.managedAllocations tier
    pressure              := account.pressure
  }

def snapshotWith (state : ManagerState) (observedAt : Nat) (topology : MemoryTopology)
    (unifiedManagedAvailable : Option Nat) : MemorySnapshot where
  observedAtUnixMillis := observedAt
  topology             := topology
  tiers                := snapshotTiers state unifiedManagedAvailable
  lastActionUnixMillis := state.lastActionUnixMillis
  completedDemotions   := state.completedDemotions
  completedEvictions   := state.completedEvictions
  failedReleases       := state.failedReleases
  orphanedReleaseBytes := state.orphanedReleaseBytes
  actionsInFlight      := state.pendingActions.card

namespace ManagerState

-- The saturating sums over all accounts of the unified pool.
def sharedManaged (state : ManagerState) : Nat :=
  (state.tiers.valueList.map (·.managedUsedBytes)).foldl (add u64Max) 0

def sharedReserved (state : ManagerState) : Nat :=
  (state.tiers.valueList.map (·.reservedBytes)).foldl (add u64Max) 0

def sharedAvailable (state : ManagerState) : Nat :=
  (state.tiers.valueList.map TierAccount.availableBytes).min?.getD 0

end ManagerState

def accountingSnapshot (state : ManagerState) (topology : MemoryTopology) (unixMillis : Nat) :
    MemorySnapshot :=
  snapshotWith state unixMillis topology none

def snapshotFromState (state : ManagerState) (observedAt : Nat) (topology : MemoryTopology) :
    MemorySnapshot :=
  snapshotWith state observedAt topology <| match topology with
    | .discrete => none
    | .unified  =>
      let budget := (state.tiers.valueList.map (·.budgetBytes)).min?.getD 0
      some (budget - state.sharedManaged - state.sharedReserved)

end RuntimeControl.Memory
