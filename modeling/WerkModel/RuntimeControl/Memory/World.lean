import WerkModel.Lib.System
import WerkModel.RuntimeControl.Memory.Plan

-- The manager together with its callers. The callers hold the active reservations and permits, and
-- every operation is one critical section of the manager.
open Std

namespace RuntimeControl.Memory

inductive Operation
  | refresh (telemetry : Telemetry) (unixMillis : Nat)
  | accountingSnapshot (unixMillis : Nat)
  | reserveLoad (telemetry : Telemetry) (id : AllocationId) (tier : MemoryTier) (bytes : Nat)
      (pinned : Bool) (demotionTarget : Option MemoryTier)
  | reservePromotion (telemetry : Telemetry) (id : AllocationId) (target : MemoryTier)
  | commitLoad (reservation : MemoryReservation) (now : Nat)
  | commitPromotion (reservation : MemoryReservation) (now : Nat)
  | dropReservation (reservation : MemoryReservation)
  | touch (now : Nat) (id : AllocationId)
  | setPinned (id : AllocationId) (pinned : Bool)
  | removeAllocation (id : AllocationId)
  | recordFailedRelease (id : AllocationId)
  | recordOrphanedRelease (tier : MemoryTier) (bytes : Option Nat)
  | planPressureActions (telemetry : Telemetry) (tier : MemoryTier)
      (eligible : Option (Finset AllocationId)) (now : Nat)
  | planForReservation (telemetry : Telemetry) (tier : MemoryTier) (requestedBytes : Nat)
      (eligible : Option (Finset AllocationId)) (now : Nat)
  | beginPressureAction (action : PressureAction)
  | commitPermit (permit : PressureActionPermit) (now unixMillis : Nat)
  | dropPermit (permit : PressureActionPermit)

inductive Output
  | done
  | snapshot (snapshot : MemorySnapshot)
  | reservation (reservation : MemoryReservation)
  | plan (plan : PressureActionPlan)
  | permit (permit : PressureActionPermit)

abbrev Result := Except MemoryError Output

structure World where
  state        : ManagerState
  reservations : Multiset MemoryReservation
  permits      : Multiset PressureActionPermit
  -- The charges that `record_orphaned_release` has made.
  orphans      : Multiset (MemoryTier × Nat)

namespace World

def new (config : MemoryManagerConfig) : World where
  state        := .new config
  reservations := 0
  permits      := 0
  orphans      := 0

-- A result that the world takes up with `accept` if it is not an error.
def settle {α} (world : World) (result : Except MemoryError α × ManagerState)
    (accept : α → World → Output × World) : Result × World :=
  match result with
  | (.error error, state) => (.error error, { world with state := state })
  | (.ok value, state)    =>
    let (output, world) := accept value { world with state := state }
    (.ok output, world)

def report {α} (output : α → Output) (value : α) (world : World) : Output × World :=
  (output value, world)

def addReservation (reservation : MemoryReservation) (world : World) : World :=
  { world with reservations := reservation ::ₘ world.reservations }

def removeReservation (reservation : MemoryReservation) (world : World) : World :=
  { world with reservations := world.reservations.erase reservation }

def addPermit (permit : PressureActionPermit) (world : World) : World :=
  { world with permits := permit ::ₘ world.permits }

def removePermit (permit : PressureActionPermit) (world : World) : World :=
  { world with permits := world.permits.erase permit }

def dropReservation (reservation : MemoryReservation) (world : World) : World :=
  removeReservation reservation { world with state := reservation.drop world.state }

def dropPermit (permit : PressureActionPermit) (world : World) : World :=
  removePermit permit { world with state := permit.drop world.state }

-- A commit consumes its reservation, which is dropped while active if the commit fails.
def commitReservation (reservation : MemoryReservation) (world : World)
    (commit : ManagerState → Except MemoryError Unit × ManagerState) : Result × World :=
  match commit world.state with
  | (.error error, state) => (.error error, dropReservation reservation { world with state })
  | (.ok (), state)       => (.ok .done, removeReservation reservation { world with state })

def commitPermit (permit : PressureActionPermit) (world : World)
    (commit : ManagerState → Except MemoryError Unit × ManagerState) : Result × World :=
  match commit world.state with
  | (.error error, state) => (.error error, dropPermit permit { world with state })
  | (.ok (), state)       => (.ok .done, removePermit permit { world with state })

-- The charge of an orphan depends on the budget of its tier only, which no operation changes.
def addOrphan (tier : MemoryTier) (bytes : Option Nat) (world : World) : World :=
  match world.state.tiers[tier]? with
  | none         => world
  | some account =>
    { world with orphans := (tier, accountedBytes account bytes) ::ₘ world.orphans }

def apply (config : MemoryManagerConfig) (world : World) : Operation → Result × World
  | .refresh telemetry unixMillis =>
    world.settle (Memory.refresh config telemetry unixMillis world.state) (report .snapshot)
  | .accountingSnapshot unixMillis =>
    (.ok (.snapshot (Memory.accountingSnapshot world.state config.topology unixMillis)), world)
  | .reserveLoad telemetry id tier bytes pinned demotionTarget =>
    world.settle
      (Memory.reserveLoad config telemetry id tier bytes pinned demotionTarget world.state)
      fun reservation world => (.reservation reservation, addReservation reservation world)
  | .reservePromotion telemetry id target =>
    world.settle (Memory.reservePromotion config telemetry id target world.state)
      fun reservation world => (.reservation reservation, addReservation reservation world)
  | .commitLoad reservation now =>
    world.commitReservation reservation (reservation.commitLoad now)
  | .commitPromotion reservation now =>
    world.commitReservation reservation (reservation.commitPromotion now)
  | .dropReservation reservation =>
    (.ok .done, dropReservation reservation world)
  | .touch now id =>
    world.settle (Memory.touch now id world.state) (report fun _ => .done)
  | .setPinned id pinned =>
    world.settle (Memory.setPinned id pinned world.state) (report fun _ => .done)
  | .removeAllocation id =>
    world.settle (Memory.removeAllocation id world.state) (report fun _ => .done)
  | .recordFailedRelease id =>
    world.settle (Memory.recordFailedRelease id world.state) (report fun _ => .done)
  | .recordOrphanedRelease tier bytes =>
    world.settle (Memory.recordOrphanedRelease tier bytes world.state)
      fun _ world => (.done, addOrphan tier bytes world)
  | .planPressureActions telemetry tier eligible now =>
    world.settle (Memory.planPressureActions config telemetry tier eligible now world.state)
      (report .plan)
  | .planForReservation telemetry tier requestedBytes eligible now =>
    world.settle
      (Memory.planForReservation config telemetry tier requestedBytes eligible now world.state)
      (report .plan)
  | .beginPressureAction action =>
    world.settle (Memory.beginPressureAction config action world.state)
      fun permit world => (.permit permit, addPermit permit world)
  | .commitPermit permit now unixMillis =>
    commitPermit permit world (permit.commit config now unixMillis)
  | .dropPermit permit =>
    (.ok .done, dropPermit permit world)

-- A token can only be used by the caller that holds it.
def Holds (world : World) : Operation → Prop
  | .commitLoad reservation _ | .commitPromotion reservation _ | .dropReservation reservation =>
    reservation ∈ world.reservations
  | .commitPermit permit _ _ | .dropPermit permit =>
    permit ∈ world.permits
  | _ => True

end World

def system (config : MemoryManagerConfig) : System World Operation Result where
  Init world := world = .new config
  Step world operation result world' :=
    world.Holds operation ∧ world.apply config operation = (result, world')

theorem reachable_apply {config world operation} (h : (system config).Reachable world)
    (hl : world.Holds operation) :
    (system config).Reachable (world.apply config operation).2 :=
  h.step ⟨hl, rfl⟩

-- A small machine, of a host and an accelerator with 1000 bytes each.

def smallConfig : MemoryManagerConfig where
  budgets              := [⟨.host, 1000, by decide⟩, ⟨.accelerator 0, 1000, by decide⟩]
  topology             := .discrete
  thresholds           := .default
  actionCooldownMillis := 0
  maxAllocations       := 2
  maxReservations      := 2
  maxActionsPerCycle   := 2
  budgets_pos          := by decide
  budgets_nodup        := by decide
  host_mem             := by decide
  budgets_length       := by decide
  cooldown_le          := by decide
  allocations_limit    := by decide
  reservations_limit   := by decide
  actions_limit        := by decide

theorem smallBudget_le : 1000 ≤ Saturating.u64Max := by
  decide

def smallTelemetry : Telemetry :=
  .ok [⟨.host, 1000, 1000⟩, ⟨.accelerator 0, 1000, 1000⟩]

def smallReservation : MemoryReservation where
  tier    := .accelerator 0
  bytes   := 100
  binding := .load ⟨1, by decide⟩ false (some .host)

def smallLoad : Operation :=
  .reserveLoad smallTelemetry ⟨1, by decide⟩ (.accelerator 0) 100 false (some .host)

-- The world after one reservation for a load.
def smallWorld : World :=
  ((World.new smallConfig).apply smallConfig smallLoad).2

theorem reachable_smallWorld : (system smallConfig).Reachable smallWorld :=
  reachable_apply (.init rfl) trivial

theorem reservations_smallWorld : smallWorld.reservations = {smallReservation} := by
  decide +kernel

end RuntimeControl.Memory
