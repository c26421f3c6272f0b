import WerkModel.RuntimeControl.Memory.State

open Std Saturating

namespace RuntimeControl.Memory

def utilizationBasisPoints (usedBytes budgetBytes : Nat) : Nat :=
  if budgetBytes = 0 then
    u32Max
  else
    min (usedBytes * BASIS_POINTS / budgetBytes) u32Max

-- The budget and the use that pressure is measured by: those of one tier, or of the shared pool.
def effectiveAccounting (state : ManagerState) (tier : MemoryTier) :
    MemoryTopology → Nat × Nat
  | .discrete =>
    match state.tiers[tier]? with
    | none         => (0, 0)
    | some account => (account.effectiveBudget, account.effectiveUsed)
  | .unified =>
    let accounts     := state.tiers.valueList
    let budget       := (accounts.map TierAccount.effectiveBudget).min?.getD 0
    let observedUsed := (accounts.map TierAccount.observedUsedBytes).max?.getD 0
    (budget, add u64Max (max observedUsed state.sharedManaged) state.sharedReserved)

abbrev Observations := ExtTreeMap MemoryTier MemoryObservation

-- What the telemetry returns at one call.
abbrev Telemetry := Except MemoryError (List MemoryObservation)

-- The loop over the samples; `observations` are the samples collected so far.
def collectSamples : List MemoryObservation → Observations → Except MemoryError Observations
  | [], observations => .ok observations
  | sample :: samples, observations =>
    if sample.totalBytes = 0 then
      .error (.invalidTelemetry s!"{sample.tier.display} reported zero total bytes")
    else if sample.availableBytes > sample.totalBytes then
      .error (.invalidTelemetry
        s!"{sample.tier.display} reported more available bytes than total bytes")
    else if sample.tier ∈ observations then
      .error (.invalidTelemetry s!"{sample.tier.display} was reported more than once")
    else
      collectSamples samples (observations.insert sample.tier sample)

def sampleTelemetry (state : ManagerState) : Telemetry → Except MemoryError Observations
  | .error error => .error error
  | .ok samples =>
    if samples = [] ∨ samples.length > MAX_MEMORY_TIERS then
      .error (.invalidTelemetry s!"telemetry must contain between 1 and {MAX_MEMORY_TIERS} tiers")
    else match collectSamples samples ∅ with
    | .error error => .error error
    | .ok observations =>
      match state.tiers.keys.find? (· ∉ observations) with
      | some tier => .error (.invalidTelemetry
          s!"configured tier {tier.display} was not reported")
      | none      => .ok observations

-- A tier without an observation cannot occur after `sampleTelemetry` (`sampleTelemetry_mem`).
def refreshAccount (thresholds : PressureThresholds) (observations : Observations)
    (tier : MemoryTier) (account : TierAccount) : TierAccount :=
  match observations[tier]? with
  | none             => account
  | some observation =>
    let observed    := { account with observation := some observation }
    let utilization := utilizationBasisPoints observed.effectiveUsed observed.effectiveBudget
    { observed with
      pressure := thresholds.classifyWithHysteresis account.pressure utilization }

def refreshAccounts (state : ManagerState) (observations : Observations)
    (topology : MemoryTopology) (thresholds : PressureThresholds) : ManagerState :=
  match topology with
  | .discrete =>
    { state with tiers := state.tiers.map (refreshAccount thresholds observations) }
  | .unified =>
    let observed := { state with
      tiers := state.tiers.map fun tier account =>
        { account with observation := observations[tier]? } }
    let previous := (observed.tiers.valueList.map TierAccount.pressure).max?.getD .normal
    let (budget, used) := effectiveAccounting observed .host .unified
    let pressure :=
      thresholds.classifyWithHysteresis previous (utilizationBasisPoints used budget)
    { observed with
      tiers := observed.tiers.map fun _ account => { account with pressure := pressure } }

-- Whether `bytes` more on an account stay below the hard threshold of this account.
def underHardPressure (thresholds : PressureThresholds) (account : TierAccount) (bytes : Nat) :
    Bool :=
  let projected := add u64Max account.effectiveUsed bytes
  thresholds.classify (utilizationBasisPoints projected account.effectiveBudget) < .hard

-- The same for the shared pool of unified memory, whose available bytes must cover what is
-- reserved on all tiers.
def sharedPoolAccepts (state : ManagerState) (thresholds : PressureThresholds)
    (tier : MemoryTier) (bytes : Nat) : Bool :=
  let (sharedBudget, sharedUsed) := effectiveAccounting state tier .unified
  add u64Max state.sharedReserved bytes ≤ state.sharedAvailable ∧
  thresholds.classify (utilizationBasisPoints (add u64Max sharedUsed bytes) sharedBudget) < .hard

def canAcceptBytes (state : ManagerState) (tier : MemoryTier) (bytes additionalPlannedBytes : Nat)
    (topology : MemoryTopology) (thresholds : PressureThresholds) : Bool :=
  match state.tiers[tier]? with
  | none         => false
  | some account =>
    match account.observation with
    | none             => false
    | some observation =>
      let incoming := add u64Max additionalPlannedBytes bytes
      let committed := add u64Max account.managedUsedBytes account.reservedBytes
      add u64Max committed incoming ≤ account.budgetBytes ∧
      add u64Max account.reservedBytes incoming ≤ observation.availableBytes ∧
      underHardPressure thresholds account incoming ∧
      (topology = .discrete ∨ sharedPoolAccepts state thresholds tier incoming)

inductive ReservationBinding
  | load (allocationId : AllocationId) (pinned : Bool) (demotionTarget : Option MemoryTier)
  | promotion (allocationId : AllocationId) (source : MemoryTier)
  deriving DecidableEq

-- A reservation is active until it is committed or dropped; `World` holds the active ones.
structure MemoryReservation where
  tier    : MemoryTier
  bytes   : Nat
  binding : ReservationBinding
  deriving DecidableEq

def reservationDenied (tier : MemoryTier) (bytes : Nat) (reason : String) : MemoryError :=
  .reservationDenied tier bytes reason

def reserveLocked (config : MemoryManagerConfig) (state : ManagerState) (tier : MemoryTier)
    (bytes : Nat) (binding : ReservationBinding) :
    Except MemoryError MemoryReservation × ManagerState :=
  if bytes = 0 then
    (.error (.invalidReservation "reservation size must be greater than zero"), state)
  else if state.activeReservations ≥ config.maxReservations then
    (.error (.reservationLimitReached config.maxReservations), state)
  else match state.tiers[tier]? with
  | none         => (.error (.unknownTier tier), state)
  | some account =>
    let committed := add u64Max account.managedUsedBytes account.reservedBytes
    if add u64Max committed bytes > account.budgetBytes then
      (.error (reservationDenied tier bytes "managed budget would be exceeded"), state)
    else if add u64Max account.reservedBytes bytes > account.availableBytes then
      (.error (reservationDenied tier bytes "observed available memory is insufficient"), state)
    else if ¬underHardPressure config.thresholds account bytes then
      (.error (reservationDenied tier bytes "projected pressure would be hard or emergency"),
        state)
    else if config.topology = .unified ∧
        ¬sharedPoolAccepts state config.thresholds tier bytes then
      (.error (reservationDenied tier bytes "unified-memory pressure would be hard or emergency"),
        state)
    else
      (.ok { tier, bytes, binding }, state.hold tier bytes)

def releaseReservationLocked (state : ManagerState) (reservation : MemoryReservation) :
    ManagerState :=
  let released := state.unhold reservation.tier reservation.bytes
  match reservation.binding with
  | .load id _ _     => { released with pendingLoads := released.pendingLoads.erase id }
  | .promotion id _  => { released with pendingPromotions := released.pendingPromotions.erase id }

def validateDemotionTarget (state : ManagerState) (source : MemoryTier) :
    Option MemoryTier → Except MemoryError Unit
  | none => .ok ()
  | some target =>
    match source, target with
    | .accelerator _, .host =>
      if .host ∈ state.tiers then
        .ok ()
      else
        .error (.invalidAllocation
          "demotion must move an accelerator allocation to configured host memory")
    | _, _ => .error (.invalidAllocation
        "demotion must move an accelerator allocation to configured host memory")

end RuntimeControl.Memory
