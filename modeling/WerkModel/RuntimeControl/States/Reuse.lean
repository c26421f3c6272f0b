import WerkModel.Lib.System
import WerkModel.RuntimeControl.States.Pruning

-- The reuse of states for a prompt, from those in use and from those on disk.
open Checks Saturating

namespace RuntimeControl.States

structure LoadedStoredState where
  summary       : StateSummary
  compatibility : CompatibilityEnvelope
  payload       : Payload
  promptTokens  : Nat
  deriving DecidableEq

def notFound : ProtocolError :=
  .new .notFound "runtime state was not found"

def expiredState : ProtocolError :=
  .new .notFound "runtime state has expired"

def setLastAccessed (accessed : Nat) : Entry → Entry
  | .state directory => .state { directory with lastAccessed := some accessed }
  | entry            => entry

-- The states that were used last come first.
def usedAfter (left right : StateSummary) : Prop :=
  right.lastAccessedUnixMs < left.lastAccessedUnixMs ∨
    left.lastAccessedUnixMs = right.lastAccessedUnixMs ∧ left.id ≤ right.id

instance decidableUsedAfter : DecidableRel usedAfter :=
  fun _ _ => inferInstanceAs <| Decidable (_ ∨ _)

namespace StateStoreSetup

variable (setup : StateStoreSetup)

def loadLocked (stateId : String) (updateAccess quarantineCorrupt : Bool) (now : Nat) :
    StoreResult LoadedStoredState := do
  let entries ← Attempt.read setup.readDirBounded
  match entries.find? (·.1 = stateId) with
  | none            => Attempt.check <| .error notFound
  | some (_, entry) =>
    match setup.readState stateId entry with
    | .error error =>
      if quarantineCorrupt ∧ error.code = .corruptState then
        quarantineLocked stateId
        Attempt.check <| .error <| .new .corruptState
          "runtime state failed integrity verification and was removed from the active catalog"
      else
        Attempt.check <| .error error
    | .ok (metadata, pinned) =>
      if metadata.isExpired now then
        if quarantineCorrupt then
          removeStateDir stateId
        Attempt.check <| .error expiredState
      else if payloadValid metadata entry then
        let accessed :=
          if updateAccess then max now metadata.lastAccessedUnixMs else metadata.lastAccessedUnixMs
        if updateAccess then
          Attempt.modify (·.update stateId (setLastAccessed accessed))
        return {
          summary       := summaryFromMetadata { metadata with lastAccessedUnixMs := accessed } pinned
          compatibility := metadata.compatibility
          payload       := ⟨metadata.payloadBytes, metadata.payloadSha256⟩
          promptTokens  := metadata.promptTokens }
      else if quarantineCorrupt then
        quarantineLocked stateId
        Attempt.check <| .error <| .new .corruptState
          "runtime state payload failed integrity verification and was removed from the active catalog"
      else
        Attempt.check <| .error corrupt

-- The states for a prompt, with the fields in which their envelopes differ from the expected one.
def forPrompt (modelId : String) (expected : CompatibilityEnvelope) (now : Nat)
    (entries : List (String × Entry)) : List (StateSummary × List String) :=
  entries.filterMap fun (name, entry) =>
    if isStateName name then
      match setup.readState name entry with
      | .error _               => none
      | .ok (metadata, pinned) =>
        if metadata.modelId = modelId ∧
            metadata.compatibility.promptFingerprint = expected.promptFingerprint ∧
            metadata.isExpired now = false then
          some (summaryFromMetadata metadata pinned, metadata.compatibility.mismatchFields expected)
        else
          none
    else
      none

def findCompatible (modelId : String) (expected : CompatibilityEnvelope)
    (rejectIncompatible : Bool) (now : Nat) : StoreResult (Option LoadedStoredState) := do
  Attempt.check <| validateModelId modelId
  Attempt.check <| validateCompatibility expected
  let _ ← setup.reconcile now
  let entries ← Attempt.read setup.readDirBounded
  let states := setup.forPrompt modelId expected now entries
  let compatible := (states.filter (·.2 = [])).map Prod.fst
  match compatible.insertionSort usedAfter with
  | metadata :: _ => do
    let loaded ← setup.loadLocked metadata.id true true now
    return some loaded
  | []            =>
    if rejectIncompatible ∧ states.flatMap Prod.snd ≠ [] then
      Attempt.check <| .error <| .new .incompatibleState
        "a reusable state exists, but its compatibility could not be proven"
    else
      return none

end StateStoreSetup

inductive ReuseMode
  | disabled
  | prefer
  | required
  deriving DecidableEq

structure PrefillRequest where
  modelId : String
  reuse   : ReuseMode

structure PrefillResponse where
  stateId      : Option String
  promptTokens : Nat
  reused       : Bool
  tier         : StateTier
  deriving DecidableEq

structure Restored (Lease : Type) where
  lease        : Lease
  tier         : StateTier
  bytes        : Option Nat
  allocationId : Option Nat

-- What a prefill meets outside of the states.
structure PrefillEnvironment (Lease : Type) where
  now           : Nat
  backend       : Backend Lease
  compatibility : CompatibilityEnvelope
  -- The checks before any state is searched for.
  admission     : ProtocolResult PUnit
  validateState : Lease → CompatibilityEnvelope → Bool
  healthy       : ProtocolResult PUnit
  touch         : Overlay Lease → ProtocolResult PUnit
  -- The policy for a state that is reused, which may persist it.
  retain        : Overlay Lease → ControlResult Lease PUnit
  restore       : LoadedStoredState → ProtocolResult (Restored Lease)
  -- A prefill without reuse.
  prefill       : ControlResult Lease PrefillResponse
  issueHandoff  : ProtocolResult PUnit

def maxVolatileStates : Nat := 1024

def maxVolatileStatesPerPrincipal : Nat := 128

variable {Lease : Type}

namespace LocalControl

def dropExpired (control : LocalControl Lease) (backend : Backend Lease)
    (principalId : Option String) (now : Nat) : LocalControl Lease :=
  { control with
    volatileStates := control.volatileStates.filter fun state =>
      !(principalId.all (state.principalId = ·) && state.summary.isExpired now &&
        backend.idle state.lease)
    nodup          := control.nodup.sublist (List.filter_sublist.map _) }

def touchKey (control : LocalControl Lease) (key : String × String) (now : Nat) :
    LocalControl Lease :=
  { control with
    volatileStates := control.volatileStates.map fun state =>
      if state.key = key then
        { state with summary := { state.summary with lastAccessedUnixMs := now } }
      else
        state
    nodup          := by
      have hk (state : Overlay Lease) : (if state.key = key then
          { state with summary := { state.summary with lastAccessedUnixMs := now } }
          else state).key = state.key := by
        split <;> rfl
      simpa only [List.map_map, Function.comp_def, hk] using control.nodup }

def contains (control : LocalControl Lease) (key : String × String) : Bool :=
  control.volatileStates.any (·.key = key)

def insert (control : LocalControl Lease) (state : Overlay Lease) : LocalControl Lease :=
  { control with
    volatileStates := state :: (control.dropKey state.key).volatileStates
    nodup          := by
      refine List.nodup_cons.mpr ⟨fun hm => ?_, (control.dropKey state.key).nodup⟩
      have ⟨other, ho, he⟩ := List.mem_map.mp hm
      exact of_decide_eq_true (List.mem_filter.mp ho).2 he }

end LocalControl

section Prefill

variable (setup : StateStoreSetup) (environment : PrefillEnvironment Lease)
variable (principalId : String)

-- The states in use that match a prompt.
def reusable (modelId : String) (state : Overlay Lease) : Bool :=
  state.principalId = principalId && !state.summary.isExpired environment.now &&
    state.summary.modelId = modelId &&
    state.compatibility.promptFingerprint = environment.compatibility.promptFingerprint &&
    state.compatibility.mismatchFields environment.compatibility = []

-- States that the backend does not accept any more are skipped, but stay in use.
def findVolatileReuse (modelId : String) : ControlResult Lease (Option (Overlay Lease)) := do
  Attempt.modify (·.dropExpired environment.backend (some principalId) environment.now)
  let candidates ← Attempt.gets fun control =>
    (control.volatileStates.filter (reusable environment principalId modelId)).insertionSort
      (Order.Preimage (·.summary) usedAfter)
  match candidates.find? fun state =>
    environment.validateState state.lease state.compatibility with
  | none       => return none
  | some state =>
    Attempt.check <| environment.touch state
    Attempt.modify (·.touchKey state.key environment.now)
    return some
      { state with summary := { state.summary with lastAccessedUnixMs := environment.now } }

def insertVolatile (state : Overlay Lease) : ControlResult Lease PUnit := do
  Attempt.modify (·.dropExpired environment.backend none environment.now)
  Attempt.check environment.healthy
  Attempt.read fun control => do
    ensure (!control.contains state.key) <|
      conflict "runtime state ID already exists in this security namespace"
    ensure ((control.volatileStates.filter (·.principalId = state.principalId)).length <
        maxVolatileStatesPerPrincipal) <|
      (resource "volatile runtime state limit is reached for this security namespace").setRetryable
        true
    ensure (control.volatileStates.length < maxVolatileStates) <|
      (resource "global volatile runtime state limit is reached").setRetryable true
  Attempt.modify (·.insert state)

def onStore {α : Type} (x : StoreResult α) : ControlResult Lease α := fun control =>
  ((x (control.catalog.getD .empty)).1,
    { control with catalog := some (x (control.catalog.getD .empty)).2 })

def restoredOverlay (stored : LoadedStoredState) (restored : Restored Lease) : Overlay Lease where
  principalId   := principalId
  summary       :=
    { stored.summary with
      tier               := restored.tier
      bytes              := restored.bytes
      lastAccessedUnixMs := environment.now }
  compatibility := stored.compatibility
  lease         := restored.lease
  promptTokens  := stored.promptTokens
  persisted     := true
  allocationId  := restored.allocationId

def restoreStored (stored : LoadedStoredState) : ControlResult Lease PrefillResponse := do
  let restored ← Attempt.check <| environment.restore stored
  insertVolatile environment (restoredOverlay environment principalId stored restored)
  Attempt.check environment.issueHandoff
  return {
    stateId      := some stored.summary.id
    promptTokens := stored.promptTokens
    reused       := true
    tier         := restored.tier }

def prefillInner (request : PrefillRequest) : ControlResult Lease PrefillResponse := do
  Attempt.check environment.admission
  if request.reuse = .disabled then
    environment.prefill
  else
    let reused ← findVolatileReuse environment principalId request.modelId
    Attempt.check environment.healthy
    match reused with
    | some state => do
      environment.retain state
      Attempt.check environment.issueHandoff
      return {
        stateId      := some state.summary.id
        promptTokens := state.promptTokens
        reused       := true
        tier         := state.summary.tier }
    | none => do
      let stored ← onStore <| setup.findCompatible request.modelId environment.compatibility
        (request.reuse = .required) environment.now
      match stored with
      | some stored => restoreStored environment principalId stored
      | none        =>
        if request.reuse = .required then
          Attempt.check <| .error <|
            conflict "reuse was required, but no compatible runtime state exists"
        else
          environment.prefill

end Prefill

section Restoring

variable {setup : StateStoreSetup} {environment : PrefillEnvironment Lease}
variable {control control' : LocalControl Lease} {catalog' : Catalog}
variable {principalId : String} {request : PrefillRequest} {stored : LoadedStoredState}
variable {restored : Restored Lease}

-- A prefill for which no state in use can be reused, but a state on disk can be restored.
structure Restorable (setup : StateStoreSetup) (environment : PrefillEnvironment Lease)
    (principalId : String) (request : PrefillRequest) (control : LocalControl Lease)
    (stored : LoadedStoredState) (restored : Restored Lease) : Prop where
  reuse    : request.reuse ≠ .disabled
  admitted : environment.admission = .ok ⟨⟩
  healthy  : environment.healthy = .ok ⟨⟩
  stale    : ∀ state ∈ control.volatileStates,
    reusable environment principalId request.modelId state = true →
    environment.validateState state.lease state.compatibility = false
  found    : ∃ catalog', setup.findCompatible request.modelId environment.compatibility
    (request.reuse = .required) environment.now (control.catalog.getD .empty) =
      (.ok (some stored), catalog')
  restores : environment.restore stored = .ok restored
  room     : let kept := (control.dropExpired environment.backend none environment.now).volatileStates
    (kept.filter (·.principalId = principalId)).length < maxVolatileStatesPerPrincipal ∧
      kept.length < maxVolatileStates
  issued   : environment.issueHandoff = .ok ⟨⟩

-- No state that stays in use has the identifier.
def Unoccupied (environment : PrefillEnvironment Lease) (principalId : String)
    (control : LocalControl Lease) (stateId : String) : Prop :=
  ∀ state ∈ control.volatileStates, state.key = (principalId, stateId) →
    state.summary.isExpired environment.now = true ∧
      environment.backend.idle state.lease = true

def restoredResponse (stored : LoadedStoredState) (restored : Restored Lease) :
    PrefillResponse where
  stateId      := some stored.summary.id
  promptTokens := stored.promptTokens
  reused       := true
  tier         := restored.tier

theorem findVolatileReuse_stale (h : ∀ state ∈ control.volatileStates,
      reusable environment principalId request.modelId state = true →
      environment.validateState state.lease state.compatibility = false) :
    findVolatileReuse environment principalId request.modelId control = (.ok none,
      control.dropExpired environment.backend (some principalId) environment.now) := by
  rw [findVolatileReuse, Attempt.modify_bind, Attempt.gets_bind]
  have hn : (((control.dropExpired environment.backend (some principalId)
      environment.now).volatileStates.filter
        (reusable environment principalId request.modelId)).insertionSort
          (Order.Preimage (·.summary) usedAfter)).find? (fun state =>
            environment.validateState state.lease state.compatibility) = none := by
    refine List.find?_eq_none.mpr fun state hm => ?_
    have ⟨hm, hr⟩ := List.mem_filter.mp ((List.mem_insertionSort _).mp hm)
    rw [h state (List.mem_of_mem_filter hm) hr]
    exact Bool.false_ne_true
  rw [hn]
  rfl

theorem kept_twice (control : LocalControl Lease) (backend : Backend Lease) (now : Nat) :
    ((control.dropExpired backend (some principalId) now).dropExpired backend none
      now).volatileStates = (control.dropExpired backend none now).volatileStates := by
  simp only [LocalControl.dropExpired, List.filter_filter]
  refine List.filter_congr fun state _ => ?_
  cases state.summary.isExpired now <;> cases backend.idle state.lease <;> simp

theorem contains_iff {stateId : String} : (control.dropExpired environment.backend none
      environment.now).contains (principalId, stateId) = false ↔
    Unoccupied environment principalId control stateId := by
  rw [LocalControl.contains, List.any_eq_false]
  constructor
  case mp =>
    intro h state hm hk
    by_contra hn
    refine h state (List.mem_filter.mpr ⟨hm, ?_⟩) (decide_eq_true hk)
    rw [Option.all_none, Bool.true_and, Bool.not_eq_true', Bool.eq_false_iff, ne_eq,
      Bool.and_eq_true]
    exact hn
  case mpr =>
    intro h state hm hk
    have ⟨hm, hd⟩ := List.mem_filter.mp hm
    have ⟨hx, hi⟩ := h state hm (of_decide_eq_true hk)
    simp [hx, hi] at hd

theorem insertVolatile_occupied {state : Overlay Lease} (hh : environment.healthy = .ok ⟨⟩)
    (h : (control.dropExpired environment.backend none environment.now).contains state.key = true) :
    (insertVolatile environment state control).1 =
      .error (conflict "runtime state ID already exists in this security namespace") := by
  rw [insertVolatile, Attempt.modify_bind, Attempt.check_bind hh]
  refine congrArg Prod.fst (Attempt.read_bind_error ?_)
  simp [h, ensure, bind, Except.bind]

theorem insertVolatile_unoccupied {state : Overlay Lease} (hh : environment.healthy = .ok ⟨⟩)
    (h : (control.dropExpired environment.backend none environment.now).contains state.key = false)
    (hp : ((control.dropExpired environment.backend none environment.now).volatileStates.filter
      (·.principalId = state.principalId)).length < maxVolatileStatesPerPrincipal)
    (hl : (control.dropExpired environment.backend none environment.now).volatileStates.length <
      maxVolatileStates) :
    insertVolatile environment state control = (.ok ⟨⟩,
      (control.dropExpired environment.backend none environment.now).insert state) := by
  rw [insertVolatile, Attempt.modify_bind, Attempt.check_bind hh]
  refine Attempt.bind_of_ok (a := ⟨⟩) (Prod.ext ?_ rfl)
  exact ensure_bind_eq_ok.mpr ⟨by rw [h]; rfl, ensure_bind_eq_ok.mpr ⟨hp, ensure_eq_ok.mpr hl⟩⟩

-- The restored state is put in use unless its identifier is in use already.
theorem prefill_restorable
    (h : Restorable setup environment principalId request control stored restored) :
    (prefillInner setup environment principalId request control).1 =
      if (control.dropExpired environment.backend none environment.now).contains
          (principalId, stored.summary.id) then
        .error <| conflict "runtime state ID already exists in this security namespace"
      else
        .ok <| restoredResponse stored restored := by
  have ⟨catalog', hfound⟩ := h.found
  let dropped := control.dropExpired environment.backend (some principalId) environment.now
  let found := { dropped with catalog := some catalog' }
  have hstore : (onStore <| setup.findCompatible request.modelId environment.compatibility
      (request.reuse = .required) environment.now) dropped = (.ok (some stored), found) := by
    have hc : dropped.catalog = control.catalog := rfl
    rw [onStore, hc, hfound]
  have hkept : (found.dropExpired environment.backend none environment.now).volatileStates =
      (control.dropExpired environment.backend none environment.now).volatileStates :=
    kept_twice control environment.backend environment.now
  have hcontains (key) : (found.dropExpired environment.backend none environment.now).contains key =
      (control.dropExpired environment.backend none environment.now).contains key := by
    rw [LocalControl.contains, hkept, LocalControl.contains]
  rw [prefillInner, Attempt.check_bind h.admitted, if_neg h.reuse,
    Attempt.bind_of_ok (findVolatileReuse_stale h.stale), Attempt.check_bind h.healthy]
  dsimp only
  rw [Attempt.bind_of_ok hstore]
  dsimp only
  rw [restoreStored, Attempt.check_bind h.restores]
  let overlay := restoredOverlay environment principalId stored restored
  split
  case isTrue ho =>
    have hi := @insertVolatile_occupied Lease environment found overlay h.healthy
      ((hcontains overlay.key).trans ho)
    exact congrArg Prod.fst (Attempt.bind_of_error (Prod.ext hi rfl))
  case isFalse ho =>
    have ho := (hcontains overlay.key).trans (Bool.eq_false_of_not_eq_true ho)
    have hi := @insertVolatile_unoccupied Lease environment found overlay h.healthy ho
      (by rw [hkept]; exact h.room.1) (by rw [hkept]; exact h.room.2)
    rw [Attempt.bind_of_ok hi, Attempt.check_bind h.issued]
    rfl

inductive LocalInput (Lease : Type)
  | prefill (environment : PrefillEnvironment Lease) (principalId : String)
    (request : PrefillRequest)
  | prune (backend : Backend Lease) (principalId : String) (selector : StateSelector)
    (dryRun : Bool) (now : Nat)
  | other

-- A control starts without states in use. Other requests may change the states in any way.
def localSystem (setup : StateStoreSetup) : System (LocalControl Lease) (LocalInput Lease)
    (Option (ProtocolResult PrefillResponse)) where
  Init control := control.volatileStates = []
  Step
    | control, .prefill environment principalId request, output, control' =>
      ∃ result, output = some result ∧
        prefillInner setup environment principalId request control = (result, control')
    | control, .prune backend principalId selector dryRun now, output, control' =>
      output = none ∧
        (pruneStatesInner setup backend principalId selector dryRun now control).2 = control'
    | _, .other, output, _ => output = none

-- In every run, a state on disk is restored if and only if its identifier is not in use.
theorem restore_unblocked {result : ProtocolResult PrefillResponse}
    (_ : (localSystem setup).Reachable control)
    (hs : (localSystem setup).Step control (.prefill environment principalId request)
      (some result) control')
    (h : Restorable setup environment principalId request control stored restored) :
    result = .ok (restoredResponse stored restored) ↔
      Unoccupied environment principalId control stored.summary.id := by
  have ⟨_, ho, hp⟩ := hs
  cases ho
  have he := prefill_restorable h
  rw [hp] at he
  dsimp only at he
  rw [he, ←contains_iff]
  split
  case isTrue hc  => exact iff_of_false (fun he => by cases he) fun hn => absurd hc (Bool.eq_false_iff.mp hn)
  case isFalse hc => exact iff_of_true rfl (Bool.eq_false_of_not_eq_true hc)

end Restoring

section Samples

theorem nodup_sampleControl : (([] : List (Overlay Unit)).map fun state => state.key).Nodup :=
  List.nodup_nil

def sampleControl : LocalControl Unit where
  catalog        := some (sampleCatalog 5)
  volatileStates := []
  nodup          := nodup_sampleControl

-- Whether the backend accepts the states that it has restored before.
def sampleEnvironment (accepted : Bool) : PrefillEnvironment Unit where
  now               := 0
  backend           := sampleBackend
  compatibility     := sampleEnvelope
  admission         := .ok ⟨⟩
  validateState _ _ := accepted
  healthy           := .ok ⟨⟩
  touch _           := .ok ⟨⟩
  retain _          := return
  restore _         := .ok ⟨(), .ram, some 5, none⟩
  prefill           := Attempt.check <| .error notFound
  issueHandoff      := .ok ⟨⟩

def sampleRequest : PrefillRequest where
  modelId := "model"
  reuse   := .required

def sampleStored : LoadedStoredState where
  summary       := sampleSummary 5
  compatibility := sampleEnvelope
  payload       := ⟨5, "s"⟩
  promptTokens  := 0

def samplePrefill (accepted : Bool) (control : LocalControl Unit) :
    ProtocolResult PrefillResponse × LocalControl Unit :=
  prefillInner (sampleSetup 20) (sampleEnvironment accepted) "local" sampleRequest control

theorem restorable_sample : Restorable (sampleSetup 20) (sampleEnvironment true) "local"
    sampleRequest sampleControl sampleStored ⟨(), .ram, some 5, none⟩ where
  reuse    := by decide
  admitted := rfl
  healthy  := rfl
  stale    := List.forall_mem_nil _
  found    := ⟨_, Prod.ext (by decide +kernel) rfl⟩
  restores := rfl
  room     := by decide
  issued   := rfl

theorem restore_unblocked_sample : (samplePrefill true sampleControl).1 =
      .ok (restoredResponse sampleStored ⟨(), StateTier.ram, some 5, none⟩) ↔
    Unoccupied (sampleEnvironment true) "local" sampleControl "st_a" :=
  restore_unblocked (.init rfl) ⟨_, rfl, rfl⟩ restorable_sample

-- The backend is restarted after a state was restored: the same state is not restored again.
theorem stale_overlay_blocks :
    let control := (samplePrefill true sampleControl).2
    (localSystem (sampleSetup 20)).Reachable control ∧
    Restorable (sampleSetup 20) (sampleEnvironment false) "local" sampleRequest control
      sampleStored ⟨(), .ram, some 5, none⟩ ∧
    (samplePrefill false control).1 =
      .error (conflict "runtime state ID already exists in this security namespace") := by
  have hi : (localSystem (sampleSetup 20)).Reachable sampleControl := .init rfl
  refine ⟨hi.step (i := .prefill (sampleEnvironment true) "local" sampleRequest) ⟨_, rfl, rfl⟩,
    ?_, ?_⟩
  · exact {
      reuse    := by decide
      admitted := rfl
      healthy  := rfl
      stale    := fun _ _ _ => rfl
      found    := ⟨_, Prod.ext (by decide +kernel) rfl⟩
      restores := rfl
      room     := by decide +kernel
      issued   := rfl }
  · decide +kernel

end Samples
end RuntimeControl.States
