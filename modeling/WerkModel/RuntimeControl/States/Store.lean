import WerkModel.Lib.Attempt
import WerkModel.Lib.Saturating
import WerkModel.RuntimeControl.States.Journal

-- The catalog of the runtime states that a principal has on disk.
open Checks Saturating

namespace RuntimeControl.States

structure StateStoreLimits where
  maxPayloadBytes     : Nat
  maxNamespaceBytes   : Nat
  maxNamespaceEntries : Nat
  maxOperationIds     : Nat

structure ProtocolVersion where
  major : Nat
  minor : Nat
  deriving DecidableEq

structure ContextCompatibility where
  contextSize                  : Nat
  batchSize                    : Option Nat
  ropeConfigurationFingerprint : Option String
  deriving DecidableEq

structure CompatibilityEnvelope where
  modelFingerprint                : String
  tokenizerFingerprint            : String
  promptFingerprint               : String
  chatTemplateFingerprint         : Option String
  backend                         : String
  backendVersion                  : String
  runtimeAdapterVersion           : String
  acceleratorFamily               : String
  tensorDtype                     : String
  kvDtype                         : String
  quantization                    : String
  cacheLayout                     : String
  blockSize                       : Option Nat
  context                         : ContextCompatibility
  multimodalProcessorFingerprints : List String
  producerProtocol                : ProtocolVersion
  deriving DecidableEq

def CompatibilityEnvelope.mismatchFields (self other : CompatibilityEnvelope) : List String :=
  let compared : List (String × Bool) := [
    ("model_fingerprint", self.modelFingerprint ≠ other.modelFingerprint),
    ("tokenizer_fingerprint", self.tokenizerFingerprint ≠ other.tokenizerFingerprint),
    ("prompt_fingerprint", self.promptFingerprint ≠ other.promptFingerprint),
    ("chat_template_fingerprint", self.chatTemplateFingerprint ≠ other.chatTemplateFingerprint),
    ("backend", self.backend ≠ other.backend),
    ("backend_version", self.backendVersion ≠ other.backendVersion),
    ("runtime_adapter_version", self.runtimeAdapterVersion ≠ other.runtimeAdapterVersion),
    ("accelerator_family", self.acceleratorFamily ≠ other.acceleratorFamily),
    ("tensor_dtype", self.tensorDtype ≠ other.tensorDtype),
    ("kv_dtype", self.kvDtype ≠ other.kvDtype),
    ("quantization", self.quantization ≠ other.quantization),
    ("cache_layout", self.cacheLayout ≠ other.cacheLayout),
    ("block_size", self.blockSize ≠ other.blockSize),
    ("context", self.context ≠ other.context),
    ("multimodal_processor_fingerprints",
      self.multimodalProcessorFingerprints ≠ other.multimodalProcessorFingerprints),
    ("producer_protocol", self.producerProtocol ≠ other.producerProtocol)]
  (compared.filter Prod.snd).map Prod.fst

def protocolV1 : ProtocolVersion where
  major := 1
  minor := 0

def ProtocolVersion.accepts (self producer : ProtocolVersion) : Bool :=
  self.major = producer.major && producer.minor ≤ self.minor

def invalidBoundedText (value : String) : Bool :=
  value.toList.all Experts.isWhitespace || value.utf8ByteSize > 512 ||
    value.toList.any Experts.isControl

def validateCompatibility (value : CompatibilityEnvelope) : ProtocolResult PUnit := do
  let required := [value.modelFingerprint, value.tokenizerFingerprint, value.promptFingerprint,
    value.backend, value.backendVersion, value.runtimeAdapterVersion, value.acceleratorFamily,
    value.tensorDtype, value.kvDtype, value.quantization, value.cacheLayout]
  let invalidEnvelope :=
    invalid "compatibility envelope contains a missing, invalid, or unbounded field"
  ensure (required.all (!invalidBoundedText ·)) invalidEnvelope
  ensure (!value.chatTemplateFingerprint.any invalidBoundedText &&
    !value.context.ropeConfigurationFingerprint.any invalidBoundedText &&
    value.multimodalProcessorFingerprints.length ≤ 64 &&
    value.multimodalProcessorFingerprints.all (!invalidBoundedText ·) &&
    value.context.contextSize ≠ 0 && value.context.batchSize ≠ some 0 &&
    value.blockSize ≠ some 0) invalidEnvelope
  ensure (protocolV1.accepts value.producerProtocol) <| .new .incompatibleState
    "runtime state was produced by an incompatible protocol version"

-- Every field of an envelope is compared.
theorem CompatibilityEnvelope.mismatchFields_eq_nil {self other : CompatibilityEnvelope} :
    self.mismatchFields other = [] ↔ self = other := by
  rw [mismatchFields, List.map_eq_nil_iff, List.filter_eq_nil_iff]
  cases self
  cases other
  simp

structure StoredStateMetadata where
  id                   : String
  modelId              : String
  backend              : String
  compatibility        : CompatibilityEnvelope
  payloadBytes         : Nat
  payloadSha256        : String
  quotaEvictionsSha256 : Option String
  promptTokens         : Nat
  createdUnixMs        : Nat
  lastAccessedUnixMs   : Nat
  expiresUnixMs        : Option Nat
  deriving DecidableEq

structure Payload where
  bytes  : Nat
  sha256 : String
  deriving DecidableEq

-- A directory whose metadata agrees with its checksums, with the files beside the metadata.
structure StateDirectory where
  metadata       : StoredStateMetadata
  payload        : Payload
  pinned         : Bool
  lastAccessed   : Option Nat
  quotaEvictions : Option Bytes
  deriving DecidableEq

inductive Entry
  | state (directory : StateDirectory)
  -- Any other directory.
  | directory
  | file
  deriving DecidableEq

structure Catalog where
  entries : List (String × Entry)
  nodup   : (entries.map Prod.fst).Nodup

def StoredStateMetadata.isExpired (metadata : StoredStateMetadata) (now : Nat) : Bool :=
  metadata.expiresUnixMs.any fun expires => expires ≤ now

namespace Catalog

def empty : Catalog where
  entries := []
  nodup   := List.nodup_nil

def find? (catalog : Catalog) (name : String) : Option Entry :=
  (catalog.entries.find? (·.1 = name)).map Prod.snd

def keep (catalog : Catalog) (kept : String × Entry → Bool) : Catalog where
  entries := catalog.entries.filter kept
  nodup   := catalog.nodup.sublist (List.filter_sublist.map _)

def remove (catalog : Catalog) (name : String) : Catalog :=
  catalog.keep (·.1 ≠ name)

def update (catalog : Catalog) (name : String) (f : Entry → Entry) : Catalog where
  entries := catalog.entries.map fun entry => (entry.1, if entry.1 = name then f entry.2 else entry.2)
  nodup   := by
    rw [List.map_map]
    exact catalog.nodup

def insert (catalog : Catalog) (name : String) (entry : Entry) : Catalog where
  entries := (name, entry) :: (catalog.remove name).entries
  nodup   := by
    refine List.nodup_cons.mpr ⟨fun hm => ?_, (catalog.remove name).nodup⟩
    have ⟨other, ho, he⟩ := List.mem_map.mp hm
    exact of_decide_eq_true (List.mem_filter.mp ho).2 he

end Catalog

abbrev StoreResult := Attempt Catalog ProtocolError

structure StateStoreSetup where
  limits : StateStoreLimits
  sha256 : Bytes → String
  -- The length of the metadata as a file.
  render : StoredStateMetadata → Nat

def isStateName (name : String) : Bool :=
  startsWith "st_" name && Experts.validOpaqueId name

def summaryFromMetadata (metadata : StoredStateMetadata) (pinned : Bool) : StateSummary where
  id                 := metadata.id
  modelId            := metadata.modelId
  tier               := .disk
  status             := .ready
  bytes              := some metadata.payloadBytes
  createdUnixMs      := metadata.createdUnixMs
  lastAccessedUnixMs := metadata.lastAccessedUnixMs
  expiresUnixMs      := metadata.expiresUnixMs
  pinned             := pinned
  backend            := metadata.backend
  reusable           := true

-- Whether the payload is the one that the metadata describes.
def payloadValid (metadata : StoredStateMetadata) : Entry → Bool
  | .state directory =>
    directory.payload.bytes = metadata.payloadBytes &&
      directory.payload.sha256 = metadata.payloadSha256
  | _ => false

def charge (remainingBytes bytes : Nat) : ProtocolResult Nat :=
  if bytes ≤ remainingBytes then
    .ok (remainingBytes - bytes)
  else
    .error <| resource "runtime state catalog exceeds the aggregate payload scan limit"

-- The states that were used least recently come first.
def usedBefore (left right : StateSummary) : Prop :=
  left.lastAccessedUnixMs < right.lastAccessedUnixMs ∨
    left.lastAccessedUnixMs = right.lastAccessedUnixMs ∧ left.id ≤ right.id

instance decidableUsedBefore : DecidableRel usedBefore :=
  fun _ _ => inferInstanceAs <| Decidable (_ ∨ _)

section Removal

def removeStateDir (name : String) : StoreResult PUnit := do
  Attempt.read fun catalog =>
    match catalog.find? name with
    | none | some .file => .error corrupt
    | some _            => .ok ()
  Attempt.modify (·.remove name)

-- What becomes of a quarantined entry does not matter to the catalog.
def quarantineLocked (name : String) : StoreResult PUnit :=
  Attempt.modify (·.remove name)

def removeQuotaVictims (removed : Nat) : List String → StoreResult Nat
  | []              => return removed
  | id :: evictions => do
    Attempt.check <| checkStateId id
    let found ← Attempt.gets fun catalog => (catalog.find? id).isSome
    if found then
      removeStateDir id
      removeQuotaVictims (add u64Max removed 1) evictions
    else
      removeQuotaVictims removed evictions

def clearMarker : Entry → Entry
  | .state directory => .state { directory with quotaEvictions := none }
  | entry            => entry

def clearQuotaMarker (name : String) : StoreResult PUnit := do
  let marked ← Attempt.read fun catalog =>
    match catalog.find? name with
    | none | some .directory => .ok false
    | some .file             => .error corrupt
    | some (.state directory) =>
      (readQuotaEvictions directory.quotaEvictions).map Option.isSome
  if marked then
    Attempt.modify (·.update name clearMarker)

def finishQuotaEvictions (committedStateId : String) (evictions : List String) :
    StoreResult PUnit := do
  let _ ← removeQuotaVictims 0 evictions
  clearQuotaMarker committedStateId

def cleanup (committedStateId : String) (quotaEvictions : List String) : StoreResult PUnit :=
  if quotaEvictions = [] then
    return
  else
    finishQuotaEvictions committedStateId quotaEvictions

end Removal

-- The victims of all journals, without the states that carry a journal themselves.
def journaledVictims (journals : List (String × List String)) : List String :=
  let owners := journals.map Prod.fst
  ((journals.flatMap Prod.snd).filter (· ∉ owners)).eraseDups

structure NewStoredState where
  modelId       : String
  backend       : String
  compatibility : CompatibilityEnvelope
  payload       : Payload
  promptTokens  : Nat
  expiresUnixMs : Option Nat
  pinned        : Bool

-- The names that are drawn for a new state.
structure FreshNames where
  id      : String
  staging : String

def conflict (message : String) : ProtocolError :=
  .new .conflict message

def internal : ProtocolError :=
  .new .internal "runtime state storage operation failed"

section Selection

inductive StateSelector
  | ids (ids : List String)
  | filter (modelId : Option String) (tier : Option StateTier) (olderThanUnixMs : Option Nat)
  | all (confirm : Bool)

def StateSelector.matches : StateSelector → StateSummary → Bool
  | .ids wanted, state => wanted.any (· = state.id)
  | .filter modelId tier olderThanUnixMs, state =>
    modelId.all (state.modelId = ·) && tier.all (· = state.tier) &&
      olderThanUnixMs.all (state.lastAccessedUnixMs < ·)
  | .all confirm, _ => confirm

def validateSelector (maxIds : Nat) : StateSelector → ProtocolResult PUnit
  | .ids wanted => do
    ensure (0 < wanted.length ∧ wanted.length ≤ maxIds) <|
      invalid s!"ids selector requires between 1 and {maxIds} state IDs"
    -- The first identifier that is not accepted decides about the error.
    wanted.zipIdx.forM fun (id, i) => do
      validateStateId id
      ensure (id ∉ wanted.take i) <| invalid "ids selector contains a duplicate state ID"
  | .filter modelId tier olderThanUnixMs => do
    ensure (modelId.isSome ∨ tier.isSome ∨ olderThanUnixMs.isSome) <|
      invalid "filter selector requires at least one explicit restriction"
    modelId.forM validateModelId
  | .all confirm => ensure confirm <| invalid "all selector requires confirm=true"

-- The states that a selector stands for.
def matched (selector : StateSelector) (now : Nat) (states : List StateSummary) :
    List StateSummary :=
  sortById <| (states.filter fun state => !state.isExpired now).filter selector.matches

def removeStateDirs (states : List StateSummary) : StoreResult PUnit :=
  states.forM fun state => removeStateDir state.id

end Selection

namespace StateStoreSetup

variable (setup : StateStoreSetup)

section Reading

def readState (name : String) : Entry → ProtocolResult (StoredStateMetadata × Bool)
  | .directory | .file => .error corrupt
  | .state directory   => do
    let metadata := directory.metadata
    ensure (metadata.id = name ∧ validateStateId metadata.id = .ok () ∧
      metadata.payloadBytes ≤ setup.limits.maxPayloadBytes ∧
      metadata.backend = metadata.compatibility.backend) corrupt
    ensure (validateModelId metadata.modelId = .ok ()) corrupt
    validateCompatibility metadata.compatibility
    ensure (directory.payload.bytes = metadata.payloadBytes) corrupt
    let evictions ← readQuotaEvictions directory.quotaEvictions
    checkEvictions setup.sha256 metadata.quotaEvictionsSha256 evictions
    let accessed := directory.lastAccessed.elim metadata.lastAccessedUnixMs
      (max metadata.lastAccessedUnixMs)
    return ({ metadata with lastAccessedUnixMs := accessed }, directory.pinned)

def namespaceEntryScanLimit : Nat :=
  add usizeMax setup.limits.maxNamespaceEntries 64

def payloadScanBudget : Nat :=
  add u64Max setup.limits.maxNamespaceBytes setup.limits.maxPayloadBytes

def readDirBounded (catalog : Catalog) : ProtocolResult (List (String × Entry)) :=
  if catalog.entries.length ≤ setup.namespaceEntryScanLimit then
    .ok catalog.entries
  else
    .error <| resource "runtime state catalog entry limit exceeded"

def scanEntries (remaining : Nat) : List (String × Entry) → ProtocolResult (List StateSummary)
  | []                    => .ok []
  | (name, entry) :: rest =>
    if !isStateName name then
      scanEntries remaining rest
    else
      match setup.readState name entry with
      | .error _              => scanEntries remaining rest
      | .ok (metadata, pinned) => do
        let remaining ← charge remaining metadata.payloadBytes
        let states ← scanEntries remaining rest
        return if payloadValid metadata entry then
          summaryFromMetadata metadata pinned :: states
        else
          states

def scanLocked (catalog : Catalog) : ProtocolResult (List StateSummary) := do
  let entries ← setup.readDirBounded catalog
  setup.scanEntries setup.payloadScanBudget entries

end Reading

section Quotas

def fits (totalBytes totalEntries incomingBytes incomingEntries : Nat) : Bool :=
  add u64Max totalBytes incomingBytes ≤ setup.limits.maxNamespaceBytes &&
    add usizeMax totalEntries incomingEntries ≤ setup.limits.maxNamespaceEntries

-- The evicted states, with what remains.
def evict (incomingBytes incomingEntries totalBytes totalEntries : Nat) :
    List StateSummary → List String × Nat × Nat
  | []            => ([], totalBytes, totalEntries)
  | state :: rest =>
    if setup.fits totalBytes totalEntries incomingBytes incomingEntries then
      ([], totalBytes, totalEntries)
    else
      let (evictions, remaining) := evict incomingBytes incomingEntries
        (totalBytes - state.bytes.getD 0) (totalEntries - 1) rest
      (state.id :: evictions, remaining)

def quotaEvictions (states : List StateSummary) (incomingBytes incomingEntries : Nat)
    (excluded : List String) : ProtocolResult (List String) := do
  let totalBytes := (states.map fun state => state.bytes.getD 0).foldl (add u64Max) 0
  let candidates := (states.insertionSort usedBefore).filter fun state =>
    !state.pinned && state.id ∉ excluded
  let (evictions, totalBytes, totalEntries) :=
    setup.evict incomingBytes incomingEntries totalBytes states.length candidates
  ensure (setup.fits totalBytes totalEntries incomingBytes incomingEntries) <| resource
    "runtime state namespace quota cannot be satisfied because remaining states are pinned"
  return evictions

def quotaEvictionPlanExcluding (incomingBytes incomingEntries : Nat) (excluded : List String)
    (catalog : Catalog) : ProtocolResult (List String) := do
  ensure (incomingBytes ≤ setup.limits.maxNamespaceBytes ∧
    incomingEntries ≤ setup.limits.maxNamespaceEntries) <|
    resource "runtime state exceeds the namespace quota"
  let states ← setup.scanLocked catalog
  setup.quotaEvictions states incomingBytes incomingEntries excluded

end Quotas

section Reconciliation

-- The victims of a state whose payload is valid.
def pendingVictims (metadata : StoredStateMetadata) (entry : Entry) :
    ProtocolResult (Option (List String)) :=
  match payloadValid metadata entry, entry with
  | true, .state directory =>
    match readQuotaEvictions directory.quotaEvictions with
    | .ok (some victims) => do
      let journalDigest := setup.sha256 (← encodeQuotaEvictions victims)
      return if metadata.quotaEvictionsSha256 = some journalDigest then some victims else none
    | _ => .ok none
  | _, _ => .ok none

def pendingJournals (remaining : Nat) :
    List (String × Entry) → ProtocolResult (List (String × List String))
  | []                    => .ok []
  | (name, entry) :: rest =>
    if !isStateName name then
      pendingJournals remaining rest
    else
      match setup.readState name entry with
      | .error _         => pendingJournals remaining rest
      | .ok (metadata, _) => do
        let remaining ← charge remaining metadata.payloadBytes
        let victims ← setup.pendingVictims metadata entry
        let journals ← pendingJournals remaining rest
        return victims.toList.map (name, ·) ++ journals

def completePendingQuotaEvictions : StoreResult Nat := do
  let journals ← Attempt.read fun catalog => do
    let entries ← setup.readDirBounded catalog
    setup.pendingJournals setup.payloadScanBudget entries
  if journals = [] then
    return 0
  else
    let removed ← removeQuotaVictims 0 (journaledVictims journals)
    let additional ← Attempt.read <|
      setup.quotaEvictionPlanExcluding 0 0 (journals.map Prod.fst)
    let more ← removeQuotaVictims 0 additional
    (journals.map Prod.fst).forM clearQuotaMarker
    return add u64Max removed more

def reconcileEntries (now : Nat) (excludedStateId : Option String) (reconciled remaining : Nat) :
    List (String × Entry) → StoreResult Nat
  | []                    => return reconciled
  | (name, entry) :: rest =>
    if excludedStateId = some name then
      reconcileEntries now excludedStateId reconciled remaining rest
    else if startsWith ".staging-" name then do
      Attempt.modify (·.remove name)
      reconcileEntries now excludedStateId (add u64Max reconciled 1) remaining rest
    else
      match (if isStateName name then setup.readState name entry else .error corrupt) with
      | .error _          => do
        quarantineLocked name
        reconcileEntries now excludedStateId (add u64Max reconciled 1) remaining rest
      | .ok (metadata, _) =>
        -- Pins do not protect from expiry.
        if metadata.isExpired now then do
          removeStateDir name
          reconcileEntries now excludedStateId (add u64Max reconciled 1) remaining rest
        else do
          let remaining ← Attempt.check <| charge remaining metadata.payloadBytes
          if payloadValid metadata entry then
            reconcileEntries now excludedStateId reconciled remaining rest
          else
            quarantineLocked name
            reconcileEntries now excludedStateId (add u64Max reconciled 1) remaining rest

def reconcileExcept (now : Nat) (excludedStateId : Option String) : StoreResult Nat := do
  let reconciled ← setup.completePendingQuotaEvictions
  let entries ← Attempt.read setup.readDirBounded
  setup.reconcileEntries now excludedStateId reconciled setup.payloadScanBudget entries

def reconcile (now : Nat) : StoreResult Nat :=
  setup.reconcileExcept now none

end Reconciliation
section Operations

def validateNewState (state : NewStoredState) : ProtocolResult PUnit := do
  validateModelId state.modelId
  ensure (state.backend = state.compatibility.backend) <|
    invalid "state backend must match its compatibility envelope"
  ensure (state.payload.bytes ≤ setup.limits.maxPayloadBytes) <| resource
    s!"state payload exceeds the {setup.limits.maxPayloadBytes} byte limit"
  validateCompatibility state.compatibility

-- A new state is on disk before the states are evicted that it replaces.
def publish (requestedId : Option String) (state : NewStoredState) (fresh : FreshNames)
    (now : Nat) : StoreResult (StateSummary × List String) := do
  Attempt.check <| setup.validateNewState state
  let _ ← setup.reconcile now
  let quotaEvictions ← Attempt.read <|
    setup.quotaEvictionPlanExcluding state.payload.bytes 1 []
  let id := requestedId.getD fresh.id
  Attempt.read fun catalog => ensure ((catalog.find? id).isNone) <|
    conflict "a persistent runtime state with this ID already exists"
  Attempt.read fun catalog => ensure ((catalog.find? fresh.staging).isNone) internal
  Attempt.modify (·.insert fresh.staging .directory)
  let journal ← Attempt.check <| if quotaEvictions = [] then .ok none else
    (encodeQuotaEvictions quotaEvictions).map some
  let metadata := {
    id
    modelId              := state.modelId
    backend              := state.backend
    compatibility        := state.compatibility
    payloadBytes         := state.payload.bytes
    payloadSha256        := state.payload.sha256
    quotaEvictionsSha256 := journal.map setup.sha256
    promptTokens         := state.promptTokens
    createdUnixMs        := now
    lastAccessedUnixMs   := now
    expiresUnixMs        := state.expiresUnixMs }
  Attempt.modify (·.remove fresh.staging)
  Attempt.check <| ensure (setup.render metadata ≤ 1024 * 1024) <|
    invalid "serialized runtime state metadata exceeds its limit"
  Attempt.modify (·.insert id <| .state {
    metadata
    payload        := state.payload
    pinned         := state.pinned
    lastAccessed   := none
    quotaEvictions := journal })
  return (summaryFromMetadata metadata state.pinned, quotaEvictions)

-- A failed eviction is left to the next reconciliation.
def commitInner (requestedId : Option String) (state : NewStoredState) (fresh : FreshNames)
    (now : Nat) : StoreResult StateSummary := do
  let (summary, quotaEvictions) ← setup.publish requestedId state fresh now
  Attempt.ignore <| cleanup summary.id quotaEvictions
  return summary

def pruneLocked (selector : StateSelector) (now : Nat) : StoreResult (List StateSummary) := do
  let _ ← setup.reconcile now
  let states ← Attempt.read setup.scanLocked
  removeStateDirs (matched selector now states)
  return matched selector now states

-- The catalog does not exist before the first change. Where it is missing, nothing is matched.
def pruneDetailed (selector : StateSelector) (dryRun : Bool) (now : Nat) :
    Attempt (Option Catalog) ProtocolError (List StateSummary) := do
  Attempt.check <| validateSelector setup.limits.maxOperationIds selector
  fun catalog? =>
    match dryRun, catalog? with
    | true, none         => (.ok [], none)
    | true, some catalog => ((setup.scanLocked catalog).map (matched selector now), some catalog)
    | false, _           =>
      let (result, catalog) := setup.pruneLocked selector now (catalog?.getD .empty)
      (result, some catalog)

end Operations
end StateStoreSetup
end RuntimeControl.States
