import WerkModel.Lib.Pagination
import WerkModel.Lib.TreeMap
import WerkModel.RuntimeControl.Base64
import WerkModel.RuntimeControl.Experts.Config
import WerkModel.RuntimeControl.Protocol

-- The listing of runtime states. States in use stand in front of those on disk.
open Std ExtTreeMap Pagination

namespace RuntimeControl.States

open Experts (containsDots isControl isWhitespace validOpaqueId)

abbrev ProtocolResult := Except ProtocolError

def invalid (message : String) : ProtocolError :=
  .new .invalidRequest message

inductive StateTier
  | vram
  | ram
  | disk
  | external
  deriving DecidableEq

inductive StateStatus
  | ready
  | loading
  | moving
  | unavailable
  | quarantined
  deriving DecidableEq

structure StateSummary where
  id                 : String
  modelId            : String
  tier               : StateTier
  status             : StateStatus
  bytes              : Option Nat
  createdUnixMs      : Nat
  lastAccessedUnixMs : Nat
  expiresUnixMs      : Option Nat
  pinned             : Bool
  backend            : String
  reusable           : Bool
  deriving DecidableEq

structure StateListFilter where
  modelId : Option String
  tier    : Option StateTier
  limit   : Option Nat
  cursor  : Option String

structure StateListResponse where
  states     : List StateSummary
  nextCursor : Option String
  deriving DecidableEq

-- The page size of the default limits, which every control is built with.
def maxPageSize : Nat := 100

section Validation

def startsWith (start text : String) : Bool :=
  start.toList.isPrefixOf text.toList

def validatePrincipalId (principalId : String) : ProtocolResult Unit :=
  if principalId ≠ "local" ∧ (!startsWith "p_" principalId || principalId.utf8ByteSize = 2 ||
      !validOpaqueId principalId || !principalId.toList.all fun c =>
        c.isLower || c.isDigit || c = '_' || c = '-') then
    .error <| invalid "invalid principal namespace"
  else
    .ok ()

-- The identifiers that the store accepts.
def validateStateId (id : String) : ProtocolResult Unit :=
  if !startsWith "st_" id || !validOpaqueId id || id.toList.any fun c => c = '*' || c = '?' then
    .error <| invalid "invalid state ID"
  else
    .ok ()

-- The identifiers that the control accepts.
def validateStateIdentifier (id : String) : ProtocolResult Unit :=
  if !startsWith "st_" id || id.utf8ByteSize > 128 || containsDots id.toList ||
      !id.toList.all fun c => c.isAlphanum || c = '_' || c = '-' then
    .error <| invalid "invalid state ID"
  else
    .ok ()

def validateModelId (id : String) : ProtocolResult Unit :=
  if id.toList.all isWhitespace || id.utf8ByteSize > 256 || id.toList.any isControl ||
      containsDots id.toList then
    .error <| invalid "invalid model ID"
  else
    .ok ()

def validateFilter (filter : StateListFilter) (maxPageSize : Nat) : ProtocolResult Unit :=
  if filter.limit.any fun limit => limit = 0 || limit > maxPageSize then
    .error <| invalid s!"limit must be between 1 and {maxPageSize}"
  else do
    filter.modelId.forM validateModelId
    if filter.cursor.any fun cursor => cursor.utf8ByteSize > 256 then
      .error <| invalid "cursor is too long"
    else
      .ok ()

theorem validateFilter_ok {filter maxPageSize} : validateFilter filter maxPageSize = .ok () ↔
    (∀ limit ∈ filter.limit, 0 < limit ∧ limit ≤ maxPageSize) ∧
    filter.modelId.forM validateModelId = .ok () ∧
    ∀ cursor ∈ filter.cursor, cursor.utf8ByteSize ≤ 256 := by
  have hl : filter.limit.any (fun limit => limit = 0 || limit > maxPageSize) = false ↔
      ∀ limit ∈ filter.limit, 0 < limit ∧ limit ≤ maxPageSize := by
    cases filter.limit <;> simp [Nat.pos_iff_ne_zero]
  have hc : filter.cursor.any (fun cursor => cursor.utf8ByteSize > 256) = false ↔
      ∀ cursor ∈ filter.cursor, cursor.utf8ByteSize ≤ 256 := by
    cases filter.cursor <;> simp
  rw [validateFilter, ←hl, ←hc]
  split
  case isTrue h  => simp [h]
  case isFalse h =>
    cases hm : filter.modelId.forM validateModelId
    case error => simp [h, bind, Except.bind]
    case ok    => simp [h, bind, Except.bind]

end Validation

def encodeStateCursor (id : String) : String :=
  Handoff.urlSafeNoPad <| utf8 id

def decodeStateCursor (cursor : String) : ProtocolResult String :=
  if cursor.utf8ByteSize > 256 then
    .error <| invalid "invalid cursor"
  else
    match (decodeUrlSafeNoPad cursor).bind fromUtf8 with
    | none    => .error <| invalid "invalid cursor"
    | some id => do
      validateStateIdentifier id
      .ok id

theorem validateStateId_ok {id} (h : validateStateId id = .ok ()) :
    startsWith "st_" id ∧ id.utf8ByteSize ≤ 128 ∧ containsDots id.toList = false ∧
      ∀ c ∈ id.toList, Experts.isOpaqueIdChar c := by
  rw [validateStateId] at h
  split at h
  case isTrue  => cases h
  case isFalse => simp_all [validOpaqueId]

-- The store also accepts identifiers with dots.
theorem validateStateIdentifier_eq {id} (h : validateStateId id = .ok ()) :
    validateStateIdentifier id =
      if '.' ∈ id.toList then .error <| invalid "invalid state ID" else .ok () := by
  have ⟨hs, hl, hd, hc⟩ := validateStateId_ok h
  have hi : id.toList.all (fun c => c.isAlphanum || c = '_' || c = '-') = true ↔
      '.' ∉ id.toList := by
    rw [List.all_eq_true]
    constructor
    case mp  => exact fun h hm => absurd (h _ hm) (by decide)
    case mpr =>
      intro hm c hi
      have hc := hc c hi
      have hne : c ≠ '.' := fun he => hm <| he ▸ hi
      simpa [Experts.isOpaqueIdChar, hne] using hc
  have hb : (!id.toList.all fun c => c.isAlphanum || c = '_' || c = '-') =
      decide ('.' ∈ id.toList) := by
    rw [Bool.eq_iff_iff, Bool.not_eq_true', ←Bool.not_eq_true, hi, not_not, decide_eq_true_eq]
  simp [validateStateIdentifier, hs, hd, hb, hl.not_gt]

theorem size_encodeStateCursor {id} (h : validateStateId id = .ok ()) :
    (encodeStateCursor id).utf8ByteSize ≤ 256 := by
  have := (validateStateId_ok h).2.1
  rw [encodeStateCursor, Handoff.utf8ByteSize_urlSafeNoPad, length_utf8]
  omega

theorem decode_encodeStateCursor {id} (h : validateStateId id = .ok ()) :
    decodeStateCursor (encodeStateCursor id) =
      if '.' ∈ id.toList then .error <| invalid "invalid state ID" else .ok id := by
  rw [decodeStateCursor, if_neg (size_encodeStateCursor h).not_gt, encodeStateCursor,
    decode_urlSafeNoPad]
  simp only [Option.bind_some, fromUtf8_utf8, validateStateIdentifier_eq h]
  split <;> rfl

-- The states of a principal on disk, in the order of the directory.
structure StateCatalog where
  states : List StateSummary
  nodup  : (states.map StateSummary.id).Nodup
  valid  : ∀ state ∈ states, validateStateId state.id = .ok ()

structure StateStore where
  namespaces : ExtTreeMap String StateCatalog

def StateSummary.isExpired (state : StateSummary) (now : Nat) : Bool :=
  state.expiresUnixMs.any fun expires => expires ≤ now

-- States are listed in the order of their identifiers.
def sortById (states : List StateSummary) : List StateSummary :=
  states.insertionSort <| Order.Preimage StateSummary.id (· ≤ ·)

def StateStore.allSummaries (store : StateStore) (principalId : String) (now : Nat) :
    ProtocolResult (List StateSummary) := do
  validatePrincipalId principalId
  match store.namespaces[principalId]? with
  | none         => .ok []
  | some catalog => .ok <| sortById <| catalog.states.filter fun state => !state.isExpired now

variable {Lease Envelope : Type}

structure VolatileState (Lease Envelope : Type) where
  principalId   : String
  summary       : StateSummary
  compatibility : Envelope
  lease         : Lease

def VolatileState.key (state : VolatileState Lease Envelope) : String × String :=
  (state.principalId, state.summary.id)

-- The states in use, in any order.
structure VolatileStates (Lease Envelope : Type) where
  states : List (VolatileState Lease Envelope)
  nodup  : (states.map VolatileState.key).Nodup
  valid  : ∀ state ∈ states, validateStateId state.summary.id = .ok ()

structure LocalInner (Lease Envelope : Type) where
  stateStore     : StateStore
  volatileStates : VolatileStates Lease Envelope
  -- Whether the adapter still accepts a state.
  validateState  : Lease → Envelope → Bool

-- The times that a request reads.
structure Clock where
  disk : Nat
  now  : Nat

def StateSummary.unavailable (state : StateSummary) : StateSummary :=
  { state with
    status   := .unavailable
    reusable := false }

def insertAll (statesById : ExtTreeMap String StateSummary) (states : List StateSummary) :
    ExtTreeMap String StateSummary :=
  states.foldl (fun statesById state => statesById.insert state.id state) statesById

section

variable {states : List StateSummary} {state : StateSummary}
variable {statesById : ExtTreeMap String StateSummary}

theorem mem_sortById : state ∈ sortById states ↔ state ∈ states :=
  List.mem_insertionSort _

theorem perm_sortById : (sortById states).Perm states :=
  List.perm_insertionSort _ _

-- Later states replace earlier ones.
theorem lookup_insertAll (hn : (states.map StateSummary.id).Nodup) {id : String} :
    (insertAll statesById states)[id]? = some state ↔
      (state ∈ states ∧ state.id = id) ∨
      ((∀ other ∈ states, other.id ≠ id) ∧ statesById[id]? = some state) := by
  induction states generalizing statesById
  case nil => simp [insertAll]
  case cons head tail hi =>
    have ⟨hh, ht⟩ := List.nodup_cons.mp hn
    rw [insertAll, List.foldl_cons, ←insertAll, hi ht, getElem?_insert]
    have hm : ∀ other ∈ tail, other.id ≠ head.id := fun other hm ho =>
      hh <| List.mem_map.mpr ⟨other, hm, ho⟩
    by_cases he : head.id = id
    case neg =>
      have hs : state = head → state.id ≠ id := (· ▸ he)
      grind
    case pos =>
      have hs : state = head → state.id = id := (· ▸ he)
      grind

end

namespace LocalInner

variable (inner : LocalInner Lease Envelope) (principalId : String)

def overlays (now : Nat) : List (VolatileState Lease Envelope) :=
  inner.volatileStates.states.filter fun state =>
    state.principalId = principalId && !state.summary.isExpired now

def shown (state : VolatileState Lease Envelope) : StateSummary :=
  if inner.validateState state.lease state.compatibility then
    state.summary
  else
    state.summary.unavailable

-- An overlay replaces the state on disk that has the same identifier.
def mergedStates (clock : Clock) : ProtocolResult (List StateSummary) := do
  let diskStates ← inner.stateStore.allSummaries principalId clock.disk
  let statesById := insertAll ∅ <| diskStates.map StateSummary.unavailable
  let statesById := insertAll statesById <|
    (inner.overlays principalId clock.now).map inner.shown
  .ok statesById.valueList

-- A principal sees the states in use, and those on disk that none of them replaces.
inductive Visible (clock : Clock) (state : StateSummary) : Prop
  | overlay {overlay : VolatileState Lease Envelope} :
    overlay ∈ inner.overlays principalId clock.now → state = inner.shown overlay →
    Visible clock state
  | disk {catalog : StateCatalog} {disk : StateSummary} :
    inner.stateStore.namespaces[principalId]? = some catalog → disk ∈ catalog.states →
    disk.isExpired clock.disk = false →
    (∀ overlay ∈ inner.overlays principalId clock.now, overlay.summary.id ≠ disk.id) →
    state = disk.unavailable → Visible clock state

variable {inner principalId} {clock : Clock} {states : List StateSummary} {state : StateSummary}

@[simp]
theorem id_shown {overlay} : (inner.shown overlay).id = overlay.summary.id := by
  rw [shown]
  split <;> rfl

theorem nodup_overlays {now} :
    (((inner.overlays principalId now).map inner.shown).map StateSummary.id).Nodup := by
  have hn := (List.pairwise_map.mp inner.volatileStates.nodup).filter fun state =>
    state.principalId = principalId && !state.summary.isExpired now
  rw [List.map_map]
  refine List.pairwise_map.mpr <| hn.imp_of_mem fun ha hb hne he => hne ?_
  have ha := (List.mem_filter.mp ha).2
  have hb := (List.mem_filter.mp hb).2
  simp_all [VolatileState.key]

theorem allSummaries_ok {store : StateStore} {now}
    (h : store.allSummaries principalId now = .ok states) :
    (states.map StateSummary.id).Nodup ∧ ∀ state, state ∈ states ↔
      ∃ catalog, store.namespaces[principalId]? = some catalog ∧ state ∈ catalog.states ∧
        state.isExpired now = false := by
  rw [StateStore.allSummaries] at h
  cases hp : validatePrincipalId principalId
  case error => simp [hp, bind, Except.bind] at h
  case ok =>
    cases hc : store.namespaces[principalId]?
    case none =>
      simp only [hp, hc, bind, Except.bind, Except.ok.injEq] at h
      simp [←h]
    case some catalog =>
      simp only [hp, hc, bind, Except.bind, Except.ok.injEq] at h
      rw [←h]
      constructor
      case left =>
        refine (perm_sortById.map _).nodup_iff.mpr ?_
        exact catalog.nodup.sublist <| List.filter_sublist.map _
      case right => simp [mem_sortById]

theorem mergedStates_ok (h : inner.mergedStates principalId clock = .ok states) :
    ∃ diskStates statesById,
      inner.stateStore.allSummaries principalId clock.disk = .ok diskStates ∧
      statesById = insertAll (insertAll ∅ <| diskStates.map StateSummary.unavailable)
        ((inner.overlays principalId clock.now).map inner.shown) ∧
      states = statesById.valueList := by
  rw [mergedStates] at h
  cases hd : inner.stateStore.allSummaries principalId clock.disk
  case error => simp [hd, bind, Except.bind] at h
  case ok diskStates =>
    simp only [hd, bind, Except.bind, Except.ok.injEq] at h
    exact ⟨diskStates, _, rfl, rfl, h.symm⟩

theorem id_valid_of_visible (h : inner.Visible principalId clock state) :
    validateStateId state.id = .ok () := by
  cases h
  case overlay overlay ho hs =>
    rw [hs, id_shown]
    exact inner.volatileStates.valid _ <| List.mem_of_mem_filter ho
  case disk catalog disk _ hd _ _ hs =>
    have he : state.id = disk.id := hs ▸ rfl
    exact he ▸ catalog.valid disk hd

theorem lookup_statesById {diskStates} {id : String}
    (h : inner.stateStore.allSummaries principalId clock.disk = .ok diskStates) :
    (insertAll (insertAll ∅ <| diskStates.map StateSummary.unavailable)
      ((inner.overlays principalId clock.now).map inner.shown))[id]? = some state ↔
    inner.Visible principalId clock state ∧ state.id = id := by
  have ⟨hn, hd⟩ := allSummaries_ok h
  have hn : ((diskStates.map StateSummary.unavailable).map StateSummary.id).Nodup := by
    rwa [List.map_map]
  rw [lookup_insertAll nodup_overlays, lookup_insertAll hn]
  simp only [List.mem_map, getElem?_empty, reduceCtorEq, and_false, or_false]
  constructor
  case mp =>
    rintro (⟨⟨overlay, ho, hs⟩, hi⟩ | ⟨hf, ⟨disk, hm, hs⟩, hi⟩)
    · exact ⟨.overlay ho hs.symm, hi⟩
    · have ⟨catalog, hc, hm, he⟩ := (hd disk).mp hm
      refine ⟨.disk hc hm he (fun overlay ho hne => ?_) hs.symm, hi⟩
      refine hf _ ⟨overlay, ho, rfl⟩ ?_
      rw [id_shown, hne, ←hi, ←hs]
      rfl
  case mpr =>
    intro ⟨hv, hi⟩
    cases hv
    case overlay overlay ho hs => exact .inl ⟨⟨overlay, ho, hs.symm⟩, hi⟩
    case disk catalog disk hc hm he hf hs =>
      refine .inr ⟨fun other ho hne => ?_, ⟨disk, (hd disk).mpr ⟨catalog, hc, hm, he⟩, hs.symm⟩, hi⟩
      have ⟨overlay, ho, hs'⟩ := ho
      refine hf overlay ho ?_
      rw [←id_shown, hs', hne, ←hi, hs]
      rfl

theorem mem_mergedStates (h : inner.mergedStates principalId clock = .ok states) :
    state ∈ states ↔ inner.Visible principalId clock state := by
  have ⟨_, _, hd, hs, hv⟩ := mergedStates_ok h
  rw [hv, mem_valueList_iff, hs]
  simp [lookup_statesById hd]

theorem nodup_mergedStates (h : inner.mergedStates principalId clock = .ok states) :
    (states.map StateSummary.id).Nodup := by
  have ⟨_, _, hd, hs, hv⟩ := mergedStates_ok h
  rw [hv, map_valueList_of_keyed fun id state hl => ?_]
  · exact nodup_keys
  · rw [hs] at hl
    exact ((lookup_statesById hd).mp hl).2

theorem exists_mergedStates (h : validatePrincipalId principalId = .ok ()) :
    ∃ states, inner.mergedStates principalId clock = .ok states := by
  rw [mergedStates, StateStore.allSummaries, h]
  cases inner.stateStore.namespaces[principalId]?
  all_goals exact ⟨_, rfl⟩

end LocalInner

def StateListFilter.Matches (filter : StateListFilter) (state : StateSummary) : Prop :=
  (∀ modelId ∈ filter.modelId, state.modelId = modelId) ∧ ∀ tier ∈ filter.tier, state.tier = tier

instance {filter} : DecidablePred (StateListFilter.Matches filter) :=
  fun _ => inferInstanceAs <| Decidable (_ ∧ _)

def listStatesInner (inner : LocalInner Lease Envelope) (principalId : String)
    (filter : StateListFilter) (clock : Clock) : ProtocolResult StateListResponse := do
  validateFilter filter maxPageSize
  let after ← filter.cursor.mapM decodeStateCursor
  let limit := filter.limit.getD maxPageSize
  let states ← inner.mergedStates principalId clock
  let states := sortById <| states.filter filter.Matches
  let states := states.filter fun state => IsAfter after state.id
  let page := states.take limit
  .ok {
    states     := page
    nextCursor :=
      if states.length > limit then
        page.getLast?.map fun state => encodeStateCursor state.id
      else
        none }

section List

variable {inner : LocalInner Lease Envelope} {principalId : String} {filter : StateListFilter}
variable {clock : Clock} {states : List StateSummary} {after : Option String}

def pageLimit (filter : StateListFilter) : Nat :=
  filter.limit.getD maxPageSize

-- The response with the page that starts after an identifier.
def respond (filter : StateListFilter) (after : Option String) (rows : List StateSummary) :
    StateListResponse where
  states     := page StateSummary.id (pageLimit filter) after rows
  nextCursor := (next StateSummary.id (pageLimit filter) after rows).map encodeStateCursor

-- The states that a filter selects.
def matching (filter : StateListFilter) (states : List StateSummary) : List StateSummary :=
  states.filter filter.Matches

@[simp]
theorem respond_states {rows} : (respond filter after rows).states =
    page StateSummary.id (pageLimit filter) after rows :=
  rfl

@[simp]
theorem respond_nextCursor {rows} : (respond filter after rows).nextCursor =
    (next StateSummary.id (pageLimit filter) after rows).map encodeStateCursor :=
  rfl

theorem pageLimit_pos (hv : validateFilter { filter with cursor := none } maxPageSize = .ok ()) :
    0 < pageLimit filter := by
  have hl := (validateFilter_ok.mp hv).1
  rw [pageLimit]
  cases h : filter.limit
  case none       => decide
  case some limit => exact (hl limit h).1

theorem list_eq (hv : validateFilter filter maxPageSize = .ok ())
    (ha : filter.cursor.mapM decodeStateCursor = .ok after)
    (hm : inner.mergedStates principalId clock = .ok states) :
    listStatesInner inner principalId filter clock =
      .ok (respond filter after <| matching filter states) := by
  have hn : ((matching filter states).map StateSummary.id).Nodup :=
    (LocalInner.nodup_mergedStates hm).sublist <| List.filter_sublist.map _
  have hr : ((sortById <| matching filter states).filter fun state => IsAfter after state.id) =
      remaining StateSummary.id after (matching filter states) := by
    rw [←filter_remaining hn]
    simp [sortById, remaining, IsAfter]
  rw [matching] at hr
  simp only [listStatesInner, hv, ha, hm, hr, bind, Except.bind]
  simp only [respond, page, next, apply_ite (Option.map _), Option.map_map, Option.map_none]
  rfl

theorem list_error {error} (hv : validateFilter filter maxPageSize = .ok ())
    (ha : filter.cursor.mapM decodeStateCursor = .error error) :
    listStatesInner inner principalId filter clock = .error error := by
  simp only [listStatesInner, hv, ha, bind, Except.bind]

theorem validateFilter_issued (hv : validateFilter { filter with cursor := none } maxPageSize = .ok ())
    (hi : ∀ id ∈ after, validateStateId id = .ok ()) :
    validateFilter { filter with cursor := after.map encodeStateCursor } maxPageSize = .ok () := by
  have ⟨hl, hm, _⟩ := validateFilter_ok.mp hv
  refine validateFilter_ok.mpr ⟨hl, hm, fun cursor hc => ?_⟩
  have ⟨id, ha, he⟩ := Option.map_eq_some_iff.mp hc
  exact he ▸ size_encodeStateCursor (hi id ha)

-- Cursors are accepted if the identifier that they were issued for has no dot.

theorem list_accepts (after : Option String)
    (hv : validateFilter { filter with cursor := none } maxPageSize = .ok ())
    (hi : ∀ id ∈ after, validateStateId id = .ok ()) (hd : ∀ id ∈ after, '.' ∉ id.toList)
    (hm : inner.mergedStates principalId clock = .ok states) :
    listStatesInner inner principalId { filter with cursor := after.map encodeStateCursor } clock =
      .ok (respond filter after <| matching filter states) := by
  refine list_eq (validateFilter_issued hv hi) ?_ hm
  cases after
  case none    => rfl
  case some id =>
    simp only [Option.map_some, Option.mapM_some, decode_encodeStateCursor (hi id rfl),
      if_neg (hd id rfl)]
    rfl

theorem list_rejects {id} (hv : validateFilter { filter with cursor := none } maxPageSize = .ok ())
    (hi : validateStateId id = .ok ()) (hd : '.' ∈ id.toList) :
    listStatesInner inner principalId { filter with cursor := some (encodeStateCursor id) } clock =
      .error (invalid "invalid state ID") := by
  have hi' : ∀ id' ∈ some id, validateStateId id' = .ok () := by simpa using hi
  refine list_error (validateFilter_issued hv hi') ?_
  simp only [Option.mapM_some, decode_encodeStateCursor hi, if_pos hd]
  rfl

end List

end RuntimeControl.States
