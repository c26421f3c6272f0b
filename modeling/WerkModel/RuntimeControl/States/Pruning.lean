import WerkModel.RuntimeControl.States.Reconciliation

-- The removal of the states that a selector stands for, and its preview.
open Checks Saturating Std

namespace RuntimeControl.States

variable {Lease : Type}

structure Overlay (Lease : Type) extends VolatileState Lease CompatibilityEnvelope where
  promptTokens : Nat
  persisted    : Bool
  allocationId : Option Nat

-- The states of a principal on disk, and those of all principals that are in use.
structure LocalControl (Lease : Type) where
  catalog        : Option Catalog
  volatileStates : List (Overlay Lease)
  nodup          : (volatileStates.map fun state => state.key).Nodup

-- What holds a lease, and what its backend answers when it is released.
structure Backend (Lease : Type) where
  idle    : Lease → Bool
  release : Lease → ProtocolResult PUnit

structure PruneStatesResponse where
  matched : Nat
  removed : Nat
  bytes   : Option Nat
  dryRun  : Bool
  deriving DecidableEq

abbrev ControlResult (Lease : Type) := Attempt (LocalControl Lease) ProtocolError

namespace LocalControl

def dropKey (control : LocalControl Lease) (key : String × String) : LocalControl Lease :=
  { control with
    volatileStates := control.volatileStates.filter fun state => state.key ≠ key
    nodup          := control.nodup.sublist (List.filter_sublist.map _) }

def resetPersisted (control : LocalControl Lease) (principalId : String) (diskIds : List String) :
    LocalControl Lease :=
  { control with
    volatileStates := control.volatileStates.map fun state =>
      if state.principalId = principalId ∧ state.summary.id ∈ diskIds then
        { state with persisted := false }
      else
        state
    nodup          := by
      have hk (state : Overlay Lease) : (if state.principalId = principalId ∧
          state.summary.id ∈ diskIds then { state with persisted := false } else state).key =
          state.key := by
        split <;> rfl
      simpa only [List.map_map, Function.comp_def, hk] using control.nodup }

-- Expired states stay in use as long as a handoff holds their leases.
def expiredStates (control : LocalControl Lease) (backend : Backend Lease) (principalId : String)
    (now : Nat) : List (Overlay Lease) :=
  control.volatileStates.filter fun state =>
    state.principalId = principalId && state.summary.isExpired now && backend.idle state.lease

def selectedStates (control : LocalControl Lease) (principalId : String)
    (selector : StateSelector) (now : Nat) : List (Overlay Lease) :=
  control.volatileStates.filter fun state =>
    state.principalId = principalId && !state.summary.isExpired now &&
      selector.matches state.summary

end LocalControl

-- A handoff that still holds the lease releases it later.
def releaseVolatileState (backend : Backend Lease) (state : Overlay Lease) :
    ControlResult Lease PUnit := do
  Attempt.check <| if backend.idle state.lease then backend.release state.lease else .ok ⟨⟩
  Attempt.modify (·.dropKey state.key)

def onCatalog {α : Type} (x : Attempt (Option Catalog) ProtocolError α) : ControlResult Lease α :=
  fun control => ((x control.catalog).1, { control with catalog := (x control.catalog).2 })

-- A state in use replaces the bytes of the state on disk that has the same identifier.
def pruneResponse (disk entries : List StateSummary) (dryRun : Bool) : PruneStatesResponse :=
  let matchedStates : ExtTreeMap String (Option Nat) :=
    (disk ++ entries).foldl (fun matchedStates state => matchedStates.insert state.id state.bytes) ∅
  { matched := matchedStates.size
    removed := if dryRun then 0 else matchedStates.size
    bytes   := matchedStates.toList.foldlM (fun total (_, bytes) => bytes.map (add u64Max total)) 0
    dryRun }

-- A preview comes first, so that nothing is released for a request that fails.
def pruneStatesInner (setup : StateStoreSetup) (backend : Backend Lease) (principalId : String)
    (selector : StateSelector) (dryRun : Bool) (now : Nat) :
    ControlResult Lease PruneStatesResponse := do
  let preview ← Attempt.read fun control => (setup.pruneDetailed selector true now control.catalog).1
  let entries ← Attempt.gets (·.selectedStates principalId selector now)
  if dryRun then
    return pruneResponse preview (entries.map (·.summary)) true
  else
    let expired ← Attempt.gets (·.expiredStates backend principalId now)
    (entries ++ expired).reverse.forM (releaseVolatileState backend)
    let disk ← onCatalog (setup.pruneDetailed selector false now)
    Attempt.modify (·.resetPersisted principalId (disk.map StateSummary.id))
    return pruneResponse disk (entries.map (·.summary)) false

section Disk

variable {setup : StateStoreSetup} {catalog catalog' : Catalog} {catalog? catalog'? : Option Catalog}
variable {selector : StateSelector} {now n : Nat} {states disk : List StateSummary} {u : PUnit}

theorem mem_matched {state : StateSummary} : state ∈ matched selector now states ↔
    state ∈ states ∧ state.isExpired now = false ∧ selector.matches state = true := by
  rw [matched, mem_sortById, List.mem_filter, List.mem_filter, and_assoc, Bool.not_eq_true']

theorem matched_unexpired : matched selector now (states.filter fun state => !state.isExpired now) =
    matched selector now states := by
  rw [matched, matched, List.filter_filter]
  simp

theorem removeStateDirs_ok (h : removeStateDirs states catalog = (.ok u, catalog')) :
    catalog' = catalog.keep fun entry => entry.1 ∉ states.map StateSummary.id := by
  induction states generalizing catalog
  case nil =>
    rw [(Attempt.pure_ok.mp h).2]
    exact Catalog.ext_entries (by simp [Catalog.keep])
  case cons state states hi =>
    obtain ⟨_, removed, hd, h⟩ := Attempt.bind_ok.mp h
    rw [hi h, removeStateDir_ok hd]
    refine Catalog.ext_entries ?_
    simp only [Catalog.remove, Catalog.keep, List.filter_filter]
    refine List.filter_congr fun entry _ => ?_
    simp [not_or, Bool.and_comm]

theorem removeStateDirs_succeeds (hn : (states.map StateSummary.id).Nodup)
    (h : ∀ state ∈ states, ∃ directory, (state.id, .state directory) ∈ catalog.entries) :
    ∃ catalog', removeStateDirs states catalog = (.ok ⟨⟩, catalog') := by
  induction states generalizing catalog
  case nil => exact ⟨_, rfl⟩
  case cons state states hi =>
    have ⟨directory, hd⟩ := h state List.mem_cons_self
    have ⟨hid, hn⟩ := List.nodup_cons.mp hn
    have hrest : ∀ other ∈ states, ∃ directory,
        (other.id, .state directory) ∈ (catalog.remove state.id).entries := fun other ho => by
      have ⟨directory, hd⟩ := h other (List.mem_cons_of_mem _ ho)
      have hne : other.id ≠ state.id := fun he => hid (he ▸ List.mem_map_of_mem ho)
      exact ⟨directory, mem_remove hd hne⟩
    have ⟨catalog', hc⟩ := hi hn hrest
    exact ⟨catalog', (Attempt.bind_of_ok (removeStateDir_succeeds hd)).trans hc⟩

theorem directory_of_valid {state : StateSummary} (h : state ∈ setup.validStates catalog) :
    ∃ directory, (state.id, .state directory) ∈ catalog.entries := by
  have ⟨entry, hm, hv⟩ := mem_validStates.mp h
  have ⟨_, _, _, hr, _⟩ := validState_eq_some.mp hv
  have ⟨directory, hd, _⟩ := readState_ok hr
  exact ⟨directory, hd ▸ hm⟩

theorem pruneLocked_ok (h : setup.pruneLocked selector now catalog = (.ok disk, catalog')) :
    ∃ n completed, setup.completePendingQuotaEvictions catalog = (.ok n, completed) ∧
      disk = matched selector now (setup.validStates completed) ∧
      setup.validStates catalog' = ((setup.validStates completed).filter fun state =>
        !state.isExpired now).filter fun state => state.id ∉ disk.map StateSummary.id := by
  have ⟨_, reconciled, hr, h⟩ := Attempt.bind_ok.mp h
  have ⟨scanned, hs, h⟩ := Attempt.read_bind_ok.mp h
  have ⟨_, removed, hd, h⟩ := Attempt.bind_ok.mp h
  have ⟨hdisk, hcatalog⟩ := Attempt.pure_ok.mp h
  have ⟨n, completed, hc, hstays⟩ := reconcile_ok hr
  have hscanned : scanned = (setup.validStates completed).filter fun state =>
      !state.isExpired now := by
    rw [(scanLocked_ok hs).1, hstays, validStates_stays]
  refine ⟨n, completed, hc, by rw [hdisk, hscanned, matched_unexpired], ?_⟩
  rw [hcatalog, removeStateDirs_ok hd, hstays, ←hdisk, ←validStates_stays]
  exact @validStates_keep setup _ fun id => id ∉ disk.map StateSummary.id

theorem pruneLocked_succeeds (hs : setup.scanLocked catalog = .ok states)
    (hu : Unjournaled catalog) :
    ∃ disk catalog', setup.pruneLocked selector now catalog = (.ok disk, catalog') := by
  have ⟨_, n, reconciled, scanned, hr, hscan⟩ := @reconcile_succeeds setup catalog now states hs hu
  have he := (scanLocked_ok hscan).1
  have hn : ((matched selector now scanned).map StateSummary.id).Nodup := by
    have hv := @nodup_validStates setup reconciled
    rw [←he] at hv
    refine (perm_sortById.map _).nodup_iff.mpr (hv.sublist (List.Sublist.map _ ?_))
    exact List.filter_sublist.trans List.filter_sublist
  have ⟨catalog', hc⟩ := removeStateDirs_succeeds hn fun state hm =>
    directory_of_valid (he ▸ (mem_matched.mp hm).1)
  refine ⟨matched selector now scanned, catalog', (Attempt.bind_of_ok hr).trans ?_⟩
  refine (Attempt.read_bind hscan).trans ?_
  exact Attempt.bind_of_ok hc

-- The states of a catalog that may be missing.
def diskStates (setup : StateStoreSetup) (catalog? : Option Catalog) : List StateSummary :=
  setup.validStates (catalog?.getD .empty)

theorem preview_ok (h : setup.pruneDetailed selector true now catalog? = (.ok disk, catalog'?)) :
    catalog'? = catalog? ∧ disk = matched selector now (diskStates setup catalog?) := by
  have ⟨_, _, h⟩ := Attempt.check_bind_ok.mp h
  cases catalog?
  case none =>
    cases h
    exact ⟨rfl, rfl⟩
  case some catalog =>
    have ⟨hs, hc⟩ := Prod.mk.inj h
    have ⟨states, hs, hm⟩ := map_eq_ok.mp hs
    refine ⟨hc.symm, ?_⟩
    rw [←hm, (scanLocked_ok hs).1]
    rfl

end Disk

section Control

variable {setup : StateStoreSetup} {backend : Backend Lease} {control control' : LocalControl Lease}
variable {principalId : String} {selector : StateSelector} {now : Nat} {dryRun : Bool}
variable {response previewed : PruneStatesResponse} {l : List (Overlay Lease)} {u : PUnit}

theorem releaseStates_ok (h : l.forM (releaseVolatileState backend) control = (.ok u, control')) :
    control'.catalog = control.catalog ∧
      control'.volatileStates = control.volatileStates.filter fun state =>
        state.key ∉ l.map fun state => state.key := by
  induction l generalizing control
  case nil =>
    rw [(Attempt.pure_ok.mp h).2]
    simp
  case cons state l hi =>
    have ⟨_, released, hr, h⟩ := Attempt.bind_ok.mp h
    have ⟨_, _, hm⟩ := Attempt.check_bind_ok.mp hr
    have ⟨hc, hv⟩ := hi h
    rw [Attempt.modify_ok.mp hm] at hc hv
    refine ⟨hc, hv.trans ?_⟩
    simp only [LocalControl.dropKey, List.filter_filter]
    refine List.filter_congr fun other _ => ?_
    simp [not_or, Bool.and_comm]

theorem releaseStates_succeeds (h : ∀ lease, backend.release lease = .ok ⟨⟩) :
    ∃ control', l.forM (releaseVolatileState backend) control = (.ok ⟨⟩, control') := by
  induction l generalizing control
  case nil => exact ⟨_, rfl⟩
  case cons state l hi =>
    have hr : releaseVolatileState backend state control = (.ok ⟨⟩, control.dropKey state.key) := by
      have hx : (if backend.idle state.lease then backend.release state.lease else .ok ⟨⟩) =
          .ok ⟨⟩ := by
        rw [h, ite_self]
      exact Attempt.check_bind hx
    have ⟨control', hc⟩ := @hi (control.dropKey state.key)
    exact ⟨control', (Attempt.bind_of_ok hr).trans hc⟩

theorem mem_resetPersisted {ids : List String} {state : Overlay Lease}
    (h : state ∈ (control.resetPersisted principalId ids).volatileStates) :
    ∃ other ∈ control.volatileStates, state.toVolatileState = other.toVolatileState := by
  have ⟨other, hm, he⟩ := List.mem_map.mp h
  refine ⟨other, hm, ?_⟩
  rw [←he]
  split <;> rfl

theorem resetPersisted_of_mem {ids : List String} {state : Overlay Lease}
    (h : state ∈ control.volatileStates) :
    ∃ other ∈ (control.resetPersisted principalId ids).volatileStates,
      other.toVolatileState = state.toVolatileState := by
  refine ⟨_, List.mem_map_of_mem h, ?_⟩
  split <;> rfl

-- What a prune has done to the states, where the journals have evicted some of them before.
structure Pruned (setup : StateStoreSetup) (principalId : String) (selector : StateSelector)
    (now : Nat) (control control' : LocalControl Lease) (evicted : List String) : Prop where
  -- Nothing that matches is left.
  disk : ∀ state ∈ diskStates setup control'.catalog, state.isExpired now = false →
    selector.matches state = false
  volatile : ∀ state ∈ control'.volatileStates, state.principalId = principalId →
    state.summary.isExpired now = false → selector.matches state.summary = false
  -- What does not match is left.
  diskKept : ∀ state ∈ diskStates setup control.catalog, state.isExpired now = false →
    selector.matches state = false → state.id ∉ evicted →
    state ∈ diskStates setup control'.catalog
  volatileKept : ∀ state ∈ control.volatileStates, (state.principalId = principalId →
    state.summary.isExpired now = false ∧ selector.matches state.summary = false) →
    ∃ other ∈ control'.volatileStates, other.toVolatileState = state.toVolatileState

-- How a preview relates to the run that it is a preview of.
structure Previews (setup : StateStoreSetup) (backend : Backend Lease) (principalId : String)
    (selector : StateSelector) (now : Nat) (control : LocalControl Lease) : Prop where
  unchanged : ∀ result control',
    pruneStatesInner setup backend principalId selector true now control = (result, control') →
    control' = control
  pruned : ∀ response control',
    pruneStatesInner setup backend principalId selector false now control =
      (.ok response, control') →
    let disk := diskStates setup control.catalog
    let entries := (control.selectedStates principalId selector now).map (·.summary)
    pruneStatesInner setup backend principalId selector true now control =
      (.ok <| pruneResponse (matched selector now disk) entries true, control) ∧
    ∃ evicted, Completion setup (control.catalog.getD .empty) evicted ∧
      response = pruneResponse
        (matched selector now (disk.filter fun state => state.id ∉ evicted)) entries false ∧
      Pruned setup principalId selector now control control' evicted
  agreed : ∀ previewed, Unjournaled (control.catalog.getD .empty) →
    (∀ lease, backend.release lease = .ok ⟨⟩) →
    pruneStatesInner setup backend principalId selector true now control =
      (.ok previewed, control) →
    ∃ response control', pruneStatesInner setup backend principalId selector false now control =
      (.ok response, control') ∧
      response.matched = previewed.matched ∧ response.bytes = previewed.bytes ∧
      Pruned setup principalId selector now control control' []

theorem preview_eq : pruneStatesInner setup backend principalId selector true now control =
    ((setup.pruneDetailed selector true now control.catalog).1.map fun preview =>
      pruneResponse preview ((control.selectedStates principalId selector now).map (·.summary)) true,
      control) := by
  rw [pruneStatesInner]
  cases hp : (setup.pruneDetailed selector true now control.catalog).1
  case error e => exact Attempt.bind_of_error (Prod.ext hp rfl)
  case ok disk => exact Attempt.read_bind hp

theorem onCatalog_ok {α : Type} {x : Attempt (Option Catalog) ProtocolError α} {a : α}
    (h : onCatalog x control = (.ok a, control')) :
    x control.catalog = (.ok a, control'.catalog) ∧
      control' = { control with catalog := control'.catalog } := by
  have ⟨hx, hc⟩ := Prod.mk.inj h
  rw [←hc]
  exact ⟨Prod.ext hx rfl, rfl⟩

theorem prune_ok {disk : List StateSummary} {catalog? catalog'? : Option Catalog}
    (h : setup.pruneDetailed selector false now catalog? = (.ok disk, catalog'?)) :
    ∃ catalog', catalog'? = some catalog' ∧
      setup.pruneLocked selector now (catalog?.getD .empty) = (.ok disk, catalog') := by
  have ⟨_, _, h⟩ := Attempt.check_bind_ok.mp h
  have ⟨hd, hc⟩ := Prod.mk.inj h
  exact ⟨_, hc.symm, Prod.ext hd rfl⟩

section Consequences

variable {completed catalog' : Catalog} {disk : List StateSummary} {evicted : List String}
variable {pruned : LocalControl Lease} {entries expired : List (Overlay Lease)}
variable (hdisk : disk = matched selector now (setup.validStates completed))
variable (hvalid : setup.validStates catalog' = ((setup.validStates completed).filter fun state =>
  !state.isExpired now).filter fun state => state.id ∉ disk.map StateSummary.id)

include hdisk hvalid in
theorem unmatched_of_pruned : ∀ state ∈ setup.validStates catalog', state.isExpired now = false →
    selector.matches state = false := by
  intro state hm hx
  have ⟨hm, hd⟩ := List.mem_filter.mp (hvalid ▸ hm)
  refine Bool.eq_false_iff.mpr fun hs => of_decide_eq_true hd ?_
  rw [hdisk]
  exact List.mem_map_of_mem (mem_matched.mpr ⟨List.mem_of_mem_filter hm, hx, hs⟩)

include hdisk hvalid in
theorem kept_of_pruned {catalog : Catalog} (hcompleted : setup.validStates completed =
      (setup.validStates catalog).filter fun state => state.id ∉ evicted) :
    ∀ state ∈ setup.validStates catalog, state.isExpired now = false →
      selector.matches state = false → state.id ∉ evicted →
      state ∈ setup.validStates catalog' := by
  intro state hm hx hs he
  have hc : state ∈ setup.validStates completed := by
    rw [hcompleted]
    exact List.mem_filter.mpr ⟨hm, decide_eq_true he⟩
  rw [hvalid]
  refine List.mem_filter.mpr ⟨List.mem_filter.mpr ⟨hc, by rw [hx]; rfl⟩, decide_eq_true ?_⟩
  intro hd
  have ⟨other, ho, hi⟩ := List.mem_map.mp hd
  have ⟨ho, _, hother⟩ := mem_matched.mp (hdisk ▸ ho)
  rw [List.inj_on_of_nodup_map nodup_validStates ho hc hi, hs] at hother
  cases hother

variable (he : control.selectedStates principalId selector now = entries)
variable (hx : control.expiredStates backend principalId now = expired)
variable (hv : pruned.volatileStates = control.volatileStates.filter fun state =>
  state.key ∉ (entries ++ expired).reverse.map fun state => state.key)

include he hv in
theorem unselected_of_released {state : Overlay Lease} (h : ∃ other ∈ pruned.volatileStates,
      state.toVolatileState = other.toVolatileState) :
    state.principalId = principalId → state.summary.isExpired now = false →
      selector.matches state.summary = false := by
  have ⟨other, ho, hs⟩ := h
  rw [hs]
  intro hp hx
  have ⟨ho, hk⟩ := List.mem_filter.mp (hv ▸ ho)
  refine Bool.eq_false_iff.mpr fun hm => of_decide_eq_true hk ?_
  refine List.mem_map_of_mem (List.mem_reverse.mpr (List.mem_append_left _ ?_))
  rw [←he]
  exact List.mem_filter.mpr ⟨ho, by simp [hp, hx, hm]⟩

include he hx hv in
theorem kept_of_released {state : Overlay Lease} (hm : state ∈ control.volatileStates)
    (hk : state.principalId = principalId → state.summary.isExpired now = false ∧
      selector.matches state.summary = false) : state ∈ pruned.volatileStates := by
  rw [hv]
  refine List.mem_filter.mpr ⟨hm, decide_eq_true fun hr => ?_⟩
  have ⟨other, ho, hkey⟩ := List.mem_map.mp hr
  rw [List.mem_reverse, List.mem_append, ←he, ←hx] at ho
  have hc : other ∈ control.volatileStates :=
    ho.elim List.mem_of_mem_filter List.mem_of_mem_filter
  rw [List.inj_on_of_nodup_map control.nodup hc hm hkey] at ho
  cases ho
  case inl ho =>
    have ⟨_, ho⟩ := List.mem_filter.mp ho
    simp only [Bool.and_eq_true, decide_eq_true_eq] at ho
    rw [(hk ho.1.1).2] at ho
    exact absurd ho.2 Bool.false_ne_true
  case inr ho =>
    have ⟨_, ho⟩ := List.mem_filter.mp ho
    simp only [Bool.and_eq_true, decide_eq_true_eq] at ho
    rw [(hk ho.1.1).1] at ho
    exact absurd ho.1.2 Bool.false_ne_true

end Consequences

theorem pruneStatesInner_ok
    (h : pruneStatesInner setup backend principalId selector false now control =
      (.ok response, control')) :
    let disk := diskStates setup control.catalog
    let entries := (control.selectedStates principalId selector now).map (·.summary)
    pruneStatesInner setup backend principalId selector true now control =
      (.ok <| pruneResponse (matched selector now disk) entries true, control) ∧
    ∃ evicted, Completion setup (control.catalog.getD .empty) evicted ∧
      response = pruneResponse
        (matched selector now (disk.filter fun state => state.id ∉ evicted)) entries false ∧
      Pruned setup principalId selector now control control' evicted := by
  have ⟨preview, hp, h⟩ := Attempt.read_bind_ok.mp h
  rw [Attempt.gets_bind, if_neg Bool.false_ne_true, Attempt.gets_bind] at h
  generalize he : control.selectedStates principalId selector now = entries at h
  generalize hx : control.expiredStates backend principalId now = expired at h
  have ⟨_, released, hr, h⟩ := Attempt.bind_ok.mp h
  have ⟨disk, pruned, hd, h⟩ := Attempt.bind_ok.mp h
  have h := Attempt.modify_bind_ok.mp h
  have ⟨hresponse, hcontrol⟩ := Attempt.pure_ok.mp h
  have ⟨hcatalog, hvolatile⟩ := releaseStates_ok hr
  have ⟨hprune, hkeep⟩ := onCatalog_ok hd
  have ⟨catalog', hc, hlocked⟩ := prune_ok hprune
  have ⟨n, completed, hcomplete, hdisk, hvalid⟩ := pruneLocked_ok hlocked
  have ⟨evicted, hevicted, hcompleted⟩ := completePending_ok hcomplete
  rw [hcatalog] at hevicted hcompleted
  have hpreview := (preview_ok (Prod.ext hp rfl)).2
  refine ⟨?_, evicted, hevicted, ?_, ?_⟩
  case refine_1 => rw [preview_eq, hp, ←hpreview, he]; rfl
  case refine_2 => rw [hresponse, hdisk, hcompleted]; rfl
  case refine_3 =>
    have hv : pruned.volatileStates = control.volatileStates.filter fun state =>
        state.key ∉ (entries ++ expired).reverse.map fun state => state.key := by
      rw [hkeep, ←hvolatile]
    rw [hcontrol]
    exact {
      disk         := by
        rw [diskStates, LocalControl.resetPersisted, hc]
        exact unmatched_of_pruned hdisk hvalid
      volatile     := fun state hm => unselected_of_released he hv (mem_resetPersisted hm)
      diskKept     := by
        rw [diskStates, diskStates, LocalControl.resetPersisted, hc]
        exact kept_of_pruned hdisk hvalid hcompleted
      volatileKept := fun state hm hk =>
        resetPersisted_of_mem (kept_of_released he hx hv hm hk) }

theorem scan_of_preview {catalog? : Option Catalog} {disk : List StateSummary}
    (h : (setup.pruneDetailed selector true now catalog?).1 = .ok disk) :
    validateSelector setup.limits.maxOperationIds selector = .ok ⟨⟩ ∧
    ∃ states, setup.scanLocked (catalog?.getD .empty) = .ok states := by
  have hx : setup.pruneDetailed selector true now catalog? =
      (.ok disk, (setup.pruneDetailed selector true now catalog?).2) := Prod.ext h rfl
  have ⟨_, hv, hx⟩ := Attempt.check_bind_ok.mp hx
  refine ⟨hv, ?_⟩
  cases catalog?
  case none         => exact ⟨[], bind_eq_ok.mpr ⟨[], if_pos (Nat.zero_le _), rfl⟩⟩
  case some catalog =>
    have ⟨states, hs, _⟩ := map_eq_ok.mp (Prod.mk.inj hx).1
    exact ⟨states, hs⟩

theorem pruneStatesInner_succeeds (hu : Unjournaled (control.catalog.getD .empty))
    (hr : ∀ lease, backend.release lease = .ok ⟨⟩)
    (h : pruneStatesInner setup backend principalId selector true now control =
      (.ok previewed, control)) :
    ∃ response control', pruneStatesInner setup backend principalId selector false now control =
      (.ok response, control') := by
  rw [preview_eq] at h
  have ⟨preview, hp, _⟩ := map_eq_ok.mp (Prod.mk.inj h).1
  have ⟨hv, states, hs⟩ := scan_of_preview hp
  let entries := control.selectedStates principalId selector now
  let expired := control.expiredStates backend principalId now
  have ⟨released, hl⟩ := @releaseStates_succeeds Lease backend control
    (entries ++ expired).reverse hr
  have ⟨disk, catalog', hd⟩ := @pruneLocked_succeeds setup _ selector now states hs hu
  have hcatalog := (releaseStates_ok hl).1
  have hdetailed : setup.pruneDetailed selector false now released.catalog =
      (.ok disk, some catalog') := by
    rw [hcatalog]
    refine (Attempt.check_bind hv).trans ?_
    exact congrArg (fun r => (r.1, some r.2)) hd
  have hon : (onCatalog (setup.pruneDetailed selector false now) : ControlResult Lease _) released =
      (.ok disk, { released with catalog := some catalog' }) := by
    rw [onCatalog, hdetailed]
  have hread : (Attempt.read fun control : LocalControl Lease =>
      (setup.pruneDetailed selector true now control.catalog).1) control = (.ok preview, control) :=
    Prod.ext hp rfl
  refine ⟨pruneResponse disk (entries.map (·.summary)) false,
    LocalControl.resetPersisted { released with catalog := some catalog' } principalId
      (disk.map StateSummary.id), (Attempt.bind_of_ok hread).trans ?_⟩
  rw [Attempt.gets_bind, if_neg Bool.false_ne_true, Attempt.gets_bind]
  exact (Attempt.bind_of_ok hl).trans (Attempt.bind_of_ok hon)

theorem completion_unjournaled {catalog : Catalog} {states : List StateSummary}
    {evicted : List String} (hs : setup.scanLocked catalog = .ok states)
    (hu : Unjournaled catalog) (h : Completion setup catalog evicted) : evicted = [] := by
  obtain ⟨hd, ht⟩ := totalCharge_of_scan hs
  have hp : setup.pending catalog = .ok [] := by
    rw [StateStoreSetup.pending, hd]
    exact pendingJournals_succeeds ht hu
  obtain ⟨journals, hj, h⟩ := h
  have hj : journals = [] := Except.ok.inj (hj.symm.trans hp)
  exact h.elim And.right fun h => absurd hj h.1

-- A preview changes nothing, and foretells a prune up to what pending journals evict.
theorem prune_previewed : Previews setup backend principalId selector now control := by
  constructor
  case unchanged =>
    intro result control' h
    rw [preview_eq] at h
    exact (Prod.mk.inj h).2.symm
  case pruned => exact fun response control' => pruneStatesInner_ok
  case agreed =>
    intro previewed hu hr h
    have ⟨response, control', hreal⟩ := pruneStatesInner_succeeds hu hr h
    have ⟨hp, evicted, hc, he, hpruned⟩ := pruneStatesInner_ok hreal
    have ⟨preview, hok, _⟩ := map_eq_ok.mp (Prod.mk.inj (preview_eq.symm.trans hp)).1
    have ⟨_, states, hs⟩ := scan_of_preview hok
    have hn := completion_unjournaled hs hu hc
    have hsame : previewed = pruneResponse
        (matched selector now (diskStates setup control.catalog))
        ((control.selectedStates principalId selector now).map (·.summary)) true :=
      Except.ok.inj (Prod.mk.inj (h.symm.trans hp)).1
    refine ⟨response, control', hreal, ?_, ?_, hn ▸ hpruned⟩
    all_goals
      rw [he, hsame, hn]
      simp [pruneResponse]

end Control

section Samples

def journaledDirectory : StateDirectory :=
  { sampleDirectory "st_b" 5 with
    metadata       :=
      { (sampleDirectory "st_b" 5).metadata with quotaEvictionsSha256 := some "s" }
    quotaEvictions := some (sampleEvictions "\n") }

def journaledControl : LocalControl Unit where
  catalog        := some {
    entries := [("st_a", .state (sampleDirectory "st_a" 5)), ("st_b", .state journaledDirectory)]
    nodup   := by decide }
  volatileStates := []
  nodup          := List.nodup_nil

def sampleBackend : Backend Unit where
  idle _    := true
  release _ := .ok ⟨⟩

-- A state that has to make room for another one is counted by the preview only, and is gone
-- although the selector does not match it.
theorem journal_not_previewed :
    let prune selector dryRun := pruneStatesInner (sampleSetup 20) sampleBackend "local" selector
      dryRun 0 journaledControl
    (prune (.all true) true).1 = .ok ⟨2, 0, some 10, true⟩ ∧
    (prune (.all true) false).1 = .ok ⟨1, 1, some 5, false⟩ ∧
    (diskStates (sampleSetup 20) journaledControl.catalog).map StateSummary.id =
      ["st_a", "st_b"] ∧
    diskStates (sampleSetup 20) (prune (.ids ["st_b"]) false).2.catalog = [] := by
  decide +kernel

end Samples
end RuntimeControl.States
