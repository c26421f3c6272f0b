import WerkModel.RuntimeControl.States.Quotas

-- What is left of a catalog after it was reconciled.
open Checks Saturating

namespace RuntimeControl.States

variable {setup : StateStoreSetup} {catalog catalog' : Catalog} {name : String} {entry : Entry}
variable {journals : List (String × List String)} {n : Nat} {u : PUnit}

section Journals

def StateStoreSetup.pending (setup : StateStoreSetup) (catalog : Catalog) :
    ProtocolResult (List (String × List String)) := do
  let entries ← setup.readDirBounded catalog
  setup.pendingJournals setup.payloadScanBudget entries

-- Which states the completion of the pending journals evicts.
def Completion (setup : StateStoreSetup) (catalog : Catalog) (evicted : List String) : Prop :=
  ∃ journals, setup.pending catalog = .ok journals ∧
    (journals = [] ∧ evicted = [] ∨
      journals ≠ [] ∧ ∃ additional,
        setup.quotaEvictionPlanExcluding 0 0 (journals.map Prod.fst)
          (catalog.keep fun entry => entry.1 ∉ journaledVictims journals) = .ok additional ∧
        evicted = journaledVictims journals ++ additional)

def Readable (setup : StateStoreSetup) (catalog : Catalog) (name : String) : Prop :=
  ∀ entry, (name, entry) ∈ catalog.entries → ∃ read, setup.readState name entry = .ok read

-- The owners of journals are valid.
theorem readable_of_pendingJournals {entries : List (String × Entry)} {remaining : Nat}
    (h : setup.pendingJournals remaining entries = .ok journals) :
    ∀ owner ∈ journals.map Prod.fst, ∃ entry, (owner, entry) ∈ entries ∧
      ∃ read, setup.readState owner entry = .ok read := by
  induction entries generalizing remaining journals
  case nil =>
    cases h
    exact List.forall_mem_nil _
  case cons entry rest hi =>
    have ⟨name, entry⟩ := entry
    have later {journals : List (String × List String)} {remaining : Nat}
        (h : setup.pendingJournals remaining rest = .ok journals) (owner : String)
        (ho : owner ∈ journals.map Prod.fst) : ∃ entry', (owner, entry') ∈ (name, entry) :: rest ∧
          ∃ read, setup.readState owner entry' = .ok read := by
      have ⟨entry', hm, hr⟩ := hi h owner ho
      exact ⟨entry', List.mem_cons_of_mem _ hm, hr⟩
    rw [StateStoreSetup.pendingJournals] at h
    split at h
    case isTrue => exact later h
    case isFalse =>
      split at h
      case h_1 => exact later h
      case h_2 metadata pinned hr =>
        have ⟨_, _, h₁⟩ := bind_eq_ok.mp h
        have ⟨victims, _, h₂⟩ := bind_eq_ok.mp h₁
        have ⟨others, ho, h₃⟩ := bind_eq_ok.mp h₂
        cases h₃
        intro owner hm
        rw [List.map_append, List.mem_append] at hm
        cases hm
        case inr hm => exact later ho owner hm
        case inl hm =>
          have hn : owner = name := by
            cases victims
            case none   => simp at hm
            case some _ => simpa using hm
          exact ⟨entry, hn ▸ List.mem_cons_self, _, hn ▸ hr⟩

theorem readState_clearMarker {read : StoredStateMetadata × Bool}
    (h : setup.readState name entry = .ok read) :
    setup.readState name (clearMarker entry) = .ok read := by
  cases entry
  case directory       => cases h
  case file            => cases h
  case state directory =>
    have ⟨h₀, h₁⟩ := ensure_bind_eq_ok.mp h
    have ⟨hm, h₂⟩ := ensure_bind_eq_ok.mp h₁
    have ⟨hc, h₃⟩ := seq_eq_ok.mp h₂
    have ⟨hp, h₄⟩ := ensure_bind_eq_ok.mp h₃
    have ⟨_, _, h₅⟩ := bind_eq_ok.mp h₄
    have ⟨_, h₆⟩ := seq_eq_ok.mp h₅
    refine ensure_bind_eq_ok.mpr ⟨h₀, ensure_bind_eq_ok.mpr ⟨hm, seq_eq_ok.mpr ⟨hc, ?_⟩⟩⟩
    exact ensure_bind_eq_ok.mpr ⟨hp, bind_eq_ok.mpr ⟨none, rfl, seq_eq_ok.mpr ⟨rfl, h₆⟩⟩⟩

theorem payloadValid_clearMarker {metadata : StoredStateMetadata} :
    payloadValid metadata (clearMarker entry) = payloadValid metadata entry := by
  cases entry <;> rfl

theorem validState_clearMarker (h : ∃ read, setup.readState name entry = .ok read) :
    setup.validState (name, clearMarker entry) = setup.validState (name, entry) := by
  have ⟨⟨metadata, pinned⟩, hr⟩ := h
  rw [StateStoreSetup.validState, StateStoreSetup.validState, readState_clearMarker hr, hr]
  simp only [payloadValid_clearMarker]

theorem validStates_update (h : Readable setup catalog name) :
    setup.validStates (catalog.update name clearMarker) = setup.validStates catalog := by
  rw [StateStoreSetup.validStates, StateStoreSetup.validStates, Catalog.update,
    List.filterMap_map]
  refine List.filterMap_congr fun item hm => ?_
  obtain ⟨other, entry⟩ := item
  by_cases ho : other = name
  case neg => simp [ho]
  case pos =>
    rw [Function.comp_apply, if_pos ho]
    exact validState_clearMarker (h entry (ho ▸ hm) |> fun hr => ho ▸ hr)

theorem Readable.update {other : String} (h : Readable setup catalog name) :
    Readable setup (catalog.update other clearMarker) name := by
  intro entry hm
  have ⟨⟨_, entry'⟩, hm', he⟩ := List.mem_map.mp hm
  cases he
  have ⟨read, hr⟩ := h entry' hm'
  split
  · exact ⟨read, readState_clearMarker hr⟩
  · exact ⟨read, hr⟩

theorem readDirBounded_ok {entries : List (String × Entry)}
    (h : setup.readDirBounded catalog = .ok entries) : entries = catalog.entries := by
  rw [StateStoreSetup.readDirBounded] at h
  split at h
  case isTrue  => exact (Except.ok.inj h).symm
  case isFalse => cases h

theorem readable_of_mem (hm : (name, entry) ∈ catalog.entries)
    (h : ∃ read, setup.readState name entry = .ok read) : Readable setup catalog name := by
  intro other ho
  have he := List.inj_on_of_nodup_map catalog.nodup hm ho rfl
  cases he
  exact h

theorem Readable.keep {kept : String × Entry → Bool} (h : Readable setup catalog name) :
    Readable setup (catalog.keep kept) name :=
  fun entry hm => h entry (List.mem_of_mem_filter hm)

-- Clearing the markers of valid states does not change what is valid.
theorem clearMarkers_ok {names : List String} (hr : ∀ name ∈ names, Readable setup catalog name)
    (h : names.forM clearQuotaMarker catalog = (.ok u, catalog')) :
    setup.validStates catalog' = setup.validStates catalog ∧
      catalog'.entries.map Prod.fst = catalog.entries.map Prod.fst := by
  induction names generalizing catalog
  case nil =>
    have hc := (Attempt.pure_ok.mp h).2
    exact ⟨by rw [hc], by rw [hc]⟩
  case cons name names hi =>
    have ⟨_, cleared, hc, h⟩ := Attempt.bind_ok.mp h
    have hrest := fun other ho => hr other (List.mem_cons_of_mem _ ho)
    cases clearQuotaMarker_ok hc
    case inl hc =>
      rw [hc] at h
      exact hi hrest h
    case inr hc =>
      rw [hc] at h
      have ⟨hv, hn⟩ := hi (fun other ho => (hrest other ho).update) h
      refine ⟨hv.trans (validStates_update (hr name List.mem_cons_self)), hn.trans ?_⟩
      rw [Catalog.update, List.map_map]
      rfl

-- The states that are evicted are gone, and nothing else changes about the states.
theorem completePending_ok
    (h : setup.completePendingQuotaEvictions catalog = (.ok n, catalog')) :
    ∃ evicted, Completion setup catalog evicted ∧
      setup.validStates catalog' = (setup.validStates catalog).filter fun state =>
        state.id ∉ evicted := by
  have ⟨journals, hj, h⟩ := Attempt.read_bind_ok.mp h
  by_cases he : journals = []
  case pos =>
    rw [if_pos he] at h
    refine ⟨[], ⟨journals, hj, .inl ⟨he, rfl⟩⟩, ?_⟩
    rw [(Attempt.pure_ok.mp h).2]
    simp
  case neg =>
    rw [if_neg he] at h
    have ⟨_, removed, hv, h⟩ := Attempt.bind_ok.mp h
    have ⟨additional, ha, h⟩ := Attempt.read_bind_ok.mp h
    have ⟨_, left, hl, h⟩ := Attempt.bind_ok.mp h
    have ⟨_, cleared, hc, h⟩ := Attempt.bind_ok.mp h
    have hremoved := removeQuotaVictims_ok hv
    have hleft := removeQuotaVictims_ok hl
    have ⟨entries, hd, hp⟩ := bind_eq_ok.mp hj
    rw [hremoved] at ha hleft
    refine ⟨_, ⟨journals, hj, .inr ⟨he, additional, ha, rfl⟩⟩, ?_⟩
    have hr : ∀ owner ∈ journals.map Prod.fst, Readable setup left owner := by
      intro owner ho
      have ⟨entry, hm, hr⟩ := readable_of_pendingJournals hp owner ho
      rw [hleft]
      exact (readable_of_mem (readDirBounded_ok hd ▸ hm) hr).keep.keep
    rw [(Attempt.pure_ok.mp h).2, (clearMarkers_ok hr hc).1, hleft,
      @validStates_keep setup _ fun id => id ∉ additional,
      @validStates_keep setup _ fun id => id ∉ journaledVictims journals, List.filter_filter]
    refine List.filter_congr fun state _ => ?_
    simp [not_or, Bool.and_comm]

end Journals

section Entries

variable {entries : List (String × Entry)} {now reconciled remaining : Nat}

def StateStoreSetup.stays (setup : StateStoreSetup) (now : Nat) (entry : String × Entry) : Bool :=
  (setup.validState entry).any fun state => !state.isExpired now

theorem isStateName_of_staging (h : startsWith ".staging-" name = true) :
    isStateName name = false := by
  rw [isStateName, Bool.and_eq_false_iff]
  refine .inl (Bool.eq_false_iff.mpr fun hs => ?_)
  have ⟨_, h⟩ := List.isPrefixOf_iff_prefix.mp h
  have ⟨_, hs⟩ := List.isPrefixOf_iff_prefix.mp hs
  rw [←h] at hs
  exact absurd (List.cons.inj hs).1 (by decide)

theorem validState_of_unnamed (h : isStateName name = false) :
    setup.validState (name, entry) = none := by
  rw [StateStoreSetup.validState, h]
  rfl

theorem stays_of_read {metadata : StoredStateMetadata} {pinned : Bool}
    (hn : isStateName name = true) (hr : setup.readState name entry = .ok (metadata, pinned)) :
    setup.stays now (name, entry) = (payloadValid metadata entry && !metadata.isExpired now) := by
  rw [StateStoreSetup.stays, StateStoreSetup.validState, hn, if_pos rfl, hr]
  dsimp only
  split
  case isTrue h  => rw [h]; rfl
  case isFalse h => rw [Bool.eq_false_of_not_eq_true h]; rfl

-- What one entry does to the catalog and to the budget.
theorem reconcileEntries_cons (h : setup.reconcileEntries now none reconciled remaining
    ((name, entry) :: entries) catalog = (.ok n, catalog')) :
    ∃ reconciled remaining, setup.reconcileEntries now none reconciled remaining entries
      (if setup.stays now (name, entry) then catalog else catalog.remove name) =
        (.ok n, catalog') := by
  rw [StateStoreSetup.reconcileEntries, if_neg (Option.some_ne_none name ·.symm)] at h
  split at h
  case isTrue hs =>
    rw [StateStoreSetup.stays, validState_of_unnamed (isStateName_of_staging hs)]
    exact ⟨_, _, Attempt.modify_bind_ok.mp h⟩
  case isFalse =>
    cases hn : isStateName name
    case false =>
      rw [hn] at h
      rw [StateStoreSetup.stays, validState_of_unnamed hn]
      exact ⟨_, _, Attempt.modify_bind_ok.mp h⟩
    case true =>
      rw [hn, if_pos rfl] at h
      cases hr : setup.readState name entry
      case error =>
        rw [hr] at h
        rw [StateStoreSetup.stays, StateStoreSetup.validState, hn, if_pos rfl, hr]
        exact ⟨_, _, Attempt.modify_bind_ok.mp h⟩
      case ok read =>
        obtain ⟨metadata, pinned⟩ := read
        rw [hr] at h
        rw [stays_of_read hn hr]
        dsimp only at h
        split at h
        case isTrue he =>
          obtain ⟨_, removed, hd, h⟩ := Attempt.bind_ok.mp h
          rw [removeStateDir_ok hd] at h
          rw [he, Bool.not_true, Bool.and_false]
          exact ⟨_, _, h⟩
        case isFalse he =>
          rw [Bool.eq_false_of_not_eq_true he, Bool.not_false, Bool.and_true]
          obtain ⟨_, _, h⟩ := Attempt.check_bind_ok.mp h
          split at h
          case isTrue hp  => exact ⟨_, _, by rw [if_pos hp]; exact h⟩
          case isFalse hp => exact ⟨_, _, by rw [if_neg hp]; exact Attempt.modify_bind_ok.mp h⟩

theorem reconcileEntries_ok
    (h : setup.reconcileEntries now none reconciled remaining entries catalog =
      (.ok n, catalog')) :
    catalog' = catalog.keep fun entry =>
      entries.all fun other => other.1 ≠ entry.1 || setup.stays now other := by
  induction entries generalizing catalog reconciled remaining
  case nil =>
    rw [(Attempt.pure_ok.mp h).2]
    exact Catalog.ext_entries (by simp [Catalog.keep])
  case cons entry entries hi =>
    obtain ⟨name, entry⟩ := entry
    obtain ⟨_, _, hr⟩ := reconcileEntries_cons h
    rw [hi hr]
    refine Catalog.ext_entries ?_
    cases hs : setup.stays now (name, entry)
    case true => simp [Catalog.keep, hs]
    case false =>
      simp only [Catalog.remove, Catalog.keep, List.filter_filter, Bool.false_eq_true, if_false,
        List.all_cons, hs, Bool.or_false]
      refine List.filter_congr fun other _ => ?_
      rw [Bool.and_comm]
      simp [eq_comm]

-- Exactly the valid states that did not expire are left.
theorem reconcile_ok (h : setup.reconcile now catalog = (.ok n, catalog')) :
    ∃ n completed, setup.completePendingQuotaEvictions catalog = (.ok n, completed) ∧
      catalog' = completed.keep (setup.stays now) := by
  have ⟨n, completed, hc, h⟩ := Attempt.bind_ok.mp h
  have ⟨entries, hd, hr⟩ := Attempt.read_bind_ok.mp h
  refine ⟨n, completed, hc, ?_⟩
  rw [reconcileEntries_ok hr, readDirBounded_ok hd]
  refine Catalog.ext_entries (List.filter_congr fun entry hm => ?_)
  rw [Bool.eq_iff_iff, List.all_eq_true]
  constructor
  case mp => exact fun h => by simpa using h entry hm
  case mpr =>
    intro hs other ho
    by_cases he : other.1 = entry.1
    case neg => simp [he]
    case pos =>
      rw [List.inj_on_of_nodup_map completed.nodup ho hm he]
      simp [hs]

theorem validStates_stays : setup.validStates (catalog.keep (setup.stays now)) =
    (setup.validStates catalog).filter fun state => !state.isExpired now := by
  rw [StateStoreSetup.validStates, StateStoreSetup.validStates, Catalog.keep,
    List.filter_filterMap, List.filterMap_filter]
  refine List.filterMap_congr fun entry _ => ?_
  rw [StateStoreSetup.stays]
  cases setup.validState entry
  case none       => rfl
  case some state => simp [Option.filter]

end Entries

section Budget

variable {entries entries' : List (String × Entry)} {remaining now reconciled : Nat}

-- What a readable entry takes from the budget of a scan.
def StateStoreSetup.charged (setup : StateStoreSetup) : String × Entry → Nat
  | (name, entry) =>
    if isStateName name then
      match setup.readState name entry with
      | .error _         => 0
      | .ok (metadata, _) => metadata.payloadBytes
    else
      0

def StateStoreSetup.totalCharge (setup : StateStoreSetup) (entries : List (String × Entry)) : Nat :=
  (entries.map setup.charged).sum

theorem totalCharge_sublist (h : entries.Sublist entries') :
    setup.totalCharge entries ≤ setup.totalCharge entries' :=
  (h.map _).sum_le_sum fun _ _ => Nat.zero_le _

theorem charged_of_read {metadata : StoredStateMetadata} {pinned : Bool}
    (hn : isStateName name = true) (hr : setup.readState name entry = .ok (metadata, pinned)) :
    setup.charged (name, entry) = metadata.payloadBytes := by
  rw [StateStoreSetup.charged, hn, if_pos rfl, hr]

theorem charge_of_le {bytes : Nat} (h : bytes ≤ remaining) :
    charge remaining bytes = .ok (remaining - bytes) :=
  charge_ok.mpr ⟨h, rfl⟩

theorem scanEntries_succeeds : (∃ states, setup.scanEntries remaining entries = .ok states) ↔
    setup.totalCharge entries ≤ remaining := by
  induction entries generalizing remaining
  case nil => exact iff_of_true ⟨_, rfl⟩ (Nat.zero_le _)
  case cons entry rest hi =>
    obtain ⟨name, entry⟩ := entry
    rw [StateStoreSetup.scanEntries, StateStoreSetup.totalCharge, List.map_cons, List.sum_cons,
      ←StateStoreSetup.totalCharge]
    cases hn : isStateName name
    case false =>
      rw [StateStoreSetup.charged, hn]
      simpa using hi
    case true =>
      cases hr : setup.readState name entry
      case error =>
        rw [StateStoreSetup.charged, hn, hr]
        simpa using hi
      case ok read =>
        obtain ⟨metadata, pinned⟩ := read
        rw [charged_of_read hn hr]
        simp only [Bool.not_true, Bool.false_eq_true, if_false, bind_eq_ok, charge_ok]
        constructor
        case mp =>
          rintro ⟨_, left, ⟨hle, hl⟩, states, hs, _⟩
          have := hi.mp ⟨states, hs⟩
          omega
        case mpr =>
          intro h
          have hle : metadata.payloadBytes ≤ remaining := by omega
          obtain ⟨states, hs⟩ := hi.mpr (Nat.le_sub_of_add_le' h)
          exact ⟨_, _, ⟨hle, rfl⟩, states, hs, rfl⟩

def Unjournaled (catalog : Catalog) : Prop :=
  ∀ name directory, (name, .state directory) ∈ catalog.entries → directory.quotaEvictions = none

theorem pendingJournals_succeeds (h : setup.totalCharge entries ≤ remaining)
    (hu : ∀ name directory, (name, Entry.state directory) ∈ entries →
      directory.quotaEvictions = none) :
    setup.pendingJournals remaining entries = .ok [] := by
  induction entries generalizing remaining
  case nil => rfl
  case cons entry rest hi =>
    have ⟨name, entry⟩ := entry
    have hrest := fun name directory hm => hu name directory (List.mem_cons_of_mem _ hm)
    rw [StateStoreSetup.totalCharge, List.map_cons, List.sum_cons,
      ←StateStoreSetup.totalCharge] at h
    rw [StateStoreSetup.pendingJournals]
    cases hn : isStateName name
    case false => exact hi (by omega) hrest
    case true =>
      cases hr : setup.readState name entry
      case error => exact hi (by omega) hrest
      case ok read =>
        have ⟨metadata, pinned⟩ := read
        have ⟨directory, hd, _⟩ := readState_ok hr
        rw [charged_of_read hn hr] at h
        have hle : metadata.payloadBytes ≤ remaining := by omega
        have hv : setup.pendingVictims metadata entry = .ok none := by
          rw [hd, StateStoreSetup.pendingVictims.eq_def]
          cases payloadValid metadata (.state directory)
          case false => rfl
          case true  =>
            simp [hu name directory (hd ▸ List.mem_cons_self), readQuotaEvictions]
        have hrest := hi (Nat.le_sub_of_add_le' h) hrest
        dsimp only
        rw [if_neg (by decide), charge_of_le hle]
        change (setup.pendingVictims metadata entry >>= _) = _
        rw [hv]
        change (setup.pendingJournals _ rest >>= _) = _
        rw [hrest]
        rfl

theorem Catalog.find?_eq_some :
    catalog.find? name = some entry ↔ (name, entry) ∈ catalog.entries := by
  rw [Catalog.find?, Option.map_eq_some_iff]
  constructor
  case mp =>
    rintro ⟨⟨other, _⟩, hf, he⟩
    cases he
    have hp := List.find?_some hf
    have hn : other = name := of_decide_eq_true hp
    exact hn ▸ List.mem_of_find?_eq_some hf
  case mpr =>
    intro hm
    cases hf : catalog.entries.find? (·.1 = name)
    case none =>
      exact absurd rfl (of_decide_eq_false (Bool.eq_false_of_not_eq_true <|
        List.find?_eq_none.mp hf _ hm))
    case some other =>
      have hp := List.find?_some hf
      have hn : other.1 = name := of_decide_eq_true hp
      have hm' := List.mem_of_find?_eq_some hf
      exact ⟨other, rfl, by rw [List.inj_on_of_nodup_map catalog.nodup hm' hm hn]⟩

theorem removeStateDir_succeeds {directory : StateDirectory}
    (h : (name, .state directory) ∈ catalog.entries) :
    removeStateDir name catalog = (.ok ⟨⟩, catalog.remove name) := by
  rw [removeStateDir]
  refine Attempt.read_bind (a := ⟨⟩) ?_
  rw [Catalog.find?_eq_some.mpr h]

theorem mem_remove {entry : String × Entry} (h : entry ∈ catalog.entries) (hn : entry.1 ≠ name) :
    entry ∈ (catalog.remove name).entries :=
  List.mem_filter.mpr ⟨h, by simp [hn]⟩

theorem reconcileEntries_succeeds (h : setup.totalCharge entries ≤ remaining)
    (hf : ∀ entry ∈ entries, entry ∈ catalog.entries) (hn : (entries.map Prod.fst).Nodup) :
    ∃ n catalog', setup.reconcileEntries now none reconciled remaining entries catalog =
      (.ok n, catalog') := by
  induction entries generalizing catalog reconciled remaining
  case nil => exact ⟨_, _, rfl⟩
  case cons entry rest hi =>
    have ⟨name, entry⟩ := entry
    have ⟨hname, hn⟩ := List.nodup_cons.mp hn
    have hkept : ∀ entry ∈ rest, entry ∈ catalog.entries := fun entry hm =>
      hf entry (List.mem_cons_of_mem _ hm)
    have hremoved : ∀ entry ∈ rest, entry ∈ (catalog.remove name).entries := fun entry hm =>
      mem_remove (hkept entry hm) fun he => hname (List.mem_map.mpr ⟨entry, hm, he⟩)
    rw [StateStoreSetup.totalCharge, List.map_cons, List.sum_cons,
      ←StateStoreSetup.totalCharge] at h
    rw [StateStoreSetup.reconcileEntries, if_neg (Option.some_ne_none name ·.symm)]
    split
    case isTrue => exact hi (by omega) hremoved hn
    case isFalse =>
      cases hs : isStateName name
      case false => exact hi (by omega) hremoved hn
      case true =>
        rw [if_pos rfl]
        cases hr : setup.readState name entry
        case error => exact hi (by omega) hremoved hn
        case ok read =>
          have ⟨metadata, pinned⟩ := read
          have ⟨directory, hd, _⟩ := readState_ok hr
          rw [charged_of_read hs hr] at h
          have hle : metadata.payloadBytes ≤ remaining := by omega
          dsimp only
          split
          case isTrue =>
            have hm : (name, .state directory) ∈ catalog.entries :=
              hd ▸ hf (name, entry) List.mem_cons_self
            rw [Attempt.bind_of_ok (removeStateDir_succeeds hm)]
            exact hi (by omega) hremoved hn
          case isFalse =>
            rw [Attempt.check_bind (charge_of_le hle)]
            split
            case isTrue  => exact hi (Nat.le_sub_of_add_le' h) hkept hn
            case isFalse => exact hi (Nat.le_sub_of_add_le' h) hremoved hn

theorem totalCharge_of_scan {states : List StateSummary} (h : setup.scanLocked catalog = .ok states) :
    setup.readDirBounded catalog = .ok catalog.entries ∧
      setup.totalCharge catalog.entries ≤ setup.payloadScanBudget := by
  have ⟨entries, hd, hs⟩ := bind_eq_ok.mp h
  have he := readDirBounded_ok hd
  exact ⟨he ▸ hd, scanEntries_succeeds.mp ⟨states, he ▸ hs⟩⟩

-- Without journals, a catalog that can be scanned can be reconciled, and scanned again.
theorem reconcile_succeeds {states : List StateSummary} (hs : setup.scanLocked catalog = .ok states)
    (hu : Unjournaled catalog) :
    setup.completePendingQuotaEvictions catalog = (.ok 0, catalog) ∧
    ∃ n catalog' states', setup.reconcile now catalog = (.ok n, catalog') ∧
      setup.scanLocked catalog' = .ok states' := by
  have ⟨hd, ht⟩ := totalCharge_of_scan hs
  have hp : setup.pending catalog = .ok [] := by
    rw [StateStoreSetup.pending, hd]
    exact pendingJournals_succeeds ht hu
  have hc : setup.completePendingQuotaEvictions catalog = (.ok 0, catalog) := by
    rw [StateStoreSetup.completePendingQuotaEvictions]
    exact Attempt.read_bind hp
  have ⟨n, catalog', hr⟩ := @reconcileEntries_succeeds setup catalog catalog.entries
    setup.payloadScanBudget now 0 ht (fun _ hm => hm) catalog.nodup
  have hreconcile : setup.reconcile now catalog = (.ok n, catalog') := by
    rw [StateStoreSetup.reconcile, StateStoreSetup.reconcileExcept, Attempt.bind_of_ok hc]
    exact (Attempt.read_bind hd).trans hr
  have hsub : catalog'.entries.Sublist catalog.entries := by
    rw [reconcileEntries_ok hr]
    exact List.filter_sublist
  have ⟨states', hs'⟩ := scanEntries_succeeds.mpr ((totalCharge_sublist hsub).trans ht)
  refine ⟨hc, n, catalog', states', hreconcile, bind_eq_ok.mpr ⟨_, ?_, hs'⟩⟩
  rw [StateStoreSetup.readDirBounded] at hd ⊢
  split at hd
  case isTrue hl  => rw [if_pos (hsub.length_le.trans hl)]
  case isFalse => cases hd

end Budget
end RuntimeControl.States
