import WerkModel.RuntimeControl.States.Pruning
import WerkModel.RuntimeControl.States.Recovery

-- Commits that are cut off, by a crash or by a step that fails.
open Checks Saturating

namespace RuntimeControl.States

-- How far a commit has come: before its state is published, after, and after its victims are gone.
inductive Phase
  | staging
  | evicting
  | done
  deriving DecidableEq

variable {setup : StateStoreSetup} {catalog catalog' rest rest' : Catalog} {name : String}
variable {entry entry' : Entry} {now later : Nat}

section Interruption

variable {requestedId : Option String} {state : NewStoredState} {fresh : FreshNames}
variable {summary : StateSummary} {victims : List String} {published recovered : Catalog}
variable {phase : Phase} {n time : Nat}

-- What is left of a commit that was cut off, also if the reconciliations after it were cut off.
-- The new state is there from one step to the next. The catalog is only reconciled any further
-- after the victims are gone and the marker is cleared.
inductive Interrupted (setup : StateStoreSetup) (requestedId : Option String)
    (state : NewStoredState) (fresh : FreshNames) (now : Nat) (catalog : Catalog) :
    Phase → Nat → Catalog → Prop
  | begun : Interrupted setup requestedId state fresh now catalog .staging now catalog
  | staged {m old} :
    setup.reconcile now catalog = (.ok m, old) →
    Interrupted setup requestedId state fresh now catalog .staging now
      (old.insert fresh.staging .directory)
  | published {new ids first} :
    setup.publish requestedId state fresh now catalog = (.ok (new, ids), first) →
    Interrupted setup requestedId state fresh now catalog .evicting now first
  | evicting {new ids first t left left'} :
    setup.publish requestedId state fresh now catalog = (.ok (new, ids), first) →
    Interrupted setup requestedId state fresh now catalog .evicting t left →
    Removal {id | id ∈ ids} left left' →
    Interrupted setup requestedId state fresh now catalog .evicting t left'
  | cleared {new ids first t left left'} :
    setup.publish requestedId state fresh now catalog = (.ok (new, ids), first) →
    Interrupted setup requestedId state fresh now catalog .evicting t left →
    (∀ id ∈ ids, left.find? id = none) →
    clearQuotaMarker new.id left = (.ok ⟨⟩, left') →
    Interrupted setup requestedId state fresh now catalog .done t left'
  | reconciling {step t t' left left'} :
    step ≠ .evicting →
    Interrupted setup requestedId state fresh now catalog step t left → t ≤ t' →
    Removal (Doomed setup t' left) left left' →
    Interrupted setup requestedId state fresh now catalog step t' left'

-- The catalog that a reconciliation makes of what is left.
structure Leftover (setup : StateStoreSetup) (base : Catalog) (time : Nat) (rest : Catalog) :
    Prop where
  settled : Unjournaled rest
  stays   : ∀ later, time ≤ later → rest.keep (setup.stays later) = base.keep (setup.stays later)

theorem Leftover.refl (h : Unjournaled catalog) : Leftover setup catalog time catalog :=
  ⟨h, fun _ _ => rfl⟩

theorem Leftover.removal (h : Leftover setup catalog time rest) (hl : time ≤ later)
    (hr : Removal (Doomed setup later rest) rest rest') : Leftover setup catalog later rest' where
  settled         := hr.unjournaled h.settled
  stays later' hl' := (hr.stays_eq h.settled hl').trans (h.stays later' (hl.trans hl'))

theorem Leftover.reconcile (h : Leftover setup catalog time rest) (hl : time ≤ later)
    (hr : setup.reconcile later rest = (.ok n, recovered)) :
    recovered = catalog.keep (setup.stays later) :=
  (reconcile_unjournaled h.settled hr).trans (h.stays later hl)

theorem keep_stays (hl : now ≤ later) : (catalog.keep (setup.stays now)).keep (setup.stays later) =
    catalog.keep (setup.stays later) := by
  refine Catalog.ext_entries ?_
  change (catalog.entries.filter _).filter _ = _
  rw [List.filter_filter]
  refine List.filter_congr fun entry _ => ?_
  cases hs : setup.stays later entry
  case false => rfl
  case true  => rw [stays_mono hs hl]; rfl

theorem leftover_staged (hu : Unjournaled catalog)
    (hs : startsWith ".staging-" fresh.staging = true)
    (h : setup.reconcile now catalog = (.ok n, recovered)) :
    Leftover setup catalog now (recovered.insert fresh.staging .directory) := by
  obtain rfl := reconcile_unjournaled hu h
  have hdead (entry : Entry) (later : Nat) : setup.stays later (fresh.staging, entry) = false := by
    rw [StateStoreSetup.stays, validState_of_unnamed (isStateName_of_staging hs)]
    rfl
  have hremove : ((catalog.keep (setup.stays now)).remove fresh.staging).entries =
      (catalog.keep (setup.stays now)).entries := by
    refine List.filter_eq_self.mpr fun entry hm => decide_eq_true fun he => ?_
    have hstays := (List.mem_filter.mp hm).right
    rw [show entry = (fresh.staging, entry.2) from Prod.ext he rfl, hdead] at hstays
    cases hstays
  refine ⟨?_, fun later hl => ?_⟩
  case refine_1 =>
    refine unjournaled_iff.mpr fun entry hm => ?_
    obtain rfl | hm := List.mem_cons.mp hm
    case inl => trivial
    case inr => exact unjournaled_iff.mp hu.keep entry (List.mem_of_mem_filter hm)
  case refine_2 =>
    refine (Catalog.ext_entries ?_).trans (keep_stays hl)
    change ((_, _) :: ((catalog.keep (setup.stays now)).remove fresh.staging).entries).filter _ = _
    rw [hremove, List.filter_cons, hdead]
    rfl

-- While victims are evicted, everything else is as it was published.
structure Evicting (victims : List String) (published rest : Catalog) : Prop where
  kept    : (rest.keep fun entry => entry.1 ∉ victims) =
    published.keep fun entry => entry.1 ∉ victims
  victims : ∀ entry ∈ rest.entries, entry.1 ∈ victims → NoJournal entry.2 ∧ entry.2 ≠ .file

theorem Evicting.removal (h : Evicting victims published rest)
    (hr : Removal {id | id ∈ victims} rest rest') : Evicting victims published rest' := by
  induction hr
  case refl => exact h
  case tail hs hi =>
    refine ⟨(Removal.keep_eq (.single hs) fun name _ hn => ?_).trans hi.kept, ?_⟩
    case refine_1 => exact of_decide_eq_true hn
    case refine_2 =>
      intro entry' hm hv
      obtain ⟨entry, he, h⟩ := hs.mem hm
      obtain ⟨hj, hf⟩ := hi.victims _ he hv
      obtain h | ⟨-, hd⟩ := h
      case inl => exact h ▸ ⟨hj, hf⟩
      case inr =>
        exact ⟨hd.unjournaled hj, hd.ne_file⟩

theorem Published.evicting {id : String} {reconciled : Catalog}
    (h : Published setup id victims reconciled published) :
    Evicting victims published published where
  kept            := rfl
  victims entry hm hv := by
    obtain ⟨directory, -, he⟩ := h.fresh
    rw [he] at hm
    obtain rfl | hm := List.mem_cons.mp hm
    case inl => exact absurd rfl (h.ne hv)
    case inr =>
      obtain ⟨-, old, ho⟩ := h.spared _ hv
      have hs : entry.2 = .state old :=
        congrArg Prod.snd (List.inj_on_of_nodup_map reconciled.nodup hm ho rfl)
      rw [hs]
      exact ⟨h.settled _ _ ho, Entry.noConfusion⟩

theorem Published.unjournaled {id : String} {reconciled : Catalog}
    (h : Published setup id victims reconciled published) :
    Unjournaled (Committed id victims published) := by
  obtain ⟨directory, hf, he⟩ := h.fresh
  have hold : ∀ entry ∈ reconciled.entries, NoJournal entry.2 := unjournaled_iff.mp h.settled
  refine unjournaled_iff.mpr fun entry hm => ?_
  rw [Committed] at hm
  split at hm
  case isTrue hn =>
    rw [he] at hm
    obtain rfl | hm := List.mem_cons.mp hm
    case inr => exact hold entry hm
    case inl =>
      obtain ⟨-, hq⟩ | ⟨bytes, hb, -⟩ := hf.journal
      case inl => exact hq
      case inr => exact absurd hn (encode_ok.mp hb).right.right.nonempty
  case isFalse =>
    obtain ⟨old, ho, rfl⟩ := List.mem_map.mp hm
    have ho := List.mem_of_mem_filter ho
    rw [he] at ho
    dsimp only
    obtain rfl | ho := List.mem_cons.mp ho
    case inl =>
      rw [if_pos rfl]
      exact rfl
    case inr =>
      rw [if_neg (Catalog.find?_eq_none.mp h.absent old ho)]
      exact hold old ho

-- Once the victims are gone, the marker is all that is left to do.
theorem Published.cleared {id : String} {reconciled : Catalog} {u : PUnit}
    (h : Published setup id victims reconciled published) (he : Evicting victims published rest)
    (hg : ∀ id ∈ victims, rest.find? id = none)
    (hc : clearQuotaMarker id rest = (.ok u, rest')) : rest' = Committed id victims published := by
  have hrest : rest = published.keep fun entry => entry.1 ∉ victims := by
    rw [←he.kept]
    refine Catalog.ext_entries (List.filter_eq_self.mpr fun entry hm => decide_eq_true ?_).symm
    exact fun hv => Catalog.find?_eq_none.mp (hg _ hv) entry hm rfl
  subst hrest
  by_cases hn : victims = []
  case neg =>
    rw [h.clear hn] at hc
    exact (Prod.mk.inj hc).right.symm
  case pos =>
    obtain ⟨directory, hf, hm⟩ := h.mem
    obtain ⟨-, hq⟩ | ⟨bytes, hb, -⟩ := hf.journal
    case inr => exact absurd hn (encode_ok.mp hb).right.right.nonempty
    case inl =>
      have hr : (readQuotaEvictions directory.quotaEvictions).map Option.isSome = .ok false := by
        rw [hq]
        rfl
      rw [clearQuotaMarker_of_state hm hr] at hc
      rw [←(Prod.mk.inj hc).right, Committed, if_pos hn]
      exact Catalog.ext_entries (by simp [Catalog.keep, hn])

-- What is known of a commit that was cut off.
def Recoverable (setup : StateStoreSetup) (requestedId : Option String) (state : NewStoredState)
    (fresh : FreshNames) (now : Nat) (catalog : Catalog) : Phase → Nat → Catalog → Prop
  | .staging, time, rest  => Leftover setup catalog time rest
  | .evicting, _, rest    => ∃ summary victims published,
    setup.publish requestedId state fresh now catalog = (.ok (summary, victims), published) ∧
      Evicting victims published rest
  | .done, time, rest     => ∃ summary victims published,
    setup.publish requestedId state fresh now catalog = (.ok (summary, victims), published) ∧
      Leftover setup (Committed summary.id victims published) time rest

theorem Interrupted.recoverable
    (h : Interrupted setup requestedId state fresh now catalog phase time rest)
    (hu : Unjournaled catalog) (hid : validateStateId (requestedId.getD fresh.id) = .ok ())
    (hs : startsWith ".staging-" fresh.staging = true) :
    Recoverable setup requestedId state fresh now catalog phase time rest := by
  induction h
  case begun        => exact .refl hu
  case staged hr    => exact leftover_staged hu hs hr
  case published hp => exact ⟨_, _, _, hp, (published_of_publish hu hid hp).evicting⟩
  case evicting hp _ hr hi =>
    obtain ⟨_, _, _, hp', he⟩ := hi
    cases hp.symm.trans hp'
    exact ⟨_, _, _, hp, he.removal hr⟩
  case cleared hp _ hg hc hi =>
    obtain ⟨_, _, _, hp', he⟩ := hi
    cases hp.symm.trans hp'
    have hpublished := published_of_publish hu hid hp
    obtain rfl := hpublished.cleared he hg hc
    exact ⟨_, _, _, hp, .refl hpublished.unjournaled⟩
  case reconciling step _ _ _ _ hstep _ hl hr hi =>
    cases step
    case staging  => exact hi.removal hl hr
    case evicting => exact absurd rfl hstep
    case done     =>
      obtain ⟨_, _, _, hp, hi⟩ := hi
      exact ⟨_, _, _, hp, hi.removal hl hr⟩

-- What a commit leaves that was not cut off.
theorem commitInner_eq (hu : Unjournaled catalog)
    (hid : validateStateId (requestedId.getD fresh.id) = .ok ())
    (hp : setup.publish requestedId state fresh now catalog = (.ok (summary, victims), published)) :
    setup.commitInner requestedId state fresh now catalog =
      (.ok summary, Committed summary.id victims published) :=
  (commit_exact.within _ _ _ _ hp (published_of_publish hu hid hp).cleanup_ok).left

-- Whatever is left of a commit is reconciled to what was there before, or to what the commit leaves
-- when it is not cut off.
theorem commit_crash_atomic (hu : Unjournaled catalog)
    (hid : validateStateId (requestedId.getD fresh.id) = .ok ())
    (hs : startsWith ".staging-" fresh.staging = true)
    (hi : Interrupted setup requestedId state fresh now catalog phase time rest)
    (hl : time ≤ later) (hr : setup.reconcile later rest = (.ok n, recovered)) :
    Unjournaled recovered ∧
      (phase = .staging ∧ recovered = catalog.keep (setup.stays later) ∨
        phase ≠ .staging ∧ ∃ summary committed,
          setup.commitInner requestedId state fresh now catalog = (.ok summary, committed) ∧
          recovered = committed.keep (setup.stays later)) := by
  have hrest := hi.recoverable hu hid hs
  cases phase
  case staging =>
    obtain rfl := hrest.reconcile hl hr
    exact ⟨hu.keep, .inl ⟨rfl, rfl⟩⟩
  case evicting =>
    obtain ⟨summary, victims, published, hp, he⟩ := hrest
    have hpublished := published_of_publish hu hid hp
    obtain ⟨m, completed, hc, rfl⟩ := reconcile_ok hr
    obtain rfl := hpublished.complete he.kept (fun entry hm hv => (he.victims entry hm hv).left) hc
    refine ⟨hpublished.unjournaled.keep, .inr ⟨Phase.noConfusion, summary, _, ?_, rfl⟩⟩
    exact commitInner_eq hu hid hp
  case done =>
    obtain ⟨summary, victims, published, hp, hrest⟩ := hrest
    obtain rfl := hrest.reconcile hl hr
    have hpublished := published_of_publish hu hid hp
    refine ⟨hpublished.unjournaled.keep, .inr ⟨Phase.noConfusion, summary, _, ?_, rfl⟩⟩
    exact commitInner_eq hu hid hp

end Interruption

section Success

variable {names : Set String} {count bytes remaining : Nat} {id : String} {victims : List String}
variable {reconciled published : Catalog}

-- What a scan comes across at most.
structure Bounded (setup : StateStoreSetup) (count bytes : Nat) (catalog : Catalog) : Prop where
  length  : catalog.entries.length ≤ count
  charged : setup.totalCharge catalog.entries ≤ bytes

theorem Bounded.sublist (h : Bounded setup count bytes catalog)
    (hs : catalog'.entries.Sublist catalog.entries) : Bounded setup count bytes catalog' where
  length  := hs.length_le.trans h.length
  charged := (totalCharge_sublist hs).trans h.charged

theorem Bounded.keep {kept : String × Entry → Bool} (h : Bounded setup count bytes catalog) :
    Bounded setup count bytes (catalog.keep kept) :=
  h.sublist List.filter_sublist

theorem Bounded.update {f : Entry → Entry} (h : Bounded setup count bytes catalog)
    (hf : ∀ entry, (name, entry) ∈ catalog.entries →
      setup.charged (name, f entry) ≤ setup.charged (name, entry)) :
    Bounded setup count bytes (catalog.update name f) where
  length  := by
    rw [Catalog.update, List.length_map]
    exact h.length
  charged := by
    refine le_trans ?_ h.charged
    rw [StateStoreSetup.totalCharge, Catalog.update, List.map_map]
    refine List.sum_le_sum fun entry hm => ?_
    obtain ⟨other, entry⟩ := entry
    rw [Function.comp_apply]
    split
    case isTrue ho =>
      subst ho
      exact hf entry hm
    case isFalse => exact le_rfl

theorem Damaged.charged (h : Damaged entry entry') (hu : NoJournal entry) :
    setup.charged (name, entry') ≤ setup.charged (name, entry) := by
  cases hn : isStateName name
  case false => simp [StateStoreSetup.charged, hn]
  case true =>
    cases hr : setup.readState name entry'
    case error => simp [StateStoreSetup.charged, hn, hr]
    case ok read =>
      obtain ⟨metadata, pinned⟩ := read
      rw [charged_of_read hn hr]
      cases h
      case directory => cases hr
      case state directory _ _ quotaEvictions _ _ hq =>
        obtain rfl : quotaEvictions = none := hq.elim (·.trans hu) id
        obtain ⟨accessed, hr⟩ := readState_of_damaged hu hr
        exact (charged_of_read hn hr).ge

theorem Removal.bounded (h : Removal names catalog catalog')
    (hb : Bounded setup count bytes catalog)
    (hj : ∀ entry ∈ catalog.entries, entry.1 ∈ names → NoJournal entry.2) :
    Bounded setup count bytes catalog' ∧
      ∀ entry ∈ catalog'.entries, entry.1 ∈ names → NoJournal entry.2 := by
  induction h
  case refl => exact ⟨hb, hj⟩
  case tail hs hi =>
    obtain ⟨hb, hj⟩ := hi
    constructor
    case left =>
      cases hs
      case removed => exact hb.keep
      case damaged old _ hn ho hd =>
        refine hb.update fun entry hm => ?_
        cases List.inj_on_of_nodup_map (Catalog.nodup _) hm ho rfl
        exact hd.charged (hj _ ho hn)
    case right =>
      intro entry' hm hn
      obtain ⟨entry, he, h⟩ := hs.mem hm
      obtain h | ⟨-, hd⟩ := h
      case inl => exact h ▸ hj _ he hn
      case inr => exact hd.unjournaled (hj _ he hn)

theorem charged_of_staging (hs : startsWith ".staging-" name = true) :
    setup.charged (name, entry) = 0 := by
  rw [StateStoreSetup.charged, isStateName_of_staging hs]
  rfl

theorem Bounded.insert (h : Bounded setup count bytes catalog)
    (hs : startsWith ".staging-" name = true) :
    Bounded setup (count + 1) bytes (catalog.insert name entry) where
  length  := Nat.succ_le_succ (List.length_filter_le ..) |>.trans (Nat.succ_le_succ h.length)
  charged := by
    change setup.totalCharge ((name, entry) :: (catalog.remove name).entries) ≤ bytes
    rw [StateStoreSetup.totalCharge, List.map_cons, List.sum_cons, charged_of_staging hs,
      Nat.zero_add]
    exact h.keep.charged

theorem Published.bounded (h : Published setup id victims reconciled published)
    (hb : Bounded setup count bytes (published.keep fun entry => entry.1 ∉ victims)) :
    Bounded setup count bytes (Committed id victims published) := by
  rw [Committed]
  split
  case isTrue hn => simpa [Catalog.keep, hn] using hb
  case isFalse   =>
    refine hb.update fun entry hm => ?_
    obtain ⟨directory, hf, ho⟩ := h.mem
    cases List.inj_on_of_nodup_map (Catalog.nodup _) hm ho rfl
    have hn := isStateName_of_valid hf.valid
    exact (charged_of_read hn (readState_clearMarker hf.read)).trans
      (charged_of_read hn hf.read).symm |>.le

-- A commit never leaves more behind than one entry and the payload of the new state.
theorem Interrupted.bounded {requestedId : Option String} {state : NewStoredState}
    {fresh : FreshNames} {phase : Phase} {time : Nat}
    (h : Interrupted setup requestedId state fresh now catalog phase time rest)
    (hu : Unjournaled catalog) (hid : validateStateId (requestedId.getD fresh.id) = .ok ())
    (hs : startsWith ".staging-" fresh.staging = true)
    (hb : Bounded setup count bytes catalog) :
    Bounded setup (count + 1) (bytes + state.payload.bytes) rest := by
  induction h
  case begun =>
    exact ⟨Nat.le_add_right_of_le hb.length, Nat.le_add_right_of_le hb.charged⟩
  case staged hr =>
    obtain rfl := reconcile_unjournaled hu hr
    have hb : Bounded setup (count + 1) bytes
        ((catalog.keep (setup.stays now)).insert fresh.staging .directory) := hb.keep.insert hs
    exact ⟨hb.length, Nat.le_add_right_of_le hb.charged⟩
  case published hp =>
    obtain ⟨reconciled, directory, ⟨n, hr⟩, -, -, hf, hbytes, -, he⟩ := publish_exact hid hp
    obtain rfl := reconcile_unjournaled hu hr
    obtain ⟨other, ho, -, -, -, hpayload, -⟩ := readState_ok hf.read
    cases ho
    have hb : Bounded setup count bytes (catalog.keep (setup.stays now)) := hb.keep
    constructor
    case length =>
      rw [he]
      exact Nat.succ_le_succ hb.length
    case charged =>
      rw [he, StateStoreSetup.totalCharge, List.map_cons, List.sum_cons,
        charged_of_read (isStateName_of_valid hf.valid) hf.read, hpayload, hbytes, Nat.add_comm]
      exact Nat.add_le_add_right hb.charged _
  case evicting hp hleft hr hi =>
    obtain ⟨_, _, _, hp', he⟩ := hleft.recoverable hu hid hs
    cases hp.symm.trans hp'
    exact (hr.bounded hi fun entry hm hv => (he.victims entry hm hv).left).left
  case cleared hp hleft hg hc hi =>
    obtain ⟨_, _, _, hp', he⟩ := hleft.recoverable hu hid hs
    cases hp.symm.trans hp'
    have hpublished := published_of_publish hu hid hp
    obtain rfl := hpublished.cleared he hg hc
    exact hpublished.bounded (he.kept ▸ hi.keep)
  case reconciling step _ _ _ _ hstep hleft hl hr hi =>
    have hrest := hleft.recoverable hu hid hs
    refine (hr.bounded hi fun entry hm _ => ?_).left
    cases step
    case staging  => exact unjournaled_iff.mp hrest.settled entry hm
    case evicting => exact absurd rfl hstep
    case done     =>
      obtain ⟨_, _, _, -, hrest⟩ := hrest
      exact unjournaled_iff.mp hrest.settled entry hm

theorem readDirBounded_of_bounded (h : Bounded setup setup.namespaceEntryScanLimit bytes catalog) :
    setup.readDirBounded catalog = .ok catalog.entries :=
  if_pos h.length

variable (hb : Bounded setup setup.namespaceEntryScanLimit setup.payloadScanBudget catalog)

include hb in
theorem scanLocked_of_bounded : ∃ states, setup.scanLocked catalog = .ok states := by
  obtain ⟨states, hs⟩ := scanEntries_succeeds.mpr hb.charged
  exact ⟨states, bind_eq_ok.mpr ⟨_, readDirBounded_of_bounded hb, hs⟩⟩

-- Journals are read where each of them can be encoded again.
theorem pendingJournals_total {entries : List (String × Entry)}
    (h : setup.totalCharge entries ≤ remaining)
    (hv : ∀ entry ∈ entries, ∀ metadata, ∃ victims,
      setup.pendingVictims metadata entry.2 = .ok victims) :
    ∃ journals, setup.pendingJournals remaining entries = .ok journals := by
  induction entries generalizing remaining
  case nil => exact ⟨_, rfl⟩
  case cons entry rest hi =>
    obtain ⟨name, entry⟩ := entry
    have hrest := fun entry hm => hv entry (List.mem_cons_of_mem _ hm)
    rw [StateStoreSetup.totalCharge, List.map_cons, List.sum_cons,
      ←StateStoreSetup.totalCharge] at h
    rw [StateStoreSetup.pendingJournals]
    cases hn : isStateName name
    case false => exact hi (by omega) hrest
    case true  =>
      cases hr : setup.readState name entry
      case error => exact hi (by omega) hrest
      case ok read =>
        obtain ⟨metadata, pinned⟩ := read
        rw [charged_of_read hn hr] at h
        have hle : metadata.payloadBytes ≤ remaining := by omega
        obtain ⟨victims, hvictims⟩ := hv _ List.mem_cons_self metadata
        obtain ⟨journals, hj⟩ := hi (Nat.le_sub_of_add_le' h) hrest
        exact ⟨_, bind_eq_ok.mpr ⟨_, charge_of_le hle, bind_eq_ok.mpr ⟨_, hvictims,
          bind_eq_ok.mpr ⟨_, hj, rfl⟩⟩⟩⟩

theorem pendingVictims_of_noJournal {metadata : StoredStateMetadata} (h : NoJournal entry) :
    setup.pendingVictims metadata entry = .ok none := by
  rw [StateStoreSetup.pendingVictims.eq_def]
  cases entry
  case directory       => cases payloadValid metadata .directory <;> rfl
  case file            => cases payloadValid metadata .file <;> rfl
  case state directory =>
    have hq : directory.quotaEvictions = none := h
    cases payloadValid metadata (.state directory)
    case false => rfl
    case true  => simp [hq, readQuotaEvictions]

theorem Fresh.pendingVictims {directory : StateDirectory} (h : Fresh setup id victims directory)
    (metadata : StoredStateMetadata) :
    ∃ victims, setup.pendingVictims metadata (.state directory) = .ok victims := by
  obtain ⟨-, hq⟩ | ⟨bytes, he, hq, -⟩ := h.journal
  case inl => exact ⟨none, pendingVictims_of_noJournal hq⟩
  case inr =>
    rw [StateStoreSetup.pendingVictims.eq_def]
    cases payloadValid metadata (.state directory)
    case false => exact ⟨none, rfl⟩
    case true  =>
      dsimp only
      rw [hq, read_of_encode he]
      exact ⟨_, bind_eq_ok.mpr ⟨bytes, he, rfl⟩⟩

include hb in
theorem plan_of_within {excluded : List String}
    (h : Within setup.limits (bytesOf (setup.validStates catalog))
      (setup.validStates catalog).length) :
    setup.quotaEvictionPlanExcluding 0 0 excluded catalog = .ok [] := by
  obtain ⟨states, hs⟩ := scanLocked_of_bounded hb
  refine ((plan_exact hs).planned _ candidates_exist []).mpr
    ⟨⟨Nat.zero_le _, Nat.zero_le _⟩, [], .nil ?_, rfl⟩
  rw [Enough, afterEviction, (scanLocked_ok hs).left]
  simpa using h

-- The states that are left after the victims are gone need not make any more room.
theorem Published.completes (h : Published setup id victims reconciled published)
    (he : Evicting victims published rest)
    (hb : Bounded setup setup.namespaceEntryScanLimit setup.payloadScanBudget rest) :
    ∃ n, setup.completePendingQuotaEvictions rest = (.ok n, Committed id victims published) := by
  have hid : id ∉ victims := fun hv => h.ne hv rfl
  have hjournals : ∃ journals, setup.pendingJournals setup.payloadScanBudget rest.entries =
      .ok journals := by
    refine pendingJournals_total hb.charged fun entry hm metadata => ?_
    by_cases hv : entry.1 ∈ victims
    case pos => exact ⟨none, pendingVictims_of_noJournal (he.victims entry hm hv).left⟩
    case neg =>
      have hkept : entry ∈ (published.keep fun entry => entry.1 ∉ victims).entries :=
        he.kept ▸ List.mem_filter.mpr ⟨hm, decide_eq_true hv⟩
      obtain ⟨directory, hf, hentries⟩ := h.fresh
      have hold := List.mem_of_mem_filter hkept
      rw [hentries] at hold
      obtain rfl | hold := List.mem_cons.mp hold
      case inl => exact hf.pendingVictims metadata
      case inr => exact ⟨none, pendingVictims_of_noJournal (unjournaled_iff.mp h.settled _ hold)⟩
  obtain ⟨journals, hj⟩ := hjournals
  have hread : setup.pending rest = .ok journals :=
    bind_eq_ok.mpr ⟨_, readDirBounded_of_bounded hb, hj⟩
  suffices hs : ∃ n catalog, setup.completePendingQuotaEvictions rest = (.ok n, catalog) by
    obtain ⟨n, catalog, hc⟩ := hs
    refine ⟨n, hc.trans (congrArg _ ?_)⟩
    exact h.complete he.kept (fun entry hm hv => (he.victims entry hm hv).left) hc
  rw [pendingJournals_ok hj, h.journals he.kept fun entry hm hv =>
    (he.victims entry hm hv).left] at hread
  rw [StateStoreSetup.completePendingQuotaEvictions]
  by_cases hn : victims = []
  case pos =>
    rw [if_pos hn] at hread
    exact ⟨0, rest, Attempt.read_bind hread⟩
  case neg =>
    have hvictims : ∀ name ∈ journaledVictims [(id, victims)], validateStateId name = .ok () ∧
        ∀ entry, (name, entry) ∈ rest.entries → entry ≠ .file := by
      intro name hm
      have hv := (mem_journaledVictims hid).mp hm
      exact ⟨(h.spared name hv).left, fun entry he' => (he.victims _ he' hv).right⟩
    have hremove : ∃ n, removeQuotaVictims 0 (journaledVictims [(id, victims)]) rest =
        (.ok n, published.keep fun entry => entry.1 ∉ victims) := by
      obtain ⟨n, hr⟩ := @removeQuotaVictims_succeeds rest _ 0 hvictims
      refine ⟨n, hr.trans (congrArg _ ?_)⟩
      rw [←he.kept]
      simp only [mem_journaledVictims hid]
    obtain ⟨n, hr⟩ := hremove
    have hplan : setup.quotaEvictionPlanExcluding 0 0 [id]
        (published.keep fun entry => entry.1 ∉ victims) = .ok [] :=
      plan_of_within (he.kept ▸ hb.keep) h.within
    have hclear : ([id].forM clearQuotaMarker) (published.keep fun entry => entry.1 ∉ victims) =
        (.ok ⟨⟩, Committed id victims published) :=
      Attempt.bind_of_ok (h.clear hn)
    rw [if_neg hn] at hread
    refine ⟨add u64Max n 0, Committed id victims published, (Attempt.read_bind hread).trans ?_⟩
    rw [if_neg (List.cons_ne_nil _ _)]
    refine (Attempt.bind_of_ok hr).trans ((Attempt.read_bind hplan).trans ?_)
    exact Attempt.bind_of_ok hclear

theorem reconcileEntries_of_stays {entries : List (String × Entry)} {m : Nat}
    (h : setup.totalCharge entries ≤ remaining)
    (hs : ∀ entry ∈ entries, setup.stays now entry = true) :
    setup.reconcileEntries now none m remaining entries catalog = (.ok m, catalog) := by
  induction entries generalizing remaining
  case nil => rfl
  case cons entry rest hi =>
    obtain ⟨name, entry⟩ := entry
    obtain ⟨hn, metadata, pinned, hr, hp, he⟩ := stays_eq_true.mp (hs _ List.mem_cons_self)
    have hrest := fun entry hm => hs entry (List.mem_cons_of_mem _ hm)
    have hstaging : ¬startsWith ".staging-" name = true := fun h => by
      simp [isStateName_of_staging h] at hn
    rw [StateStoreSetup.totalCharge, List.map_cons, List.sum_cons,
      ←StateStoreSetup.totalCharge, charged_of_read hn hr] at h
    have hle : metadata.payloadBytes ≤ remaining := by omega
    rw [StateStoreSetup.reconcileEntries, if_neg (Option.some_ne_none name ·.symm),
      if_neg hstaging, hn, if_pos rfl, hr]
    dsimp only
    rw [he, if_neg Bool.false_ne_true, Attempt.check_bind (charge_of_le hle), if_pos hp]
    exact hi (Nat.le_sub_of_add_le' h) hrest

include hb in
-- A catalog that was reconciled is left as it is.
theorem reconcile_of_stays (hu : Unjournaled catalog)
    (hs : ∀ entry ∈ catalog.entries, setup.stays now entry = true) :
    setup.reconcile now catalog = (.ok 0, catalog) := by
  obtain ⟨_, hscan⟩ := scanLocked_of_bounded hb
  obtain ⟨hc, -⟩ := @reconcile_succeeds setup catalog now _ hscan hu
  refine (Attempt.bind_of_ok hc).trans ?_
  exact (Attempt.read_bind (readDirBounded_of_bounded hb)).trans
    (reconcileEntries_of_stays hb.charged hs)

-- A commit does not depend on whether what it finds was reconciled before.
theorem commitInner_reconciled {requestedId : Option String} {state : NewStoredState}
    {fresh : FreshNames} {recovered : Catalog} {n m : Nat}
    (hv : setup.validateNewState state = .ok ⟨⟩)
    (hr : setup.reconcile now rest = (.ok n, recovered))
    (ha : setup.reconcile now recovered = (.ok m, recovered)) :
    setup.commitInner requestedId state fresh now rest =
      setup.commitInner requestedId state fresh now recovered := by
  have hp : setup.publish requestedId state fresh now rest =
      setup.publish requestedId state fresh now recovered := by
    rw [StateStoreSetup.publish, Attempt.check_bind hv, Attempt.bind_of_ok hr,
      Attempt.check_bind hv, Attempt.bind_of_ok ha]
  change Attempt.bind _ _ rest = Attempt.bind _ _ recovered
  rw [Attempt.bind, Attempt.bind, hp]

-- What a recovery has to achieve for what a commit left.
structure Recovers (setup : StateStoreSetup) (later : Nat) (rest recovered : Catalog) : Prop where
  succeeds   : ∃ n, setup.reconcile later rest = (.ok n, recovered)
  idempotent : setup.reconcile later recovered = (.ok 0, recovered)
  -- The next commit may find what is left just as well.
  resumes    : ∀ requestedId state fresh, setup.validateNewState state = .ok ⟨⟩ →
    setup.commitInner requestedId state fresh later rest =
      setup.commitInner requestedId state fresh later recovered

theorem recovers_of_reconcile {n : Nat} {base : Catalog}
    (hr : setup.reconcile later rest = (.ok n, base.keep (setup.stays later)))
    (hb : Bounded setup setup.namespaceEntryScanLimit setup.payloadScanBudget base)
    (hu : Unjournaled base) : Recovers setup later rest (base.keep (setup.stays later)) := by
  have ha : setup.reconcile later (base.keep (setup.stays later)) =
      (.ok 0, base.keep (setup.stays later)) :=
    reconcile_of_stays hb.keep hu.keep fun entry hm => (List.mem_filter.mp hm).right
  exact ⟨⟨n, hr⟩, ha, fun _ _ _ hv => commitInner_reconciled hv hr ha⟩

theorem recovers_of_unjournaled
    (hb : Bounded setup setup.namespaceEntryScanLimit setup.payloadScanBudget rest)
    (hu : Unjournaled rest) : Recovers setup later rest (rest.keep (setup.stays later)) := by
  obtain ⟨_, hscan⟩ := scanLocked_of_bounded hb
  obtain ⟨-, n, recovered, -, hr, -⟩ := @reconcile_succeeds setup rest later _ hscan hu
  obtain rfl := reconcile_unjournaled hu hr
  exact recovers_of_reconcile hr hb hu

-- What is left of a commit can be recovered where one more entry can be scanned.
theorem interrupted_recovers {requestedId : Option String} {state : NewStoredState}
    {fresh : FreshNames} {phase : Phase} {time : Nat} (hu : Unjournaled catalog)
    (hid : validateStateId (requestedId.getD fresh.id) = .ok ())
    (hs : startsWith ".staging-" fresh.staging = true)
    (hlength : catalog.entries.length < setup.namespaceEntryScanLimit)
    (hcharge : setup.totalCharge catalog.entries + state.payload.bytes ≤ setup.payloadScanBudget)
    (hi : Interrupted setup requestedId state fresh now catalog phase time rest) :
    ∃ recovered, Recovers setup later rest recovered := by
  have hb := hi.bounded hu hid hs ⟨le_rfl, le_rfl⟩
  have hb : Bounded setup setup.namespaceEntryScanLimit setup.payloadScanBudget rest :=
    ⟨hb.length.trans hlength, hb.charged.trans hcharge⟩
  have hrest := hi.recoverable hu hid hs
  cases phase
  case staging => exact ⟨_, recovers_of_unjournaled hb hrest.settled⟩
  case evicting =>
    obtain ⟨_, _, _, hp, he⟩ := hrest
    have hpublished := published_of_publish hu hid hp
    obtain ⟨n, hc⟩ := hpublished.completes he hb
    have hb := hpublished.bounded (he.kept ▸ hb.keep)
    obtain ⟨m, recovered, hr⟩ := reconcileEntries_succeeds hb.charged (fun _ hm => hm)
      (Catalog.nodup _)
    have hr : setup.reconcile later rest = (.ok m, recovered) := by
      refine (Attempt.bind_of_ok hc).trans ?_
      exact (Attempt.read_bind (readDirBounded_of_bounded hb)).trans hr
    obtain ⟨_, completed, hc', rfl⟩ := reconcile_ok hr
    obtain rfl := (Prod.mk.inj (hc.symm.trans hc')).right
    exact ⟨_, recovers_of_reconcile hr hb hpublished.unjournaled⟩
  case done =>
    obtain ⟨_, _, _, -, hrest⟩ := hrest
    exact ⟨_, recovers_of_unjournaled hb hrest.settled⟩

end Success

section Shelves

-- What happened to a store, from the latest to the earliest.
inductive Event
  | committed (summary : StateSummary) (now : Nat)
  | reconciled (now : Nat)
  | pruned (selector : StateSelector) (now : Nat)

def living (now : Nat) (states : List StateSummary) : List StateSummary :=
  states.filter fun state => !state.isExpired now

-- A store that is never cut off. For a new state it evicts only as many as it has to, those that
-- were used least recently first.
inductive Shelf (limits : StateStoreLimits) : List Event → Nat → List StateSummary → Prop
  | empty {now : Nat} : Shelf limits [] now []
  | committed {events states l evicted} {time now : Nat} {summary : StateSummary} :
    Shelf limits events time states → time ≤ now →
    Candidates [] (living now states) l →
    Prefixes.Shortest (Enough limits (living now states) (summary.bytes.getD 0) 1) l evicted →
    Shelf limits (.committed summary now :: events) now
      (summary :: afterEviction (living now states) evicted)
  | reconciled {events states} {time now : Nat} :
    Shelf limits events time states → time ≤ now →
    Shelf limits (.reconciled now :: events) now (living now states)
  | pruned {events states} {time now : Nat} {selector : StateSelector} :
    Shelf limits events time states → time ≤ now →
    Shelf limits (.pruned selector now :: events) now
      ((living now states).filter fun state => !selector.matches state)

variable {limits : StateStoreLimits} {events : List Event} {time : Nat}
variable {states : List StateSummary} {summary : StateSummary}

theorem living_sublist : (living now states).Sublist states :=
  List.filter_sublist

theorem Within.sublist {others : List StateSummary}
    (h : Within limits (bytesOf states) states.length) (hs : others.Sublist states) :
    Within limits (bytesOf others) others.length :=
  h.mono (bytesOf_sublist hs) hs.length_le

theorem Shelf.within (h : Shelf limits events time states) :
    Within limits (bytesOf states) states.length := by
  induction h
  case empty      => exact ⟨.inl (Nat.zero_le _), .inl (Nat.zero_le _)⟩
  case reconciled hi => exact hi.sublist living_sublist
  case pruned hi     => exact hi.sublist (List.filter_sublist.trans living_sublist)
  case committed hs _ =>
    rw [bytesOf_cons, Nat.add_comm]
    exact hs.reaches

theorem not_isExpired_of_le {state : StateSummary} (h : state.isExpired later = false)
    (hl : now ≤ later) : state.isExpired now = false := by
  refine Bool.eq_false_of_not_eq_true fun ht => ?_
  rw [StateSummary.isExpired] at *
  cases he : state.expiresUnixMs
  case none => simp [he] at ht
  case some expires =>
    simp only [he, Option.any_some, decide_eq_true_eq, decide_eq_false_iff_not] at *
    exact h (ht.trans hl)

-- What keeps a state on the shelf once it is there.
structure Spared (summary : StateSummary) (later : List Event) : Prop where
  pruned  : ∀ selector now, .pruned selector now ∈ later → selector.matches summary = false
  evicted : summary.pinned = true ∨ ∀ other now, .committed other now ∉ later

theorem Spared.tail {event : Event} {later : List Event} (h : Spared summary (event :: later)) :
    Spared summary later where
  pruned selector now hm := h.pruned selector now (List.mem_cons_of_mem _ hm)
  evicted := h.evicted.imp_right fun h other now hm => h other now (List.mem_cons_of_mem _ hm)

theorem Shelf.survives {earlier afterwards : List Event}
    (h : Shelf limits (afterwards ++ .committed summary now :: earlier) time states)
    (hs : Spared summary afterwards) (he : summary.isExpired time = false) : summary ∈ states := by
  induction afterwards generalizing time states
  case nil =>
    cases h
    exact List.mem_cons_self
  case cons event afterwards hi =>
    have hliving {states : List StateSummary} {past : Nat} (hl : past ≤ time)
        (h : Shelf limits (afterwards ++ .committed summary now :: earlier) past states) :
        summary ∈ living time states :=
      List.mem_filter.mpr ⟨hi h hs.tail (not_isExpired_of_le he hl), by rw [he]; rfl⟩
    cases h
    case committed h hl hc hshort =>
      refine List.mem_cons_of_mem _ (List.mem_filter.mpr ⟨hliving hl h, decide_eq_true ?_⟩)
      intro hm
      obtain hp | hn := hs.evicted
      case inl =>
        obtain ⟨-, hf, -⟩ := hc.mem (hshort.initial.subset hm)
        rw [hp] at hf
        cases hf
      case inr => exact hn _ _ List.mem_cons_self
    case reconciled h hl => exact hliving hl h
    case pruned h hl     =>
      refine List.mem_filter.mpr ⟨hliving hl h, ?_⟩
      rw [hs.pruned _ _ List.mem_cons_self]
      rfl

end Shelves

section Lives

variable {requestedId : Option String} {state : NewStoredState} {fresh : FreshNames}
variable {summary : StateSummary} {victims : List String} {published committed : Catalog}
variable {events : List Event} {time : Nat}

-- What happens to a store. Commits may be cut off at any point, and so may the reconciliations
-- after them, until one of them comes to its end.
inductive Life (setup : StateStoreSetup) : List Event → Nat → Catalog → Prop
  | empty {start : Nat} : Life setup [] start .empty
  | committed {past time' found left requestedId state fresh summary} {time : Nat} :
    Life setup past time found → time ≤ time' →
    validateStateId (requestedId.getD fresh.id) = .ok () →
    setup.commitInner requestedId state fresh time' found = (.ok summary, left) →
    Life setup (.committed summary time' :: past) time' left
  | lost {past time' found left cut t t' requestedId state fresh n} {time : Nat} :
    Life setup past time found → time ≤ time' →
    validateStateId (requestedId.getD fresh.id) = .ok () →
    startsWith ".staging-" fresh.staging = true →
    Interrupted setup requestedId state fresh time' found .staging t cut → t ≤ t' →
    setup.reconcile t' cut = (.ok n, left) →
    Life setup (.reconciled t' :: past) t' left
  | completed {past time' found left cut t t' requestedId state fresh summary phase n first}
    {time : Nat} {ids : List String} :
    Life setup past time found → time ≤ time' →
    validateStateId (requestedId.getD fresh.id) = .ok () →
    startsWith ".staging-" fresh.staging = true →
    setup.publish requestedId state fresh time' found = (.ok (summary, ids), first) →
    Interrupted setup requestedId state fresh time' found phase t cut → phase ≠ .staging →
    t ≤ t' → setup.reconcile t' cut = (.ok n, left) →
    Life setup (.reconciled t' :: .committed summary time' :: past) t' left
  | pruned {past time' found left selector disk} {time : Nat} :
    Life setup past time found → time ≤ time' →
    setup.pruneLocked selector time' found = (.ok disk, left) →
    Life setup (.pruned selector time' :: past) time' left

theorem living_validStates :
    setup.validStates (catalog.keep (setup.stays now)) = living now (setup.validStates catalog) :=
  validStates_stays

-- A commit puts its state on the shelf.
theorem validStates_committed (hu : Unjournaled catalog)
    (hid : validateStateId (requestedId.getD fresh.id) = .ok ())
    (hp : setup.publish requestedId state fresh now catalog = (.ok (summary, victims), published)) :
    ∃ l evicted, Candidates [] (living now (setup.validStates catalog)) l ∧
      Prefixes.Shortest
        (Enough setup.limits (living now (setup.validStates catalog)) (summary.bytes.getD 0) 1)
        l evicted ∧
      setup.validStates (Committed summary.id victims published) =
        summary :: afterEviction (living now (setup.validStates catalog)) evicted := by
  obtain ⟨reconciled, directory, ⟨n, hr⟩, hplan, hfind, hf, hbytes, hsummary, hentries⟩ :=
    publish_exact hid hp
  obtain rfl := reconcile_unjournaled hu hr
  have hpublished := published_of_publish hu hid hp
  obtain ⟨other, ho, -, -, -, hpayload, -⟩ := readState_ok hf.read
  cases ho
  have hsize : summary.bytes.getD 0 = state.payload.bytes := by
    rw [hsummary, ←hbytes]
    exact hpayload
  obtain ⟨_, hq⟩ := ensure_bind_eq_ok.mp hplan
  obtain ⟨states, hscan, _⟩ := bind_eq_ok.mp hq
  have hstates : states = living now (setup.validStates catalog) :=
    (scanLocked_ok hscan).left.trans living_validStates
  obtain ⟨_, evicted, hshort, hids⟩ :=
    ((plan_exact hscan).planned _ candidates_exist victims).mp hplan
  have hmem (other) (hm : other ∈ evicted) : other ∈ states :=
    (candidates_exist.mem (hshort.initial.subset hm)).left
  have hvalid : setup.validState (summary.id, .state directory) = some summary :=
    validState_eq_some.mpr ⟨isStateName_of_valid hf.valid, _, _, hf.read, hf.payload, hsummary⟩
  have hnew : setup.validStates published = summary :: states := by
    rw [StateStoreSetup.validStates, hentries, List.filterMap_cons, hvalid,
      (scanLocked_ok hscan).left]
    rfl
  have hkept : setup.validStates (published.keep fun entry => entry.1 ∉ victims) =
      summary :: afterEviction states evicted := by
    have hid : summary.id ∉ victims := fun hv => hpublished.ne hv rfl
    rw [@validStates_keep setup _ fun id => id ∉ victims, hnew, List.filter_cons,
      if_pos (by simpa using hid), hids, filter_eq_afterEviction _ hmem]
    rw [(scanLocked_ok hscan).left]
    exact nodup_validStates
  subst hstates
  refine ⟨_, evicted, candidates_exist, hsize ▸ hshort, ?_⟩
  rw [←hkept, Committed]
  split
  case isTrue hn => simp [Catalog.keep, hn]
  case isFalse =>
    obtain ⟨directory', hf', hm⟩ := hpublished.mem
    exact validStates_update (readable_of_mem hm ⟨_, hf'.read⟩)

theorem Interrupted.le {phase : Phase} {t : Nat}
    (h : Interrupted setup requestedId state fresh now catalog phase t rest) : now ≤ t := by
  induction h
  case begun                  => exact le_rfl
  case staged                 => exact le_rfl
  case published              => exact le_rfl
  case evicting hi            => exact hi
  case cleared hi             => exact hi
  case reconciling hl _ hi    => exact hi.trans hl

theorem pruneLocked_unjournaled {selector : StateSelector} {disk : List StateSummary}
    (hu : Unjournaled catalog)
    (h : setup.pruneLocked selector now catalog = (.ok disk, catalog')) :
    Unjournaled catalog' ∧ setup.validStates catalog' =
      (living now (setup.validStates catalog)).filter fun state => !selector.matches state := by
  obtain ⟨n, completed, hc, hdisk, hv⟩ := pruneLocked_ok h
  obtain rfl := completePending_unjournaled hu hc
  constructor
  case left =>
    obtain ⟨_, reconciled, hr, h₁⟩ := Attempt.bind_ok.mp h
    obtain ⟨_, _, h₂⟩ := Attempt.read_bind_ok.mp h₁
    obtain ⟨_, removed, hd, h₃⟩ := Attempt.bind_ok.mp h₂
    rw [(Attempt.pure_ok.mp h₃).right, removeStateDirs_ok hd, reconcile_unjournaled hu hr]
    exact hu.keep.keep
  case right =>
    rw [hv, hdisk]
    refine List.filter_congr fun state hm => ?_
    obtain ⟨hstate, he⟩ := List.mem_filter.mp hm
    rw [Bool.eq_iff_iff, decide_eq_true_iff, Bool.not_eq_true']
    constructor
    case mp =>
      intro hn
      refine Bool.eq_false_of_not_eq_true fun ht => hn (List.mem_map_of_mem ?_)
      exact mem_matched.mpr ⟨hstate, by simpa using he, ht⟩
    case mpr =>
      intro hf hi
      obtain ⟨other, ho, hid⟩ := List.mem_map.mp hi
      obtain ⟨hother, -, ht⟩ := mem_matched.mp ho
      obtain rfl := List.inj_on_of_nodup_map nodup_validStates hother hstate hid
      rw [hf] at ht
      cases ht

-- Whatever is cut off, the valid states are those of a store that never is.
theorem Life.shelf (h : Life setup events time catalog) :
    Unjournaled catalog ∧ Shelf setup.limits events time (setup.validStates catalog) := by
  induction h
  case empty => exact ⟨fun _ _ hm => absurd hm List.not_mem_nil, .empty⟩
  case committed hl hid hc hi =>
    obtain ⟨hu, hs⟩ := hi
    obtain ⟨⟨new, victims⟩, published, hp, hc'⟩ := Attempt.bind_ok.mp hc
    have hcommit := commitInner_eq hu hid hp
    obtain ⟨he, rfl⟩ := Prod.mk.inj (hcommit.symm.trans hc)
    obtain rfl := Except.ok.inj he
    obtain ⟨l, evicted, hcandidates, hshort, hv⟩ := validStates_committed hu hid hp
    exact ⟨(published_of_publish hu hid hp).unjournaled, hv ▸ .committed hs hl hcandidates hshort⟩
  case lost hl hid hstaging hcut hl' hr hi =>
    obtain ⟨hu, hs⟩ := hi
    obtain ⟨hu', ⟨-, rfl⟩ | ⟨hn, -⟩⟩ := commit_crash_atomic hu hid hstaging hcut hl' hr
    case inl => exact ⟨hu', living_validStates ▸ .reconciled hs (hl.trans (hcut.le.trans hl'))⟩
    case inr => exact absurd rfl hn
  case completed hl hid hstaging hp hcut hn hl' hr hi =>
    obtain ⟨hu, hs⟩ := hi
    obtain ⟨hu', ⟨hstart, -⟩ | ⟨-, new, committed, hc, rfl⟩⟩ :=
      commit_crash_atomic hu hid hstaging hcut hl' hr
    case inl => exact absurd hstart hn
    case inr =>
      obtain ⟨-, rfl⟩ := Prod.mk.inj ((commitInner_eq hu hid hp).symm.trans hc)
      obtain ⟨l, evicted, hcandidates, hshort, hv⟩ := validStates_committed hu hid hp
      refine ⟨hu', living_validStates ▸ .reconciled ?_ (hcut.le.trans hl')⟩
      exact hv ▸ .committed hs hl hcandidates hshort
  case pruned hl hp hi =>
    obtain ⟨hu, hs⟩ := hi
    obtain ⟨hu', hv⟩ := pruneLocked_unjournaled hu hp
    exact ⟨hu', hv ▸ .pruned hs hl⟩

structure Durable (setup : StateStoreSetup) (events : List Event) (time : Nat)
    (catalog : Catalog) : Prop where
  shelf    : Shelf setup.limits events time (setup.validStates catalog)
  within   : Within setup.limits (bytesOf (setup.validStates catalog))
    (setup.validStates catalog).length
  -- A committed state is there until it expires, is pruned or has to make room.
  survives : ∀ later summary committed earlier,
    events = later ++ .committed summary committed :: earlier → Spared summary later →
    summary.isExpired time = false → summary ∈ setup.validStates catalog

section Samples

def sampleNewState (bytes : Nat) : NewStoredState where
  modelId       := "model"
  backend       := "b"
  compatibility := sampleEnvelope
  payload       := ⟨bytes, "s"⟩
  promptTokens  := 0
  expiresUnixMs := none
  pinned        := false

def sampleFresh (id : String) : FreshNames where
  id      := id
  staging := ".staging-" ++ id

def sampleReplacement : StateSummary where
  __ := sampleSummary 6
  id                 := "st_b"
  createdUnixMs      := 1
  lastAccessedUnixMs := 1

-- The new state is on disk, and so is the one that it replaces.
def sampleEvicting : Catalog :=
  ((sampleSetup 10).publish none (sampleNewState 6) (sampleFresh "st_b") 1 (sampleCatalog 5)).2

theorem publish_sample :
    (sampleSetup 10).publish none (sampleNewState 6) (sampleFresh "st_b") 1 (sampleCatalog 5) =
      (.ok (sampleReplacement, ["st_a"]), sampleEvicting) :=
  rfl

theorem interrupted_sample : Interrupted (sampleSetup 10) none (sampleNewState 6)
    (sampleFresh "st_b") 1 (sampleCatalog 5) .evicting 1 sampleEvicting :=
  .published publish_sample

theorem life_sample :
    Life (sampleSetup 10)
      [.reconciled 2, .committed sampleReplacement 1, .committed (sampleSummary 5) 0] 2
      ((sampleSetup 10).reconcile 2 sampleEvicting).2 := by
  have hr : (sampleSetup 10).reconcile 2 sampleEvicting =
      (.ok 1, ((sampleSetup 10).reconcile 2 sampleEvicting).2) := by
    have hn : ((sampleSetup 10).reconcile 2 sampleEvicting).1 = .ok 1 := by decide +kernel
    rw [←hn]
  have hc : (sampleSetup 10).commitInner none (sampleNewState 5) (sampleFresh "st_a") 0 .empty =
      (.ok (sampleSummary 5), sampleCatalog 5) := rfl
  have hl : Life (sampleSetup 10) [.committed (sampleSummary 5) 0] 0 (sampleCatalog 5) :=
    .committed .empty le_rfl rfl hc
  exact .completed hl (Nat.zero_le 1) rfl (by decide) publish_sample interrupted_sample
    Phase.noConfusion (Nat.le_succ 1) hr

theorem interrupted_recovers_sample :
    ∃ recovered, Recovers (sampleSetup 10) 2 sampleEvicting recovered :=
  interrupted_recovers (unjournaled_iff.mpr (by simp [sampleCatalog, NoJournal, sampleDirectory]))
    rfl (by decide) (by decide) (by decide) interrupted_sample

end Samples

end Lives

end RuntimeControl.States
