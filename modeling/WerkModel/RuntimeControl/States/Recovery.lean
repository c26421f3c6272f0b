import WerkModel.RuntimeControl.States.Reconciliation

-- What is left of a commit that was cut off, and what the next reconciliation makes of it.
open Checks Saturating

namespace RuntimeControl.States

-- A directory from which some files were removed. Without the others it is no state.
inductive Damaged : Entry → Entry → Prop
  | directory {entry} : entry ≠ .file → Damaged entry .directory
  | state {directory : StateDirectory} {pinned lastAccessed quotaEvictions} :
    pinned = directory.pinned ∨ pinned = false →
    lastAccessed = directory.lastAccessed ∨ lastAccessed = none →
    quotaEvictions = directory.quotaEvictions ∨ quotaEvictions = none →
    Damaged (.state directory)
      (.state { directory with pinned, lastAccessed, quotaEvictions })

inductive RemovalStep (names : Set String) (catalog : Catalog) : Catalog → Prop
  | removed {name} : name ∈ names → RemovalStep names catalog (catalog.remove name)
  | damaged {name entry entry'} :
    name ∈ names → (name, entry) ∈ catalog.entries → Damaged entry entry' →
    RemovalStep names catalog (catalog.update name fun _ => entry')

-- What a removal of some entries leaves that was cut off.
def Removal (names : Set String) : Catalog → Catalog → Prop :=
  Relation.ReflTransGen (RemovalStep names)

variable {setup : StateStoreSetup} {catalog catalog' rest rest' : Catalog} {name : String}
variable {entry entry' : Entry} {now later : Nat}

section Removals

variable {names : Set String}

def NoJournal : Entry → Prop
  | .state directory => directory.quotaEvictions = none
  | _                => True

theorem unjournaled_iff : Unjournaled catalog ↔ ∀ entry ∈ catalog.entries, NoJournal entry.2 := by
  constructor
  case mp =>
    rintro h ⟨name, entry⟩ hm
    cases entry
    case state directory => exact h name directory hm
    case directory       => trivial
    case file            => trivial
  case mpr => exact fun h name directory hm => h _ hm

theorem Damaged.unjournaled (h : Damaged entry entry') (hu : NoJournal entry) :
    NoJournal entry' := by
  cases h
  case directory => trivial
  case state hq  => exact hq.elim (·.trans hu) id

theorem Damaged.ne_file (h : Damaged entry entry') : entry' ≠ .file := by
  cases h
  case directory => exact Entry.noConfusion
  case state     => exact Entry.noConfusion

-- Other entries are left as they are.
theorem RemovalStep.filter_eq {kept : String × Entry → Bool}
    (h : RemovalStep names catalog catalog')
    (hk : ∀ name entry, kept (name, entry) = true → name ∉ names) :
    catalog'.entries.filter kept = catalog.entries.filter kept := by
  cases h
  case removed name hn =>
    change (catalog.entries.filter _).filter kept = _
    rw [List.filter_filter]
    refine List.filter_congr fun entry _ => ?_
    cases hkept : kept entry
    case false => simp
    case true  =>
      have hne : entry.1 ≠ name := fun he => hk entry.1 entry.2 hkept (he ▸ hn)
      simp [hne]
  case damaged name _ entry' hn _ _ =>
    change (catalog.entries.map _).filter kept = _
    induction catalog.entries
    case nil => rfl
    case cons entry entries hi =>
      obtain ⟨other, entry⟩ := entry
      rw [List.map_cons, List.filter_cons, List.filter_cons, hi]
      by_cases he : other = name
      case neg => simp [he]
      case pos =>
        have hf (entry : Entry) : kept (other, entry) = false :=
          Bool.eq_false_of_not_eq_true fun hkept => hk other entry hkept (he ▸ hn)
        simp [hf]

theorem Removal.keep_eq {kept : String × Entry → Bool} (h : Removal names catalog catalog')
    (hk : ∀ name entry, kept (name, entry) = true → name ∉ names) :
    catalog'.keep kept = catalog.keep kept := by
  induction h
  case refl         => rfl
  case tail _ hs hi => exact (Catalog.ext_entries (hs.filter_eq hk)).trans hi

-- An entry that is there was there before, perhaps with more files.
theorem RemovalStep.mem {entry' : String × Entry} (h : RemovalStep names catalog catalog')
    (hm : entry' ∈ catalog'.entries) : ∃ entry, (entry'.1, entry) ∈ catalog.entries ∧
      (entry'.2 = entry ∨ entry'.1 ∈ names ∧ Damaged entry entry'.2) := by
  obtain ⟨name', entry'⟩ := entry'
  cases h
  case removed => exact ⟨entry', List.mem_of_mem_filter hm, .inl rfl⟩
  case damaged name old new hn ho hd =>
    obtain ⟨⟨other, entry⟩, hentry, he⟩ := List.mem_map.mp hm
    obtain ⟨hother, hnew⟩ := Prod.mk.inj he
    dsimp only at hother hnew
    subst hother
    split at hnew
    case isFalse    => exact ⟨entry, hentry, .inl hnew.symm⟩
    case isTrue hn' =>
      subst hn' hnew
      exact ⟨old, ho, .inr ⟨hn, hd⟩⟩

theorem Removal.unjournaled (h : Removal names catalog catalog') (hu : Unjournaled catalog) :
    Unjournaled catalog' := by
  induction h
  case refl         => exact hu
  case tail _ hs hi =>
    refine unjournaled_iff.mpr fun entry' hm => ?_
    obtain ⟨entry, he, h⟩ := hs.mem hm
    have hu := unjournaled_iff.mp hi _ he
    obtain h | ⟨-, hd⟩ := h
    case inl => exact h ▸ hu
    case inr => exact hd.unjournaled hu

end Removals

section Leftovers

-- What a reconciliation removes: what is no state, is damaged or has expired.
def Doomed (setup : StateStoreSetup) (now : Nat) (catalog : Catalog) : Set String :=
  {name | ∃ entry, (name, entry) ∈ catalog.entries ∧ setup.stays now (name, entry) = false}

theorem isExpired_mono {metadata : StoredStateMetadata} (h : metadata.isExpired now = true)
    (hl : now ≤ later) : metadata.isExpired later = true := by
  rw [StoredStateMetadata.isExpired] at *
  cases he : metadata.expiresUnixMs
  case none         => rw [he] at h; cases h
  case some expires =>
    rw [he] at h
    simp only [Option.any_some, decide_eq_true_eq] at *
    exact h.trans hl

theorem stays_eq_true : setup.stays now (name, entry) = true ↔ isStateName name = true ∧
    ∃ metadata pinned, setup.readState name entry = .ok (metadata, pinned) ∧
      payloadValid metadata entry = true ∧ metadata.isExpired now = false := by
  constructor
  case mp =>
    intro h
    obtain ⟨state, hv, -⟩ := (Option.any_eq_true ..).mp h
    obtain ⟨hn, metadata, pinned, hr, hp, -⟩ := validState_eq_some.mp hv
    rw [stays_of_read hn hr, Bool.and_eq_true, Bool.not_eq_true'] at h
    exact ⟨hn, metadata, pinned, hr, hp, h.right⟩
  case mpr =>
    rintro ⟨hn, metadata, pinned, hr, hp, he⟩
    rw [stays_of_read hn hr, hp, he]
    rfl

theorem stays_mono (h : setup.stays later (name, entry) = true) (hl : now ≤ later) :
    setup.stays now (name, entry) = true := by
  obtain ⟨hn, metadata, pinned, hr, hp, he⟩ := stays_eq_true.mp h
  refine stays_eq_true.mpr ⟨hn, metadata, pinned, hr, hp, Bool.eq_false_of_not_eq_true fun ht => ?_⟩
  exact absurd (isExpired_mono ht hl) (by simp [he])

-- Neither a pin nor the time of the last access decides whether a state can be read.
theorem readState_of_damaged {directory : StateDirectory} {pinned pinned' : Bool}
    {lastAccessed : Option Nat} {metadata : StoredStateMetadata}
    (hu : directory.quotaEvictions = none)
    (h : setup.readState name (.state { directory with
      pinned, lastAccessed, quotaEvictions := none }) = .ok (metadata, pinned')) :
    ∃ accessed, setup.readState name (.state directory) =
      .ok ({ metadata with lastAccessedUnixMs := accessed }, directory.pinned) := by
  obtain ⟨hm, h₁⟩ := ensure_bind_eq_ok.mp h
  obtain ⟨hmodel, h₂⟩ := ensure_bind_eq_ok.mp h₁
  obtain ⟨hc, h₃⟩ := seq_eq_ok.mp h₂
  obtain ⟨hp, h₄⟩ := ensure_bind_eq_ok.mp h₃
  obtain ⟨_, hq, h₅⟩ := bind_eq_ok.mp h₄
  obtain ⟨_, h₆⟩ := seq_eq_ok.mp h₅
  cases h₆
  refine ⟨directory.lastAccessed.elim directory.metadata.lastAccessedUnixMs
    (max directory.metadata.lastAccessedUnixMs), ?_⟩
  refine ensure_bind_eq_ok.mpr ⟨hm, ensure_bind_eq_ok.mpr ⟨hmodel, seq_eq_ok.mpr ⟨hc, ?_⟩⟩⟩
  refine ensure_bind_eq_ok.mpr ⟨hp, bind_eq_ok.mpr ⟨none, by rw [hu]; rfl, ?_⟩⟩
  exact seq_eq_ok.mpr ⟨rfl, rfl⟩

theorem Damaged.stays (h : Damaged entry entry') (hu : NoJournal entry)
    (hs : setup.stays now (name, entry') = true) : setup.stays now (name, entry) = true := by
  obtain ⟨hn, metadata, pinned', hr, hp, he⟩ := stays_eq_true.mp hs
  cases h
  case directory => cases hr
  case state directory pinned lastAccessed quotaEvictions _ _ hq =>
    obtain rfl : quotaEvictions = none := hq.elim (·.trans hu) id
    obtain ⟨accessed, hr⟩ := readState_of_damaged hu hr
    exact stays_eq_true.mpr ⟨hn, _, _, hr, hp, he⟩

theorem Removal.dead (h : Removal (Doomed setup now catalog) catalog catalog')
    (hu : Unjournaled catalog) (hl : now ≤ later) : ∀ entry ∈ catalog'.entries,
      entry.1 ∈ Doomed setup now catalog → setup.stays later entry = false := by
  induction h
  case refl =>
    rintro ⟨name, entry⟩ hm ⟨other, ho, hs⟩
    cases List.inj_on_of_nodup_map catalog.nodup hm ho rfl
    exact Bool.eq_false_of_not_eq_true fun ht => by simp [stays_mono ht hl] at hs
  case tail hr hs hi =>
    rintro ⟨name, entry'⟩ hm hd
    obtain ⟨entry, he, h⟩ := hs.mem hm
    have hf := hi _ he hd
    obtain h | ⟨-, h⟩ := h
    case inl =>
      subst h
      exact hf
    case inr =>
      have hu := unjournaled_iff.mp (Removal.unjournaled hr hu) _ he
      exact Bool.eq_false_of_not_eq_true fun ht => absurd (h.stays hu ht) (by simp [hf])

open Classical in
-- What is left of a reconciliation that was cut off is reconciled to the same catalog.
theorem Removal.stays_eq (h : Removal (Doomed setup now catalog) catalog catalog')
    (hu : Unjournaled catalog) (hl : now ≤ later) :
    catalog'.keep (setup.stays later) = catalog.keep (setup.stays later) := by
  let kept (entry : String × Entry) : Bool :=
    setup.stays later entry && decide (entry.1 ∉ Doomed setup now catalog)
  have hk {c : Catalog} (hc : Removal (Doomed setup now catalog) catalog c) :
      c.keep (setup.stays later) = c.keep kept := by
    refine Catalog.ext_entries (List.filter_congr fun entry hm => ?_)
    by_cases hd : entry.1 ∈ Doomed setup now catalog
    case pos => simp [kept, hd, hc.dead hu hl entry hm]
    case neg => simp [kept, hd]
  have hn (name : String) (entry : Entry) (h : kept (name, entry) = true) :
      name ∉ Doomed setup now catalog := of_decide_eq_true (Bool.and_eq_true_iff.mp h).right
  exact (hk h).trans ((h.keep_eq hn).trans (hk .refl).symm)

theorem Unjournaled.keep {kept : String × Entry → Bool} (h : Unjournaled catalog) :
    Unjournaled (catalog.keep kept) :=
  fun name directory hm => h name directory (List.mem_of_mem_filter hm)

end Leftovers

section Journals

variable {journals : List (String × List String)} {entries : List (String × Entry)}
variable {remaining n : Nat}

-- The journal that an entry carries, if it is to be completed.
def StateStoreSetup.journalOf (setup : StateStoreSetup) :
    String × Entry → Option (String × List String)
  | (name, entry) =>
    if isStateName name then
      match setup.readState name entry with
      | .error _          => none
      | .ok (metadata, _) =>
        match setup.pendingVictims metadata entry with
        | .ok (some victims) => some (name, victims)
        | _                  => none
    else
      none

theorem pendingJournals_ok (h : setup.pendingJournals remaining entries = .ok journals) :
    journals = entries.filterMap setup.journalOf := by
  induction entries generalizing remaining journals
  case nil =>
    cases h
    rfl
  case cons entry rest hi =>
    obtain ⟨name, entry⟩ := entry
    rw [StateStoreSetup.pendingJournals] at h
    rw [List.filterMap_cons, StateStoreSetup.journalOf]
    cases hn : isStateName name
    case false =>
      rw [hn] at h
      exact hi h
    case true =>
      rw [hn] at h
      simp only [Bool.not_true, Bool.false_eq_true, if_false, if_true] at h ⊢
      cases hr : setup.readState name entry
      case error =>
        rw [hr] at h
        exact hi h
      case ok read =>
        obtain ⟨metadata, pinned⟩ := read
        rw [hr] at h
        obtain ⟨left, -, h₁⟩ := bind_eq_ok.mp h
        obtain ⟨victims, hv, h₂⟩ := bind_eq_ok.mp h₁
        obtain ⟨others, ho, h₃⟩ := bind_eq_ok.mp h₂
        cases h₃
        cases victims
        case none         => simpa [hv] using hi ho
        case some victims => simpa [hv] using hi ho

theorem journalOf_of_noJournal (h : NoJournal entry) : setup.journalOf (name, entry) = none := by
  rw [StateStoreSetup.journalOf]
  cases hn : isStateName name
  case false => rfl
  case true =>
    rw [if_pos rfl]
    cases hr : setup.readState name entry
    case error => rfl
    case ok read =>
      obtain ⟨metadata, pinned⟩ := read
      obtain ⟨directory, rfl, _⟩ := readState_ok hr
      have hq : directory.quotaEvictions = none := h
      dsimp only
      rw [StateStoreSetup.pendingVictims.eq_def]
      cases payloadValid metadata (.state directory)
      case false => rfl
      case true  => simp [hq, readQuotaEvictions]

theorem filterMap_journalOf (h : ∀ entry ∈ entries, NoJournal entry.2) :
    entries.filterMap setup.journalOf = [] :=
  List.filterMap_eq_nil_iff.mpr fun entry hm => journalOf_of_noJournal (h entry hm)

theorem completePending_unjournaled (hu : Unjournaled catalog)
    (hc : setup.completePendingQuotaEvictions catalog = (.ok n, catalog')) :
    catalog' = catalog := by
  obtain ⟨journals, hj, hc⟩ := Attempt.read_bind_ok.mp hc
  obtain ⟨entries, hd, hp⟩ := bind_eq_ok.mp hj
  have hn : journals = [] := by
    rw [pendingJournals_ok hp, readDirBounded_ok hd]
    exact filterMap_journalOf (unjournaled_iff.mp hu)
  rw [if_pos hn] at hc
  exact (Attempt.pure_ok.mp hc).right

-- Without journals, a reconciliation only removes.
theorem reconcile_unjournaled (hu : Unjournaled catalog)
    (h : setup.reconcile now catalog = (.ok n, catalog')) :
    catalog' = catalog.keep (setup.stays now) := by
  obtain ⟨m, completed, hc, rfl⟩ := reconcile_ok h
  rw [completePending_unjournaled hu hc]

end Journals

section Publication

variable {requestedId : Option String} {state : NewStoredState} {fresh : FreshNames} {id : String}
variable {published reconciled : Catalog} {directory : StateDirectory} {summary : StateSummary}
variable {victims : List String} {n : Nat}

-- A state that was just published, with the states that it replaces.
structure Fresh (setup : StateStoreSetup) (id : String) (victims : List String)
    (directory : StateDirectory) : Prop where
  valid   : validateStateId id = .ok ()
  read    : setup.readState id (.state directory) = .ok (directory.metadata, directory.pinned)
  payload : payloadValid directory.metadata (.state directory) = true
  journal : victims = [] ∧ directory.quotaEvictions = none ∨
    ∃ bytes, encodeQuotaEvictions victims = .ok bytes ∧ directory.quotaEvictions = some bytes ∧
      directory.metadata.quotaEvictionsSha256 = some (setup.sha256 bytes)

theorem isStateName_of_valid (h : validateStateId id = .ok ()) : isStateName id = true := by
  rw [validateStateId] at h
  split at h
  case isTrue     => cases h
  case isFalse hn =>
    rw [Bool.not_eq_true, Bool.or_eq_false_iff, Bool.or_eq_false_iff, Bool.not_eq_false',
      Bool.not_eq_false'] at hn
    rw [isStateName, hn.left.left, hn.left.right]
    rfl

theorem Fresh.journalOf (h : Fresh setup id victims directory) :
    setup.journalOf (id, .state directory) = if victims = [] then none else some (id, victims) := by
  rw [StateStoreSetup.journalOf, isStateName_of_valid h.valid, if_pos rfl, h.read]
  dsimp only
  rw [StateStoreSetup.pendingVictims.eq_def, h.payload]
  dsimp only
  obtain ⟨rfl, hq⟩ | ⟨bytes, he, hq, hd⟩ := h.journal
  case inl => simp [hq, readQuotaEvictions]
  case inr =>
    have hne : victims ≠ [] := (encode_ok.mp he).right.right.nonempty
    rw [hq, read_of_encode he]
    simp [he, hd, hne, bind, Except.bind, pure, Except.pure]

theorem remove_of_find?_eq_none (h : catalog.find? name = none) :
    (catalog.remove name).entries = catalog.entries :=
  List.filter_eq_self.mpr fun entry hm => by simp [Catalog.find?_eq_none.mp h entry hm]

theorem insert_entries (h : catalog.find? name = none) :
    (catalog.insert name entry).entries = (name, entry) :: catalog.entries :=
  congrArg _ (remove_of_find?_eq_none h)

theorem remove_insert (h : catalog.find? name = none) :
    (catalog.insert name entry).remove name = catalog := by
  refine Catalog.ext_entries ?_
  have hr := remove_of_find?_eq_none h
  rw [Catalog.remove, Catalog.keep] at hr ⊢
  dsimp only at hr ⊢
  rw [insert_entries h, List.filter_cons, if_neg (by simp), hr]

-- The new state stands in front of what was there before.
theorem publish_exact (hid : validateStateId (requestedId.getD fresh.id) = .ok ())
    (h : setup.publish requestedId state fresh now catalog = (.ok (summary, victims), published)) :
    ∃ reconciled directory, (∃ n, setup.reconcile now catalog = (.ok n, reconciled)) ∧
      setup.quotaEvictionPlanExcluding state.payload.bytes 1 [] reconciled = .ok victims ∧
      reconciled.find? summary.id = none ∧ Fresh setup summary.id victims directory ∧
      directory.payload.bytes = state.payload.bytes ∧
      summary = summaryFromMetadata directory.metadata directory.pinned ∧
      published.entries = (summary.id, .state directory) :: reconciled.entries := by
  obtain ⟨_, hv, h₁⟩ := Attempt.check_bind_ok.mp h
  obtain ⟨n, reconciled, hr, h₂⟩ := Attempt.bind_ok.mp h₁
  obtain ⟨evictions, hp, h₃⟩ := Attempt.read_bind_ok.mp h₂
  obtain ⟨_, hf, h₄⟩ := Attempt.read_bind_ok.mp h₃
  obtain ⟨_, hs, h₅⟩ := Attempt.read_bind_ok.mp h₄
  have h₆ := Attempt.modify_bind_ok.mp h₅
  obtain ⟨journal, hj, h₇⟩ := Attempt.check_bind_ok.mp h₆
  have h₈ := Attempt.modify_bind_ok.mp h₇
  obtain ⟨_, _, h₉⟩ := Attempt.check_bind_ok.mp h₈
  have h₁₀ := Attempt.modify_bind_ok.mp h₉
  obtain ⟨he, rfl⟩ := Attempt.pure_ok.mp h₁₀
  obtain ⟨rfl, rfl⟩ := Prod.mk.inj he
  have hf := Option.isNone_iff_eq_none.mp (ensure_eq_ok.mp hf)
  have hs := Option.isNone_iff_eq_none.mp (ensure_eq_ok.mp hs)
  have hc : (reconciled.insert fresh.staging .directory).remove fresh.staging = reconciled :=
    remove_insert hs
  refine ⟨reconciled, ⟨_, state.payload, state.pinned, none, journal⟩, ⟨n, hr⟩, hp, hf, ?_, rfl,
    rfl, by rw [hc, insert_entries hf]; rfl⟩
  obtain ⟨hm, hv⟩ := seq_eq_ok.mp hv
  obtain ⟨hb, hv⟩ := ensure_bind_eq_ok.mp hv
  obtain ⟨hl, hv⟩ := ensure_bind_eq_ok.mp hv
  refine ⟨hid, ?_, ?_, ?_⟩
  case refine_1 =>
    refine ensure_bind_eq_ok.mpr ⟨⟨rfl, hid, hl, hb⟩, ensure_bind_eq_ok.mpr ⟨hm, ?_⟩⟩
    refine seq_eq_ok.mpr ⟨hv, ensure_bind_eq_ok.mpr ⟨rfl, ?_⟩⟩
    by_cases hn : victims = []
    case pos =>
      rw [if_pos hn] at hj
      cases hj
      rfl
    case neg =>
      rw [if_neg hn] at hj
      obtain ⟨bytes, hencode, rfl⟩ := map_eq_ok.mp hj
      refine bind_eq_ok.mpr ⟨_, read_of_encode hencode, seq_eq_ok.mpr ⟨?_, rfl⟩⟩
      exact bind_eq_ok.mpr ⟨bytes, hencode, ensure_eq_ok.mpr rfl⟩
  case refine_2 => simp [payloadValid]
  case refine_3 =>
    by_cases hn : victims = []
    case pos =>
      rw [if_pos hn] at hj
      cases hj
      exact .inl ⟨hn, rfl⟩
    case neg =>
      rw [if_neg hn] at hj
      obtain ⟨bytes, hencode, rfl⟩ := map_eq_ok.mp hj
      exact .inr ⟨bytes, hencode, rfl, rfl⟩

end Publication

section Completion

variable {id : String} {directory : StateDirectory} {victims ids : List String} {n removed : Nat}
variable {published reconciled : Catalog}

-- A published state before the states that it replaces are evicted.
structure Published (setup : StateStoreSetup) (id : String) (victims : List String)
    (reconciled published : Catalog) : Prop where
  fresh   : ∃ directory, Fresh setup id victims directory ∧
    published.entries = (id, .state directory) :: reconciled.entries
  absent  : reconciled.find? id = none
  settled : Unjournaled reconciled
  spared  : ∀ victim ∈ victims, validateStateId victim = .ok () ∧
    ∃ directory, (victim, .state directory) ∈ reconciled.entries
  within  : Within setup.limits
    (bytesOf (setup.validStates (published.keep fun entry => entry.1 ∉ victims)))
    (setup.validStates (published.keep fun entry => entry.1 ∉ victims)).length

theorem removeQuotaVictims_succeeds (h : ∀ id ∈ ids, validateStateId id = .ok () ∧
      ∀ entry, (id, entry) ∈ catalog.entries → entry ≠ .file) :
    ∃ n, removeQuotaVictims removed ids catalog =
      (.ok n, catalog.keep fun entry => entry.1 ∉ ids) := by
  have hs : ∃ n catalog', removeQuotaVictims removed ids catalog = (.ok n, catalog') := by
    induction ids generalizing removed catalog
    case nil => exact ⟨_, _, rfl⟩
    case cons id ids hi =>
      obtain ⟨⟨hv, hf⟩, hrest⟩ := List.forall_mem_cons.mp h
      have hc : checkStateId id = .ok ⟨⟩ := ensure_eq_ok.mpr hv
      rw [removeQuotaVictims, Attempt.check_bind hc, Attempt.gets_bind]
      cases hfind : catalog.find? id
      case none       => exact hi hrest
      case some entry =>
        have hr : removeStateDir id catalog = (.ok ⟨⟩, catalog.remove id) := by
          rw [removeStateDir]
          refine Attempt.read_bind (a := ⟨⟩) ?_
          rw [hfind]
          cases entry
          case file => exact absurd rfl (hf _ (Catalog.find?_eq_some.mp hfind))
          all_goals rfl
        rw [Option.isSome_some, if_pos rfl, Attempt.bind_of_ok hr]
        refine hi fun other ho => ⟨(hrest other ho).left, fun entry hm => ?_⟩
        exact (hrest other ho).right entry (List.mem_of_mem_filter hm)
  obtain ⟨n, catalog', h⟩ := hs
  exact ⟨n, h.trans (congrArg _ (removeQuotaVictims_ok h))⟩

theorem clearQuotaMarker_of_state {marked : Bool}
    (hm : (id, .state directory) ∈ catalog.entries)
    (hr : (readQuotaEvictions directory.quotaEvictions).map Option.isSome = .ok marked) :
    clearQuotaMarker id catalog =
      (.ok ⟨⟩, if marked then catalog.update id clearMarker else catalog) := by
  rw [clearQuotaMarker, Attempt.read_bind (a := marked) (by
    rw [Catalog.find?_eq_some.mpr hm]
    exact hr)]
  cases marked
  case false => rfl
  case true  => rfl

theorem Published.ne (h : Published setup id victims reconciled published) {victim : String}
    (hv : victim ∈ victims) : victim ≠ id := by
  obtain ⟨-, directory, hm⟩ := h.spared victim hv
  exact Catalog.find?_eq_none.mp h.absent _ hm

theorem published_of_publish {requestedId : Option String} {state : NewStoredState}
    {fresh : FreshNames} {summary : StateSummary} (hu : Unjournaled catalog)
    (hid : validateStateId (requestedId.getD fresh.id) = .ok ())
    (h : setup.publish requestedId state fresh now catalog = (.ok (summary, victims), published)) :
    Published setup summary.id victims (catalog.keep (setup.stays now)) published := by
  obtain ⟨reconciled, directory, ⟨n, hr⟩, hplan, hf, hnew, hb, -, he⟩ := publish_exact hid h
  obtain rfl := reconcile_unjournaled hu hr
  obtain ⟨_, hq⟩ := ensure_bind_eq_ok.mp hplan
  obtain ⟨states, hscan, _⟩ := bind_eq_ok.mp hq
  have hstates := (scanLocked_ok hscan).left
  refine ⟨⟨directory, hnew, he⟩, hf, hu.keep, fun victim hv => ?_, ?_⟩
  case refine_1 =>
    obtain ⟨other, ho, rfl, -⟩ := (plan_exact hscan).spared victims hplan victim hv
    obtain ⟨entry, hm, hvalid⟩ := mem_validStates.mp (hstates ▸ ho)
    obtain ⟨-, metadata, pinned, hr, -⟩ := validState_eq_some.mp hvalid
    obtain ⟨old, rfl, -, -, hv, -⟩ := readState_ok hr
    exact ⟨hv, old, hm⟩
  case refine_2 =>
    obtain ⟨_, evicted, hshort, hids⟩ :=
      ((plan_exact hscan).planned _ candidates_exist victims).mp hplan
    have hmem (other) (hm : other ∈ evicted) : other ∈ setup.validStates _ :=
      hstates ▸ (candidates_exist.mem (hshort.initial.subset hm)).left
    have hrest : setup.validStates ((catalog.keep (setup.stays now)).keep fun entry =>
        entry.1 ∉ victims) = afterEviction states evicted := by
      rw [@validStates_keep setup _ (fun id => id ∉ victims), hids,
        filter_eq_afterEviction nodup_validStates hmem, hstates]
    have hs : (published.keep fun entry => entry.1 ∉ victims).entries.Sublist
        ((summary.id, .state directory) ::
          ((catalog.keep (setup.stays now)).keep fun entry => entry.1 ∉ victims).entries) := by
      change (published.entries.filter _).Sublist _
      rw [he, List.filter_cons]
      split
      · exact .refl _
      · exact (List.Sublist.refl _).cons _
    obtain ⟨hbytes, hlength⟩ := @bounded_of_sublist setup _ _ _ _ hs
    rw [hrest, hb] at hbytes
    rw [hrest] at hlength
    exact Within.mono hshort.reaches hbytes hlength

-- What the commit leaves when it is not cut off.
def Committed (id : String) (victims : List String) (published : Catalog) : Catalog :=
  if victims = [] then published
  else (published.keep fun entry => entry.1 ∉ victims).update id clearMarker

theorem Published.mem (h : Published setup id victims reconciled published) :
    ∃ directory, Fresh setup id victims directory ∧ (id, .state directory) ∈
      (published.keep fun entry => entry.1 ∉ victims).entries := by
  obtain ⟨directory, hf, he⟩ := h.fresh
  refine ⟨directory, hf, List.mem_filter.mpr ⟨he ▸ List.mem_cons_self, ?_⟩⟩
  exact decide_eq_true fun hv => h.ne hv rfl

-- The marker of the new state is cleared.
theorem Published.clear (h : Published setup id victims reconciled published) (hn : victims ≠ []) :
    clearQuotaMarker id (published.keep fun entry => entry.1 ∉ victims) =
      (.ok ⟨⟩, Committed id victims published) := by
  obtain ⟨directory, hf, hm⟩ := h.mem
  obtain ⟨he, -⟩ | ⟨bytes, he, hq, -⟩ := hf.journal
  case inl => exact absurd he hn
  case inr =>
    have hr : (readQuotaEvictions directory.quotaEvictions).map Option.isSome = .ok true := by
      rw [hq, read_of_encode he]
      rfl
    rw [Committed, if_neg hn]
    exact clearQuotaMarker_of_state hm hr

theorem Published.cleanup_ok (h : Published setup id victims reconciled published) :
    cleanup id victims published = (.ok ⟨⟩, Committed id victims published) := by
  rw [cleanup]
  by_cases hn : victims = []
  case pos => rw [if_pos hn, Committed, if_pos hn]; rfl
  case neg =>
    rw [if_neg hn, finishQuotaEvictions]
    obtain ⟨directory, -, he⟩ := h.fresh
    have hs : ∀ victim ∈ victims, validateStateId victim = .ok () ∧
        ∀ entry, (victim, entry) ∈ published.entries → entry ≠ .file := by
      intro victim hv
      obtain ⟨hid, old, ho⟩ := h.spared victim hv
      refine ⟨hid, fun entry hm hfile => ?_⟩
      have ho : (victim, .state old) ∈ published.entries := he ▸ List.mem_cons_of_mem _ ho
      cases List.inj_on_of_nodup_map published.nodup hm ho rfl
      cases hfile
    have hr : ∃ n, removeQuotaVictims 0 victims published =
        (.ok n, published.keep fun entry => entry.1 ∉ victims) := removeQuotaVictims_succeeds hs
    obtain ⟨n, hr⟩ := hr
    exact (Attempt.bind_of_ok hr).trans (h.clear hn)

-- The only journal is the one of the new state, whatever is left of its victims.
theorem Published.journals (h : Published setup id victims reconciled published)
    (hk : (rest.keep fun entry => entry.1 ∉ victims) =
      published.keep fun entry => entry.1 ∉ victims)
    (hj : ∀ entry ∈ rest.entries, entry.1 ∈ victims → NoJournal entry.2) :
    rest.entries.filterMap setup.journalOf = if victims = [] then [] else [(id, victims)] := by
  have hrest : rest.entries.filterMap setup.journalOf =
      (rest.entries.filter fun entry => entry.1 ∉ victims).filterMap setup.journalOf := by
    rw [List.filterMap_filter]
    refine List.filterMap_congr fun entry hm => ?_
    by_cases hv : entry.1 ∈ victims
    case pos => simp [hv, journalOf_of_noJournal (hj entry hm hv)]
    case neg => simp [hv]
  obtain ⟨directory, hf, he⟩ := h.fresh
  have hid : id ∉ victims := fun hv => h.ne hv rfl
  have hkeep : (rest.entries.filter fun entry => entry.1 ∉ victims) = (id, .state directory) ::
      reconciled.entries.filter fun entry => entry.1 ∉ victims := by
    have hk := congrArg Catalog.entries hk
    change rest.entries.filter _ = published.entries.filter _ at hk
    rw [hk, he, List.filter_cons, if_pos (by simpa using hid)]
  rw [hrest, hkeep, List.filterMap_cons, hf.journalOf, filterMap_journalOf fun entry hm =>
    unjournaled_iff.mp h.settled _ (List.mem_of_mem_filter hm)]
  by_cases hn : victims = []
  case pos => simp [hn]
  case neg => simp [hn]

theorem mem_journaledVictims (h : id ∉ victims) {name : String} :
    name ∈ journaledVictims [(id, victims)] ↔ name ∈ victims := by
  simp only [journaledVictims, List.mem_eraseDups, List.map_cons, List.map_nil, List.flatMap_cons,
    List.flatMap_nil, List.append_nil, List.mem_filter, List.mem_singleton, decide_eq_true_eq]
  exact ⟨And.left, fun hm => ⟨hm, fun he => h (he ▸ hm)⟩⟩

-- The states that are left are within their limits, so that no other has to go.
theorem Published.additional (h : Published setup id victims reconciled published)
    (hp : setup.quotaEvictionPlanExcluding 0 0 [id]
      (published.keep fun entry => entry.1 ∉ victims) = .ok ids) : ids = [] := by
  obtain ⟨_, hq⟩ := ensure_bind_eq_ok.mp hp
  obtain ⟨states, hscan, _⟩ := bind_eq_ok.mp hq
  obtain ⟨_, evicted, hshort, rfl⟩ :=
    ((plan_exact hscan).planned _ candidates_exist ids).mp hp
  have he : Enough setup.limits states 0 0 [] := by
    rw [Enough, afterEviction, (scanLocked_ok hscan).left]
    simpa using h.within
  rw [hshort.eq_nil he]
  rfl

-- The completion of the journal ends where the commit would have ended.
theorem Published.complete (h : Published setup id victims reconciled published)
    (hk : (rest.keep fun entry => entry.1 ∉ victims) =
      published.keep fun entry => entry.1 ∉ victims)
    (hj : ∀ entry ∈ rest.entries, entry.1 ∈ victims → NoJournal entry.2)
    (hc : setup.completePendingQuotaEvictions rest = (.ok n, catalog)) :
    catalog = Committed id victims published := by
  obtain ⟨journals, hjournals, hc⟩ := Attempt.read_bind_ok.mp hc
  obtain ⟨entries, hd, hp⟩ := bind_eq_ok.mp hjournals
  rw [pendingJournals_ok hp, readDirBounded_ok hd, h.journals hk hj] at hc
  by_cases hn : victims = []
  case pos =>
    subst hn
    rw [if_pos rfl, if_pos rfl] at hc
    rw [(Attempt.pure_ok.mp hc).right, Committed, if_pos rfl]
    refine Catalog.ext_entries ?_
    simpa [Catalog.keep] using congrArg Catalog.entries hk
  case neg =>
    rw [if_neg hn, if_neg (List.cons_ne_nil _ _)] at hc
    obtain ⟨_, removed, hr, hc⟩ := Attempt.bind_ok.mp hc
    obtain ⟨additional, ha, hc⟩ := Attempt.read_bind_ok.mp hc
    have hremoved : removed = published.keep fun entry => entry.1 ∉ victims := by
      rw [removeQuotaVictims_ok hr, ←hk]
      simp only [mem_journaledVictims fun hv => h.ne hv rfl]
    subst hremoved
    obtain rfl := h.additional ha
    obtain ⟨_, left, hl, hc⟩ := Attempt.bind_ok.mp hc
    rw [(Attempt.pure_ok.mp hl).right] at hc
    obtain ⟨_, cleared, hm, hc⟩ := Attempt.bind_ok.mp hc
    rw [(Attempt.pure_ok.mp hc).right]
    obtain ⟨_, cleared', hm', hm⟩ := Attempt.bind_ok.mp hm
    rw [h.clear hn] at hm'
    rw [(Attempt.pure_ok.mp hm).right]
    exact (Prod.mk.inj hm').right.symm

end Completion

end RuntimeControl.States
