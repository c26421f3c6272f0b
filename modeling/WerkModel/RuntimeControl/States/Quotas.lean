import WerkModel.Lib.Lists
import WerkModel.RuntimeControl.States.Store

-- The states that have to make room for a new one.
open Checks Saturating

namespace RuntimeControl.States

section Scan

variable {setup : StateStoreSetup} {catalog : Catalog} {entries : List (String × Entry)}
variable {states : List StateSummary} {remaining : Nat} {name : String} {entry : Entry}

def bytesOf (states : List StateSummary) : Nat :=
  (states.map fun state => state.bytes.getD 0).sum

@[simp]
theorem bytesOf_nil : bytesOf [] = 0 :=
  rfl

@[simp]
theorem bytesOf_cons {state : StateSummary} :
    bytesOf (state :: states) = state.bytes.getD 0 + bytesOf states :=
  rfl

theorem bytesOf_append {others : List StateSummary} :
    bytesOf (states ++ others) = bytesOf states + bytesOf others := by
  rw [bytesOf, List.map_append, List.sum_append]
  rfl

theorem bytesOf_perm {others : List StateSummary} (h : states.Perm others) :
    bytesOf states = bytesOf others :=
  (h.map _).sum_eq

theorem bytesOf_sublist {others : List StateSummary} (h : states.Sublist others) :
    bytesOf states ≤ bytesOf others :=
  (h.map _).sum_le_sum fun _ _ => Nat.zero_le _

-- A valid state as it is listed.
def StateStoreSetup.validState (setup : StateStoreSetup) :
    String × Entry → Option StateSummary
  | (name, entry) =>
    if isStateName name then
      match setup.readState name entry with
      | .error _               => none
      | .ok (metadata, pinned) =>
        if payloadValid metadata entry then some <| summaryFromMetadata metadata pinned else none
    else
      none

def StateStoreSetup.validStates (setup : StateStoreSetup) (catalog : Catalog) :
    List StateSummary :=
  catalog.entries.filterMap setup.validState

theorem charge_ok {bytes left : Nat} : charge remaining bytes = .ok left ↔
    bytes ≤ remaining ∧ left = remaining - bytes := by
  rw [charge]
  split
  case isTrue h  => simp [h, eq_comm]
  case isFalse h => simp [h]

theorem scanEntries_ok (h : setup.scanEntries remaining entries = .ok states) :
    states = entries.filterMap setup.validState ∧ bytesOf states ≤ remaining := by
  induction entries generalizing remaining states
  case nil =>
    cases h
    exact ⟨rfl, Nat.zero_le _⟩
  case cons entry rest hi =>
    obtain ⟨name, entry⟩ := entry
    rw [StateStoreSetup.scanEntries] at h
    rw [List.filterMap_cons, StateStoreSetup.validState]
    cases hn : isStateName name
    case false =>
      rw [hn] at h
      exact hi h
    case true =>
      rw [hn] at h
      simp only [Bool.not_true, Bool.false_eq_true, if_false, if_true] at h ⊢
      cases hr : setup.readState name entry
      case error =>
        rw [hr] at h
        exact hi h
      case ok read =>
        obtain ⟨metadata, pinned⟩ := read
        rw [hr] at h
        obtain ⟨left, hc, hl⟩ := bind_eq_ok.mp h
        obtain ⟨states', hs, hst⟩ := bind_eq_ok.mp hl
        obtain ⟨he, hb⟩ := hi hs
        obtain ⟨hle, hleft⟩ := charge_ok.mp hc
        cases hst
        cases hp : payloadValid metadata entry
        case false =>
          simp only [hp, Bool.false_eq_true, if_false]
          exact ⟨he, by omega⟩
        case true =>
          simp only [hp, if_true, bytesOf_cons]
          refine ⟨congrArg _ he, ?_⟩
          simp only [summaryFromMetadata, Option.getD_some]
          omega

theorem scanLocked_ok (h : setup.scanLocked catalog = .ok states) :
    states = setup.validStates catalog ∧ bytesOf states ≤ u64Max := by
  have ⟨entries, hr, h⟩ := bind_eq_ok.mp h
  rw [StateStoreSetup.readDirBounded] at hr
  split at hr
  case isFalse => cases hr
  case isTrue =>
    cases hr
    have ⟨he, hb⟩ := scanEntries_ok h
    exact ⟨he, hb.trans add_le_cap⟩

theorem readState_ok {metadata : StoredStateMetadata} {pinned : Bool}
    (h : setup.readState name entry = .ok (metadata, pinned)) :
    ∃ directory, entry = .state directory ∧ metadata.id = name ∧ directory.metadata.id = name ∧
      validateStateId name = .ok () ∧ metadata.payloadBytes = directory.payload.bytes ∧
      metadata.expiresUnixMs = directory.metadata.expiresUnixMs := by
  cases entry
  case directory       => cases h
  case file            => cases h
  case state directory =>
    have ⟨⟨hn, hv, _⟩, h₁⟩ := ensure_bind_eq_ok.mp h
    have ⟨_, h₂⟩ := ensure_bind_eq_ok.mp h₁
    have ⟨_, h₃⟩ := seq_eq_ok.mp h₂
    have ⟨hp, h₄⟩ := ensure_bind_eq_ok.mp h₃
    have ⟨_, _, h₅⟩ := bind_eq_ok.mp h₄
    have ⟨_, h₆⟩ := seq_eq_ok.mp h₅
    cases h₆
    exact ⟨directory, rfl, hn, hn, hn ▸ hv, hp.symm, rfl⟩

theorem validState_eq_some {state : StateSummary} :
    setup.validState (name, entry) = some state ↔ isStateName name = true ∧
      ∃ metadata pinned, setup.readState name entry = .ok (metadata, pinned) ∧
        payloadValid metadata entry = true ∧ state = summaryFromMetadata metadata pinned := by
  rw [StateStoreSetup.validState]
  cases isStateName name
  case false => simp
  case true =>
    cases setup.readState name entry
    case error => simp
    case ok read =>
      simp only [if_true, true_and, Except.ok.injEq, Option.ite_none_right_eq_some,
        Option.some.injEq]
      constructor
      case mp =>
        intro ⟨hp, he⟩
        exact ⟨read.1, read.2, rfl, hp, he.symm⟩
      case mpr =>
        rintro ⟨_, _, rfl, hp, he⟩
        exact ⟨hp, he.symm⟩

-- States are listed under the names of their directories.
theorem id_of_validState {state : StateSummary}
    (h : setup.validState (name, entry) = some state) : state.id = name := by
  have ⟨_, _, _, hr, _, he⟩ := validState_eq_some.mp h
  have ⟨_, _, hn, _⟩ := readState_ok hr
  rw [he, ←hn]
  rfl

theorem map_id_filterMap : ((entries.filterMap setup.validState).map StateSummary.id).Sublist
    (entries.map Prod.fst) := by
  induction entries
  case nil => exact .slnil
  case cons entry rest hi =>
    have ⟨name, entry⟩ := entry
    rw [List.filterMap_cons]
    split
    case h_1 => exact hi.cons name
    case h_2 state h =>
      rw [List.map_cons, id_of_validState h]
      exact hi.cons_cons name

theorem nodup_validStates : ((setup.validStates catalog).map StateSummary.id).Nodup :=
  catalog.nodup.sublist map_id_filterMap

end Scan

section Plan

variable {setup : StateStoreSetup} {catalog : Catalog} {limits : StateStoreLimits}
variable {states l evicted : List StateSummary} {ids excluded : List String}
variable {bytes bytes' entries entries' total count incomingBytes incomingEntries : Nat}

-- A sum that leaves the range of its type counts as the greatest number of the type.
structure Within (limits : StateStoreLimits) (bytes entries : Nat) : Prop where
  bytes   : bytes ≤ limits.maxNamespaceBytes ∨ u64Max ≤ limits.maxNamespaceBytes
  entries : entries ≤ limits.maxNamespaceEntries ∨ usizeMax ≤ limits.maxNamespaceEntries

theorem Within.mono (h : Within limits bytes entries) (hb : bytes' ≤ bytes)
    (he : entries' ≤ entries) : Within limits bytes' entries' :=
  ⟨h.bytes.imp_left hb.trans, h.entries.imp_left he.trans⟩

theorem fits_iff : setup.fits bytes entries incomingBytes incomingEntries = true ↔
    Within setup.limits (bytes + incomingBytes) (entries + incomingEntries) := by
  rw [StateStoreSetup.fits, Bool.and_eq_true, decide_eq_true_iff, decide_eq_true_iff,
    add_le_iff, add_le_iff]
  exact ⟨fun h => ⟨h.1, h.2⟩, fun h => ⟨h.1, h.2⟩⟩

def afterEviction (states evicted : List StateSummary) : List StateSummary :=
  states.filter (· ∉ evicted)

-- Without the evicted states, there is room for the incoming ones.
def Enough (limits : StateStoreLimits) (states : List StateSummary)
    (incomingBytes incomingEntries : Nat) (evicted : List StateSummary) : Prop :=
  Within limits (bytesOf (afterEviction states evicted) + incomingBytes)
    ((afterEviction states evicted).length + incomingEntries)

-- The states that may be evicted, in the order in which they would be.
structure Candidates (excluded : List String) (states l : List StateSummary) : Prop where
  perm    : l.Perm <| states.filter fun state => !state.pinned && state.id ∉ excluded
  ordered : l.Pairwise usedBefore

theorem usedBefore_trans {a b c : StateSummary} (hab : usedBefore a b) (hbc : usedBefore b c) :
    usedBefore a c := by
  rw [usedBefore] at *
  cases hab
  case inl hab => exact .inl (hbc.elim hab.trans fun hbc => hbc.1 ▸ hab)
  case inr hab =>
    cases hbc
    case inl hbc => exact .inl (hab.1 ▸ hbc)
    case inr hbc => exact .inr ⟨hab.1.trans hbc.1, hab.2.trans hbc.2⟩

theorem usedBefore_total (a b : StateSummary) : usedBefore a b ∨ usedBefore b a := by
  rw [usedBefore, usedBefore]
  rcases Nat.lt_trichotomy a.lastAccessedUnixMs b.lastAccessedUnixMs with h | h | h
  · exact .inl (.inl h)
  · exact (le_total a.id b.id).imp (fun hi => .inr ⟨h, hi⟩) (fun hi => .inr ⟨h.symm, hi⟩)
  · exact .inr (.inl h)

theorem id_eq_of_usedBefore {a b : StateSummary} (hab : usedBefore a b) (hba : usedBefore b a) :
    a.id = b.id := by
  rw [usedBefore] at *
  rcases hab with hab | hab <;> rcases hba with hba | hba
  · omega
  · omega
  · omega
  · exact le_antisymm hab.2 hba.2

instance usedBeforeTrans : IsTrans StateSummary usedBefore :=
  ⟨fun _ _ _ => usedBefore_trans⟩

instance usedBeforeTotal : Std.Total usedBefore :=
  ⟨usedBefore_total⟩

theorem perm_afterEviction (hn : states.Nodup) (hs : ∀ state ∈ evicted, state ∈ states)
    (he : evicted.Nodup) : (evicted ++ afterEviction states evicted).Perm states := by
  have hp : (states.filter (· ∈ evicted)).Perm evicted := by
    refine (List.perm_ext_iff_of_nodup (hn.filter _) he).mpr fun state => ?_
    rw [List.mem_filter, decide_eq_true_iff, and_iff_right_of_imp (hs state)]
  refine (hp.symm.append_right _).trans ?_
  have hf := List.filter_append_perm (· ∈ evicted) states
  simpa [afterEviction] using hf

-- The loop over the candidates stops where enough of them are evicted.
theorem evict_eq : ∃ evicted,
    setup.evict incomingBytes incomingEntries total count l =
      (evicted.map StateSummary.id, total - bytesOf evicted, count - evicted.length) ∧
    let enough a := setup.fits (total - bytesOf a) (count - a.length) incomingBytes
      incomingEntries = true
    (Prefixes.Shortest enough l evicted ∨ evicted = l ∧ ¬enough l) := by
  induction l generalizing total count
  case nil =>
    refine ⟨[], rfl, ?_⟩
    dsimp only
    exact (em _).imp .nil fun h => ⟨rfl, h⟩
  case cons state rest hi =>
    rw [StateStoreSetup.evict]
    split
    case isTrue h  => exact ⟨[], rfl, .inl (.nil h)⟩
    case isFalse h =>
      have ⟨evicted, he, hs⟩ := @hi (total - state.bytes.getD 0) (count - 1)
      have hb (a : List StateSummary) : total - bytesOf (state :: a) =
          total - state.bytes.getD 0 - bytesOf a := by
        rw [bytesOf_cons, Nat.sub_sub]
      have hc (a : List StateSummary) : count - (state :: a).length = count - 1 - a.length := by
        rw [List.length_cons, Nat.sub_sub, Nat.add_comm]
      refine ⟨state :: evicted, by rw [he, hb, hc, List.map_cons], ?_⟩
      dsimp only at hs ⊢
      cases hs
      case inl hs =>
        refine .inl <| (Prefixes.shortest_cons h).mpr ⟨evicted, rfl, hs.congr fun a _ => ?_⟩
        rw [hb, hc]
      case inr hs => exact .inr ⟨congrArg _ hs.1, by rw [hb, hc]; exact hs.2⟩

-- What is evicted leaves the rest.
theorem enough_iff (hn : states.Nodup) (hs : ∀ state ∈ evicted, state ∈ states)
    (he : evicted.Nodup) :
    setup.fits (bytesOf states - bytesOf evicted) (states.length - evicted.length) incomingBytes
      incomingEntries = true ↔
    Enough setup.limits states incomingBytes incomingEntries evicted := by
  have hp := perm_afterEviction hn hs he
  have hb : bytesOf states - bytesOf evicted = bytesOf (afterEviction states evicted) := by
    rw [←bytesOf_perm hp, bytesOf_append, Nat.add_sub_cancel_left]
  have hc : states.length - evicted.length = (afterEviction states evicted).length := by
    rw [←hp.length_eq, List.length_append, Nat.add_sub_cancel_left]
  rw [fits_iff, hb, hc]
  rfl

variable (hid : (states.map StateSummary.id).Nodup)

include hid in
theorem Candidates.unique {l' : List StateSummary} (hl : Candidates excluded states l)
    (hl' : Candidates excluded states l') : l = l' := by
  refine (hl.perm.trans hl'.perm.symm).eq_of_pairwise (fun a b ha hb hab hba => ?_)
    hl.ordered hl'.ordered
  have ha := List.mem_of_mem_filter (hl.perm.subset ha)
  have hb := List.mem_of_mem_filter (hl'.perm.subset hb)
  exact List.inj_on_of_nodup_map hid ha hb (id_eq_of_usedBefore hab hba)

theorem candidates_exist : Candidates excluded states <|
    (states.insertionSort usedBefore).filter fun state =>
      !state.pinned && state.id ∉ excluded where
  perm    := (List.perm_insertionSort usedBefore states).filter _
  ordered := (List.pairwise_insertionSort usedBefore states).filter _

theorem Candidates.mem (hl : Candidates excluded states l) {state : StateSummary}
    (h : state ∈ l) : state ∈ states ∧ state.pinned = false ∧ state.id ∉ excluded := by
  have ⟨hm, hp⟩ := List.mem_filter.mp (hl.perm.subset h)
  simpa [hm] using hp

theorem afterEviction_mono {a b : List StateSummary} (h : a <+: b) :
    (afterEviction states b).Sublist (afterEviction states a) := by
  refine List.monotone_filter_right states fun state hs => ?_
  simp only [decide_eq_true_eq] at *
  exact fun hm => hs (h.subset hm)

theorem Enough.mono {a b : List StateSummary} (h : a <+: b)
    (ha : Enough limits states incomingBytes incomingEntries a) :
    Enough limits states incomingBytes incomingEntries b :=
  Within.mono ha (Nat.add_le_add_right (bytesOf_sublist (afterEviction_mono h)) _)
    (Nat.add_le_add_right (afterEviction_mono h).length_le _)

include hid in
theorem quotaEvictions_ok (hb : bytesOf states ≤ u64Max) (hl : Candidates excluded states l) :
    setup.quotaEvictions states incomingBytes incomingEntries excluded = .ok ids ↔
      ∃ evicted,
        Prefixes.Shortest (Enough setup.limits states incomingBytes incomingEntries) l evicted ∧
        ids = evicted.map StateSummary.id := by
  have hn : states.Nodup := hid.of_map
  have htotal : (states.map fun state => state.bytes.getD 0).foldl (add u64Max) 0 =
      bytesOf states := by
    rw [foldl_add_zero]
    exact Nat.min_eq_left hb
  have hfits (a) (ha : a <+: l) : setup.fits (bytesOf states - bytesOf a)
      (states.length - a.length) incomingBytes incomingEntries = true ↔
      Enough setup.limits states incomingBytes incomingEntries a :=
    enough_iff hn (fun state hm => (hl.mem (ha.subset hm)).1)
      (((hn.filter _).perm hl.perm.symm).sublist ha.sublist)
  have ⟨evicted, he, hs⟩ := @evict_eq setup l (bytesOf states) states.length incomingBytes
    incomingEntries
  rw [StateStoreSetup.quotaEvictions, htotal, ←hl.unique hid candidates_exist, he]
  simp only [ensure_bind_eq_ok, pure, Except.pure, Except.ok.injEq]
  constructor
  case mp =>
    intro ⟨hf, hids⟩
    cases hs
    case inl hs => exact ⟨evicted, hs.congr hfits, hids.symm⟩
    case inr hs => exact absurd (hs.1 ▸ hf) hs.2
  case mpr =>
    intro ⟨evicted', hs', hids⟩
    cases hs
    case inl hs => exact ⟨hs.reaches, by rw [hids, (hs.congr hfits).unique hs']⟩
    case inr hs =>
      have hl := hs'.reaches.mono hs'.initial
      exact absurd ((hfits l List.prefix_rfl).mpr hl) hs.2

-- How a plan is made, and when there is none.
structure PlanExact (setup : StateStoreSetup) (catalog : Catalog) (states : List StateSummary)
    (incomingBytes incomingEntries : Nat) (excluded : List String) : Prop where
  planned : ∀ l, Candidates excluded states l → ∀ ids,
    setup.quotaEvictionPlanExcluding incomingBytes incomingEntries excluded catalog = .ok ids ↔
      (incomingBytes ≤ setup.limits.maxNamespaceBytes ∧
        incomingEntries ≤ setup.limits.maxNamespaceEntries) ∧
      ∃ evicted,
        Prefixes.Shortest (Enough setup.limits states incomingBytes incomingEntries) l evicted ∧
        ids = evicted.map StateSummary.id
  failed : ∀ l, Candidates excluded states l →
    ((∃ error, setup.quotaEvictionPlanExcluding incomingBytes incomingEntries excluded catalog =
      .error error) ↔
      setup.limits.maxNamespaceBytes < incomingBytes ∨
      setup.limits.maxNamespaceEntries < incomingEntries ∨
      ¬Enough setup.limits states incomingBytes incomingEntries l)
  ordered : ∃ l, Candidates excluded states l
  spared : ∀ ids,
    setup.quotaEvictionPlanExcluding incomingBytes incomingEntries excluded catalog = .ok ids →
    ∀ id ∈ ids, ∃ state ∈ states, state.id = id ∧ state.pinned = false ∧ id ∉ excluded

theorem plan_exact (h : setup.scanLocked catalog = .ok states) :
    PlanExact setup catalog states incomingBytes incomingEntries excluded := by
  have ⟨he, hb⟩ := scanLocked_ok h
  have hid : (states.map StateSummary.id).Nodup := he ▸ nodup_validStates
  have hplan (l) (hl : Candidates excluded states l) (ids) :
      setup.quotaEvictionPlanExcluding incomingBytes incomingEntries excluded catalog = .ok ids ↔
        (incomingBytes ≤ setup.limits.maxNamespaceBytes ∧
          incomingEntries ≤ setup.limits.maxNamespaceEntries) ∧
        ∃ evicted,
          Prefixes.Shortest (Enough setup.limits states incomingBytes incomingEntries) l evicted ∧
          ids = evicted.map StateSummary.id := by
    rw [StateStoreSetup.quotaEvictionPlanExcluding, ensure_bind_eq_ok, h, ←quotaEvictions_ok hid hb hl]
    rfl
  constructor
  case planned => exact hplan
  case ordered => exact ⟨_, candidates_exist⟩
  case failed  =>
    intro l hl
    have hok : (∃ ids, setup.quotaEvictionPlanExcluding incomingBytes incomingEntries excluded
        catalog = .ok ids) ↔ (incomingBytes ≤ setup.limits.maxNamespaceBytes ∧
          incomingEntries ≤ setup.limits.maxNamespaceEntries) ∧
        Enough setup.limits states incomingBytes incomingEntries l := by
      simp only [hplan l hl]
      constructor
      case mp  => exact fun ⟨_, hi, _, hs, _⟩ => ⟨hi, hs.reaches.mono hs.initial⟩
      case mpr =>
        intro ⟨hi, hs⟩
        have ⟨evicted, hs⟩ := Prefixes.exists_shortest hs
        exact ⟨_, hi, evicted, hs, rfl⟩
    have hor : (∃ error, setup.quotaEvictionPlanExcluding incomingBytes incomingEntries excluded
        catalog = .error error) ↔ ¬∃ ids, setup.quotaEvictionPlanExcluding incomingBytes
          incomingEntries excluded catalog = .ok ids := by
      cases setup.quotaEvictionPlanExcluding incomingBytes incomingEntries excluded catalog
      case error error => simp
      case ok ids      => simp
    rw [hor, hok, not_and_or, not_and_or, Nat.not_le, Nat.not_le, or_assoc]
  case spared =>
    intro ids hids id hm
    have ⟨_, evicted, hs, he⟩ := (hplan _ candidates_exist ids).mp hids
    have ⟨state, hm, hi⟩ := List.mem_map.mp (he ▸ hm)
    have ⟨hstate, hpin, hex⟩ := candidates_exist.mem (hs.initial.subset hm)
    exact ⟨state, hstate, hi, hpin, hi ▸ hex⟩

end Plan

section Commit

variable {setup : StateStoreSetup} {catalog catalog' : Catalog} {ids : List String}
variable {name id : String} {entry : Entry} {removed count : Nat}

theorem Catalog.ext_entries (h : catalog.entries = catalog'.entries) : catalog = catalog' := by
  cases catalog
  cases catalog'
  cases h
  rfl

theorem Catalog.find?_eq_none :
    catalog.find? name = none ↔ ∀ entry ∈ catalog.entries, entry.1 ≠ name := by
  simp [Catalog.find?]

theorem removeStateDir_ok {u : PUnit} (h : removeStateDir name catalog = (.ok u, catalog')) :
    catalog' = catalog.remove name := by
  have ⟨_, _, hm⟩ := Attempt.read_bind_ok.mp h
  exact Attempt.modify_ok.mp hm

-- The victims that are found are removed.
theorem removeQuotaVictims_ok (h : removeQuotaVictims removed ids catalog = (.ok count, catalog')) :
    catalog' = catalog.keep fun entry => entry.1 ∉ ids := by
  induction ids generalizing removed catalog
  case nil =>
    rw [removeQuotaVictims, Attempt.pure_ok] at h
    rw [h.2]
    exact Catalog.ext_entries (by simp [Catalog.keep])
  case cons id ids hi =>
    have ⟨_, _, hc⟩ := Attempt.check_bind_ok.mp h
    rw [Attempt.gets_bind] at hc
    cases hf : (catalog.find? id).isSome
    case false =>
      have hn := Catalog.find?_eq_none.mp <| Option.isNone_iff_eq_none.mp <|
        Option.isSome_eq_false_iff.mp hf
      rw [hf] at hc
      rw [hi hc]
      refine Catalog.ext_entries (List.filter_congr fun entry he => ?_)
      simp [hn entry he]
    case true =>
      rw [hf] at hc
      have ⟨_, catalog₁, hd, hr⟩ := Attempt.bind_ok.mp hc
      rw [hi hr, removeStateDir_ok hd]
      refine Catalog.ext_entries ?_
      simp only [Catalog.remove, Catalog.keep, List.filter_filter]
      refine List.filter_congr fun entry _ => ?_
      simp [Bool.and_comm]

-- Clearing a marker changes no other entry, and only removes the journal of its own.
theorem clearQuotaMarker_ok {u : PUnit}
    (h : clearQuotaMarker name catalog = (.ok u, catalog')) :
    catalog' = catalog ∨ catalog' = catalog.update name clearMarker := by
  have ⟨marked, _, hm⟩ := Attempt.read_bind_ok.mp h
  cases marked
  case false =>
    rw [if_neg Bool.false_ne_true] at hm
    exact .inl (Attempt.pure_ok.mp hm).2
  case true =>
    rw [if_pos rfl] at hm
    exact .inr (Attempt.modify_ok.mp hm)

theorem mem_validStates {state : StateSummary} : state ∈ setup.validStates catalog ↔
    ∃ entry, (state.id, entry) ∈ catalog.entries ∧
      setup.validState (state.id, entry) = some state := by
  rw [StateStoreSetup.validStates, List.mem_filterMap]
  constructor
  case mp =>
    intro ⟨⟨name, entry⟩, hm, hv⟩
    have hn := id_of_validState hv
    exact ⟨entry, hn ▸ hm, hn ▸ hv⟩
  case mpr => exact fun ⟨entry, hm, hv⟩ => ⟨_, hm, hv⟩

-- Entries that are kept by their names keep the states that are kept.
theorem validStates_keep {kept : String → Bool} : setup.validStates (catalog.keep (kept ·.1)) =
    (setup.validStates catalog).filter (kept ·.id) := by
  rw [StateStoreSetup.validStates, StateStoreSetup.validStates, Catalog.keep, List.filter_filterMap,
    List.filterMap_filter]
  refine List.filterMap_congr fun ⟨name, entry⟩ _ => ?_
  cases hv : setup.validState (name, entry)
  case none => simp
  case some state =>
    have hn := id_of_validState hv
    simp [Option.filter, hn]

theorem remove_insert_sublist :
    ((catalog.insert name entry).remove name).entries.Sublist catalog.entries := by
  have he : ((catalog.insert name entry).remove name).entries =
      ((catalog.remove name).remove name).entries := by
    simp [Catalog.remove, Catalog.keep, Catalog.insert]
  rw [he]
  exact List.filter_sublist.trans List.filter_sublist

theorem insert_sublist {other : Catalog} (h : other.entries.Sublist catalog.entries) :
    (other.insert name entry).entries.Sublist ((name, entry) :: catalog.entries) :=
  (List.filter_sublist.trans h).cons_cons _

-- The new state in front of what was there before.
theorem publish_ok {requestedId : Option String} {state : NewStoredState} {fresh : FreshNames}
    {now : Nat} {summary : StateSummary}
    (h : setup.publish requestedId state fresh now catalog = (.ok (summary, ids), catalog')) :
    ∃ reconciled n directory, setup.reconcile now catalog = (.ok n, reconciled) ∧
      setup.quotaEvictionPlanExcluding state.payload.bytes 1 [] reconciled = .ok ids ∧
      reconciled.find? summary.id = none ∧
      directory.payload.bytes = state.payload.bytes ∧
      catalog'.entries.Sublist ((summary.id, .state directory) :: reconciled.entries) := by
  have ⟨_, _, h₁⟩ := Attempt.check_bind_ok.mp h
  have ⟨n, reconciled, hr, h₂⟩ := Attempt.bind_ok.mp h₁
  have ⟨evictions, hp, h₃⟩ := Attempt.read_bind_ok.mp h₂
  have ⟨_, hf, h₄⟩ := Attempt.read_bind_ok.mp h₃
  have ⟨_, hs, h₅⟩ := Attempt.read_bind_ok.mp h₄
  have h₆ := Attempt.modify_bind_ok.mp h₅
  have ⟨journal, _, h₇⟩ := Attempt.check_bind_ok.mp h₆
  have h₈ := Attempt.modify_bind_ok.mp h₇
  have ⟨_, _, h₉⟩ := Attempt.check_bind_ok.mp h₈
  have h₁₀ := Attempt.modify_bind_ok.mp h₉
  have ⟨he, hc⟩ := Attempt.pure_ok.mp h₁₀
  have hids : ids = evictions := (Prod.mk.inj he).2
  have hid : summary.id = requestedId.getD fresh.id := by rw [(Prod.mk.inj he).1]; rfl
  rw [hids, hid, hc]
  refine ⟨reconciled, n, _, hr, hp, ?_, rfl, insert_sublist remove_insert_sublist⟩
  exact Option.isNone_iff_eq_none.mp (ensure_eq_ok.mp hf)

theorem update_sublist {directory : StateDirectory} {entries : List (String × Entry)}
    (hn : ∀ entry ∈ entries, entry.1 ≠ name)
    (h : catalog.entries.Sublist ((name, .state directory) :: entries)) :
    (catalog.update name clearMarker).entries.Sublist
      ((name, clearMarker (.state directory)) :: entries) := by
  have hm := h.map fun entry : String × Entry =>
    (entry.1, if entry.1 = name then clearMarker entry.2 else entry.2)
  rw [List.map_cons, if_pos rfl] at hm
  have he : (entries.map fun entry : String × Entry =>
      (entry.1, if entry.1 = name then clearMarker entry.2 else entry.2)) = entries := by
    refine (List.map_congr_left fun entry hm => ?_).trans (List.map_id _)
    rw [if_neg (hn entry hm)]
    rfl
  rwa [he] at hm

-- What is left after the evictions is the new state and what is not evicted.
theorem cleanup_ok {reconciled : Catalog} {directory : StateDirectory} {u : PUnit}
    {catalog'' : Catalog} (hf : reconciled.find? id = none)
    (hs : catalog'.entries.Sublist ((id, .state directory) :: reconciled.entries))
    (h : cleanup id ids catalog' = (.ok u, catalog'')) :
    ∃ directory' : StateDirectory, directory'.payload.bytes = directory.payload.bytes ∧
      catalog''.entries.Sublist
        ((id, .state directory') :: (reconciled.keep fun entry => entry.1 ∉ ids).entries) := by
  have hn := Catalog.find?_eq_none.mp hf
  rw [cleanup] at h
  split at h
  case isTrue he =>
    have ⟨_, hc⟩ := Attempt.pure_ok.mp h
    refine ⟨directory, rfl, ?_⟩
    rw [hc, he]
    simpa [Catalog.keep] using hs
  case isFalse =>
    have ⟨_, kept, hr, hm⟩ := Attempt.bind_ok.mp h
    have hk := removeQuotaVictims_ok hr
    have hs : kept.entries.Sublist
        ((id, .state directory) :: (reconciled.keep fun entry => entry.1 ∉ ids).entries) := by
      rw [hk]
      refine (hs.filter _).trans ?_
      rw [List.filter_cons]
      split
      · exact .refl _
      · exact (List.Sublist.refl _).cons _
    cases clearQuotaMarker_ok hm
    case inl hc => exact ⟨directory, rfl, hc ▸ hs⟩
    case inr hc =>
      let cleared := { directory with quotaEvictions := none }
      refine ⟨cleared, rfl, hc ▸ update_sublist (fun entry he => ?_) hs⟩
      exact hn entry (List.mem_of_mem_filter he)

theorem bytes_of_validState {directory : StateDirectory} {state : StateSummary}
    (h : setup.validState (name, .state directory) = some state) :
    state.bytes.getD 0 = directory.payload.bytes := by
  have ⟨metadata, _, _, hr, _, he⟩ := validState_eq_some.mp h
  have ⟨_, hd, _, _, _, hb, _⟩ := readState_ok hr
  cases hd
  rw [he]
  exact hb

theorem bounded_of_sublist {directory : StateDirectory} {reconciled : Catalog}
    (h : catalog.entries.Sublist ((name, .state directory) :: reconciled.entries)) :
    bytesOf (setup.validStates catalog) ≤
      bytesOf (setup.validStates reconciled) + directory.payload.bytes ∧
    (setup.validStates catalog).length ≤ (setup.validStates reconciled).length + 1 := by
  have hs := h.filterMap setup.validState
  have hb := bytesOf_sublist hs
  have hl := hs.length_le
  rw [List.filterMap_cons] at hb hl
  cases hv : setup.validState (name, .state directory)
  case none =>
    rw [hv] at hb hl
    exact ⟨Nat.le_add_right_of_le hb, Nat.le_add_right_of_le hl⟩
  case some state =>
    rw [hv, bytesOf_cons, bytes_of_validState hv, Nat.add_comm] at hb
    rw [hv, List.length_cons] at hl
    exact ⟨hb, hl⟩

-- The states that a plan evicts are those that it names.
theorem filter_eq_afterEviction {states evicted : List StateSummary}
    (hid : (states.map StateSummary.id).Nodup) (hs : ∀ state ∈ evicted, state ∈ states) :
    (states.filter fun state => state.id ∉ evicted.map StateSummary.id) =
      afterEviction states evicted := by
  refine List.filter_congr fun state hm => ?_
  rw [decide_eq_decide, not_iff_not]
  constructor
  case mp =>
    intro hi
    have ⟨other, ho, he⟩ := List.mem_map.mp hi
    exact List.inj_on_of_nodup_map hid (hs other ho) hm he ▸ ho
  case mpr => exact List.mem_map_of_mem

-- What a commit does to the states of a catalog.
structure CommitExact (setup : StateStoreSetup) (requestedId : Option String)
    (state : NewStoredState) (fresh : FreshNames) (now : Nat) (catalog : Catalog) : Prop where
  -- A failed plan leaves the reconciled catalog as it is.
  unchanged : ∀ n reconciled error, setup.validateNewState state = .ok ⟨⟩ →
    setup.reconcile now catalog = (.ok n, reconciled) →
    setup.quotaEvictionPlanExcluding state.payload.bytes 1 [] reconciled = .error error →
    setup.commitInner requestedId state fresh now catalog = (.error error, reconciled)
  within : ∀ summary ids published cleaned,
    setup.publish requestedId state fresh now catalog = (.ok (summary, ids), published) →
    cleanup summary.id ids published = (.ok ⟨⟩, cleaned) →
    setup.commitInner requestedId state fresh now catalog = (.ok summary, cleaned) ∧
    Within setup.limits (bytesOf (setup.validStates cleaned)) (setup.validStates cleaned).length

theorem commit_exact {requestedId : Option String} {state : NewStoredState} {fresh : FreshNames}
    {now : Nat} : CommitExact setup requestedId state fresh now catalog := by
  constructor
  case unchanged =>
    intro n reconciled error hv hr hp
    have hpublish : setup.publish requestedId state fresh now catalog = (.error error, reconciled) := by
      rw [StateStoreSetup.publish, Attempt.check_bind hv,
        Attempt.bind_of_ok hr]
      exact Attempt.bind_of_error (Prod.ext hp rfl)
    rw [StateStoreSetup.commitInner]
    exact Attempt.bind_of_error hpublish
  case within =>
    intro summary ids published cleaned hp hc
    constructor
    case left =>
      rw [StateStoreSetup.commitInner, Attempt.bind_of_ok hp]
      have hi : Attempt.ignore (cleanup summary.id ids) published = (.ok ⟨⟩, cleaned) := by
        rw [Attempt.ignore, hc]
      exact Attempt.bind_of_ok hi
    case right =>
      have ⟨reconciled, n, directory, _, hplan, hf, hb, hs⟩ := publish_ok hp
      have ⟨directory', hb', hs'⟩ := cleanup_ok hf hs hc
      have ⟨hbytes, hlength⟩ := @bounded_of_sublist setup _ _ _ _ hs'
      have ⟨_, hq⟩ := ensure_bind_eq_ok.mp hplan
      have ⟨states, hscan, _⟩ := bind_eq_ok.mp hq
      have he := (scanLocked_ok hscan).1
      have ⟨_, evicted, hshort, hids⟩ :=
        ((plan_exact hscan).planned _ candidates_exist ids).mp hplan
      have hmem (other) (hm : other ∈ evicted) : other ∈ setup.validStates reconciled :=
        he ▸ (candidates_exist.mem (hshort.initial.subset hm)).1
      have hrest : setup.validStates (reconciled.keep fun entry => entry.1 ∉ ids) =
          afterEviction states evicted := by
        rw [@validStates_keep setup reconciled (fun id => id ∉ ids), hids,
          filter_eq_afterEviction nodup_validStates hmem, he]
      rw [hrest, hb', hb] at hbytes
      rw [hrest] at hlength
      exact Within.mono hshort.reaches hbytes hlength

end Commit

-- Plans are exact, and with them the catalog stays within its limits.
theorem quota_plan_exact {setup : StateStoreSetup} {catalog : Catalog} :
    (∀ states incomingBytes incomingEntries excluded, setup.scanLocked catalog = .ok states →
      PlanExact setup catalog states incomingBytes incomingEntries excluded) ∧
    ∀ requestedId state fresh now, CommitExact setup requestedId state fresh now catalog :=
  ⟨fun _ _ _ _ => plan_exact, fun _ _ _ _ => commit_exact⟩

section Samples

def sampleEnvelope : CompatibilityEnvelope where
  modelFingerprint                := "m"
  tokenizerFingerprint            := "t"
  promptFingerprint               := "p"
  chatTemplateFingerprint         := none
  backend                         := "b"
  backendVersion                  := "1"
  runtimeAdapterVersion           := "1"
  acceleratorFamily               := "cpu"
  tensorDtype                     := "f16"
  kvDtype                         := "f16"
  quantization                    := "none"
  cacheLayout                     := "paged"
  blockSize                       := none
  context                         := ⟨1, none, none⟩
  multimodalProcessorFingerprints := []
  producerProtocol                := protocolV1

def sampleDirectory (id : String) (bytes : Nat) : StateDirectory where
  metadata       := {
    id
    modelId              := "model"
    backend              := "b"
    compatibility        := sampleEnvelope
    payloadBytes         := bytes
    payloadSha256        := "s"
    quotaEvictionsSha256 := none
    promptTokens         := 0
    createdUnixMs        := 0
    lastAccessedUnixMs   := 0
    expiresUnixMs        := none }
  payload        := ⟨bytes, "s"⟩
  pinned         := false
  lastAccessed   := none
  quotaEvictions := none

def sampleSetup (maxNamespaceBytes : Nat) : StateStoreSetup where
  limits := ⟨2 ^ 63, maxNamespaceBytes, 8, 8⟩
  sha256 := fun _ => "s"
  render := fun _ => 0

def sampleCatalog (bytes : Nat) : Catalog where
  entries := [("st_a", .state (sampleDirectory "st_a" bytes))]
  nodup   := List.nodup_singleton _

def sampleSummary (bytes : Nat) : StateSummary :=
  summaryFromMetadata (sampleDirectory "st_a" bytes).metadata false

theorem quota_plan_exact_sample :
    PlanExact (sampleSetup 10) (sampleCatalog 5) [sampleSummary 5] 6 1 [] ∧
    (sampleSetup 10).quotaEvictionPlanExcluding 6 1 [] (sampleCatalog 5) = .ok ["st_a"] :=
  ⟨quota_plan_exact.1 [sampleSummary 5] 6 1 [] (by decide), by decide⟩

-- The greatest limit is no limit: the total is beyond it, but nothing is evicted.
theorem unlimited_quota_exceeded :
    let setup := sampleSetup u64Max
    let states := [sampleSummary (2 ^ 63)]
    setup.scanLocked (sampleCatalog (2 ^ 63)) = .ok states ∧
    setup.quotaEvictionPlanExcluding (2 ^ 63) 1 [] (sampleCatalog (2 ^ 63)) = .ok [] ∧
    setup.limits.maxNamespaceBytes < bytesOf (afterEviction states []) + 2 ^ 63 := by
  decide

end Samples

end RuntimeControl.States
