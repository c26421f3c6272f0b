import WerkModel.Backend.RuntimeCache

-- Preload transactions: an operation accesses slots, which are captured, and they are released when
-- the operation has failed or when the handle of the transaction is dropped.
namespace Backend
namespace RuntimeCache

section Transactions

variable {κ : Type}

-- What other threads do between two steps of the transaction, while it waits for a slot and while
-- it loads a resource, and what it sees of them when it asks the registry.
structure Others (κ : Type) where
  view    : View
  between : Cache κ → Cache κ := id
  waiting : Cache κ → Cache κ := id
  loading : Cache κ → Cache κ := id

inductive Failure
  | refused (refusal : Refusal)
  | load
  deriving DecidableEq

structure Access (κ : Type) where
  key    : κ
  valid  : Nat → Bool
  -- Whether the resource can be loaded.
  loads  : Bool
  others : Others κ

abbrev Result :=
  Except Failure (Nat × Bool)

def Cache.getOrTryInit [DecidableEq κ] (cache : Cache κ) (config : Config) (access : Access κ)
    (scope : Option (List CapturedSlot)) : Cache κ × Option (List CapturedSlot) × Result :=
  match cache.acquire access.others.view config scope.isSome access.key with
  | (cache, .error refusal) => (cache, scope, .error (.refused refusal))
  | (cache, .ok (slot, _))  =>
    let cache := access.others.waiting cache
    match cache.existing? slot access.valid with
    | some existing =>
      let captured := cache.capture scope slot existing false
      (captured.1, captured.2, .ok (existing, true))
    | none =>
      let cache := access.others.loading (cache.setValue slot none)
      if access.loads then
        let captured := (cache.load slot).capture scope slot cache.nextValue true
        (captured.1, captured.2, .ok (cache.nextValue, false))
      else
        (cache, scope, .error .load)

structure Transaction (κ : Type) where
  cache    : Cache κ
  captured : List CapturedSlot := []

namespace Transaction

variable [DecidableEq κ] (tx : Transaction κ)

def access (config : Config) (access : Access κ) : Transaction κ × Result :=
  match (access.others.between tx.cache).getOrTryInit config access (some tx.captured) with
  | (cache, scope, result) => ({ cache, captured := scope.getD [] }, result)

-- A transaction that has captured nothing fails, even if its operation has succeeded.
def finish (succeeds : Bool) : Cache κ × Option (List CapturedSlot) :=
  if succeeds && !tx.captured.isEmpty then
    (tx.cache, some tx.captured)
  else
    (tx.cache.releaseAll tx.captured false, none)

def held : List Nat :=
  tx.captured.map CapturedSlot.slot

end Transaction

variable [DecidableEq κ]

-- Other threads access other keys. They keep the resources and the pins of these keys, and an entry
-- stays as long as the transaction refers to its slot.
structure Undisturbed (keys : Set κ) (held : List Nat) (cache cache' : Cache κ) : Prop where
  wellFormed : cache'.WellFormed
  content    : ∀ key ∈ keys, cache'.content key = cache.content key
  held       : ∀ key ∈ keys, ∀ slot ∈ held, cache.lookup key = some slot →
    cache'.lookup key = some slot
  nextValue  : cache.nextValue ≤ cache'.nextValue
  elsewhere  : ∀ key ∉ keys, ∀ value ∈ (cache'.content key).value,
    cache.nextValue ≤ value ∨ ∃ other ∉ keys, (cache.content other).value = some value

-- Each pin belongs to a captured slot, which is a reference to it.
structure View.Counts (view : View) (held : List Nat) (cache : Cache κ) : Prop where
  held : ∀ slot ∈ held, 1 < view.strongCount slot
  pins : ∀ slot, 0 < (cache.slots slot).pins → 1 < view.strongCount slot

structure Access.Apart (access : Access κ) (config : Config) (keys : Set κ) (tx : Transaction κ) :
    Prop where
  between : Undisturbed keys tx.held tx.cache (access.others.between tx.cache)
  view    : access.others.view.Counts tx.held (access.others.between tx.cache)
  waiting : ∀ cache slot evicted, (access.others.between tx.cache).acquire access.others.view config
    true access.key = (cache, .ok (slot, evicted)) →
    Undisturbed keys (slot :: tx.held) cache (access.others.waiting cache) ∧
      Undisturbed keys (slot :: tx.held) ((access.others.waiting cache).setValue slot none)
        (access.others.loading ((access.others.waiting cache).setValue slot none))

-- The transactions on some keys that no other thread accesses.
def transactions (config : Config) (keys : Set κ) (before : Cache κ) :
    System (Transaction κ) (Access κ) Result where
  Init tx := tx = { cache := before } ∧ before.WellFormed
  Step tx access result tx' :=
    access.key ∈ keys ∧ access.Apart config keys tx ∧ tx.access config access = (tx', result)

end Transactions

-- What a transaction has done, the latest access first.
section History

variable {κ : Type}

abbrev History (κ : Type) :=
  List (Access κ × Result)

def Accessed (h : History κ) (key : κ) : Prop :=
  ∃ event ∈ h, event.1.key = key ∧ event.2.isOk = true

def loadedBy (h : History κ) : List Nat :=
  h.filterMap fun event => match event.2 with
    | .ok (value, false) => some value
    | _                  => none

-- The resource is valid whenever its key is accessed.
def StillValid (h : History κ) (key : κ) (value : Nat) : Prop :=
  ∀ event ∈ h, event.1.key = key → event.1.valid value = true

variable {h : History κ} {access : Access κ} {result : Result} {key : κ} {value : Nat}

theorem accessed_cons : Accessed ((access, result) :: h) key ↔
    access.key = key ∧ result.isOk = true ∨ Accessed h key := by
  simp [Accessed]

theorem stillValid_cons : StillValid ((access, result) :: h) key value ↔
    (access.key = key → access.valid value = true) ∧ StillValid h key value := by
  simp [StillValid]

theorem loadedBy_hit : loadedBy ((access, .ok (value, true)) :: h) = loadedBy h := rfl

theorem loadedBy_failed {failure : Failure} :
    loadedBy ((access, .error failure) :: h) = loadedBy h := rfl

theorem loadedBy_loaded : loadedBy ((access, .ok (value, false)) :: h) = value :: loadedBy h := rfl

-- The last attempt to load the key has failed, or it comes before each other access that has
-- succeeded.
def Attributed [DecidableEq κ] : History κ → κ → Prop
  | [], _ => True
  | (access, result) :: h, key =>
    if access.key = key then
      match result with
      | .ok (_, true)  => Attributed h key
      | .ok (_, false) => ¬Accessed h key
      | .error _       => True
    else
      Attributed h key

theorem attributed_of_not_accessed [DecidableEq κ] {h : History κ} (ha : ¬Accessed h key) :
    Attributed h key := by
  induction h
  case nil => exact trivial
  case cons event h hi =>
    obtain ⟨access, result⟩ := event
    have hold := (not_or.mp (mt accessed_cons.mpr ha)).right
    unfold Attributed
    split
    case isFalse => exact hi hold
    case isTrue  =>
      split
      case h_1 => exact hi hold
      case h_2 => exact hold
      case h_3 => exact trivial

end History

section Undisturbed

variable {κ : Type} [DecidableEq κ] {keys : Set κ} {held : List Nat} {cache cache' : Cache κ}
variable {key other : κ} {slot : Nat}

theorem Cache.WellFormed.eq_of_lookup (w : cache.WellFormed) (h : cache.lookup key = some slot)
    (h' : cache.lookup other = some slot) : key = other :=
  congrArg Prod.fst <|
    List.inj_on_of_nodup_map w.slots (mem_of_lookup h) (mem_of_lookup h') rfl

theorem Cache.WellFormed.value_lt (w : cache.WellFormed) :
    ∀ value ∈ (cache.content key).value, value < cache.nextValue := by
  intro value hv
  cases hl : cache.lookup key
  case none   => rw [content_of_lookup_none hl] at hv; nomatch hv
  case some _ => exact w.value _ value (content_of_lookup hl ▸ hv)

theorem Undisturbed.mono {held' : List Nat} (h : Undisturbed keys held cache cache')
    (hs : held' ⊆ held) : Undisturbed keys held' cache cache' where
  wellFormed            := h.wellFormed
  content               := h.content
  held key hk slot hm   := h.held key hk slot (hs hm)
  nextValue             := h.nextValue
  elsewhere             := h.elsewhere

theorem Cache.lookup_move (w : cache.WellFormed) (hl : cache.lookup key = some slot) :
    Cache.lookup { cache with entries := cache.entries.eraseP (·.1 = key) ++ [(key, slot)] } other =
      cache.lookup other := by
  refine Option.ext fun slot' => ?_
  exact lookup_congr w.keys (w.of_perm (perm_move hl)).keys (mem_move w hl)

theorem Cache.lookup_insert (hl : cache.lookup key = none) :
    (cache.insert key).lookup other = if other = key then some cache.nextSlot
      else cache.lookup other := by
  have hn := Option.map_eq_none_iff.mp hl
  split
  case isTrue h  => subst h; simp [Cache.lookup, Cache.insert, List.find?_append, hn]
  case isFalse h => simp [Cache.lookup, Cache.insert, List.find?_append, Ne.symm h]

theorem Cache.content_insert (w : cache.WellFormed) (hl : cache.lookup key = none) :
    (cache.insert key).content other = cache.content other := by
  rw [content, lookup_insert hl]
  split
  case isTrue h  => simp [h, content_of_lookup_none hl, Cache.insert, setSlot]
  case isFalse h =>
    cases ho : cache.lookup other
    case none      => rw [content_of_lookup_none ho, Option.elim_none]
    case some slot =>
      rw [content_of_lookup ho, Option.elim_some]
      exact Function.update_of_ne (w.slot _ (mem_of_lookup ho)).ne _ _

omit [DecidableEq κ] in
theorem Cache.keeps_of_counts {view : View} (hv : view.Counts held cache) {entry : κ × Nat}
    (h : cache.keeps view entry = false) : cache.slots entry.2 = {} := by
  obtain ⟨hs, hn⟩ := Bool.or_eq_false_iff.mp h
  have hp : (cache.slots entry.2).pins = 0 := by
    have := mt (hv.pins entry.2) (of_decide_eq_false hs)
    omega
  have hn : (cache.slots entry.2).value = none := by
    by_cases hl : view.locked entry.2 <;> simp_all [tryLock]
  rw [CacheSlot.mk.injEq]
  exact ⟨hn, hp⟩

theorem Cache.lookup_retain {view : View} (w : cache.WellFormed)
    (hl : cache.lookup key = some slot) (hk : cache.keeps view (key, slot) = true) :
    (cache.retain view).lookup key = some slot :=
  (lookup_eq_some w.retain.keys).mpr (List.mem_filter.mpr ⟨mem_of_lookup hl, hk⟩)

-- The registry drops only entries that hold nothing.
theorem Cache.content_retain {view : View} (w : cache.WellFormed) (hv : view.Counts held cache) :
    (cache.retain view).content key = cache.content key := by
  cases hl : cache.lookup key
  case none =>
    rw [content_of_lookup_none hl,
      content_of_lookup_none (lookup_eq_none_of_subset hl retain_entries_subset)]
  case some slot =>
    rw [content_of_lookup hl]
    cases hk : cache.keeps view (key, slot)
    case true  => exact content_of_lookup (lookup_retain w hl hk)
    case false =>
      have hn : (cache.retain view).lookup key = none := by
        refine lookup_eq_none.mpr fun entry he h => ?_
        obtain ⟨he, hk'⟩ := List.mem_filter.mp he
        obtain rfl := List.inj_on_of_nodup_map w.keys he (mem_of_lookup hl) h
        rw [hk] at hk'
        nomatch hk'
      rw [content_of_lookup_none hn, keeps_of_counts hv hk]

-- In a transaction the registry always returns a slot, and evicts nothing.
theorem Cache.acquire_undisturbed {view : View} {config : Config}
    {result : Except Refusal (Nat × Option (κ × Nat))} (w : cache.WellFormed)
    (hv : view.Counts held cache) (hk : key ∈ keys)
    (h : cache.acquire view config true key = (cache', result)) :
    Undisturbed keys held cache cache' ∧
      ∃ slot, result = .ok (slot, none) ∧ cache'.lookup key = some slot := by
  have h := acquires h
  have w' := h.wellFormed w
  have hn := h.nextValue_eq
  cases h
  case refused hp _ _ _ => cases hp
  case evicted hp _     => cases hp
  case found slot hl =>
    have hm {other : κ} := @lookup_move _ _ _ _ other _ w hl
    refine ⟨⟨w', fun _ _ => ?_, fun _ _ _ _ => hm.trans, hn.ge, fun other ho v hv => ?_⟩,
      slot, rfl, hm.trans hl⟩
    · rw [content, content, hm]
    · rw [content, hm] at hv
      exact .inr ⟨other, ho, hv⟩
  case inserted hl =>
    have hr : (cache.retain view).lookup key = none :=
      lookup_eq_none_of_subset hl retain_entries_subset
    have hc {other} : ((cache.retain view).insert key).content other = cache.content other :=
      (content_insert w.retain hr).trans (content_retain w hv)
    refine ⟨⟨w', fun _ _ => hc, fun other _ slot hs ho => ?_, hn.ge, fun other ho v hv => ?_⟩,
      _, rfl, by rw [lookup_insert hr, if_pos rfl]; rfl⟩
    · have hne : other ≠ key := by rintro rfl; rw [hl] at ho; cases ho
      rw [lookup_insert hr, if_neg hne]
      exact lookup_retain w ho (by simp [keeps, hv.held slot hs])
    · exact .inr ⟨other, ho, hc ▸ hv⟩

end Undisturbed

section Captures

variable {κ : Type} [DecidableEq κ] {keys : Set κ} {cache cache' : Cache κ} {key other : κ}
variable {slot : Nat}

def Transaction.captureOf (tx : Transaction κ) (key : κ) : Option CapturedSlot :=
  tx.captured.find? fun captured => tx.cache.lookup key = some captured.slot

theorem Transaction.lookup_of_captureOf {tx : Transaction κ} {captured : CapturedSlot}
    (h : tx.captureOf key = some captured) : tx.cache.lookup key = some captured.slot := by
  simpa using List.find?_some h

theorem Transaction.mem_of_captureOf {tx : Transaction κ} {captured : CapturedSlot}
    (h : tx.captureOf key = some captured) : captured ∈ tx.captured :=
  List.mem_of_find?_eq_some h

theorem Cache.content_setSlot (w : cache.WellFormed) (hl : cache.lookup key = some slot)
    (content : CacheSlot) :
    (cache.setSlot slot content).content other =
      if other = key then content else cache.content other := by
  have hs {key} : (cache.setSlot slot content).lookup key = cache.lookup key := rfl
  split
  case isTrue h =>
    rw [h, content_of_lookup (hs.trans hl)]
    exact Function.update_self ..
  case isFalse h =>
    cases ho : cache.lookup other
    case none => rw [content_of_lookup_none ho, content_of_lookup_none (hs.trans ho)]
    case some slot' =>
      have hne : slot' ≠ slot := by
        rintro rfl
        exact h (w.eq_of_lookup ho hl)
      rw [content_of_lookup ho, content_of_lookup (hs.trans ho)]
      exact Function.update_of_ne hne ..

omit [DecidableEq κ] in
theorem Cache.WellFormed.setSlot (w : cache.WellFormed) {content : CacheSlot}
    (hv : ∀ value ∈ content.value, value < cache.nextValue) :
    (cache.setSlot slot content).WellFormed where
  keys  := w.keys
  slots := w.slots
  slot  := w.slot
  value slot' value h := by
    simp only [Cache.setSlot, Function.update_apply] at h
    split at h
    case isTrue  => exact hv value h
    case isFalse => exact w.value slot' value h

omit [DecidableEq κ] in
theorem Cache.WellFormed.load (w : cache.WellFormed) : (cache.load slot).WellFormed where
  keys  := w.keys
  slots := w.slots
  slot  := w.slot
  value slot' value h := by
    simp only [Cache.load, Cache.setValue, Cache.setSlot, Function.update_apply] at h
    split at h
    case isTrue  => exact (Option.some.inj h) ▸ Nat.lt_succ_self _
    case isFalse => exact (w.value slot' value h).trans (Nat.lt_succ_self _)

-- What capturing a slot for its key changes.
structure Captures (key : κ) (new : CapturedSlot) (tx tx' : Transaction κ) : Prop where
  wellFormed : tx'.cache.WellFormed
  nodup      : tx.held.Nodup → tx'.held.Nodup
  lookup     : tx'.cache.lookup = tx.cache.lookup
  nextValue  : tx'.cache.nextValue = tx.cache.nextValue
  value      : ∀ key, (tx'.cache.content key).value = (tx.cache.content key).value
  self       : tx'.captureOf key = some ((tx.captureOf key).getD new)
  other      : ∀ other ≠ key, tx'.captureOf other = tx.captureOf other ∧
    (tx'.cache.content other).pins = (tx.cache.content other).pins
  pins       : (tx'.cache.content key).pins =
    (tx.cache.content key).pins + if (tx.captureOf key).isSome then 0 else 1
  captured   : ∀ captured ∈ tx'.captured, captured ∈ tx.captured ∨
    tx.captureOf key = none ∧ captured = new

theorem captures {captured captured' : List CapturedSlot} {loaded : Nat} {fresh : Bool}
    (w : cache.WellFormed) (hl : cache.lookup key = some slot)
    (h : cache.capture (some captured) slot loaded fresh = (cache', some captured')) :
    Captures key ⟨slot, loaded, fresh⟩ ⟨cache, captured⟩ ⟨cache', captured'⟩ := by
  have hf : captured.any (·.slot = slot) =
      (Transaction.captureOf ⟨cache, captured⟩ key).isSome := by
    rw [Bool.eq_iff_iff, List.any_eq_true, Transaction.captureOf, List.find?_isSome]
    simp [hl, eq_comm]
  rw [Cache.capture] at h
  split at h
  case isTrue ha =>
    obtain ⟨rfl, rfl⟩ : cache = cache' ∧ captured = captured' := by simpa using h
    rw [hf] at ha
    obtain ⟨old, ho⟩ := Option.isSome_iff_exists.mp ha
    refine ⟨w, id, rfl, rfl, fun _ => rfl, ?_, fun _ _ => ⟨rfl, rfl⟩, ?_, fun _ => .inl⟩
    · rw [ho, Option.getD_some]
    · rw [ho]; rfl
  case isFalse ha =>
    obtain ⟨rfl, rfl⟩ := (Prod.mk.inj h).imp_right Option.some.inj
    have hn : Transaction.captureOf ⟨cache, captured⟩ key = none := by
      rw [hf] at ha
      simpa using ha
    have hs {key} : (cache.addPins slot (· + 1)).lookup key = cache.lookup key := rfl
    have hc {other} : (cache.addPins slot (· + 1)).content other = _ :=
      cache.content_setSlot w hl _
    refine ⟨w.setSlot (w.value slot), fun hd => ?_, rfl, rfl, fun other => ?_, ?_, fun other ho => ?_,
      ?_, fun captured h => ?_⟩
    case refine_1 =>
      have hm : slot ∉ captured.map CapturedSlot.slot := by simpa using ha
      rw [Transaction.held, List.map_append, List.nodup_append]
      refine ⟨hd, List.nodup_singleton _, fun slot' hs' _ h => ?_⟩
      obtain rfl := List.mem_singleton.mp h
      exact fun h => hm (h ▸ hs')
    case refine_2 =>
      rw [hc]
      split
      case isTrue h  => rw [h, Cache.content_of_lookup hl]
      case isFalse h => rfl
    case refine_3 =>
      rw [hn, Option.getD_none, Transaction.captureOf, List.find?_append]
      exact (congrArg (Option.or · _) hn).trans (by simp [hs, hl])
    case refine_4 =>
      have hne : cache.lookup other ≠ some slot := fun h => ho (w.eq_of_lookup h hl)
      rw [hc, if_neg ho, Transaction.captureOf, List.find?_append]
      exact ⟨(congrArg (Option.or _) (by simp [hs, hne])).trans Option.or_none, rfl⟩
    case refine_5 => rw [hc, if_pos rfl, hn, Cache.content_of_lookup hl]; rfl
    case refine_6 =>
      exact (List.mem_append.mp h).imp_right fun h => ⟨hn, List.mem_singleton.mp h⟩

end Captures

-- What holds during a transaction. The resource of a key is attributed to the transaction if it has
-- loaded it and if it removes it when it fails.
section Tracks

variable {κ : Type} [DecidableEq κ] {config : Config} {keys : Set κ} {before cache : Cache κ}
variable {h : History κ} {tx tx' : Transaction κ} {access : Access κ} {result : Result} {key : κ}
variable {value : Nat}

structure Tracks (keys : Set κ) (before : Cache κ) (h : History κ) (tx : Transaction κ) :
    Prop where
  wellFormed : tx.cache.WellFormed
  nodup      : tx.held.Nodup
  captured   : ∀ captured ∈ tx.captured, ∃ key ∈ keys, tx.captureOf key = some captured
  below      : ∀ captured ∈ tx.captured, captured.loaded < tx.cache.nextValue
  fresh      : ∀ captured ∈ tx.captured, captured.fresh = true → captured.loaded ∈ loadedBy h
  loaded     : ∀ value ∈ loadedBy h, before.nextValue ≤ value ∧ value < tx.cache.nextValue
  nextValue  : before.nextValue ≤ tx.cache.nextValue
  elsewhere  : ∀ key ∉ keys, ∀ value ∈ (tx.cache.content key).value, value ∉ loadedBy h
  accessed   : ∀ key ∈ keys, Accessed h key ↔ (tx.captureOf key).isSome = true
  pins       : ∀ key ∈ keys, (tx.cache.content key).pins =
    (before.content key).pins + if (tx.captureOf key).isSome then 1 else 0
  attributed : ∀ key ∈ keys, Attributed h key ↔
    ∀ value ∈ (tx.cache.content key).value, value ∈ loadedBy h →
      ∃ captured ∈ tx.captureOf key, captured.fresh = true ∧ captured.loaded = value
  kept       : ∀ key ∈ keys, ∀ value, (before.content key).value = some value →
    StillValid h key value → (tx.cache.content key).value = some value

theorem Tracks.init (w : before.WellFormed) : Tracks keys before [] { cache := before } where
  wellFormed := w
  nodup      := List.nodup_nil
  captured   := by simp
  below      := by simp
  fresh      := by simp
  loaded     := by simp [loadedBy]
  nextValue  := le_rfl
  elsewhere  := by simp [loadedBy]
  accessed   := by simp [Accessed, Transaction.captureOf]
  pins       := by simp [Transaction.captureOf]
  attributed := by simp [Attributed, loadedBy]
  kept _ _ _ hv _ := hv

theorem Tracks.captureOf_eq (t : Tracks keys before h tx)
    (hu : Undisturbed keys tx.held tx.cache cache) (hk : key ∈ keys) :
    Transaction.captureOf ⟨cache, tx.captured⟩ key = tx.captureOf key := by
  have hl : ∀ captured ∈ tx.captured,
      decide (cache.lookup key = some captured.slot) =
        decide (tx.cache.lookup key = some captured.slot) := by
    intro captured hc
    rw [decide_eq_decide]
    have hm : captured.slot ∈ tx.held := List.mem_map_of_mem hc
    constructor
    case mpr => exact hu.held key hk _ hm
    case mp =>
      intro h
      obtain ⟨other, ho, hc⟩ := t.captured captured hc
      have ho := Transaction.lookup_of_captureOf hc
      obtain rfl := hu.wellFormed.eq_of_lookup h (hu.held other ‹_› _ hm ho)
      exact ho
  rw [Transaction.captureOf, Transaction.captureOf, ←List.head?_filter, ←List.head?_filter,
    List.filter_congr hl]

-- Other threads do not change what holds.
theorem Tracks.undisturbed (t : Tracks keys before h tx)
    (hu : Undisturbed keys tx.held tx.cache cache) :
    Tracks keys before h ⟨cache, tx.captured⟩ where
  wellFormed := hu.wellFormed
  nodup      := t.nodup
  captured captured hc := by
    obtain ⟨key, hk, hc⟩ := t.captured captured hc
    exact ⟨key, hk, (t.captureOf_eq hu hk).trans hc⟩
  below captured hc := (t.below captured hc).trans_le hu.nextValue
  fresh      := t.fresh
  loaded value hv := (t.loaded value hv).imp_right (·.trans_le hu.nextValue)
  nextValue  := t.nextValue.trans hu.nextValue
  elsewhere key hk value hv hm := by
    obtain hn | ⟨other, ho, hv⟩ := hu.elsewhere key hk value hv
    · exact absurd (t.loaded value hm).right hn.not_gt
    · exact t.elsewhere other ho value hv hm
  accessed key hk := by rw [t.captureOf_eq hu hk, t.accessed key hk]
  pins key hk := by rw [t.captureOf_eq hu hk, hu.content key hk, t.pins key hk]
  attributed key hk := by rw [t.captureOf_eq hu hk, hu.content key hk, t.attributed key hk]
  kept key hk := by rw [hu.content key hk]; exact t.kept key hk

theorem Captures.captured_of {new : CapturedSlot} (hc : Captures key new tx tx') (hk : key ∈ keys)
    (ht : ∀ captured ∈ tx.captured, ∃ key ∈ keys, tx.captureOf key = some captured) :
    ∀ captured ∈ tx'.captured, ∃ key ∈ keys, tx'.captureOf key = some captured := by
  intro captured hm
  obtain hm | ⟨hn, rfl⟩ := hc.captured captured hm
  case inr => exact ⟨key, hk, by rw [hc.self, hn, Option.getD_none]⟩
  case inl =>
    obtain ⟨other, ho, h⟩ := ht captured hm
    refine ⟨other, ho, ?_⟩
    by_cases he : other = key
    case pos => rw [he, hc.self, ←he, h, Option.getD_some]
    case neg => rw [(hc.other other he).left, h]

theorem Captures.accessed_of {new : CapturedSlot} (hc : Captures access.key new tx tx')
    (ho : result.isOk = true) (ha : Accessed h key ↔ (tx.captureOf key).isSome = true) :
    Accessed ((access, result) :: h) key ↔ (tx'.captureOf key).isSome = true := by
  rw [accessed_cons, ha]
  by_cases he : key = access.key
  case pos => simp [he, hc.self, ho]
  case neg => simp [hc.other key he, Ne.symm he]

theorem Captures.pins_of {new : CapturedSlot} (hc : Captures access.key new tx tx')
    (hp : (tx.cache.content key).pins =
      (before.content key).pins + if (tx.captureOf key).isSome then 1 else 0) :
    (tx'.cache.content key).pins =
      (before.content key).pins + if (tx'.captureOf key).isSome then 1 else 0 := by
  by_cases he : key = access.key
  case pos =>
    rw [he, hc.pins, hc.self, ←he, hp]
    cases tx.captureOf key <;> rfl
  case neg => rw [(hc.other key he).right, (hc.other key he).left, hp]

-- A resource that is found is captured with its slot, unless the slot already is.
theorem Tracks.hit (t : Tracks keys before h tx) {slot : Nat} (hk : access.key ∈ keys)
    (hv : (tx.cache.content access.key).value = some value)
    (hc : Captures access.key ⟨slot, value, false⟩ tx tx') :
    Tracks keys before ((access, .ok (value, true)) :: h) tx' where
  wellFormed := hc.wellFormed
  nodup      := hc.nodup t.nodup
  captured   := hc.captured_of hk t.captured
  below captured hm := by
    rw [hc.nextValue]
    obtain hm | ⟨-, rfl⟩ := hc.captured captured hm
    · exact t.below captured hm
    · exact t.wellFormed.value_lt value hv
  fresh captured hm hf := by
    obtain hm | ⟨-, rfl⟩ := hc.captured captured hm
    · exact t.fresh captured hm hf
    · nomatch hf
  loaded     := hc.nextValue ▸ t.loaded
  nextValue  := hc.nextValue ▸ t.nextValue
  elsewhere key hk := by rw [hc.value]; exact t.elsewhere key hk
  accessed key hk := hc.accessed_of rfl (t.accessed key hk)
  pins key hk := hc.pins_of (t.pins key hk)
  attributed key hk := by
    have ha : Attributed ((access, .ok (value, true)) :: h) key ↔ Attributed h key := by
      simp [Attributed]
    rw [ha, t.attributed key hk, hc.value, loadedBy_hit]
    by_cases he : key = access.key
    case neg => rw [(hc.other key he).left]
    case pos =>
      subst he
      rw [hc.self, hv]
      cases hs : tx.captureOf access.key
      case some => rfl
      case none => simp
  kept key hk value' hb hs := by
    rw [hc.value]
    exact t.kept key hk value' hb (stillValid_cons.mp hs).right

theorem content_setValue {slot : Nat} (w : cache.WellFormed)
    (hl : cache.lookup access.key = some slot) (value : Option Nat) :
    (cache.setValue slot value).content key =
      if key = access.key then { cache.content key with value } else cache.content key := by
  have hc : (cache.setValue slot value).content key = _ := Cache.content_setSlot w hl _
  rw [hc]
  split
  case isTrue h  => rw [h, Cache.content_of_lookup hl]
  case isFalse h => rfl

-- A resource that is not valid any more is removed before its replacement is loaded.
theorem Tracks.failed (t : Tracks keys before h tx) {slot : Nat} (hk : access.key ∈ keys)
    (hl : tx.cache.lookup access.key = some slot)
    (hv : ∀ value, (tx.cache.content access.key).value = some value → access.valid value = false) :
    Tracks keys before ((access, .error .load) :: h)
      ⟨tx.cache.setValue slot none, tx.captured⟩ := by
  have hc {key} : (tx.cache.setValue slot none).content key =
      if key = access.key then { tx.cache.content key with value := none } else
        tx.cache.content key := content_setValue t.wellFormed hl none
  have ho {key} : Transaction.captureOf ⟨tx.cache.setValue slot none, tx.captured⟩ key =
    tx.captureOf key := rfl
  refine ⟨t.wellFormed.setSlot (by simp), t.nodup, t.captured, t.below, t.fresh, t.loaded,
    t.nextValue, fun key hn => ?_, fun key hk => ?_, fun key hk => ?_, fun key hk => ?_,
    fun key hk value hb hs => ?_⟩
  case refine_1 =>
    have hne : key ≠ access.key := by rintro rfl; exact hn hk
    rw [hc, if_neg hne, loadedBy_failed]
    exact t.elsewhere key hn
  case refine_2 =>
    rw [accessed_cons, ho, ←t.accessed key hk]
    exact or_iff_right fun h => nomatch h.right
  case refine_3 =>
    rw [hc, ho, ←t.pins key hk]
    split <;> rfl
  case refine_4 =>
    rw [hc, ho, loadedBy_failed, Attributed]
    by_cases he : key = access.key
    case pos => simp [he]
    case neg => rw [if_neg (Ne.symm he), if_neg he, t.attributed key hk]
  case refine_5 =>
    obtain ⟨ha, hs⟩ := stillValid_cons.mp hs
    have hk := t.kept key hk value hb hs
    rw [hc]
    split
    case isFalse   => exact hk
    case isTrue he =>
      subst he
      rw [hv value hk] at ha
      nomatch ha rfl

-- A resource that is loaded is attributed to the transaction if its slot is captured with it.
theorem Tracks.loaded_of (t : Tracks keys before ((access, .error .load) :: h) tx) {slot : Nat}
    (hk : access.key ∈ keys) (hl : tx.cache.lookup access.key = some slot)
    (hv : (tx.cache.content access.key).value = none)
    (hc : Captures access.key ⟨slot, tx.cache.nextValue, true⟩
      ⟨tx.cache.load slot, tx.captured⟩ tx') :
    Tracks keys before ((access, .ok (tx.cache.nextValue, false)) :: h) tx' := by
  have hs {key} : (tx.cache.load slot).content key = _ :=
    content_setValue t.wellFormed hl (some tx.cache.nextValue)
  have ho {key} : Transaction.captureOf ⟨tx.cache.load slot, tx.captured⟩ key =
    tx.captureOf key := rfl
  have hn : tx'.cache.nextValue = tx.cache.nextValue + 1 := hc.nextValue
  have hself : (tx'.cache.content access.key).value = some tx.cache.nextValue := by
    rw [hc.value, hs, if_pos rfl]
  have hother {key} (he : key ≠ access.key) : tx'.captureOf key = tx.captureOf key ∧
      tx'.cache.content key = tx.cache.content key := by
    obtain ⟨hcap, hp⟩ := hc.other key he
    refine ⟨hcap, ?_⟩
    rw [CacheSlot.eq_iff, hp, hc.value, hs, if_neg he]
    exact ⟨rfl, rfl⟩
  have hold {key} : Accessed ((access, .error .load) :: h) key ↔ Accessed h key := by
    rw [accessed_cons]
    exact or_iff_right fun h => nomatch h.right
  refine ⟨hc.wellFormed, hc.nodup t.nodup, fun captured hm => ?_, fun captured hm => ?_,
    fun captured hm hf => ?_, fun value hm => ?_, hn ▸ t.nextValue.trans (Nat.le_succ _),
    fun key hkey value hm hmem => ?_, fun key hkey => ?_, fun key hkey => ?_, fun key hkey => ?_,
    fun key hkey value hb hstill => ?_⟩
  case refine_1 => exact hc.captured_of hk t.captured captured hm
  case refine_2 =>
    rw [hn]
    obtain hm | ⟨-, rfl⟩ := hc.captured captured hm
    · exact (t.below captured hm).trans (Nat.lt_succ_self _)
    · exact Nat.lt_succ_self _
  case refine_3 =>
    rw [loadedBy_loaded, List.mem_cons]
    obtain hm | ⟨-, rfl⟩ := hc.captured captured hm
    · exact .inr (t.fresh captured hm hf)
    · exact .inl rfl
  case refine_4 =>
    rw [hn]
    obtain rfl | hm := List.mem_cons.mp hm
    · exact ⟨t.nextValue, Nat.lt_succ_self _⟩
    · exact (t.loaded value hm).imp_right (·.trans (Nat.lt_succ_self _))
  case refine_5 =>
    have he : key ≠ access.key := by rintro rfl; exact hkey hk
    rw [(hother he).right] at hm
    obtain rfl | hmem := List.mem_cons.mp hmem
    · exact absurd (t.wellFormed.value_lt _ hm) (lt_irrefl _)
    · exact t.elsewhere key hkey value hm hmem
  case refine_6 => exact hc.accessed_of rfl (hold.symm.trans (t.accessed key hkey))
  case refine_7 =>
    refine hc.pins_of (Eq.trans ?_ (t.pins key hkey))
    rw [hs]
    split <;> rfl
  case refine_8 =>
    rw [loadedBy_loaded]
    by_cases he : key = access.key
    case neg =>
      have ha : Attributed ((access, .ok (tx.cache.nextValue, false)) :: h) key ↔
          Attributed ((access, .error .load) :: h) key := by
        simp [Attributed, Ne.symm he]
      rw [ha, t.attributed key hkey, (hother he).left, (hother he).right]
      refine forall₂_congr fun value hm => imp_congr_left ?_
      rw [List.mem_cons, loadedBy_failed]
      exact (or_iff_right (t.wellFormed.value_lt value hm).ne).symm
    case pos =>
      subst he
      have ha : Attributed ((access, .ok (tx.cache.nextValue, false)) :: h) access.key ↔
          tx.captureOf access.key = none := by
        simp only [Attributed, if_pos, ←hold, t.accessed _ hk]
        exact Option.not_isSome_iff_eq_none
      rw [ha, hself, hc.self, ho]
      cases hcap : tx.captureOf access.key
      case none         => simp
      case some captured =>
        have hlt := t.below captured (Transaction.mem_of_captureOf hcap)
        simp [hlt.ne]
  case refine_9 =>
    have hkept := t.kept key hkey value hb (by rwa [stillValid_cons] at hstill ⊢)
    by_cases he : key = access.key
    case pos => rw [he, hv] at hkept; nomatch hkept
    case neg => rwa [(hother he).right]

theorem captures_getD {captured : List CapturedSlot} {slot loaded : Nat} {fresh : Bool}
    (w : cache.WellFormed) (hl : cache.lookup key = some slot) :
    Captures key ⟨slot, loaded, fresh⟩ ⟨cache, captured⟩
      ⟨(cache.capture (some captured) slot loaded fresh).1,
        (cache.capture (some captured) slot loaded fresh).2.getD []⟩ := by
  obtain ⟨captured', hc⟩ : ∃ captured', cache.capture (some captured) slot loaded fresh =
      ((cache.capture (some captured) slot loaded fresh).1, some captured') := by
    rw [Cache.capture]
    split <;> exact ⟨_, rfl⟩
  have h := captures w hl hc
  rw [hc]
  exact h

theorem Tracks.step (t : Tracks keys before h tx) (hk : access.key ∈ keys)
    (ha : access.Apart config keys tx) (hs : tx.access config access = (tx', result)) :
    Tracks keys before ((access, result) :: h) tx' := by
  have t := t.undisturbed ha.between
  rw [Transaction.access, Cache.getOrTryInit, Option.isSome_some] at hs
  cases hr : (access.others.between tx.cache).acquire access.others.view config true access.key
  case mk cache acquired =>
    obtain ⟨hu, slot, rfl, hl⟩ := Cache.acquire_undisturbed t.wellFormed ha.view hk hr
    have t := t.undisturbed hu
    obtain ⟨hw, hload⟩ := ha.waiting cache slot none hr
    have t := t.undisturbed (hw.mono (List.subset_cons_self ..))
    have hl := hw.held _ hk slot List.mem_cons_self hl
    have hv := Cache.content_of_lookup hl
    simp only [hr] at hs
    split at hs
    case h_1 existing he =>
      obtain ⟨rfl, rfl⟩ := Prod.mk.inj hs
      refine t.hit hk ?_ (captures_getD t.wellFormed hl)
      rw [hv]
      exact (Option.filter_eq_some_iff.mp he).left
    case h_2 he =>
      have t : Tracks keys before ((access, .error .load) :: h)
          ⟨(access.others.waiting cache).setValue slot none, tx.captured⟩ := by
        refine t.failed hk hl fun value hs => ?_
        rw [hv] at hs
        simpa [Cache.existing?, hs, Option.filter_some] using he
      have hn := hload.content _ hk
      rw [content_setValue hw.wellFormed hl, if_pos rfl] at hn
      have hl := hload.held _ hk slot List.mem_cons_self hl
      have t := t.undisturbed (hload.mono (List.subset_cons_self ..))
      split at hs
      case isFalse =>
        obtain ⟨rfl, rfl⟩ := Prod.mk.inj hs
        exact t
      case isTrue =>
        obtain ⟨rfl, rfl⟩ := Prod.mk.inj hs
        exact t.loaded_of hk hl (by rw [hn]) (captures_getD t.wellFormed.load hl)

theorem tracks (r : (transactions config keys before).Run h tx) : Tracks keys before h tx := by
  refine r.invariant (fun _ hi => ?_) fun _ _ _ _ _ _ t ⟨hk, ha, hs⟩ => t.step hk ha hs
  obtain ⟨rfl, w⟩ := hi
  exact .init w

end Tracks

section Release

variable {κ : Type} [DecidableEq κ] {cache : Cache κ} {captured : CapturedSlot} {committed : Bool}
variable {key : κ} {tx : Transaction κ}

def CacheSlot.released (content : CacheSlot) (captured : CapturedSlot) (committed : Bool) :
    CacheSlot where
  value := if !committed && captured.fresh && content.value = some captured.loaded then none
    else content.value
  pins  := content.pins - 1

omit [DecidableEq κ] in
theorem Cache.release_eq : cache.release captured committed =
    cache.setSlot captured.slot ((cache.slots captured.slot).released captured committed) := by
  rw [release, CacheSlot.released]
  split
  case isTrue  => simp [addPins, setValue, setSlot]
  case isFalse => simp [addPins, setSlot]

omit [DecidableEq κ] in
theorem Cache.entries_releaseAll {slots : List CapturedSlot} :
    (cache.releaseAll slots committed).entries = cache.entries := by
  induction slots generalizing cache
  case nil        => rfl
  case cons hi    =>
    rw [releaseAll, List.foldl_cons, ←releaseAll, hi, release_eq]
    rfl

omit [DecidableEq κ] in
theorem Cache.slots_releaseAll {slots : List CapturedSlot} {slot : Nat}
    (hd : (slots.map CapturedSlot.slot).Nodup) :
    (cache.releaseAll slots committed).slots slot =
      ((slots.find? (·.slot = slot)).elim (cache.slots slot) fun captured =>
        (cache.slots slot).released captured committed) := by
  induction slots generalizing cache
  case nil => rfl
  case cons captured slots hi =>
    obtain ⟨hn, hd⟩ := List.nodup_cons.mp hd
    rw [releaseAll, List.foldl_cons, ←releaseAll, hi hd, release_eq, List.find?_cons]
    by_cases hs : captured.slot = slot
    case pos =>
      subst hs
      have hf : slots.find? (·.slot = captured.slot) = none := by
        refine List.find?_eq_none.mpr fun other ho h => hn (List.mem_map.mpr ⟨other, ho, ?_⟩)
        exact of_decide_eq_true h
      simp [hf, setSlot]
    case neg => simp [hs, setSlot, Function.update_of_ne (Ne.symm hs)]

theorem Cache.lookup_releaseAll {slots : List CapturedSlot} :
    (cache.releaseAll slots committed).lookup key = cache.lookup key := by
  rw [lookup, entries_releaseAll, lookup]

theorem Transaction.content_releaseAll (hd : tx.held.Nodup) :
    (tx.cache.releaseAll tx.captured committed).content key =
      ((tx.captureOf key).elim (tx.cache.content key) fun captured =>
        (tx.cache.content key).released captured committed) := by
  cases hl : tx.cache.lookup key
  case none =>
    have hn : tx.captureOf key = none := by simp [captureOf, hl]
    rw [Cache.content_of_lookup_none (Cache.lookup_releaseAll.trans hl), hn,
      Cache.content_of_lookup_none hl, Option.elim_none]
  case some slot =>
    have hf : tx.captureOf key = tx.captured.find? (·.slot = slot) := by
      simp [captureOf, hl, eq_comm]
    rw [Cache.content_of_lookup (Cache.lookup_releaseAll.trans hl), hf, Cache.slots_releaseAll hd,
      Cache.content_of_lookup hl]

end Release

-- A preload transaction and the release of what it has captured.
section Preload

variable {κ : Type} [DecidableEq κ] {config : Config} {keys : Set κ} {before cache : Cache κ}
variable {h : History κ} {tx : Transaction κ} {key : κ} {value : Nat} {committed : Bool}

structure RolledBack (keys : Set κ) (before : Cache κ) (h : History κ) (after : Cache κ) :
    Prop where
  loaded : ∀ entry ∈ after.entries, ∀ value ∈ (after.slots entry.2).value, value ∉ loadedBy h
  pins   : ∀ key ∈ keys, (after.content key).pins = (before.content key).pins
  kept   : ∀ key ∈ keys, ∀ value, (before.content key).value = some value →
    StillValid h key value → (after.content key).value = some value

-- The slots stay pinned, whatever other threads do with other keys, until the handle is dropped.
structure PinnedOnce (keys : Set κ) (before : Cache κ) (h : History κ)
    (handle : List CapturedSlot) (after : Cache κ) : Prop where
  accessed : ∀ later, Undisturbed keys (handle.map CapturedSlot.slot) after later →
    ∀ key ∈ keys, Accessed h key →
      (later.content key).pins = (before.content key).pins + 1
  others   : ∀ later, Undisturbed keys (handle.map CapturedSlot.slot) after later →
    ∀ key ∈ keys, ¬Accessed h key → (later.content key).pins = (before.content key).pins
  dropped  : ∀ later, Undisturbed keys (handle.map CapturedSlot.slot) after later →
    ∀ key ∈ keys, ((later.releaseAll handle true).content key).pins =
      (before.content key).pins ∧
      ((later.releaseAll handle true).content key).value = (later.content key).value

def Complete (keys : Set κ) (before : Cache κ) (h : History κ) :
    Cache κ × Option (List CapturedSlot) → Prop
  | (after, none)        => RolledBack keys before h after
  | (after, some handle) => PinnedOnce keys before h handle after

theorem Tracks.pins_releaseAll (t : Tracks keys before h tx) (hk : key ∈ keys) :
    ((tx.cache.releaseAll tx.captured committed).content key).pins =
      (before.content key).pins := by
  have hp := t.pins key hk
  rw [Transaction.content_releaseAll t.nodup]
  cases hc : tx.captureOf key
  case none => simpa [hc] using hp
  case some => simp [CacheSlot.released, hp, hc]

theorem Tracks.value_commit (t : Tracks keys before h tx) :
    ((tx.cache.releaseAll tx.captured true).content key).value = (tx.cache.content key).value := by
  rw [Transaction.content_releaseAll t.nodup]
  cases tx.captureOf key <;> rfl

-- Only a resource that the transaction has loaded before each other access is removed.
theorem Tracks.value_rollback (t : Tracks keys before h tx) :
    ((tx.cache.releaseAll tx.captured false).content key).value = some value ↔
      (tx.cache.content key).value = some value ∧
        ¬∃ captured ∈ tx.captureOf key, captured.fresh = true ∧ captured.loaded = value := by
  rw [Transaction.content_releaseAll t.nodup]
  cases hc : tx.captureOf key
  case none => simp
  case some captured =>
    simp only [Option.elim_some, CacheSlot.released, Bool.not_false, Bool.true_and,
      Bool.and_eq_true, decide_eq_true_eq, Option.mem_some_iff, exists_eq_left']
    split
    case isTrue h  => simp [h]
    case isFalse h =>
      refine iff_self_and.mpr fun hv hl => h ⟨hl.left, ?_⟩
      rw [hv, hl.right]

theorem Tracks.pinnedOnce (t : Tracks keys before h tx) :
    PinnedOnce keys before h tx.captured tx.cache where
  accessed later hu key hk ha := by
    have t := t.undisturbed hu
    exact (t.pins key hk).trans (by rw [if_pos ((t.accessed key hk).mp ha)])
  others later hu key hk ha := by
    have t := t.undisturbed hu
    exact (t.pins key hk).trans (by rw [if_neg (mt (t.accessed key hk).mpr ha), Nat.add_zero])
  dropped later hu key hk :=
    ⟨(t.undisturbed hu).pins_releaseAll hk, (t.undisturbed hu).value_commit⟩

theorem Cache.exists_entry_iff (hk : (cache.entries.map Prod.fst).Nodup) :
    (∃ entry ∈ cache.entries, (cache.slots entry.2).value = some value) ↔
      ∃ key, (cache.content key).value = some value := by
  constructor
  case mp =>
    rintro ⟨⟨key, slot⟩, he, hv⟩
    exact ⟨key, by rwa [content_of_lookup ((lookup_eq_some hk).mpr he)]⟩
  case mpr =>
    rintro ⟨key, hv⟩
    cases hl : cache.lookup key
    case none      => rw [content_of_lookup_none hl] at hv; nomatch hv
    case some slot => exact ⟨(key, slot), mem_of_lookup hl, by rwa [content_of_lookup hl] at hv⟩

theorem Tracks.rolledBack_iff (t : Tracks keys before h tx) (w : before.WellFormed) :
    RolledBack keys before h (tx.cache.releaseAll tx.captured false) ↔
      ∀ key ∈ keys, Attributed h key := by
  have hw : ((tx.cache.releaseAll tx.captured false).entries.map Prod.fst).Nodup := by
    rw [Cache.entries_releaseAll]
    exact t.wellFormed.keys
  constructor
  case mp =>
    intro r key hk
    refine (t.attributed key hk).mpr fun value hv hm => ?_
    by_contra hn
    obtain ⟨entry, he, hv⟩ :=
      (Cache.exists_entry_iff hw).mpr ⟨key, t.value_rollback.mpr ⟨hv, hn⟩⟩
    exact r.loaded entry he value hv hm
  case mpr =>
    intro ha
    refine ⟨fun entry he value hv hm => ?_, fun key hk => t.pins_releaseAll hk,
      fun key hk value hb hs => t.value_rollback.mpr ⟨t.kept key hk value hb hs, ?_⟩⟩
    case refine_1 =>
      obtain ⟨key, hv⟩ := (Cache.exists_entry_iff hw).mp ⟨entry, he, hv⟩
      obtain ⟨hv, hn⟩ := t.value_rollback.mp hv
      by_cases hk : key ∈ keys
      case pos => exact hn ((t.attributed key hk).mp (ha key hk) value hv hm)
      case neg => exact t.elsewhere key hk value hv hm
    case refine_2 =>
      rintro ⟨captured, hc, hf, rfl⟩
      have hm := t.fresh captured (Transaction.mem_of_captureOf hc) hf
      exact absurd (w.value_lt _ hb) (t.loaded _ hm).left.not_gt

theorem before_wellFormed (r : (transactions config keys before).Run h tx) : before.WellFormed :=
  r.invariant (I := fun _ _ => before.WellFormed) (fun _ hi => hi.right) fun _ _ _ _ _ _ w _ => w

-- A transaction rolls back completely when it fails, and pins what it has accessed when it
-- succeeds, unless it fails and has replaced a resource in a slot that it had accessed before.
theorem preload_complete_iff (r : (transactions config keys before).Run h tx)
    (hu : Undisturbed keys tx.held tx.cache cache) (succeeds : Bool) :
    Complete keys before h (Transaction.finish ⟨cache, tx.captured⟩ succeeds) ↔
      succeeds = true ∨ ∀ key ∈ keys, Attributed h key := by
  have t := (tracks r).undisturbed hu
  have w := before_wellFormed r
  rw [Transaction.finish]
  split
  case isTrue hs =>
    exact iff_of_true t.pinnedOnce (.inl (Bool.and_eq_true_iff.mp hs).left)
  case isFalse hs =>
    refine (t.rolledBack_iff w).trans (or_iff_right_of_imp fun h key hk => ?_).symm
    have hn : tx.captured = [] := by simpa [h] using hs
    refine attributed_of_not_accessed (mt (t.accessed key hk).mp ?_)
    simp [Transaction.captureOf, hn]

theorem Undisturbed.refl {held : List Nat} (w : cache.WellFormed) :
    Undisturbed keys held cache cache where
  wellFormed := w
  content    := fun _ _ => rfl
  held       := fun _ _ _ _ hl => hl
  nextValue  := le_rfl
  elsewhere  := fun key hk _ hv => .inr ⟨key, hk, hv⟩

-- No other thread does anything.
def alone : Others κ where
  view := { strongCount := fun _ => 2, valueCount := fun _ => 1, locked := fun _ => false }

theorem apart_alone {key : κ} {valid : Nat → Bool} {loads : Bool} (w : tx.cache.WellFormed) :
    Access.Apart ⟨key, valid, loads, alone⟩ config keys tx where
  between := .refl w
  view    := ⟨fun _ _ => Nat.lt_succ_self 1, fun _ _ => Nat.lt_succ_self 1⟩
  waiting cache slot evicted hr :=
    have w := (Cache.acquires hr).wellFormed w
    ⟨.refl w, .refl (w.setSlot (by simp))⟩

-- One resource that was loaded before.
def sampleCache : Cache Nat where
  entries   := [(0, 0)]
  slots     := fun slot => if slot = 0 then { value := some 0 } else {}
  nextSlot  := 1
  nextValue := 1

theorem sampleCache_wellFormed : sampleCache.WellFormed where
  keys  := by decide
  slots := by decide
  slot  := by decide
  value slot value hv := by
    simp only [sampleCache] at hv
    split at hv
    case isTrue  => exact (Option.some.inj hv) ▸ Nat.zero_lt_one
    case isFalse => nomatch hv

def sampleAccess (key : Nat) (valid : Bool) : Access Nat where
  key    := key
  valid  := fun _ => valid
  loads  := true
  others := alone

def sampleTransaction (accesses : List (Access Nat)) : Transaction Nat :=
  accesses.foldl (fun tx access => (tx.access {} access).1) { cache := sampleCache }

theorem sample_run_load : (transactions {} Set.univ sampleCache).Run
    [(sampleAccess 1 true, .ok (1, false))] (sampleTransaction [sampleAccess 1 true]) :=
  .step (.init ⟨rfl, sampleCache_wellFormed⟩)
    ⟨trivial, apart_alone sampleCache_wellFormed, rfl⟩

theorem preload_complete_iff_load : Complete Set.univ sampleCache
    [(sampleAccess 1 true, .ok (1, false))]
    ((sampleTransaction [sampleAccess 1 true]).finish false) := by
  refine (preload_complete_iff sample_run_load (.refl (tracks sample_run_load).wellFormed) false).mpr
    (.inr fun key _ => ?_)
  unfold Attributed
  split
  case isTrue  => simp [Accessed]
  case isFalse => trivial

-- A resource is found, is not valid any more when it is asked for again, and is replaced. Its
-- replacement stays when the transaction fails.
theorem preload_keeps_replacement : ¬∀ h tx, (transactions {} Set.univ sampleCache).Run h tx →
    Complete Set.univ sampleCache h (tx.finish false) := by
  intro hc
  have r₁ : (transactions {} Set.univ sampleCache).Run [(sampleAccess 0 true, .ok (0, true))]
      (sampleTransaction [sampleAccess 0 true]) :=
    .step (.init ⟨rfl, sampleCache_wellFormed⟩)
      ⟨trivial, apart_alone sampleCache_wellFormed, rfl⟩
  have r₂ : (transactions {} Set.univ sampleCache).Run
      [(sampleAccess 0 false, .ok (1, false)), (sampleAccess 0 true, .ok (0, true))]
      (sampleTransaction [sampleAccess 0 true, sampleAccess 0 false]) :=
    .step r₁ ⟨trivial, apart_alone (tracks r₁).wellFormed, rfl⟩
  exact (hc _ _ r₂).loaded (0, 0) (by decide) 1 rfl (by decide)

end Preload
end RuntimeCache
end Backend
