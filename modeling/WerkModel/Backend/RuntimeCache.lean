import WerkModel.Lib.System

-- Resident resources by the identity of their model and configuration. A registry publishes slots,
-- and a slot holds its resource once it is loaded. Slots and resources are shared by reference.
namespace Backend
namespace RuntimeCache

structure CacheSlot where
  value : Option Nat := none
  pins  : Nat        := 0
  deriving DecidableEq

theorem CacheSlot.eq_iff {slot slot' : CacheSlot} :
    slot = slot' ↔ slot.value = slot'.value ∧ slot.pins = slot'.pins := by
  cases slot
  cases slot'
  rw [mk.injEq]

-- A slot that a preload transaction has accessed, with the resource that it held at that time and
-- whether the transaction has loaded this resource.
structure CapturedSlot where
  slot   : Nat
  loaded : Nat
  fresh  : Bool
  deriving DecidableEq

structure Config where
  capacity  : Option Nat := none
  evictIdle : Bool       := true

def bounded (capacity : Nat) : Config where
  capacity := some (max capacity 1)

-- The registry with the oldest entry first, and the slots by their address. Slots and resources get
-- the next free address.
structure Cache (κ : Type) where
  entries   : List (κ × Nat)
  slots     : Nat → CacheSlot
  nextSlot  : Nat
  nextValue : Nat

-- How many references there are to a slot and to a resource, and which slots are locked by others.
structure View where
  strongCount : Nat → Nat
  valueCount  : Nat → Nat
  locked      : Nat → Bool

inductive Refusal
  | limitReached
  | capacityReached
  deriving DecidableEq

namespace Cache

section Registry

variable {κ : Type} (cache : Cache κ) (view : View)

def setSlot (slot : Nat) (content : CacheSlot) : Cache κ :=
  { cache with slots := Function.update cache.slots slot content }

def setValue (slot : Nat) (value : Option Nat) : Cache κ :=
  cache.setSlot slot { cache.slots slot with value }

def tryLock (slot : Nat) : Option (Option Nat) :=
  if view.locked slot then none else some (cache.slots slot).value

-- A failed load does not consume the capacity, unless someone still refers to its slot.
def keeps (entry : κ × Nat) : Bool :=
  1 < view.strongCount entry.2 || !(cache.tryLock view entry.2).any Option.isNone

def retain : Cache κ :=
  { cache with entries := cache.entries.filter (cache.keeps view) }

-- A caller refers to the slot while it is loaded, and to the resource while it is in use.
def idle (entry : κ × Nat) : Bool :=
  view.strongCount entry.2 = 1 &&
    (cache.tryLock view entry.2).any fun value => value.all (view.valueCount · = 1)

def evict : Cache κ :=
  { cache with entries := cache.entries.eraseP (cache.idle view) }

def ordinaryEntries : Nat :=
  cache.entries.countP fun entry => (cache.slots entry.2).pins = 0

-- A new slot is pushed to the back of the registry.
def insert (key : κ) : Cache κ :=
  { cache.setSlot cache.nextSlot {} with
    entries := cache.entries ++ [(key, cache.nextSlot)]
    nextSlot := cache.nextSlot + 1 }

-- What happens under the lock of the registry: the slot of the key, and an entry that is evicted
-- for it.
def acquire [DecidableEq κ] (config : Config) (preloading : Bool) (key : κ) :
    Cache κ × Except Refusal (Nat × Option (κ × Nat)) :=
  match cache.entries.find? (·.1 = key) with
  | some entry =>
    ({ cache with entries := cache.entries.eraseP (·.1 = key) ++ [entry] }, .ok (entry.2, none))
  | none =>
    let retained := cache.retain view
    if !preloading && config.capacity.any (· ≤ retained.ordinaryEntries) then
      if !config.evictIdle then
        (retained, .error .limitReached)
      else
        match retained.entries.find? (retained.idle view) with
        | none         => (retained, .error .capacityReached)
        | some evicted =>
          ((retained.evict view).insert key, .ok (retained.nextSlot, some evicted))
    else
      (retained.insert key, .ok (retained.nextSlot, none))

end Registry

section Slots

variable {κ : Type} (cache : Cache κ)

-- The resource of a slot, if the caller accepts it.
def existing? (slot : Nat) (valid : Nat → Bool) : Option Nat :=
  (cache.slots slot).value.filter valid

def addPins (slot : Nat) (f : Nat → Nat) : Cache κ :=
  cache.setSlot slot { cache.slots slot with pins := f (cache.slots slot).pins }

-- Outside a preload transaction nothing is captured, and a slot is captured once.
def capture (scope : Option (List CapturedSlot)) (slot loaded : Nat) (fresh : Bool) :
    Cache κ × Option (List CapturedSlot) :=
  match scope with
  | none       => (cache, none)
  | some slots =>
    if slots.any (·.slot = slot) then
      (cache, some slots)
    else
      (cache.addPins slot (· + 1), some (slots ++ [{ slot, loaded, fresh }]))

-- A resource that has been loaded gets the next address.
def load (slot : Nat) : Cache κ :=
  { cache.setValue slot (some cache.nextValue) with nextValue := cache.nextValue + 1 }

-- Only the resource that the failed transaction has loaded is removed. A resource that was there
-- before, or that has replaced it, belongs to its owner.
def release (captured : CapturedSlot) (committed : Bool) : Cache κ :=
  let removes := !committed && captured.fresh &&
    (cache.slots captured.slot).value = some captured.loaded
  let cache := if removes then cache.setValue captured.slot none else cache
  cache.addPins captured.slot (· - 1)

def releaseAll (slots : List CapturedSlot) (committed : Bool) : Cache κ :=
  slots.foldl (·.release · committed) cache

end Slots

section WellFormed

variable {κ : Type} {cache : Cache κ} {view : View} {entries : List (κ × Nat)}

structure WellFormed (cache : Cache κ) : Prop where
  keys  : (cache.entries.map Prod.fst).Nodup
  slots : (cache.entries.map Prod.snd).Nodup
  slot  : ∀ entry ∈ cache.entries, entry.2 < cache.nextSlot
  value : ∀ slot, ∀ value ∈ (cache.slots slot).value, value < cache.nextValue

theorem WellFormed.of_sublist (w : cache.WellFormed)
    (h : entries.Sublist cache.entries) : WellFormed { cache with entries } where
  keys              := w.keys.sublist (h.map _)
  slots             := w.slots.sublist (h.map _)
  slot entry he     := w.slot entry (h.subset he)
  value slot value  := w.value slot value

theorem WellFormed.of_perm (w : cache.WellFormed)
    (h : entries.Perm cache.entries) : WellFormed { cache with entries } where
  keys              := (h.map _).nodup_iff.mpr w.keys
  slots             := (h.map _).nodup_iff.mpr w.slots
  slot entry he     := w.slot entry (h.subset he)
  value slot value  := w.value slot value

theorem WellFormed.retain (w : cache.WellFormed) : (cache.retain view).WellFormed :=
  w.of_sublist List.filter_sublist

theorem WellFormed.evict (w : cache.WellFormed) : (cache.evict view).WellFormed :=
  w.of_sublist List.eraseP_sublist

theorem retain_entries_subset : (cache.retain view).entries ⊆ cache.entries :=
  List.filter_sublist.subset

theorem evict_entries_subset : (cache.evict view).entries ⊆ cache.entries :=
  List.eraseP_subset

end WellFormed

section Entries

variable {κ : Type} [DecidableEq κ] (cache : Cache κ)

def lookup (key : κ) : Option Nat :=
  (cache.entries.find? (·.1 = key)).map Prod.snd

-- A key without an entry has no resource and no pins.
def content (key : κ) : CacheSlot :=
  (cache.lookup key).elim {} cache.slots

variable {cache} {key : κ} {slot : Nat}

theorem mem_of_lookup (h : cache.lookup key = some slot) : (key, slot) ∈ cache.entries := by
  obtain ⟨entry, he, rfl⟩ := Option.map_eq_some_iff.mp h
  have hk := List.find?_some he
  rw [decide_eq_true_eq] at hk
  subst hk
  exact List.mem_of_find?_eq_some he

theorem lookup_eq_some (hk : (cache.entries.map Prod.fst).Nodup) :
    cache.lookup key = some slot ↔ (key, slot) ∈ cache.entries := by
  refine ⟨mem_of_lookup, fun h => ?_⟩
  cases hl : cache.lookup key
  case none =>
    have hn := List.find?_eq_none.mp (Option.map_eq_none_iff.mp hl) _ h
    simp at hn
  case some =>
    exact congrArg some (congrArg Prod.snd (List.inj_on_of_nodup_map hk (mem_of_lookup hl) h rfl))

theorem lookup_eq_none : cache.lookup key = none ↔ ∀ entry ∈ cache.entries, entry.1 ≠ key := by
  simp [lookup]

theorem lookup_congr {cache' : Cache κ} (hk : (cache.entries.map Prod.fst).Nodup)
    (hk' : (cache'.entries.map Prod.fst).Nodup)
    (h : (key, slot) ∈ cache'.entries ↔ (key, slot) ∈ cache.entries) :
    cache'.lookup key = some slot ↔ cache.lookup key = some slot := by
  rw [lookup_eq_some hk, lookup_eq_some hk', h]

theorem content_of_lookup (h : cache.lookup key = some slot) :
    cache.content key = cache.slots slot := by
  rw [content, h, Option.elim_some]

theorem content_of_lookup_none (h : cache.lookup key = none) : cache.content key = {} := by
  rw [content, h, Option.elim_none]

end Entries

-- What `acquire` does: it finds the slot of the key, or drops the entries of failed loads and then
-- refuses the key or inserts it, possibly in place of an idle entry.
section Acquire

variable {κ : Type} [DecidableEq κ] {cache cache' : Cache κ} {view : View} {config : Config}
variable {preloading : Bool} {key : κ}

inductive Acquires (cache : Cache κ) (view : View) (config : Config) (preloading : Bool) (key : κ) :
    Cache κ → Except Refusal (Nat × Option (κ × Nat)) → Prop
  | found {slot} :
    cache.lookup key = some slot →
    Acquires cache view config preloading key
      { cache with entries := cache.entries.eraseP (·.1 = key) ++ [(key, slot)] }
      (.ok (slot, none))
  | refused {refusal} {capacity} :
    cache.lookup key = none → preloading = false → config.capacity = some capacity →
    capacity ≤ (cache.retain view).ordinaryEntries →
    (config.evictIdle = true →
      (cache.retain view).entries.find? ((cache.retain view).idle view) = none) →
    Acquires cache view config preloading key (cache.retain view) (.error refusal)
  | evicted {entry} :
    cache.lookup key = none → preloading = false →
    (cache.retain view).entries.find? ((cache.retain view).idle view) = some entry →
    Acquires cache view config preloading key (((cache.retain view).evict view).insert key)
      (.ok (cache.nextSlot, some entry))
  | inserted :
    cache.lookup key = none →
    Acquires cache view config preloading key ((cache.retain view).insert key)
      (.ok (cache.nextSlot, none))

theorem acquires {result} (h : cache.acquire view config preloading key = (cache', result)) :
    cache.Acquires view config preloading key cache' result := by
  rw [acquire] at h
  split at h
  case h_1 entry he =>
    have hk := List.find?_some he
    rw [decide_eq_true_eq] at hk
    subst hk
    obtain ⟨rfl, rfl⟩ := Prod.mk.inj h
    exact .found (by rw [lookup, he]; rfl)
  case h_2 hn =>
    have hl : cache.lookup key = none := by rw [lookup, hn]; rfl
    simp only at h
    split at h
    case isFalse =>
      obtain ⟨rfl, rfl⟩ := Prod.mk.inj h
      exact .inserted hl
    case isTrue hc =>
      obtain ⟨hp, hc⟩ := Bool.and_eq_true_iff.mp hc
      obtain ⟨capacity, hc, hle⟩ := (Option.any_eq_true ..).mp hc
      have hp : preloading = false := by simpa using hp
      split at h
      case isTrue he =>
        obtain ⟨rfl, rfl⟩ := Prod.mk.inj h
        exact .refused hl hp hc (of_decide_eq_true hle) fun h => by simp [h] at he
      case isFalse =>
        split at h
        case h_1 hf =>
          obtain ⟨rfl, rfl⟩ := Prod.mk.inj h
          exact .refused hl hp hc (of_decide_eq_true hle) fun _ => hf
        case h_2 hf =>
          obtain ⟨rfl, rfl⟩ := Prod.mk.inj h
          exact .evicted hl hp hf

theorem mem_move {slot : Nat} {entry : κ × Nat} (w : cache.WellFormed)
    (hl : cache.lookup key = some slot) :
    entry ∈ cache.entries.eraseP (·.1 = key) ++ [(key, slot)] ↔ entry ∈ cache.entries := by
  have hm := mem_of_lookup hl
  rw [List.mem_append, List.mem_singleton]
  constructor
  case mp =>
    rintro (h | rfl)
    · exact List.mem_of_mem_eraseP h
    · exact hm
  case mpr =>
    intro h
    by_cases hk : entry.1 = key
    · exact .inr (List.inj_on_of_nodup_map w.keys h hm hk)
    · exact .inl ((List.mem_eraseP_of_neg (by simpa using hk)).mpr h)

theorem perm_move {slot : Nat} (hl : cache.lookup key = some slot) :
    (cache.entries.eraseP (·.1 = key) ++ [(key, slot)]).Perm cache.entries := by
  obtain ⟨entry, he, rfl⟩ := Option.map_eq_some_iff.mp hl
  obtain ⟨hk, before, after, hs, hb⟩ := List.find?_eq_some_iff_append.mp he
  simp only [decide_eq_true_eq] at hk
  subst hk
  rw [hs, List.eraseP_append_right _ (by simpa using hb), List.eraseP_cons_of_pos (by simp)]
  simpa using (@List.perm_append_comm _ after [entry]).append_left before

theorem WellFormed.insert (w : cache.WellFormed) (hl : cache.lookup key = none) :
    (cache.insert key).WellFormed where
  keys := by
    have hk := lookup_eq_none.mp hl
    simp only [Cache.insert, List.map_append, List.map_singleton, List.nodup_append]
    exact ⟨w.keys, List.nodup_singleton _, by simpa using fun key slot h => hk (key, slot) h⟩
  slots := by
    simp only [Cache.insert, List.map_append, List.map_singleton, List.nodup_append]
    exact ⟨w.slots, List.nodup_singleton _, by
      simpa using fun slot key h => (w.slot (key, slot) h).ne⟩
  slot entry he := by
    obtain he | rfl := List.mem_append.mp he |>.imp_right List.mem_singleton.mp
    · exact Nat.lt_succ_of_lt (w.slot entry he)
    · exact Nat.lt_succ_self _
  value slot value h := by
    simp only [Cache.insert, setSlot, Function.update_apply] at h
    split at h
    case isTrue  => nomatch h
    case isFalse => exact w.value slot value h

theorem lookup_eq_none_of_subset {cache' : Cache κ} (hl : cache.lookup key = none)
    (h : cache'.entries ⊆ cache.entries) : cache'.lookup key = none :=
  lookup_eq_none.mpr fun entry he => lookup_eq_none.mp hl entry (h he)

theorem Acquires.wellFormed {result} (w : cache.WellFormed)
    (h : cache.Acquires view config preloading key cache' result) : cache'.WellFormed := by
  cases h
  case found hl                => exact w.of_perm (perm_move hl)
  case refused                 => exact w.retain
  case evicted hl _ _          =>
    refine w.retain.evict.insert (lookup_eq_none_of_subset hl fun entry he => ?_)
    exact retain_entries_subset (evict_entries_subset he)
  case inserted hl             =>
    exact w.retain.insert (lookup_eq_none_of_subset hl retain_entries_subset)

theorem Acquires.nextValue_eq {result}
    (h : cache.Acquires view config preloading key cache' result) :
    cache'.nextValue = cache.nextValue := by
  cases h <;> rfl

theorem Acquires.mem {slot : Nat} {evicted : Option (κ × Nat)} (w : cache.WellFormed)
    (h : cache.Acquires view config preloading key cache' (.ok (slot, evicted))) :
    (key, slot) ∈ cache'.entries := by
  cases h
  case found hl => exact (mem_move w hl).mpr (mem_of_lookup hl)
  all_goals simp [Cache.insert, retain, evict]

theorem Acquires.slots_eq {result} {slot : Nat} (hs : slot < cache.nextSlot)
    (h : cache.Acquires view config preloading key cache' result) :
    cache'.slots slot = cache.slots slot := by
  cases h
  case found   => rfl
  case refused => rfl
  all_goals exact Function.update_of_ne hs.ne _ _

end Acquire
end Cache
end RuntimeCache
end Backend
