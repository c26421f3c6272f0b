import WerkModel.Backend.RuntimeCachePreload

-- The capacity of a cache over runs of ordinary accesses and of preload transactions, whose handles
-- are kept and dropped in any order.
namespace Backend
namespace RuntimeCache

-- The cache with the captured slots of the transactions in progress and of the handles.
structure Preloads (κ : Type) where
  cache   : Cache κ
  scopes  : List (List CapturedSlot)
  handles : List (List CapturedSlot)

inductive Operation (κ : Type)
  -- An access in a transaction or outside of all. `others` counts the references that callers have,
  -- and tells which slots they lock.
  | access (scope : Option Nat) (key : κ) (valid : Nat → Bool) (loads : Bool) (others : View)
  | beginPreload
  | finishPreload (scope : Nat) (succeeds : Bool)
  | dropHandle (handle : Nat)

def Operation.isOrdinary {κ : Type} : Operation κ → Bool
  | .access none .. => true
  | _               => false

def Operation.access? {κ : Type} : Operation κ → Option (κ × (Nat → Bool))
  | .access _ key valid .. => some (key, valid)
  | _                      => none

def Operation.isFinish {κ : Type} : Operation κ → Bool
  | .finishPreload .. => true
  | _                 => false

namespace Preloads

variable {κ : Type}

def new : Preloads κ where
  cache   := { entries := [], slots := fun _ => {}, nextSlot := 0, nextValue := 0 }
  scopes  := []
  handles := []

def captured (preloads : Preloads κ) : List Nat :=
  (preloads.scopes ++ preloads.handles).flatten.map CapturedSlot.slot

-- The registry and each captured slot refer to the slot, besides the callers.
def view (preloads : Preloads κ) (others : View) : View :=
  { others with
    strongCount := fun slot => 1 + preloads.captured.count slot + others.strongCount slot }

def sweep (preloads : Preloads κ) (others : View) : Cache κ :=
  preloads.cache.retain (preloads.view others)

def release (preloads : Preloads κ) (slots : List CapturedSlot) (committed : Bool) : Preloads κ :=
  { preloads with cache := preloads.cache.releaseAll slots committed }

variable [DecidableEq κ]

def accessIn (preloads : Preloads κ) (config : Config) (scope : Option (List CapturedSlot))
    (key : κ) (valid : Nat → Bool) (loads : Bool) (others : View) :
    Cache κ × Option (List CapturedSlot) × Result :=
  preloads.cache.getOrTryInit config
    { key, valid, loads, others := { view := preloads.view others } } scope

def step (config : Config) (preloads : Preloads κ) :
    Operation κ → Option (Preloads κ × Option Result)
  | .access none key valid loads others =>
    let (cache, _, result) := preloads.accessIn config none key valid loads others
    some ({ preloads with cache }, some result)
  | .access (some i) key valid loads others => do
    let slots ← preloads.scopes[i]?
    let (cache, scope, result) := preloads.accessIn config (some slots) key valid loads others
    some ({ preloads with cache, scopes := preloads.scopes.set i (scope.getD []) }, some result)
  | .beginPreload =>
    some ({ preloads with scopes := preloads.scopes ++ [[]] }, none)
  | .finishPreload i succeeds => do
    let slots ← preloads.scopes[i]?
    let (cache, handle) := Transaction.finish ⟨preloads.cache, slots⟩ succeeds
    some ({
      cache
      scopes  := preloads.scopes.eraseIdx i
      handles := preloads.handles ++ handle.toList
    }, none)
  | .dropHandle i => do
    let slots ← preloads.handles[i]?
    some ({ preloads.release slots true with handles := preloads.handles.eraseIdx i }, none)

def system (config : Config) : System (Preloads κ) (Operation κ) (Option Result) :=
  .ofPartial new (step config)

end Preloads

namespace Cache

section Fills

variable {κ : Type} {cache cache' : Cache κ} {slot : Nat} {value : Option Nat}

-- Only the resource of one slot differs.
structure Fills (cache cache' : Cache κ) (slot : Nat) : Prop where
  entries    : cache'.entries = cache.entries
  nextSlot   : cache'.nextSlot = cache.nextSlot
  pins       : ∀ slot, (cache'.slots slot).pins = (cache.slots slot).pins
  value      : ∀ slot' ≠ slot, (cache'.slots slot').value = (cache.slots slot').value
  wellFormed : cache.WellFormed → cache'.WellFormed

theorem Fills.trans {cache'' : Cache κ} (f : cache.Fills cache' slot)
    (f' : cache'.Fills cache'' slot) : cache.Fills cache'' slot where
  entries       := f'.entries.trans f.entries
  nextSlot      := f'.nextSlot.trans f.nextSlot
  pins slot     := (f'.pins slot).trans (f.pins slot)
  value slot hs := (f'.value slot hs).trans (f.value slot hs)
  wellFormed    := f'.wellFormed ∘ f.wellFormed

theorem pins_setValue (slot' : Nat) :
    ((cache.setValue slot value).slots slot').pins = (cache.slots slot').pins := by
  simp only [setValue, setSlot, Function.update_apply]
  split
  case isTrue h  => rw [h]
  case isFalse h => rfl

theorem value_setValue {slot' : Nat} (hs : slot' ≠ slot) :
    ((cache.setValue slot value).slots slot').value = (cache.slots slot').value :=
  congrArg CacheSlot.value (Function.update_of_ne hs ..)

theorem fills_clear : cache.Fills (cache.setValue slot none) slot where
  entries       := rfl
  nextSlot      := rfl
  pins          := pins_setValue
  value _ hs    := value_setValue hs
  wellFormed w  := w.setSlot (by simp)

theorem fills_load : cache.Fills (cache.load slot) slot where
  entries       := rfl
  nextSlot      := rfl
  pins          := pins_setValue
  value _ hs    := value_setValue hs
  wellFormed w  := w.load

theorem Fills.ordinaryEntries_eq (f : cache.Fills cache' slot) :
    cache'.ordinaryEntries = cache.ordinaryEntries := by
  simp only [ordinaryEntries, f.entries, f.pins]

end Fills

section Access

variable {κ : Type} [DecidableEq κ] {config : Config} {cache cache' : Cache κ} {view : View}
variable {key : κ} {valid : Nat → Bool} {loads : Bool} {scope scope' : Option (List CapturedSlot)}
variable {result : Result}

-- What an access does that other threads do not interrupt.
inductive Accesses (cache : Cache κ) (view : View) (config : Config)
    (scope : Option (List CapturedSlot)) (key : κ) (valid : Nat → Bool) :
    Cache κ → Option (List CapturedSlot) → Result → Prop
  | refused {cache' refusal} :
    cache.acquire view config scope.isSome key = (cache', .error refusal) →
    Accesses cache view config scope key valid cache' scope (.error (.refused refusal))
  | hit {acquired slot evicted value cache' scope'} :
    cache.acquire view config scope.isSome key = (acquired, .ok (slot, evicted)) →
    acquired.existing? slot valid = some value →
    acquired.capture scope slot value false = (cache', scope') →
    Accesses cache view config scope key valid cache' scope' (.ok (value, true))
  | failed {acquired slot evicted cache'} :
    cache.acquire view config scope.isSome key = (acquired, .ok (slot, evicted)) →
    acquired.existing? slot valid = none → acquired.Fills cache' slot →
    Accesses cache view config scope key valid cache' scope (.error .load)
  | loaded {acquired slot evicted filled value cache' scope'} :
    cache.acquire view config scope.isSome key = (acquired, .ok (slot, evicted)) →
    acquired.existing? slot valid = none → acquired.Fills filled slot →
    filled.capture scope slot value true = (cache', scope') →
    Accesses cache view config scope key valid cache' scope' (.ok (value, false))

theorem accesses (h : cache.getOrTryInit config { key, valid, loads, others := { view } } scope =
    (cache', scope', result)) :
    cache.Accesses view config scope key valid cache' scope' result := by
  rw [getOrTryInit] at h
  generalize ha : cache.acquire view config scope.isSome key = acquired at h
  obtain ⟨acquired, outcome⟩ := acquired
  cases outcome
  case error refusal =>
    obtain ⟨rfl, rfl, rfl⟩ : acquired = cache' ∧ scope = scope' ∧ _ = result := by simpa using h
    exact .refused ha
  case ok found =>
    obtain ⟨slot, evicted⟩ := found
    simp only [id_eq] at h
    split at h
    case h_1 existing he =>
      obtain ⟨hc, hr⟩ := Prod.mk.inj h
      obtain ⟨hs, rfl⟩ := Prod.mk.inj hr
      exact .hit ha he (Prod.ext hc hs)
    case h_2 he =>
      split at h
      case isTrue =>
        obtain ⟨hc, hr⟩ := Prod.mk.inj h
        obtain ⟨hs, rfl⟩ := Prod.mk.inj hr
        exact .loaded ha he (fills_clear.trans fills_load) (Prod.ext hc hs)
      case isFalse =>
        obtain ⟨hc, hr⟩ := Prod.mk.inj h
        obtain ⟨rfl, rfl⟩ := Prod.mk.inj hr
        exact .failed ha he (hc ▸ fills_clear)

end Access

section Captures

variable {κ : Type} {cache cache' : Cache κ} {scope scope' : Option (List CapturedSlot)}
variable {slot value : Nat} {fresh : Bool}

def heldBy (scope : Option (List CapturedSlot)) : List Nat :=
  (scope.getD []).map CapturedSlot.slot

-- A slot gets a pin whenever it is captured.
structure Pins (cache : Cache κ) (scope : Option (List CapturedSlot)) (cache' : Cache κ)
    (scope' : Option (List CapturedSlot)) : Prop where
  entries    : cache'.entries = cache.entries
  nextSlot   : cache'.nextSlot = cache.nextSlot
  value      : ∀ slot, (cache'.slots slot).value = (cache.slots slot).value
  pins       : ∀ slot, (cache'.slots slot).pins + (heldBy scope).count slot =
    (cache.slots slot).pins + (heldBy scope').count slot
  wellFormed : cache.WellFormed → cache'.WellFormed

theorem Pins.refl : cache.Pins scope cache scope where
  entries    := rfl
  nextSlot   := rfl
  value _    := rfl
  pins _     := rfl
  wellFormed := id

theorem addPins_slots (slot' : Nat) : (cache.addPins slot (· + 1)).slots slot' =
    { cache.slots slot' with
      pins := (cache.slots slot').pins + if slot = slot' then 1 else 0 } := by
  by_cases hs : slot = slot'
  case pos => subst hs; simp [addPins, setSlot]
  case neg => simp [addPins, setSlot, hs, Function.update_of_ne (Ne.symm hs)]

theorem pins_capture (h : cache.capture scope slot value fresh = (cache', scope')) :
    cache.Pins scope cache' scope' := by
  unfold capture at h
  split at h
  case h_1 =>
    obtain ⟨rfl, rfl⟩ := Prod.mk.inj h
    exact .refl
  case h_2 slots =>
    split at h
    case isTrue =>
      obtain ⟨rfl, rfl⟩ := Prod.mk.inj h
      exact .refl
    case isFalse =>
      obtain ⟨rfl, rfl⟩ := Prod.mk.inj h
      refine ⟨rfl, rfl, fun slot' => ?_, fun slot' => ?_, fun w => w.setSlot (w.value slot)⟩
      case refine_1 => rw [addPins_slots]
      case refine_2 =>
        simp only [addPins_slots, heldBy, Option.getD_some, List.map_append, List.count_append,
          List.map_singleton, List.count_singleton, beq_iff_eq]
        omega

theorem heldBy_capture (h : cache.capture scope slot value fresh = (cache', scope')) :
    ∀ slot' ∈ heldBy scope', slot' ∈ heldBy scope ∨ slot' = slot := by
  unfold capture at h
  split at h
  case h_1 =>
    obtain ⟨rfl, rfl⟩ := Prod.mk.inj h
    exact fun _ => .inl
  case h_2 slots =>
    split at h
    case isTrue =>
      obtain ⟨rfl, rfl⟩ := Prod.mk.inj h
      exact fun _ => .inl
    case isFalse =>
      obtain ⟨rfl, rfl⟩ := Prod.mk.inj h
      intro slot' hs
      simpa [heldBy] using hs

theorem capture_none (h : cache.capture none slot value fresh = (cache', scope')) :
    cache' = cache ∧ scope' = none :=
  (Prod.mk.inj h).imp Eq.symm Eq.symm

end Captures

-- The unpinned entries before and after an access that creates an entry.
section Ordinary

variable {κ : Type} {cache : Cache κ} {view : View} {key : κ} {entry : κ × Nat}

theorem ordinaryEntries_insert (key : κ) (w : cache.WellFormed) :
    (cache.insert key).ordinaryEntries = cache.ordinaryEntries + 1 := by
  have hn : cache.entries.countP (fun entry => ((cache.insert key).slots entry.2).pins = 0) =
      cache.ordinaryEntries := by
    refine List.countP_congr fun entry he => ?_
    simp [insert, setSlot, Function.update_of_ne (w.slot entry he).ne]
  rw [ordinaryEntries, insert, List.countP_append]
  refine congrArg₂ (· + ·) hn ?_
  simp [setSlot]

theorem ordinaryEntries_evict (he : cache.entries.find? (cache.idle view) = some entry)
    (hp : (cache.slots entry.2).pins = 0) :
    (cache.evict view).ordinaryEntries + 1 = cache.ordinaryEntries := by
  obtain ⟨hi, before, after, hs, hb⟩ := List.find?_eq_some_iff_append.mp he
  have hb : ∀ other ∈ before, ¬cache.idle view other = true := by simpa using hb
  have h : (cache.evict view).entries = before ++ after := by
    rw [evict, hs, List.eraseP_append_right _ hb, List.eraseP_cons_of_pos hi]
  have hv : (cache.evict view).slots = cache.slots := rfl
  simp [ordinaryEntries, h, hv, hs, hp, Nat.add_assoc]

variable [DecidableEq κ] {config : Config} {capacity : Nat} {cache' : Cache κ} {slot : Nat}
variable {evicted : Option (κ × Nat)}

-- An entry is evicted only if the capacity is reached.
theorem acquire_creates (hl : cache.lookup key = none) (hc : config.capacity = some capacity)
    (h : cache.acquire view config false key = (cache', .ok (slot, evicted))) :
    (cache.retain view).ordinaryEntries < capacity ∧ cache' = (cache.retain view).insert key ∨
      config.evictIdle = true ∧ capacity ≤ (cache.retain view).ordinaryEntries ∧
      ∃ entry, (cache.retain view).entries.find? ((cache.retain view).idle view) = some entry ∧
        cache' = ((cache.retain view).evict view).insert key := by
  have hn : cache.entries.find? (·.1 = key) = none := Option.map_eq_none_iff.mp hl
  simp only [acquire, hn, Bool.not_false, Bool.true_and, hc, Option.any_some,
    decide_eq_true_eq] at h
  split at h
  case isFalse hlt => exact .inl ⟨not_le.mp hlt, (Prod.mk.inj h).left.symm⟩
  case isTrue hle  =>
    split at h
    case isTrue     => cases (Prod.mk.inj h).right
    case isFalse he =>
      split at h
      case h_1 => cases (Prod.mk.inj h).right
      case h_2 entry hf =>
        exact .inr ⟨by simpa using he, hle, entry, hf, (Prod.mk.inj h).left.symm⟩

end Ordinary

end Cache

namespace Preloads

-- The pins count the captured slots.
section Accounted

variable {κ : Type} {preloads : Preloads κ} {slot : Nat}

structure Accounted (preloads : Preloads κ) : Prop where
  wellFormed : preloads.cache.WellFormed
  pins       : ∀ slot, (preloads.cache.slots slot).pins = preloads.captured.count slot
  captured   : ∀ slot ∈ preloads.captured, slot < preloads.cache.nextSlot

theorem accounted_new : (new : Preloads κ).Accounted where
  wellFormed := {
    keys          := List.nodup_nil
    slots         := List.nodup_nil
    slot _ h      := by cases h
    value _ _ h   := by cases h
  }
  pins _     := rfl
  captured _ h := by cases h

theorem Accounted.pins_nextSlot (a : preloads.Accounted) :
    (preloads.cache.slots preloads.cache.nextSlot).pins = 0 := by
  rw [a.pins, List.count_eq_zero]
  exact fun h => lt_irrefl _ (a.captured _ h)

-- An entry that is idle for the registry has no pins.
theorem Accounted.pins_of_idle {others : View} {entry : κ × Nat} (a : preloads.Accounted)
    (h : (preloads.sweep others).idle (preloads.view others) entry = true) :
    ((preloads.sweep others).slots entry.2).pins = 0 := by
  have hs : 1 + preloads.captured.count entry.2 + others.strongCount entry.2 = 1 :=
    of_decide_eq_true (Bool.and_eq_true_iff.mp h).left
  have hp : ((preloads.sweep others).slots entry.2).pins = preloads.captured.count entry.2 :=
    a.pins entry.2
  omega

end Accounted

section Capacity

variable {κ : Type} [DecidableEq κ] {config : Config} {capacity : Nat} {preloads : Preloads κ}
variable {others : View} {key : κ} {valid : Nat → Bool} {cache cache' : Cache κ}
variable {scope scope' : Option (List CapturedSlot)} {result : Result} {slot value : Nat}
variable {evicted : Option (κ × Nat)}

-- One entry is evicted at most, so only what exceeds the capacity already stays above it.
theorem Accounted.acquire_le_iff (a : preloads.Accounted) (hc : config.capacity = some capacity)
    (hl : preloads.cache.lookup key = none)
    (h : preloads.cache.acquire (preloads.view others) config false key =
      (cache', .ok (slot, evicted))) :
    cache'.ordinaryEntries ≤ capacity ↔
      config.evictIdle = false ∨ (preloads.sweep others).ordinaryEntries ≤ capacity := by
  have w : (preloads.cache.retain (preloads.view others)).WellFormed := a.wellFormed.retain
  rw [sweep]
  obtain ⟨hlt, rfl⟩ | ⟨he, hle, entry, hf, rfl⟩ := Cache.acquire_creates hl hc h
  case inl =>
    rw [Cache.ordinaryEntries_insert _ w]
    exact iff_of_true hlt (.inr (le_of_lt hlt))
  case inr =>
    have hp := a.pins_of_idle (List.find?_some hf)
    rw [Cache.ordinaryEntries_insert _ w.evict, Cache.ordinaryEntries_evict hf hp, he]
    exact (or_iff_right (by simp)).symm

theorem Accounted.access_le_iff (a : preloads.Accounted) (hc : config.capacity = some capacity)
    (hl : preloads.cache.lookup key = none)
    (h : preloads.cache.Accesses (preloads.view others) config none key valid cache' scope'
      (.ok (value, false))) :
    cache'.ordinaryEntries ≤ capacity ↔
      config.evictIdle = false ∨ (preloads.sweep others).ordinaryEntries ≤ capacity := by
  cases h
  case loaded ha _ f hp =>
    obtain ⟨rfl, rfl⟩ := Cache.capture_none hp
    rw [f.ordinaryEntries_eq]
    exact a.acquire_le_iff hc hl ha

-- Outside of the transactions an access keeps the unpinned entries within the capacity.
theorem Accounted.acquire_le (a : preloads.Accounted) {outcome}
    (hc : config.capacity = some capacity) (hle : preloads.cache.ordinaryEntries ≤ capacity)
    (h : preloads.cache.acquire (preloads.view others) config false key = (cache', outcome)) :
    cache'.ordinaryEntries ≤ capacity := by
  have hr : (preloads.sweep others).ordinaryEntries ≤ preloads.cache.ordinaryEntries :=
    List.filter_sublist.countP_le
  cases Cache.acquires h
  case found hl       =>
    refine le_trans (le_of_eq ?_) hle
    exact (Cache.perm_move hl).countP_eq _
  case refused        => exact hr.trans hle
  case inserted hl    => exact (a.acquire_le_iff hc hl h).mpr (.inr (hr.trans hle))
  case evicted hl _ _ => exact (a.acquire_le_iff hc hl h).mpr (.inr (hr.trans hle))

theorem Accounted.access_le (a : preloads.Accounted) (hc : config.capacity = some capacity)
    (hle : preloads.cache.ordinaryEntries ≤ capacity)
    (h : preloads.cache.Accesses (preloads.view others) config none key valid cache' scope'
      result) : cache'.ordinaryEntries ≤ capacity := by
  cases h
  case refused ha => exact a.acquire_le hc hle ha
  case hit ha _ hp =>
    obtain ⟨rfl, rfl⟩ := Cache.capture_none hp
    exact a.acquire_le hc hle ha
  case failed ha _ f =>
    rw [f.ordinaryEntries_eq]
    exact a.acquire_le hc hle ha
  case loaded ha _ f hp =>
    obtain ⟨rfl, rfl⟩ := Cache.capture_none hp
    rw [f.ordinaryEntries_eq]
    exact a.acquire_le hc hle ha

end Capacity

-- What an access and a release do to the pins.
section Steps

variable {κ : Type} {preloads : Preloads κ} {cache cache' : Cache κ} {slots : List CapturedSlot}
variable {scope scope' : Option (List CapturedSlot)} {committed : Bool}

structure Pinned (cache : Cache κ) (scope : Option (List CapturedSlot)) (cache' : Cache κ)
    (scope' : Option (List CapturedSlot)) : Prop where
  wellFormed : cache'.WellFormed
  nextSlot   : cache.nextSlot ≤ cache'.nextSlot
  pins       : ∀ slot, (cache'.slots slot).pins + (Cache.heldBy scope).count slot =
    (cache.slots slot).pins + (Cache.heldBy scope').count slot
  held       : ∀ slot ∈ Cache.heldBy scope', slot ∈ Cache.heldBy scope ∨ slot < cache'.nextSlot

theorem Pinned.fills {filled : Cache κ} {slot : Nat} (p : Pinned cache scope cache' scope')
    (f : cache'.Fills filled slot) : Pinned cache scope filled scope' where
  wellFormed   := f.wellFormed p.wellFormed
  nextSlot     := f.nextSlot ▸ p.nextSlot
  pins slot    := f.pins slot ▸ p.pins slot
  held slot hs := f.nextSlot ▸ p.held slot hs

theorem Pinned.capture {captured : Cache κ} {scope'' : Option (List CapturedSlot)}
    {slot value : Nat} {fresh : Bool} (p : Pinned cache scope cache' scope')
    (hs : slot < cache'.nextSlot)
    (h : cache'.capture scope' slot value fresh = (captured, scope'')) :
    Pinned cache scope captured scope'' := by
  have hp := Cache.pins_capture h
  refine ⟨hp.wellFormed p.wellFormed, hp.nextSlot ▸ p.nextSlot, fun slot => ?_, fun slot' hm => ?_⟩
  case refine_1 =>
    have h := p.pins slot
    have h' := hp.pins slot
    omega
  case refine_2 =>
    rw [hp.nextSlot]
    obtain hm | rfl := Cache.heldBy_capture h slot' hm
    · exact p.held slot' hm
    · exact .inr hs

section Access

variable [DecidableEq κ] {view : View} {config : Config} {preloading : Bool} {key : κ}
variable {valid : Nat → Bool} {result : Result}

theorem pinned_acquire {outcome} (w : cache.WellFormed)
    (hn : (cache.slots cache.nextSlot).pins = 0)
    (h : cache.acquire view config preloading key = (cache', outcome)) :
    Pinned cache scope cache' scope := by
  have ha := Cache.acquires h
  have hi (slot : Nat) : (Function.update cache.slots cache.nextSlot {} slot).pins =
      (cache.slots slot).pins := by
    by_cases hs : slot = cache.nextSlot
    case pos => subst hs; simp [hn]
    case neg => rw [Function.update_of_ne hs]
  refine ⟨ha.wellFormed w, ?_, fun slot => ?_, fun slot => .inl⟩
  case refine_1 =>
    cases ha
    case found   => exact le_rfl
    case refused => exact le_rfl
    all_goals exact Nat.le_succ _
  case refine_2 =>
    refine congrArg (· + _) ?_
    cases ha
    case found   => rfl
    case refused => rfl
    all_goals exact hi slot

theorem pinned_access (w : cache.WellFormed) (hn : (cache.slots cache.nextSlot).pins = 0)
    (h : cache.Accesses view config scope key valid cache' scope' result) :
    Pinned cache scope cache' scope' := by
  cases h
  case refused ha => exact pinned_acquire w hn ha
  case hit ha _ hp =>
    have a := Cache.acquires ha
    exact (pinned_acquire w hn ha).capture ((a.wellFormed w).slot _ (a.mem w)) hp
  case failed ha _ f => exact (pinned_acquire w hn ha).fills f
  case loaded ha _ f hp =>
    have a := Cache.acquires ha
    have hs := (a.wellFormed w).slot _ (a.mem w)
    exact ((pinned_acquire w hn ha).fills f).capture (f.nextSlot ▸ hs) hp

end Access

theorem pins_releaseAll (slot : Nat) : ((cache.releaseAll slots committed).slots slot).pins =
    (cache.slots slot).pins - (slots.map CapturedSlot.slot).count slot := by
  induction slots generalizing cache
  case nil => rfl
  case cons captured slots hi =>
    rw [Cache.releaseAll, List.foldl_cons, ←Cache.releaseAll, hi, Cache.release_eq,
      Cache.setSlot, List.map_cons, List.count_cons]
    by_cases hs : slot = captured.slot
    case pos => subst hs; simp [CacheSlot.released]; omega
    case neg => simp [Function.update_of_ne hs, Ne.symm hs]

-- Dropping a handle removes no resource.
theorem value_releaseAll (slot : Nat) :
    ((cache.releaseAll slots true).slots slot).value = (cache.slots slot).value := by
  induction slots generalizing cache
  case nil => rfl
  case cons captured slots hi =>
    rw [Cache.releaseAll, List.foldl_cons, ←Cache.releaseAll, hi, Cache.release_eq, Cache.setSlot]
    by_cases hs : slot = captured.slot
    case pos => subst hs; simp [CacheSlot.released]
    case neg => simp [Function.update_of_ne hs]

theorem nextSlot_releaseAll : (cache.releaseAll slots committed).nextSlot = cache.nextSlot := by
  induction slots generalizing cache
  case nil => rfl
  case cons captured slots hi =>
    rw [Cache.releaseAll, List.foldl_cons, ←Cache.releaseAll, hi, Cache.release_eq]
    rfl

theorem wellFormed_releaseAll (w : cache.WellFormed) :
    (cache.releaseAll slots committed).WellFormed := by
  induction slots generalizing cache
  case nil => exact w
  case cons captured slots hi =>
    rw [Cache.releaseAll, List.foldl_cons, ←Cache.releaseAll, Cache.release_eq]
    refine hi (w.setSlot fun value hv => ?_)
    rw [CacheSlot.released] at hv
    split at hv
    case isTrue  => cases hv
    case isFalse => exact w.value _ value hv

end Steps

section Invariant

variable {κ : Type} {config : Config} {preloads preloads' : Preloads κ} {cache : Cache κ}
variable {slots : List CapturedSlot} {scope scope' : Option (List CapturedSlot)} {rest : List Nat}
variable {i : Nat} {committed : Bool}

theorem captured_scope (h : preloads.scopes[i]? = some slots) : preloads.captured.Perm
    (Cache.heldBy (some slots) ++ captured { preloads with
      scopes := preloads.scopes.eraseIdx i }) := by
  obtain ⟨hi, rfl⟩ := List.getElem?_eq_some_iff.mp h
  have hp := ((List.getElem_cons_eraseIdx_perm hi).append_right preloads.handles).flatten
  refine (hp.map CapturedSlot.slot).symm.trans (.of_eq ?_)
  simp [captured, Cache.heldBy]

theorem captured_handle (h : preloads.handles[i]? = some slots) : preloads.captured.Perm
    (Cache.heldBy (some slots) ++ captured { preloads with
      handles := preloads.handles.eraseIdx i }) := by
  obtain ⟨hi, rfl⟩ := List.getElem?_eq_some_iff.mp h
  have hp := ((List.getElem_cons_eraseIdx_perm hi).append_left preloads.scopes).flatten
  refine (hp.map CapturedSlot.slot).symm.trans (((List.perm_middle.flatten).map _).trans ?_)
  exact .of_eq (by simp [captured, Cache.heldBy])

theorem Accounted.exchange (a : preloads.Accounted) (rest : List Nat)
    (p : Pinned preloads.cache scope preloads'.cache scope')
    (h : preloads.captured.Perm (Cache.heldBy scope ++ rest))
    (h' : preloads'.captured.Perm (Cache.heldBy scope' ++ rest)) : preloads'.Accounted where
  wellFormed    := p.wellFormed
  pins slot     := by
    have hp := p.pins slot
    have ha := a.pins slot
    rw [h.count_eq, List.count_append] at ha
    rw [h'.count_eq, List.count_append]
    omega
  captured slot hs := by
    obtain hs | hs := List.mem_append.mp (h'.mem_iff.mp hs)
    · refine (p.held slot hs).elim (fun hs => ?_) id
      exact (a.captured slot (h.mem_iff.mpr (List.mem_append_left _ hs))).trans_le p.nextSlot
    · exact (a.captured slot (h.mem_iff.mpr (List.mem_append_right _ hs))).trans_le p.nextSlot

theorem pinned_release (a : preloads.Accounted)
    (h : preloads.captured.Perm (Cache.heldBy (some slots) ++ rest)) :
    Pinned preloads.cache (some slots) (preloads.cache.releaseAll slots committed) none where
  wellFormed   := wellFormed_releaseAll a.wellFormed
  nextSlot     := nextSlot_releaseAll.ge
  pins slot    := by
    have ha := a.pins slot
    rw [h.count_eq, List.count_append] at ha
    rw [pins_releaseAll]
    change _ - (Cache.heldBy (some slots)).count slot + _ = _ + 0
    omega
  held _ h     := by cases h

theorem Pinned.refl (scope : Option (List CapturedSlot)) (w : cache.WellFormed) :
    Pinned cache scope cache scope where
  wellFormed  := w
  nextSlot    := le_rfl
  pins _      := rfl
  held _      := .inl

end Invariant

section Steps

variable {κ : Type} [DecidableEq κ] {config : Config} {preloads preloads' : Preloads κ}
variable {operation : Operation κ} {output : Option Result}

-- What an operation can do.
inductive Steps (config : Config) (preloads : Preloads κ) :
    Operation κ → Option Result → Preloads κ → Prop
  | ordinary {key valid loads others cache result} :
    preloads.cache.Accesses (preloads.view others) config none key valid cache none result →
    Steps config preloads (.access none key valid loads others) (some result)
      { preloads with cache }
  | preloading {i slots key valid loads others cache scope result} :
    preloads.scopes[i]? = some slots →
    preloads.cache.Accesses (preloads.view others) config (some slots) key valid cache scope
      result →
    Steps config preloads (.access (some i) key valid loads others) (some result)
      { preloads with cache, scopes := preloads.scopes.set i (scope.getD []) }
  | beginPreload :
    Steps config preloads .beginPreload none { preloads with scopes := preloads.scopes ++ [[]] }
  | committed {i slots succeeds} :
    preloads.scopes[i]? = some slots →
    Steps config preloads (.finishPreload i succeeds) none
      { preloads with
        scopes := preloads.scopes.eraseIdx i, handles := preloads.handles ++ [slots] }
  | rolledBack {i slots succeeds} :
    preloads.scopes[i]? = some slots →
    Steps config preloads (.finishPreload i succeeds) none
      { preloads.release slots false with scopes := preloads.scopes.eraseIdx i }
  | dropped {i slots} :
    preloads.handles[i]? = some slots →
    Steps config preloads (.dropHandle i) none
      { preloads.release slots true with handles := preloads.handles.eraseIdx i }

theorem steps (h : preloads.step config operation = some (preloads', output)) :
    Steps config preloads operation output preloads' := by
  cases operation
  case access scope key valid loads others =>
    cases scope
    case none =>
      generalize ha : preloads.accessIn config none key valid loads others = access
      obtain ⟨cache, scope, result⟩ := access
      rw [step, ha] at h
      obtain ⟨rfl, rfl⟩ := Prod.mk.inj (Option.some.inj h)
      have ha := Cache.accesses ha
      obtain rfl : scope = none := by
        cases ha
        case refused     => rfl
        case failed      => rfl
        case hit hp      => exact (Cache.capture_none hp).right
        case loaded hp   => exact (Cache.capture_none hp).right
      exact .ordinary ha
    case some i =>
      obtain ⟨slots, hs, h⟩ := Option.bind_eq_some_iff.mp h
      generalize ha : preloads.accessIn config (some slots) key valid loads others = access at h
      obtain ⟨cache, scope, result⟩ := access
      obtain ⟨rfl, rfl⟩ := Prod.mk.inj (Option.some.inj h)
      exact .preloading hs (Cache.accesses ha)
  case beginPreload =>
    obtain ⟨rfl, rfl⟩ := Prod.mk.inj (Option.some.inj h)
    exact .beginPreload
  case finishPreload i succeeds =>
    obtain ⟨slots, hs, h⟩ := Option.bind_eq_some_iff.mp h
    generalize hf : Transaction.finish ⟨preloads.cache, slots⟩ succeeds = finished at h
    obtain ⟨cache, handle⟩ := finished
    obtain ⟨rfl, rfl⟩ := Prod.mk.inj (Option.some.inj h)
    rw [Transaction.finish] at hf
    split at hf
    case isTrue =>
      obtain ⟨rfl, rfl⟩ := Prod.mk.inj hf
      exact .committed hs
    case isFalse =>
      obtain ⟨rfl, rfl⟩ := Prod.mk.inj hf
      rw [Option.toList_none, List.append_nil]
      exact .rolledBack hs
  case dropHandle i =>
    obtain ⟨slots, hs, h⟩ := Option.bind_eq_some_iff.mp h
    obtain ⟨rfl, rfl⟩ := Prod.mk.inj (Option.some.inj h)
    exact .dropped hs

theorem Accounted.step (a : preloads.Accounted)
    (h : preloads.step config operation = some (preloads', output)) : preloads'.Accounted := by
  cases steps h
  case ordinary ha =>
    have p := pinned_access a.wellFormed a.pins_nextSlot ha
    exact a.exchange preloads.captured p .rfl .rfl
  case preloading i slots _ _ _ _ cache scope result hs ha =>
    have p := pinned_access a.wellFormed a.pins_nextSlot ha
    refine a.exchange _ p (captured_scope hs) ?_
    have hi := (List.getElem?_eq_some_iff.mp hs).choose
    have hp := ((List.set_perm_cons_eraseIdx hi (scope.getD [])).append_right
      preloads.handles).flatten
    exact (hp.map CapturedSlot.slot).trans (.of_eq (by simp [Preloads.captured, Cache.heldBy]))
  case beginPreload =>
    refine a.exchange preloads.captured (.refl none a.wellFormed) .rfl ?_
    exact .of_eq (by simp [Preloads.captured, Cache.heldBy])
  case committed i slots _ hs =>
    refine a.exchange _ (.refl (some slots) a.wellFormed) (captured_scope hs) ?_
    refine .trans (.of_eq ?_) List.perm_append_comm
    simp [Preloads.captured, Cache.heldBy]
  case rolledBack i slots _ hs =>
    have hp := captured_scope hs
    exact a.exchange _ (pinned_release a hp) hp .rfl
  case dropped i slots hs =>
    have hp := captured_handle hs
    exact a.exchange _ (pinned_release a hp) hp .rfl

theorem accounted : (system (κ := κ) config).Invariant Accounted where
  init _ hi := hi ▸ accounted_new
  step _ _ _ _ a h := a.step h

end Steps

section Capacity

variable {κ : Type} [DecidableEq κ] {config : Config} {capacity : Nat} {cache cache' : Cache κ}
variable {view : View} {scope scope' : Option (List CapturedSlot)} {key : κ} {valid : Nat → Bool}
variable {result : Result} {preloads preloads' : Preloads κ} {operation : Operation κ}
variable {output : Option Result} {entry : κ × Nat}

-- A resident resource is kept, unless it is asked for and not valid any more.
structure Keeps (cache cache' : Cache κ) (access : Option (κ × (Nat → Bool))) : Prop where
  entries : ∀ entry ∈ cache.entries, (cache.slots entry.2).value.isSome →
    entry ∈ cache'.entries
  values  : ∀ entry ∈ cache.entries, ∀ value, (cache.slots entry.2).value = some value →
    (∀ valid, access = some (entry.1, valid) → valid value = true) →
    (cache'.slots entry.2).value = some value

theorem acquire_evicts {preloading : Bool} {slot : Nat} (he : config.evictIdle = false) :
    cache.acquire view config preloading key ≠ (cache', .ok (slot, some entry)) := by
  intro h
  unfold Cache.acquire at h
  split at h
  case h_1 => simp at h
  case h_2 =>
    simp only [he, Bool.not_false, if_true] at h
    split at h <;> simp at h

-- A cache that does not evict idle entries only drops the entries of failed loads.
theorem mem_acquire {preloading : Bool} {outcome} (w : cache.WellFormed)
    (he : config.evictIdle = false)
    (h : cache.acquire view config preloading key = (cache', outcome)) (hm : entry ∈ cache.entries)
    (hv : (cache.slots entry.2).value.isSome) :
    entry ∈ cache'.entries ∧ cache'.slots entry.2 = cache.slots entry.2 := by
  have hr : entry ∈ (cache.retain view).entries := by
    refine List.mem_filter.mpr ⟨hm, ?_⟩
    obtain ⟨value, hv⟩ := Option.isSome_iff_exists.mp hv
    by_cases hl : view.locked entry.2 <;> simp [Cache.keeps, Cache.tryLock, hl, hv]
  have a := Cache.acquires h
  refine ⟨?_, a.slots_eq (w.slot entry hm)⟩
  cases a
  case found hl  => exact (Cache.mem_move w hl).mpr hm
  case refused   => exact hr
  case evicted   => exact (acquire_evicts he h).elim
  case inserted  => exact List.mem_append_left _ hr

theorem keeps_acquire {preloading : Bool} {outcome} {access : Option (κ × (Nat → Bool))}
    (w : cache.WellFormed) (he : config.evictIdle = false)
    (h : cache.acquire view config preloading key = (cache', outcome)) :
    Keeps cache cache' access where
  entries _ hm hv          := (mem_acquire w he h hm hv).left
  values entry hm value hv _ := by
    rwa [(mem_acquire w he h hm (by simp [hv])).right]

-- What replaces a resource is loaded for its key.
omit [DecidableEq κ] in
theorem Keeps.fills {slot : Nat} {filled : Cache κ}
    (k : Keeps cache cache' (some (key, valid))) (w' : cache'.WellFormed)
    (hm : (key, slot) ∈ cache'.entries) (hn : cache'.existing? slot valid = none)
    (f : cache'.Fills filled slot) : Keeps cache filled (some (key, valid)) where
  entries entry he hv          := f.entries ▸ k.entries entry he hv
  values entry he value hv hk  := by
    have hv' := k.values entry he value hv hk
    have he' := k.entries entry he (by simp [hv])
    have hs : entry.2 ≠ slot := by
      intro hs
      have hk := hk valid (by rw [List.inj_on_of_nodup_map w'.slots he' hm hs])
      simp [Cache.existing?, ←hs, hv', hk] at hn
    rw [f.value _ hs, hv']

omit [DecidableEq κ] in
theorem Keeps.pins {access : Option (κ × (Nat → Bool))} {captured : Cache κ}
    (k : Keeps cache cache' access) (p : cache'.Pins scope captured scope') :
    Keeps cache captured access where
  entries entry he hv         := p.entries ▸ k.entries entry he hv
  values entry he value hv hk := by rw [p.value, k.values entry he value hv hk]

theorem keeps_access (w : cache.WellFormed) (he : config.evictIdle = false)
    (h : cache.Accesses view config scope key valid cache' scope' result) :
    Keeps cache cache' (some (key, valid)) := by
  cases h
  case refused ha  => exact keeps_acquire w he ha
  case hit ha _ hp => exact (keeps_acquire w he ha).pins (Cache.pins_capture hp)
  case failed ha hn f =>
    have a := Cache.acquires ha
    exact (keeps_acquire w he ha).fills (a.wellFormed w) (a.mem w) hn f
  case loaded ha hn f hp =>
    have a := Cache.acquires ha
    have k := (keeps_acquire w he ha).fills (a.wellFormed w) (a.mem w) hn f
    exact k.pins (Cache.pins_capture hp)

theorem Accounted.keeps (a : preloads.Accounted) (he : config.evictIdle = false)
    (h : preloads.step config operation = some (preloads', output))
    (hf : operation.isFinish = false) :
    Keeps preloads.cache preloads'.cache operation.access? := by
  cases steps h
  case ordinary ha     => exact keeps_access a.wellFormed he ha
  case preloading ha   => exact keeps_access a.wellFormed he ha
  case beginPreload    => exact ⟨fun _ hm _ => hm, fun _ _ _ hv _ => hv⟩
  case committed       => cases hf
  case rolledBack      => cases hf
  case dropped slots _ =>
    refine ⟨fun entry hm _ => ?_, fun entry hm value hv _ => ?_⟩
    · have he : (preloads.cache.releaseAll slots true).entries = preloads.cache.entries :=
        Cache.entries_releaseAll
      exact he ▸ hm
    · exact (value_releaseAll entry.2).trans hv

-- The steps other than ordinary accesses leave at most so many unpinned entries.
def within (config : Config) (capacity : Nat) : System (Preloads κ) (Operation κ) (Option Result) :=
  (system config).restrict fun _ operation _ preloads' =>
    operation.isOrdinary = false → preloads'.cache.ordinaryEntries ≤ capacity

theorem ordinaryEntries_within (hc : config.capacity = some capacity)
    (r : (within config capacity).Reachable preloads) :
    preloads.cache.ordinaryEntries ≤ capacity := by
  have hi : (within config capacity).Invariant fun preloads : Preloads κ =>
      preloads.Accounted ∧ preloads.cache.ordinaryEntries ≤ capacity := by
    refine ⟨fun _ hi => hi ▸ ⟨accounted_new, Nat.zero_le _⟩,
      fun preloads operation _ preloads' i s => ?_⟩
    obtain ⟨a, hle⟩ := i
    obtain ⟨h, hn⟩ := s
    refine ⟨a.step h, ?_⟩
    cases steps h
    case ordinary ha => exact a.access_le hc hle ha
    all_goals exact hn rfl
  exact (hi.reachable r).right

-- A cache stays within its capacity as long as a new entry finds at most so many unpinned ones.
theorem ordinaryEntries_le_iff (hc : config.capacity = some capacity) :
    (∀ preloads : Preloads κ, (system config).Reachable preloads →
      (∀ key valid loads others value preloads', preloads.cache.lookup key = none →
        preloads.step config (.access none key valid loads others) =
          some (preloads', some (.ok (value, false))) →
        (preloads'.cache.ordinaryEntries ≤ capacity ↔
          config.evictIdle = false ∨ (preloads.sweep others).ordinaryEntries ≤ capacity)) ∧
      (config.evictIdle = false → ∀ operation output preloads', operation.isFinish = false →
        preloads.step config operation = some (preloads', output) →
        Keeps preloads.cache preloads'.cache operation.access?)) ∧
    ∀ preloads : Preloads κ, (within config capacity).Reachable preloads →
      preloads.cache.ordinaryEntries ≤ capacity := by
  refine ⟨fun preloads r => ?_, fun _ => ordinaryEntries_within hc⟩
  have a := accounted.reachable r
  refine ⟨fun key valid loads others value preloads' hl h => ?_,
    fun he _ _ _ hf h => a.keeps he h hf⟩
  cases steps h
  case ordinary ha => exact a.access_le_iff hc hl ha

-- Nobody refers to a slot or to a resource.
def quiet : View where
  strongCount := fun _ => 0
  valueCount  := fun _ => 1
  locked      := fun _ => false

def ask (scope : Option Nat) (key : Nat) : Operation Nat :=
  .access scope key (fun _ => true) true quiet

-- Two resources are preloaded and their handle is dropped.
def released : Preloads Nat :=
  (System.replay (step (bounded 1)) new
    [.beginPreload, ask (some 0) 1, ask (some 0) 2, .finishPreload 0 true, .dropHandle 0]).getD new

theorem reachable_released : (system (bounded 1)).Reachable released :=
  System.reachable_replay (.init rfl) (Option.getD_of_ne_none (by decide) _).symm

theorem step_released : ∃ preloads', released.step (bounded 1) (ask none 3) =
    some (preloads', some (.ok (2, false))) ∧ preloads'.cache.ordinaryEntries = 2 := by
  have h : (released.step (bounded 1) (ask none 3)).map
      (fun next => (next.2, next.1.cache.ordinaryEntries)) =
        some (some (.ok (2, false)), 2) := by rfl
  obtain ⟨⟨preloads', output⟩, hs, he⟩ := Option.map_eq_some_iff.mp h
  obtain ⟨rfl, hn⟩ := Prod.mk.inj he
  exact ⟨preloads', hs, hn⟩

theorem ordinaryEntries_le_iff_released : ∃ preloads', released.step (bounded 1) (ask none 3) =
      some (preloads', some (.ok (2, false))) ∧
    (preloads'.cache.ordinaryEntries ≤ 1 ↔
      (bounded 1).evictIdle = false ∨ (released.sweep quiet).ordinaryEntries ≤ 1) :=
  step_released.imp fun preloads' h => ⟨h.left,
    ((ordinaryEntries_le_iff rfl).left released reachable_released).left 3 _ _ _ 2 preloads'
      (by decide) h.left⟩

-- One of the two entries is evicted for the third.
theorem ordinaryEntries_released : ¬∀ preloads : Preloads Nat,
    (system (bounded 1)).Reachable preloads → ∀ key valid loads others value preloads',
      preloads.cache.lookup key = none →
      preloads.step (bounded 1) (.access none key valid loads others) =
        some (preloads', some (.ok (value, false))) →
      preloads'.cache.ordinaryEntries ≤ 1 := by
  intro h
  obtain ⟨preloads', hs, hn⟩ := step_released
  have hle := h released reachable_released 3 _ _ _ 2 preloads' (by decide) hs
  rw [hn] at hle
  exact absurd hle (by decide)

end Capacity
end Preloads
end RuntimeCache
end Backend
