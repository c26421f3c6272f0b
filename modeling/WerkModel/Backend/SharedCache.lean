import WerkModel.Lib.Checks
import WerkModel.Lib.OrderedDict
import WerkModel.Lib.System

-- A cache whose entries are loaded on demand, with one budget for all of its namespaces, a limit
-- for each of them, and leases on the entries that are in use.
open Checks

namespace Backend

structure SharedCache.Stat where
  hits      : Nat
  misses    : Nat
  evictions : Nat
  bytes     : Nat

-- Entries are values with their sizes.
structure SharedCache (ν κ α : Type) where
  budget  : Nat
  limits  : OrderedDict ν Nat
  entries : OrderedDict (ν × κ) (α × Nat)
  leases  : OrderedDict (ν × κ) Nat
  pending : OrderedDict (ν × κ) Nat
  used    : Nat
  stats   : OrderedDict ν SharedCache.Stat

namespace SharedCache

variable {ν κ α : Type} [DecidableEq ν]

def integer (value : Nat) (name : String) (minimum : Nat) : Except String Unit :=
  ensure (minimum ≤ value) <| name ++ " must be an integer >= " ++ toString minimum

theorem integer_eq_ok {value minimum : Nat} {name : String} :
    integer value name minimum = .ok () ↔ minimum ≤ value :=
  ensure_eq_ok

theorem integer_error {value minimum : Nat} {name error : String}
    (h : integer value name minimum = .error error) :
    ¬minimum ≤ value ∧ error = name ++ " must be an integer >= " ++ toString minimum := by
  rw [integer, ensure] at h
  split at h
  case isTrue     => cases h
  case isFalse hn => exact ⟨hn, (Except.error.inj h).symm⟩

def new (budget : Nat) (limits : OrderedDict ν Nat) : Except String (SharedCache ν κ α) := do
  integer budget "cache budget" 1
  return {
    budget, limits
    entries := .empty
    leases  := .empty
    pending := .empty
    used    := 0
    stats   := .empty
  }

variable (cache : SharedCache ν κ α) (identity : ν × κ) (space : ν)

def stat : Stat :=
  (cache.stats.get? space).getD ⟨0, 0, 0, 0⟩

def modifyStat (f : Stat → Stat) : SharedCache ν κ α :=
  { cache with stats := cache.stats.set space (f (cache.stat space)) }

def bytes : Nat :=
  (cache.stat space).bytes

section Stats

variable {cache : SharedCache ν κ α} {space : ν} {f : Stat → Stat}

@[simp]
theorem modifyStat_budget : (cache.modifyStat space f).budget = cache.budget := rfl

@[simp]
theorem modifyStat_limits : (cache.modifyStat space f).limits = cache.limits := rfl

@[simp]
theorem modifyStat_entries : (cache.modifyStat space f).entries = cache.entries := rfl

@[simp]
theorem modifyStat_leases : (cache.modifyStat space f).leases = cache.leases := rfl

@[simp]
theorem modifyStat_pending : (cache.modifyStat space f).pending = cache.pending := rfl

@[simp]
theorem modifyStat_used : (cache.modifyStat space f).used = cache.used := rfl

theorem stat_modifyStat_self : (cache.modifyStat space f).stat space = f (cache.stat space) := by
  rw [modifyStat, stat, OrderedDict.get?_set_self, Option.getD_some]

theorem stat_modifyStat_of_ne {other : ν} (h : other ≠ space) :
    (cache.modifyStat space f).stat other = cache.stat other := by
  rw [modifyStat, stat, OrderedDict.get?_set_of_ne h, stat]

-- Bookkeeping that does not concern bytes.
theorem bytes_modifyStat (hf : ∀ stat, (f stat).bytes = stat.bytes) (other : ν) :
    (cache.modifyStat space f).bytes other = cache.bytes other := by
  by_cases h : other = space
  case pos => rw [h, SharedCache.bytes, stat_modifyStat_self, hf, SharedCache.bytes]
  case neg => rw [SharedCache.bytes, stat_modifyStat_of_ne h, SharedCache.bytes]

theorem bytes_congr {cache' : SharedCache ν κ α} (h : cache'.stats = cache.stats) :
    cache'.bytes space = cache.bytes space := by
  rw [SharedCache.bytes, stat, h, SharedCache.bytes, stat]

theorem bytes_modifyStat_self :
    (cache.modifyStat space f).bytes space = (f (cache.stat space)).bytes := by
  rw [SharedCache.bytes, stat_modifyStat_self]

theorem bytes_modifyStat_of_ne {other : ν} (h : other ≠ space) :
    (cache.modifyStat space f).bytes other = cache.bytes other := by
  rw [SharedCache.bytes, stat_modifyStat_of_ne h, SharedCache.bytes]

end Stats

def limit : Nat :=
  (cache.limits.get? space).getD cache.budget

variable [DecidableEq κ]

def size : Nat :=
  (cache.entries.get? identity).elim 0 Prod.snd

def leaseCount : Nat :=
  (cache.leases.get? identity).getD 0

-- Eviction of an entry for which room is made.
def evict : SharedCache ν κ α :=
  { cache.modifyStat identity.1 fun stat =>
      { stat with bytes := stat.bytes - cache.size identity, evictions := stat.evictions + 1 } with
    entries := cache.entries.erase identity
    used    := cache.used - cache.size identity }

-- The entry that has not been used for the longest time among those that may be evicted.
def victim (allowed : ν → Bool) : Option (ν × κ) :=
  cache.entries.keys.find? fun identity => cache.leaseCount identity = 0 ∧ allowed identity.1

variable {cache identity space} in
theorem victim_eq_some {allowed : ν → Bool} (h : cache.victim allowed = some identity) :
    identity ∈ cache.entries ∧ cache.leaseCount identity = 0 ∧ allowed identity.1 :=
  ⟨List.mem_of_find?_eq_some h, by simpa using List.find?_some h⟩

variable {cache identity} in
theorem victim_eq_none {allowed : ν → Bool} (h : cache.victim allowed = none)
    (hm : identity ∈ cache.entries) (ha : allowed identity.1) : cache.leaseCount identity ≠ 0 := by
  have := List.find?_eq_none.mp h identity hm
  simpa [ha] using this

-- The loop that evicts until an entry fits.
def makeRoom (cache : SharedCache ν κ α) (space : ν) (size cap : Nat) :
    Except String Unit × SharedCache ν κ α :=
  if cache.budget < cache.used + size ∨ cap < cache.bytes space + size then
    match _h : cache.victim fun other => cache.bytes space + size ≤ cap ∨ other = space with
    | none        => (.error "active cache leases prevent admission", cache)
    | some victim => (cache.evict victim).makeRoom space size cap
  else
    (.ok (), cache)
termination_by cache.entries.items.length
decreasing_by exact OrderedDict.length_erase_lt (victim_eq_some _h).1

def evictFor (size : Nat) : Except String Unit × SharedCache ν κ α :=
  let cache := cache.modifyStat space id
  if min (cache.limit space) cache.budget < size then
    (.error "entry exceeds cache budget", cache)
  else
    cache.makeRoom space size (cache.limit space)

def reserve (size : Nat) : SharedCache ν κ α :=
  { cache.modifyStat identity.1 fun stat => { stat with bytes := stat.bytes + size } with
    used    := cache.used + size
    pending := cache.pending.set identity size }

def lease : SharedCache ν κ α :=
  { cache with leases := cache.leases.set identity (cache.leaseCount identity + 1) }

def hit (value : α) (oldSize size : Nat) : Except String (Option α) × SharedCache ν κ α :=
  if oldSize ≠ size then
    (.error "cache key reused with different byte size", cache)
  else
    let cache := cache.modifyStat identity.1 fun stat => { stat with hits := stat.hits + 1 }
    let cache := { cache with entries := cache.entries.moveToEnd identity }
    (.ok (some value), cache.lease identity)

def miss (size : Nat) : Except String (Option α) × SharedCache ν κ α :=
  match cache.evictFor identity.1 size with
  | (.error error, cache) => (.error error, cache)
  | (.ok (), cache)       => (.ok none, cache.reserve identity size)

-- An acquisition up to the call of its loader. Without a value the loader is called next.
def acquire (size : Nat) : Except String (Option α) × SharedCache ν κ α :=
  match integer size "entry bytes" 1 with
  | .error error => (.error error, cache)
  | .ok ()       =>
    if identity ∈ cache.pending then
      (.error "recursive load of the same cache entry", cache)
    else
      let cache := cache.modifyStat identity.1 id
      match cache.entries.get? identity with
      | some (value, oldSize) => cache.hit identity value oldSize size
      | none                  => cache.miss identity size

-- A loaded entry takes the place of its reservation.
def settle (size : Nat) (value : α) : SharedCache ν κ α :=
  { cache with
    pending := cache.pending.erase identity
    entries := cache.entries.set identity (value, size) }

-- The rest of an acquisition whose loader returns.
def store (size : Nat) (value : α) : SharedCache ν κ α :=
  let cache := cache.modifyStat identity.1 fun stat => { stat with misses := stat.misses + 1 }
  (cache.settle identity size value).lease identity

-- The rest of an acquisition whose loader raises.
def abandon (size : Nat) : SharedCache ν κ α :=
  { cache.modifyStat identity.1 fun stat => { stat with bytes := stat.bytes - size } with
    used    := cache.used - size
    pending := cache.pending.erase identity }

def release : SharedCache ν κ α :=
  let count := cache.leaseCount identity - 1
  { cache with leases :=
      if count = 0 then cache.leases.erase identity else cache.leases.set identity count }

def leasedBytes : Nat :=
  ∑ identity ∈ cache.leases.keySet, cache.size identity

def pendingBytes : Nat :=
  cache.pending.total Prod.snd

def shrink (cache : SharedCache ν κ α) : Except String Unit × SharedCache ν κ α :=
  if cache.budget < cache.used then
    match _h : cache.victim fun _ => true with
    | none        => (.error "StopIteration", cache)
    | some victim => (cache.evict victim).shrink
  else
    (.ok (), cache)
termination_by cache.entries.items.length
decreasing_by exact OrderedDict.length_erase_lt (victim_eq_some _h).1

def resize (budget : Nat) : Except String Unit × SharedCache ν κ α :=
  match integer budget "cache budget" 1 with
  | .error error => (.error error, cache)
  | .ok ()       =>
    if budget < cache.leasedBytes + cache.pendingBytes then
      (.error "new budget cannot evict active leases", cache)
    else
      { cache with budget }.shrink

end SharedCache
end Backend
