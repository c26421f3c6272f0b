import WerkModel.Backend.SharedCache

-- What the evictions of the cache leave in balance, and when they make enough room.
namespace Backend
namespace SharedCache

variable {ν κ α : Type} [DecidableEq ν] [DecidableEq κ]
variable (cache : SharedCache ν κ α)

-- Sums over the namespaces for which `p` holds.
def heldBytes (p : ν → Bool) : Nat :=
  cache.entries.total fun item => if p item.1.1 then item.2.2 else 0

def reservedBytes (p : ν → Bool) : Nat :=
  cache.pending.total fun item => if p item.1.1 then item.2 else 0

def leasedBytesWhere (p : ν → Bool) : Nat :=
  ∑ identity ∈ cache.leases.keySet with p identity.1, cache.size identity

structure Balanced (cache : SharedCache ν κ α) : Prop where
  used     : cache.used = cache.heldBytes (fun _ => true) + cache.reservedBytes (fun _ => true)
  bytes    : ∀ space, cache.bytes space =
    cache.heldBytes (· = space) + cache.reservedBytes (· = space)
  leased   : ∀ identity ∈ cache.leases, identity ∈ cache.entries
  positive : ∀ identity ∈ cache.leases, 0 < cache.leaseCount identity
  fresh    : ∀ identity ∈ cache.pending, identity ∉ cache.entries

structure Bounded (cache : SharedCache ν κ α) : Prop where
  used  : cache.used ≤ cache.budget
  bytes : ∀ space, cache.bytes space ≤ cache.limit space

-- A cache of which only entries without leases have been evicted.
structure Evicted (cache cache' : SharedCache ν κ α) : Prop where
  budget  : cache'.budget = cache.budget
  limits  : cache'.limits = cache.limits
  leases  : cache'.leases = cache.leases
  pending : cache'.pending = cache.pending
  kept    : ∀ identity ∈ cache.leases,
    cache'.entries.get? identity = cache.entries.get? identity
  absent  : ∀ identity, identity ∉ cache.entries → identity ∉ cache'.entries
  held_le : ∀ p, cache'.heldBytes p ≤ cache.heldBytes p

section Lemmas

variable {cache cache' : SharedCache ν κ α} {identity other : ν × κ} {space : ν} {p : ν → Bool}

theorem Balanced.congr (h : cache.Balanced) (hu : cache'.used = cache.used)
    (hb : ∀ space, cache'.bytes space = cache.bytes space) (he : cache'.entries = cache.entries)
    (hl : cache'.leases = cache.leases) (hp : cache'.pending = cache.pending) :
    cache'.Balanced where
  used     := by rw [hu, h.used, heldBytes, reservedBytes, heldBytes, reservedBytes, he, hp]
  bytes    := by
    intro space
    rw [hb, h.bytes, heldBytes, reservedBytes, heldBytes, reservedBytes, he, hp]
  leased   := by simpa [hl, he] using h.leased
  positive := by simpa [hl, leaseCount] using h.positive
  fresh    := by simpa [hp, he] using h.fresh

theorem Evicted.refl (cache : SharedCache ν κ α) : Evicted cache cache :=
  ⟨rfl, rfl, rfl, rfl, fun _ _ => rfl, fun _ => id, fun _ => Nat.le_refl _⟩

theorem Evicted.trans {cache'' : SharedCache ν κ α} (h : Evicted cache cache')
    (h' : Evicted cache' cache'') : Evicted cache cache'' where
  budget  := h'.budget.trans h.budget
  limits  := h'.limits.trans h.limits
  leases  := h'.leases.trans h.leases
  pending := h'.pending.trans h.pending
  kept    := fun id hi => (h'.kept id (h.leases ▸ hi)).trans (h.kept id hi)
  absent  := fun id hi => h'.absent id (h.absent id hi)
  held_le := fun p => (h'.held_le p).trans (h.held_le p)

theorem Evicted.leasedBytesWhere_eq (h : Evicted cache cache') :
    cache'.leasedBytesWhere p = cache.leasedBytesWhere p := by
  rw [leasedBytesWhere, leasedBytesWhere, h.leases]
  refine Finset.sum_congr rfl fun id hi => ?_
  rw [size, size, h.kept id (by simpa using (Finset.mem_filter.mp hi).1)]

theorem Evicted.reservedBytes_eq (h : Evicted cache cache') :
    cache'.reservedBytes p = cache.reservedBytes p := by
  rw [reservedBytes, h.pending, reservedBytes]

theorem Evicted.limit_eq (h : Evicted cache cache') (space : ν) :
    cache'.limit space = cache.limit space := by
  rw [limit, h.limits, h.budget, limit]

theorem heldBytes_evict (h : identity ∈ cache.entries) (p : ν → Bool) :
    (cache.evict identity).heldBytes p + (if p identity.1 then cache.size identity else 0) =
      cache.heldBytes p := by
  have ⟨(value, size), hi⟩ := OrderedDict.mem_iff.mp h
  have hs : cache.size identity = size := by
    rw [SharedCache.size, OrderedDict.get?_eq_some.mpr hi, Option.elim_some]
  rw [hs]
  exact OrderedDict.total_erase _ hi

theorem evict_used : (cache.evict identity).used = cache.used - cache.size identity := rfl

theorem evict_reserved : (cache.evict identity).reservedBytes p = cache.reservedBytes p := rfl

theorem evict_stats : (cache.evict identity).stats =
    (cache.modifyStat identity.1 fun stat =>
      { stat with bytes := stat.bytes - cache.size identity
                  evictions := stat.evictions + 1 }).stats := rfl

theorem bytes_evict_self :
    (cache.evict identity).bytes identity.1 = cache.bytes identity.1 - cache.size identity := by
  rw [bytes_congr evict_stats, bytes_modifyStat_self, SharedCache.bytes]

theorem bytes_evict_of_ne (h : space ≠ identity.1) :
    (cache.evict identity).bytes space = cache.bytes space := by
  rw [bytes_congr evict_stats, bytes_modifyStat_of_ne h]

theorem Balanced.evict (h : cache.Balanced) (hm : identity ∈ cache.entries)
    (hc : cache.leaseCount identity = 0) : (cache.evict identity).Balanced where
  used := by
    have hu := h.used
    have hh := heldBytes_evict hm fun _ => true
    rw [evict_used, evict_reserved]
    simp only [if_true] at hh
    omega
  bytes := by
    intro space
    have hb := h.bytes space
    have hh := heldBytes_evict hm (· = space)
    rw [evict_reserved]
    by_cases he : space = identity.1
    case pos =>
      simp only [he, decide_true, if_true] at hh hb ⊢
      rw [bytes_evict_self]
      omega
    case neg =>
      simp only [Ne.symm he, decide_false, Bool.false_eq_true, if_false] at hh
      rw [bytes_evict_of_ne he]
      omega
  leased := by
    intro other ho
    have hn : other ≠ identity := fun he => by
      have := h.positive other ho
      rw [he] at this
      omega
    exact OrderedDict.mem_erase.mpr ⟨h.leased other ho, hn⟩
  positive := h.positive
  fresh := by
    intro other ho hm
    exact h.fresh other ho (OrderedDict.mem_erase.mp hm).1

theorem Balanced.evicted (h : cache.Balanced) (hm : identity ∈ cache.entries)
    (hc : cache.leaseCount identity = 0) : Evicted cache (cache.evict identity) where
  budget  := rfl
  limits  := rfl
  leases  := rfl
  pending := rfl
  kept    := by
    intro other ho
    have hn : other ≠ identity := fun he => by
      have := h.positive other ho
      rw [he] at this
      omega
    exact OrderedDict.get?_erase_of_ne hn
  absent  := fun other hn ho => hn (OrderedDict.mem_erase.mp ho).1
  held_le := fun p => by
    have := heldBytes_evict hm p
    omega

theorem Balanced.bytes_le_bytes (h' : cache'.Balanced) (h : cache.Balanced)
    (he : Evicted cache cache') (space : ν) : cache'.bytes space ≤ cache.bytes space := by
  rw [h.bytes, h'.bytes, he.reservedBytes_eq]
  exact Nat.add_le_add_right (he.held_le _) _

-- A namespace is a part of the whole cache.
theorem Balanced.bytes_le_used (h : cache.Balanced) (space : ν) :
    cache.bytes space ≤ cache.used := by
  rw [h.used, h.bytes]
  refine Nat.add_le_add (OrderedDict.total_le_total ?_) (OrderedDict.total_le_total ?_)
  all_goals
    intro item _
    split
    case isTrue  => exact Nat.le_refl _
    case isFalse => exact Nat.zero_le _

-- Leased entries are part of what is held, and are all of it when no other entry is left.
theorem heldBytes_eq_sum (p : ν → Bool) : cache.heldBytes p =
    ∑ identity ∈ cache.entries.keySet with p identity.1, cache.size identity := by
  rw [heldBytes, OrderedDict.total_eq_sum, Finset.sum_filter]
  refine Finset.sum_congr rfl fun identity _ => ?_
  rw [SharedCache.size]
  cases cache.entries.get? identity
  case none => simp
  case some => rfl

theorem Balanced.leased_le_held (h : cache.Balanced) (p : ν → Bool) :
    cache.leasedBytesWhere p ≤ cache.heldBytes p := by
  rw [heldBytes_eq_sum, leasedBytesWhere]
  refine Finset.sum_le_sum_of_subset (Finset.filter_subset_filter _ fun identity hi => ?_)
  rw [OrderedDict.mem_keySet] at hi ⊢
  exact h.leased identity hi

theorem held_le_leased (h : cache.victim p = none) :
    cache.heldBytes p ≤ cache.leasedBytesWhere p := by
  rw [heldBytes_eq_sum, leasedBytesWhere]
  refine Finset.sum_le_sum_of_subset fun identity hi => ?_
  have ⟨hm, hp⟩ := Finset.mem_filter.mp hi
  have hv := victim_eq_none h (OrderedDict.mem_keySet.mp hm) hp
  refine Finset.mem_filter.mpr ⟨OrderedDict.mem_keySet.mpr ?_, hp⟩
  by_contra hn
  rw [leaseCount, OrderedDict.get?_eq_none.mpr hn] at hv
  exact hv rfl

-- The bytes of an entry do not fit beside those that may not be evicted.
def Crowded (cache : SharedCache ν κ α) (space : ν) (size cap : Nat) : Prop :=
  cache.budget < size + cache.leasedBytesWhere (fun _ => true) +
    cache.reservedBytes (fun _ => true) ∨
  cap < size + cache.leasedBytesWhere (· = space) + cache.reservedBytes (· = space)

theorem Evicted.crowded (h : Evicted cache cache') {size cap : Nat} :
    cache'.Crowded space size cap ↔ cache.Crowded space size cap := by
  simp only [Crowded, h.budget, h.leasedBytesWhere_eq, h.reservedBytes_eq]

theorem Balanced.crowded_of_victim {size cap : Nat} (h : cache.Balanced)
    (hr : cache.budget < cache.used + size ∨ cap < cache.bytes space + size)
    (hv : (cache.victim fun other => cache.bytes space + size ≤ cap ∨ other = space) = none) :
    cache.Crowded space size cap := by
  by_cases hb : cache.bytes space + size ≤ cap
  case pos =>
    simp only [hb, true_or, decide_true] at hv
    have := held_le_leased hv
    have := h.used
    exact .inl (by omega)
  case neg =>
    simp only [hb, false_or] at hv
    have := held_le_leased hv
    have := h.bytes space
    exact .inr (by omega)

theorem Balanced.not_crowded {size cap : Nat} (h : cache.Balanced)
    (hr : ¬(cache.budget < cache.used + size ∨ cap < cache.bytes space + size)) :
    ¬cache.Crowded space size cap := by
  have := h.leased_le_held fun _ => true
  have := h.leased_le_held (· = space)
  have := h.used
  have := h.bytes space
  rw [Crowded]
  omega

-- The loop only evicts, and gives up if and only if it can not succeed.
structure Cleared (cache : SharedCache ν κ α) (space : ν) (size cap : Nat)
    (result : Except String Unit × SharedCache ν κ α) : Prop where
  balanced : result.2.Balanced
  evicted  : Evicted cache result.2
  room     : result.1 = .ok () →
    result.2.used + size ≤ cache.budget ∧ result.2.bytes space + size ≤ cap
  refused  : (∃ error, result.1 = .error error) ↔ cache.Crowded space size cap

theorem Balanced.cleared (h : cache.Balanced) (space : ν) (size cap : Nat) :
    Cleared cache space size cap (cache.makeRoom space size cap) := by
  fun_induction cache.makeRoom space size cap
  case case1 cache hr hv =>
    exact {
      balanced := h
      evicted  := .refl _
      room     := by simp
      refused  := by simpa using h.crowded_of_victim hr hv }
  case case2 cache hr victim hv hi =>
    have ⟨hm, hc, _⟩ := victim_eq_some hv
    have he := h.evicted hm hc
    have hi := hi (h.evict hm hc)
    exact {
      balanced := hi.balanced
      evicted  := he.trans hi.evicted
      room     := hi.room
      refused  := hi.refused.trans he.crowded }
  case case3 cache hr =>
    exact {
      balanced := h
      evicted  := .refl _
      room     := fun _ => by
        dsimp only
        omega
      refused  := by simpa using h.not_crowded hr }

theorem Balanced.modifyStat {f : Stat → Stat} (h : cache.Balanced)
    (hf : ∀ stat, (f stat).bytes = stat.bytes) : (cache.modifyStat space f).Balanced :=
  h.congr rfl (bytes_modifyStat hf) rfl rfl rfl

theorem Evicted.modifyStat (cache : SharedCache ν κ α) (space : ν) (f : Stat → Stat) :
    Evicted cache (cache.modifyStat space f) :=
  ⟨rfl, rfl, rfl, rfl, fun _ _ => rfl, fun _ => id, fun _ => Nat.le_refl _⟩

theorem crowded_of_exceeds {size : Nat} (h : min (cache.limit space) cache.budget < size) :
    cache.Crowded space size (cache.limit space) := by
  rw [Crowded]
  omega

theorem Balanced.evictFor (h : cache.Balanced) (space : ν) (size : Nat) :
    Cleared cache space size (cache.limit space) (cache.evictFor space size) := by
  have hm := Evicted.modifyStat cache space id
  have hb : (cache.modifyStat space id).Balanced := h.modifyStat fun _ => rfl
  rw [SharedCache.evictFor]
  split
  case isTrue hs =>
    exact {
      balanced := hb
      evicted  := hm
      room     := by simp
      refused  := by
        rw [←hm.limit_eq, ←hm.crowded]
        simpa using crowded_of_exceeds hs }
  case isFalse =>
    have hc := hb.cleared space size (cache.limit space)
    exact {
      balanced := hc.balanced
      evicted  := hm.trans hc.evicted
      room     := hc.room
      refused  := hc.refused.trans hm.crowded }

-- While leased and pending bytes fit into the budget, there is something to evict.
structure Shrunk (cache : SharedCache ν κ α) (result : Except String Unit × SharedCache ν κ α) :
    Prop where
  balanced : result.2.Balanced
  evicted  : Evicted cache result.2
  succeeds : result.1 = .ok ()
  used_le  : result.2.used ≤ cache.budget

theorem Balanced.shrunk (h : cache.Balanced)
    (hp : cache.leasedBytesWhere (fun _ => true) + cache.reservedBytes (fun _ => true) ≤
      cache.budget) : Shrunk cache cache.shrink := by
  fun_induction shrink cache
  case case1 cache hu hv =>
    have := held_le_leased hv
    have := h.used
    omega
  case case2 cache hu victim hv hi =>
    have ⟨hm, hc, _⟩ := victim_eq_some hv
    have he := h.evicted hm hc
    have hs := hi (h.evict hm hc) (by rwa [he.leasedBytesWhere_eq, he.reservedBytes_eq, he.budget])
    exact {
      balanced := hs.balanced
      evicted  := he.trans hs.evicted
      succeeds := hs.succeeds
      used_le  := hs.used_le }
  case case3 cache hu =>
    exact {
      balanced := h
      evicted  := .refl _
      succeeds := rfl
      used_le  := Nat.le_of_not_lt hu }

end Lemmas
end SharedCache
end Backend
