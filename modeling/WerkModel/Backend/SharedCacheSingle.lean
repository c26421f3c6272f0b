import WerkModel.Backend.SharedCacheAccounting

-- A cache that is used for one entry at a time. No entry is refused if it fits into the budget.
namespace Backend
namespace SharedCache

variable {ν κ α : Type} [DecidableEq ν] [DecidableEq κ]
variable {cache cache' : SharedCache ν κ α} {identity : ν × κ} {space : ν} {size cap budget : Nat}

structure Idle (cache : SharedCache ν κ α) : Prop where
  balanced : cache.Balanced
  bounded  : cache.Bounded
  leases   : ∀ identity, identity ∉ cache.leases
  pending  : ∀ identity, identity ∉ cache.pending

-- The budgets are the same, and the entries are among those of before.
structure Remains (cache cache' : SharedCache ν κ α) : Prop where
  budget : cache'.budget = cache.budget
  limits : cache'.limits = cache.limits
  items  : ∀ item ∈ cache'.entries.items, item ∈ cache.entries.items

section Items

variable (cache)

theorem items_evict {item : (ν × κ) × (α × Nat)}
    (h : item ∈ (cache.evict identity).entries.items) : item ∈ cache.entries.items :=
  (OrderedDict.mem_items_erase.mp h).1

theorem items_makeRoom {item : (ν × κ) × (α × Nat)}
    (h : item ∈ (cache.makeRoom space size cap).2.entries.items) : item ∈ cache.entries.items := by
  fun_induction cache.makeRoom space size cap
  case case1    => exact h
  case case2 hi => exact items_evict _ (hi h)
  case case3    => exact h

theorem items_evictFor {item : (ν × κ) × (α × Nat)}
    (h : item ∈ (cache.evictFor space size).2.entries.items) : item ∈ cache.entries.items := by
  rw [evictFor] at h
  split at h
  case isTrue  => exact h
  case isFalse => exact items_makeRoom (cache.modifyStat space id) h

theorem items_acquire {item : (ν × κ) × (α × Nat)}
    (h : item ∈ (cache.acquire identity size).2.entries.items) : item ∈ cache.entries.items := by
  rw [acquire] at h
  split at h
  case h_1 => exact h
  case h_2 =>
    split at h
    case isTrue => exact h
    case isFalse =>
      dsimp only at h
      split at h
      case h_1 =>
        rw [hit] at h
        split at h
        case isTrue  => exact h
        case isFalse => exact OrderedDict.mem_items_moveToEnd.mp h
      case h_2 =>
        have hr := fun item =>
          @items_evictFor _ _ _ _ _ (cache.modifyStat identity.1 id) identity.1 size item
        rw [miss] at h
        generalize (cache.modifyStat identity.1 id).evictFor identity.1 size = result at h hr
        obtain ⟨_ | _, _⟩ := result
        case error => exact hr item h
        case ok    => exact hr item h

theorem items_shrink {item : (ν × κ) × (α × Nat)}
    (h : item ∈ cache.shrink.2.entries.items) : item ∈ cache.entries.items := by
  fun_induction shrink cache
  case case1    => exact h
  case case2 hi => exact items_evict _ (hi h)
  case case3    => exact h

theorem items_resize {item : (ν × κ) × (α × Nat)}
    (h : item ∈ (cache.resize budget).2.entries.items) : item ∈ cache.entries.items := by
  rw [resize] at h
  split at h
  case h_1 => exact h
  case h_2 =>
    split at h
    case isTrue  => exact h
    case isFalse => exact items_shrink { cache with budget } h

end Items

section Idle

theorem keySet_eq_empty {d : OrderedDict (ν × κ) Nat} (h : ∀ identity, identity ∉ d) :
    d.keySet = ∅ :=
  Finset.eq_empty_of_forall_notMem fun identity hm => h identity (OrderedDict.mem_keySet.mp hm)

theorem Idle.leasedBytesWhere (h : cache.Idle) (p : ν → Bool) : cache.leasedBytesWhere p = 0 := by
  rw [SharedCache.leasedBytesWhere, keySet_eq_empty h.leases]
  rfl

theorem Idle.reservedBytes (h : cache.Idle) (p : ν → Bool) : cache.reservedBytes p = 0 := by
  rw [SharedCache.reservedBytes, OrderedDict.total_eq_sum, keySet_eq_empty h.pending]
  rfl

theorem Idle.not_crowded (h : cache.Idle) (hb : size ≤ cache.budget) (hl : size ≤ cap) :
    ¬cache.Crowded space size cap := by
  rw [Crowded, h.leasedBytesWhere, h.leasedBytesWhere, h.reservedBytes, h.reservedBytes]
  omega

theorem Idle.new {limits : OrderedDict ν Nat}
    (h : SharedCache.new budget limits = .ok cache) : cache.Idle := by
  have ha := new_accounted h
  have ⟨_, he⟩ := Checks.seq_eq_ok.mp h
  cases he
  exact ⟨ha.balanced, ha.bounded, fun _ => List.not_mem_nil, fun _ => List.not_mem_nil⟩

-- The only lease is given back.
theorem Idle.of_lease (hb : cache.Balanced) (hu : cache.Bounded)
    (hl : ∀ other, other ∉ cache.leases) (hp : ∀ other, other ∉ cache.pending)
    (hm : identity ∈ cache.entries) : ((cache.lease identity).release identity).Idle where
  balanced := (hb.lease hm).release (OrderedDict.mem_set.mpr (.inl rfl))
  bounded  := ⟨hu.used, hu.bytes⟩
  leases   := fun other ho => by
    obtain ⟨ho, hc⟩ := mem_leases_release (OrderedDict.mem_set.mpr (.inl rfl)) ho
    obtain rfl := (OrderedDict.mem_set.mp ho).resolve_right (hl other)
    have := hc rfl
    rw [leaseCount_lease_self, leaseCount, OrderedDict.get?_eq_none.mpr (hl other)] at this
    exact absurd this (by decide)
  pending  := hp

-- The entry is there, or it is loaded next.
theorem Idle.acquire (h : cache.Idle) (hs : 1 ≤ size) (hb : size ≤ cache.budget)
    (hl : size ≤ cache.limit identity.1)
    (hk : ∀ value old, cache.entries.get? identity = some (value, old) → old = size) :
    (∃ value cache', cache.acquire identity size = (.ok (some value), cache') ∧
      cache.entries.get? identity = some (value, size) ∧ (cache'.release identity).Idle ∧
      cache.Remains (cache'.release identity)) ∨
    ∃ cache', cache.acquire identity size = (.ok none, cache') ∧
      ((cache'.abandon identity size).Idle ∧ cache.Remains (cache'.abandon identity size)) ∧
      ∀ value, ((cache'.store identity size value).release identity).Idle ∧
        ((cache'.store identity size value).release identity).budget = cache.budget ∧
        ((cache'.store identity size value).release identity).limits = cache.limits ∧
        ∀ item ∈ ((cache'.store identity size value).release identity).entries.items,
          item = (identity, (value, size)) ∨ item ∈ cache.entries.items := by
  have ha := h.balanced.acquire identity size
  have hi := fun item => @items_acquire _ _ _ _ _ cache identity size item
  have hr : ∀ error, (cache.acquire identity size).1 ≠ .error error := by
    intro error he
    cases hg : cache.entries.get? identity
    case none =>
      have hr := h.balanced.refused_iff hs (h.pending identity) (OrderedDict.get?_eq_none.mp hg)
      exact h.not_crowded hb hl (hr.mp ⟨error, he⟩)
    case some entry =>
      obtain ⟨value, old⟩ := entry
      obtain rfl := hk value old hg
      have hint : integer old "entry bytes" 1 = .ok () := integer_eq_ok.mpr hs
      simp [SharedCache.acquire, hint, h.pending identity, hg, hit] at he
  generalize cache.acquire identity size = result at ha hi hr
  cases ha
  case refused error cache' _ _ => exact absurd rfl (hr error)
  case hit value cache' hv hb' he hm =>
    refine .inl ⟨value, _, rfl, hv, ?_, he.budget, he.limits, hi⟩
    exact .of_lease hb' (h.bounded.evicted h.balanced hb' he) (he.leases ▸ h.leases)
      (he.pending ▸ h.pending) hm
  case miss cache' hp hn hb' he hu hl' =>
    have hpend : ∀ other, other ∉ cache'.pending := he.pending ▸ h.pending
    have hne := he.absent identity hn
    have hbal := hb'.reserve (hpend identity) hne size
    have hbound : (cache'.reserve identity size).Bounded :=
      (h.bounded.evicted h.balanced hb' he).reserve (he.budget ▸ hu) (he.limit_eq _ ▸ hl')
    have hin : (identity, size) ∈ (cache'.reserve identity size).pending.items :=
      OrderedDict.mem_items_set.mpr (.inl rfl)
    have hleases : ∀ other, other ∉ cache'.leases := he.leases ▸ h.leases
    have herase : ∀ other, other ∉ (cache'.pending.set identity size).erase identity :=
      fun other ho => by
        obtain ⟨ho, hne⟩ := OrderedDict.mem_erase.mp ho
        exact hpend other ((OrderedDict.mem_set.mp ho).resolve_left hne)
    refine .inr ⟨_, rfl, ⟨⟨hbal.abandon hin, hbound.abandon, hleases, herase⟩,
      he.budget, he.limits, hi⟩, fun value => ⟨?_, he.budget, he.limits, fun item hm => ?_⟩⟩
    case refine_1 =>
      have hbound' := @Bounded.store _ _ _ _ _ _ identity size hbound value
      have hmod : ((cache'.reserve identity size).modifyStat identity.1 fun stat =>
          { stat with misses := stat.misses + 1 }).Balanced := hbal.modifyStat fun _ => rfl
      exact .of_lease (hmod.settle hin value) ⟨hbound'.used, hbound'.bytes⟩ hleases herase
        (OrderedDict.mem_set.mpr (.inl rfl))
    case refine_2 =>
      obtain hm | ⟨hm, -⟩ := OrderedDict.mem_items_set.mp hm
      case inl => exact .inl hm
      case inr => exact .inr (hi item hm)

theorem Idle.resize (h : cache.Idle) (hb : 1 ≤ budget) :
    (cache.resize budget).1 = .ok () ∧ (cache.resize budget).2.Idle ∧
      (cache.resize budget).2.budget = budget ∧
      (cache.resize budget).2.limits = cache.limits ∧
      ∀ item ∈ (cache.resize budget).2.entries.items, item ∈ cache.entries.items := by
  have hl : cache.leasedBytes + cache.pendingBytes = 0 := by
    rw [leasedBytes_eq, pendingBytes_eq, h.leasedBytesWhere, h.reservedBytes]
  obtain ⟨hok, -, -, hs⟩ | ⟨he, -⟩ := h.balanced.resize budget
  case inr => omega
  case inl =>
    refine ⟨hok, ?_, hs.evicted.budget, hs.evicted.limits, fun _ => items_resize cache⟩
    exact ⟨hs.balanced, hs.bounded h.bounded h.balanced, hs.evicted.leases ▸ h.leases,
      hs.evicted.pending ▸ h.pending⟩

end Idle

end SharedCache
end Backend
