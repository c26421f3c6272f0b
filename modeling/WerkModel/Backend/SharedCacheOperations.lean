import WerkModel.Backend.SharedCacheEviction

-- The operations of the cache, each of which keeps it in balance.
namespace Backend
namespace SharedCache

variable {ν κ α : Type} [DecidableEq ν] [DecidableEq κ]

section Operations

variable {cache : SharedCache ν κ α} {identity : ν × κ} {size : Nat} {value : α}

theorem leaseCount_lease_self :
    (cache.lease identity).leaseCount identity = cache.leaseCount identity + 1 := by
  rw [leaseCount, lease, OrderedDict.get?_set_self, Option.getD_some]

theorem leaseCount_lease_of_ne {other : ν × κ} (h : other ≠ identity) :
    (cache.lease identity).leaseCount other = cache.leaseCount other := by
  rw [leaseCount, lease, OrderedDict.get?_set_of_ne h, leaseCount]

theorem Balanced.lease (h : cache.Balanced) (hm : identity ∈ cache.entries) :
    (cache.lease identity).Balanced where
  used     := h.used
  bytes    := h.bytes
  fresh    := h.fresh
  leased   := by
    intro other ho
    rcases OrderedDict.mem_set.mp ho with rfl | ho
    · exact hm
    · exact h.leased other ho
  positive := by
    intro other ho
    by_cases he : other = identity
    case pos =>
      rw [he, leaseCount_lease_self]
      omega
    case neg =>
      rw [leaseCount_lease_of_ne he]
      exact h.positive other <| (OrderedDict.mem_set.mp ho).resolve_left he

theorem Balanced.moveToEnd (h : cache.Balanced) (identity : ν × κ) :
    { cache with entries := cache.entries.moveToEnd identity }.Balanced where
  used := by
    rw [heldBytes, OrderedDict.total_moveToEnd]
    exact h.used
  bytes := by
    intro space
    rw [heldBytes, OrderedDict.total_moveToEnd]
    exact h.bytes space
  leased   := fun other ho => OrderedDict.mem_moveToEnd.mpr (h.leased other ho)
  positive := h.positive
  fresh    := fun other ho hm => h.fresh other ho (OrderedDict.mem_moveToEnd.mp hm)

theorem reserve_stats : (cache.reserve identity size).stats =
    (cache.modifyStat identity.1 fun stat => { stat with bytes := stat.bytes + size }).stats := rfl

theorem bytes_reserve_self :
    (cache.reserve identity size).bytes identity.1 = cache.bytes identity.1 + size := by
  rw [bytes_congr reserve_stats, bytes_modifyStat_self, SharedCache.bytes]

theorem bytes_reserve_of_ne {space : ν} (h : space ≠ identity.1) :
    (cache.reserve identity size).bytes space = cache.bytes space := by
  rw [bytes_congr reserve_stats, bytes_modifyStat_of_ne h]

theorem reservedBytes_reserve (h : identity ∉ cache.pending) (p : ν → Bool) :
    (cache.reserve identity size).reservedBytes p =
      cache.reservedBytes p + if p identity.1 then size else 0 :=
  OrderedDict.total_set _ _ h

theorem reserve_held {p : ν → Bool} :
    (cache.reserve identity size).heldBytes p = cache.heldBytes p := rfl

theorem Balanced.reserve (h : cache.Balanced) (hp : identity ∉ cache.pending)
    (he : identity ∉ cache.entries) (size : Nat) : (cache.reserve identity size).Balanced where
  used := by
    have := h.used
    rw [reserve_held, reservedBytes_reserve hp, if_pos rfl]
    change cache.used + size = _
    omega
  bytes := by
    intro space
    have := h.bytes space
    rw [reserve_held, reservedBytes_reserve hp]
    by_cases hs : space = identity.1
    case pos =>
      rw [hs] at this ⊢
      rw [bytes_reserve_self, if_pos (by simp)]
      omega
    case neg =>
      rw [bytes_reserve_of_ne hs, if_neg (by simpa using Ne.symm hs)]
      omega
  leased   := h.leased
  positive := h.positive
  fresh    := by
    intro other ho
    rcases OrderedDict.mem_set.mp ho with rfl | ho
    · exact he
    · exact h.fresh other ho

theorem heldBytes_settle (h : identity ∉ cache.entries) (p : ν → Bool) :
    (cache.settle identity size value).heldBytes p =
      cache.heldBytes p + if p identity.1 then size else 0 :=
  OrderedDict.total_set _ _ h

theorem reservedBytes_settle (value : α) (h : (identity, size) ∈ cache.pending.items)
    (p : ν → Bool) :
    (cache.settle identity size value).reservedBytes p + (if p identity.1 then size else 0) =
      cache.reservedBytes p :=
  OrderedDict.total_erase _ h

theorem Balanced.settle (h : cache.Balanced) (hi : (identity, size) ∈ cache.pending.items)
    (value : α) : (cache.settle identity size value).Balanced where
  used := by
    have hu := h.used
    have hr := reservedBytes_settle value hi fun _ => true
    rw [heldBytes_settle (h.fresh identity (OrderedDict.mem_of_item hi))]
    change cache.used = _
    omega
  bytes := by
    intro space
    have hb := h.bytes space
    have hr := reservedBytes_settle value hi (· = space)
    rw [heldBytes_settle (h.fresh identity (OrderedDict.mem_of_item hi))]
    change cache.bytes space = _
    omega
  leased   := fun other ho => OrderedDict.mem_set.mpr (.inr (h.leased other ho))
  positive := h.positive
  fresh    := by
    intro other ho hm
    have ⟨ho, he⟩ := OrderedDict.mem_erase.mp ho
    exact h.fresh other ho <| (OrderedDict.mem_set.mp hm).resolve_left he

theorem Balanced.store (h : cache.Balanced) (hi : (identity, size) ∈ cache.pending.items)
    (value : α) : (cache.store identity size value).Balanced := by
  have hm : (cache.modifyStat identity.1 fun stat =>
      { stat with misses := stat.misses + 1 }).Balanced := h.modifyStat fun _ => rfl
  exact (hm.settle hi value).lease <| OrderedDict.mem_set.mpr <| .inl rfl

theorem store_stats : (cache.store identity size value).stats =
    (cache.modifyStat identity.1 fun stat => { stat with misses := stat.misses + 1 }).stats := rfl

theorem bytes_store (space : ν) :
    (cache.store identity size value).bytes space = cache.bytes space := by
  rw [bytes_congr store_stats]
  refine bytes_modifyStat ?_ space
  exact fun _ => rfl

theorem abandon_stats : (cache.abandon identity size).stats =
    (cache.modifyStat identity.1 fun stat => { stat with bytes := stat.bytes - size }).stats := rfl

theorem bytes_abandon_self :
    (cache.abandon identity size).bytes identity.1 = cache.bytes identity.1 - size := by
  rw [bytes_congr abandon_stats, bytes_modifyStat_self, SharedCache.bytes]

theorem bytes_abandon_of_ne {space : ν} (h : space ≠ identity.1) :
    (cache.abandon identity size).bytes space = cache.bytes space := by
  rw [bytes_congr abandon_stats, bytes_modifyStat_of_ne h]

theorem reservedBytes_abandon (h : (identity, size) ∈ cache.pending.items) (p : ν → Bool) :
    (cache.abandon identity size).reservedBytes p + (if p identity.1 then size else 0) =
      cache.reservedBytes p :=
  OrderedDict.total_erase _ h

theorem abandon_held {p : ν → Bool} :
    (cache.abandon identity size).heldBytes p = cache.heldBytes p := rfl

theorem Balanced.abandon (h : cache.Balanced) (hi : (identity, size) ∈ cache.pending.items) :
    (cache.abandon identity size).Balanced where
  used := by
    have hu := h.used
    have hr := reservedBytes_abandon hi fun _ => true
    rw [if_pos rfl] at hr
    rw [abandon_held]
    change cache.used - size = _
    omega
  bytes := by
    intro space
    have hb := h.bytes space
    have hr := reservedBytes_abandon hi (· = space)
    rw [abandon_held]
    by_cases hs : space = identity.1
    case pos =>
      rw [hs] at hb hr ⊢
      rw [if_pos (by simp)] at hr
      rw [bytes_abandon_self]
      omega
    case neg =>
      rw [if_neg (by simpa using Ne.symm hs)] at hr
      rw [bytes_abandon_of_ne hs]
      omega
  leased   := h.leased
  positive := h.positive
  fresh    := fun other ho => h.fresh other (OrderedDict.mem_erase.mp ho).1

theorem leaseCount_release_self :
    (cache.release identity).leaseCount identity = cache.leaseCount identity - 1 := by
  rw [leaseCount, release]
  split
  case isTrue h  => rw [OrderedDict.get?_erase_self, h, Option.getD_none]
  case isFalse h => rw [OrderedDict.get?_set_self, Option.getD_some]

theorem leaseCount_release_of_ne {other : ν × κ} (h : other ≠ identity) :
    (cache.release identity).leaseCount other = cache.leaseCount other := by
  rw [leaseCount, release]
  split
  case isTrue  => rw [OrderedDict.get?_erase_of_ne h, leaseCount]
  case isFalse => rw [OrderedDict.get?_set_of_ne h, leaseCount]

theorem mem_leases_release {other : ν × κ} (hl : identity ∈ cache.leases)
    (ho : other ∈ (cache.release identity).leases) :
    other ∈ cache.leases ∧ (other = identity → 1 < cache.leaseCount identity) := by
  rw [release] at ho
  split at ho
  case isTrue =>
    obtain ⟨ho, hn⟩ := OrderedDict.mem_erase.mp ho
    exact ⟨ho, fun he => absurd he hn⟩
  case isFalse h =>
    rcases OrderedDict.mem_set.mp ho with he | ho
    · exact ⟨he ▸ hl, fun _ => by omega⟩
    · exact ⟨ho, fun _ => by omega⟩

theorem Balanced.release (h : cache.Balanced) (hl : identity ∈ cache.leases) :
    (cache.release identity).Balanced where
  used     := h.used
  bytes    := h.bytes
  fresh    := h.fresh
  leased   := fun other ho => h.leased other (mem_leases_release hl ho).1
  positive := by
    intro other ho
    have ⟨ho, hc⟩ := mem_leases_release hl ho
    by_cases he : other = identity
    case pos =>
      have := hc he
      rw [he, leaseCount_release_self]
      omega
    case neg =>
      rw [leaseCount_release_of_ne he]
      exact h.positive other ho

-- The three ways in which an acquisition may go.
inductive Acquired (cache : SharedCache ν κ α) (identity : ν × κ) (size : Nat) :
    Except String (Option α) × SharedCache ν κ α → Prop
  | refused {error cache'} : cache'.Balanced → Evicted cache cache' →
    Acquired cache identity size (.error error, cache')
  | hit {value cache'} : cache.entries.get? identity = some (value, size) → cache'.Balanced →
    Evicted cache cache' → identity ∈ cache'.entries →
    Acquired cache identity size (.ok (some value), cache'.lease identity)
  | miss {cache'} : identity ∉ cache.pending → identity ∉ cache.entries →
    cache'.Balanced → Evicted cache cache' → cache'.used + size ≤ cache.budget →
    cache'.bytes identity.1 + size ≤ cache.limit identity.1 →
    Acquired cache identity size (.ok none, cache'.reserve identity size)

theorem Evicted.moveToEnd (cache : SharedCache ν κ α) (identity : ν × κ) :
    Evicted cache { cache with entries := cache.entries.moveToEnd identity } where
  budget  := rfl
  limits  := rfl
  leases  := rfl
  pending := rfl
  kept    := fun _ _ => OrderedDict.get?_moveToEnd
  absent  := fun _ hn hm => hn (OrderedDict.mem_moveToEnd.mp hm)
  held_le := fun _ => by rw [heldBytes, OrderedDict.total_moveToEnd, heldBytes]

theorem Balanced.hit (h : cache.Balanced) {oldSize : Nat}
    (hv : cache.entries.get? identity = some (value, oldSize)) :
    Acquired cache identity size (cache.hit identity value oldSize size) := by
  rw [SharedCache.hit]
  split
  case isTrue => exact .refused h (.refl _)
  case isFalse hs =>
    have hs : oldSize = size := of_not_not hs
    have hm : (cache.modifyStat identity.1 fun stat =>
        { stat with hits := stat.hits + 1 }).Balanced := h.modifyStat fun _ => rfl
    have hi : identity ∈ cache.entries := OrderedDict.mem_iff_get?.mpr ⟨_, hv⟩
    exact .hit (hs ▸ hv) (hm.moveToEnd identity)
      ((Evicted.modifyStat ..).trans (.moveToEnd ..)) (OrderedDict.mem_moveToEnd.mpr hi)

theorem Balanced.miss (h : cache.Balanced) (hp : identity ∉ cache.pending)
    (he : identity ∉ cache.entries) (size : Nat) :
    Acquired cache identity size (cache.miss identity size) := by
  have hc := h.evictFor identity.1 size
  rw [SharedCache.miss]
  generalize cache.evictFor identity.1 size = result at hc
  match result with
  | (.error error, cache') => exact .refused hc.balanced hc.evicted
  | (.ok (), cache')       =>
    have ⟨hu, hb⟩ := hc.room rfl
    exact .miss hp he hc.balanced hc.evicted hu hb

theorem Acquired.of_evicted {cache' : SharedCache ν κ α}
    {result : Except String (Option α) × SharedCache ν κ α} (he : Evicted cache cache')
    (hg : cache'.entries.get? identity = cache.entries.get? identity)
    (h : Acquired cache' identity size result) : Acquired cache identity size result := by
  cases h
  case refused hb hr       => exact .refused hb (he.trans hr)
  case hit hv hb hr hm     => exact .hit (hg ▸ hv) hb (he.trans hr) hm
  case miss hp hn hb hr hu hl =>
    rw [he.pending] at hp
    rw [←OrderedDict.get?_eq_none, hg, OrderedDict.get?_eq_none] at hn
    rw [he.budget] at hu
    rw [he.limit_eq] at hl
    exact .miss hp hn hb (he.trans hr) hu hl

theorem Balanced.acquire (h : cache.Balanced) (identity : ν × κ) (size : Nat) :
    Acquired cache identity size (cache.acquire identity size) := by
  rw [SharedCache.acquire]
  split
  case h_1 => exact .refused h (.refl _)
  case h_2 =>
    split
    case isTrue => exact .refused h (.refl _)
    case isFalse hp =>
      have hm : (cache.modifyStat identity.1 id).Balanced := h.modifyStat fun _ => rfl
      refine Acquired.of_evicted (.modifyStat cache identity.1 id) rfl ?_
      dsimp only
      split
      case h_1 hv => exact hm.hit hv
      case h_2 hv => exact hm.miss hp (OrderedDict.get?_eq_none.mp hv) size

-- A key that is absent is refused exactly when its entry does not fit.
theorem Balanced.refused_iff (h : cache.Balanced) (hs : 1 ≤ size) (hp : identity ∉ cache.pending)
    (he : identity ∉ cache.entries) :
    (∃ error, (cache.acquire identity size).1 = .error error) ↔
      cache.Crowded identity.1 size (cache.limit identity.1) := by
  have hm : (cache.modifyStat identity.1 id).Balanced := h.modifyStat fun _ => rfl
  have hv := Evicted.modifyStat cache identity.1 id
  have hc := (hm.evictFor identity.1 size).refused
  rw [hv.crowded, hv.limit_eq] at hc
  rw [←hc]
  have hn : (cache.modifyStat identity.1 id).entries.get? identity = none :=
    OrderedDict.get?_eq_none.mpr he
  have hi : integer size "entry bytes" 1 = .ok () := integer_eq_ok.mpr hs
  simp only [SharedCache.acquire, hi, if_neg hp, hn, SharedCache.miss]
  rcases (cache.modifyStat identity.1 id).evictFor identity.1 size with ⟨_ | _, _⟩
  case error => simp
  case ok    => simp

end Operations

section Resize

variable {cache : SharedCache ν κ α} {budget : Nat}

theorem leasedBytes_eq : cache.leasedBytes = cache.leasedBytesWhere fun _ => true := by
  rw [leasedBytes, leasedBytesWhere, Finset.filter_true_of_mem fun _ _ => rfl]

omit [DecidableEq ν] [DecidableEq κ] in
theorem pendingBytes_eq : cache.pendingBytes = cache.reservedBytes fun _ => true :=
  rfl

theorem Balanced.withBudget (h : cache.Balanced) (budget : Nat) :
    { cache with budget }.Balanced :=
  h.congr rfl (fun _ => rfl) rfl rfl rfl

-- Without an error the cache has only shrunk, and an error changes nothing.
theorem Balanced.resize (h : cache.Balanced) (budget : Nat) :
    (cache.resize budget).1 = .ok () ∧ 1 ≤ budget ∧
      cache.leasedBytes + cache.pendingBytes ≤ budget ∧
      Shrunk { cache with budget } (cache.resize budget) ∨
    (budget < 1 ∨ budget < cache.leasedBytes + cache.pendingBytes) ∧
      ∃ error, error ≠ "StopIteration" ∧ cache.resize budget = (.error error, cache) := by
  rw [SharedCache.resize]
  split
  case h_1 error hi =>
    have ⟨hb, he⟩ := integer_error hi
    exact .inr ⟨.inl (Nat.lt_of_not_le hb), error, by rw [he]; decide +kernel, rfl⟩
  case h_2 hi =>
    have hb : 1 ≤ budget := integer_eq_ok.mp hi
    split
    case isTrue hl => exact .inr ⟨.inr hl, _, by decide +kernel, rfl⟩
    case isFalse hl =>
      have hl := Nat.le_of_not_lt hl
      have hs : Shrunk { cache with budget } { cache with budget }.shrink := by
        rw [leasedBytes_eq, pendingBytes_eq] at hl
        exact (h.withBudget budget).shrunk hl
      exact .inl ⟨hs.succeeds, hb, hl, hs⟩

end Resize
end SharedCache
end Backend
