import WerkModel.Backend.ExpertManager

-- The bytes in the cache of experts are those of its keys, and they fit into each budget that the
-- cache is given. The experts in use stay in it.
namespace Backend
namespace ExpertManager

variable {V : Type} {g : Geometry} {m m' : Manager V} {key : Nat × Nat} {size : Nat}
variable {excluded : Finset (Nat × Nat)} {loaded : Except String V} {now : Option Nat}

-- The experts are accounted for, both in the sum of the bytes and in the order of eviction.
structure Counted (g : Geometry) (m : Manager V) : Prop where
  resident  : m.resident = g.bytes m.cache.keySet
  retention : ∀ retention, m.retention = some retention →
    retention.Sound g.size ∧ retention.limit = m.effective * 4 / 5 ∧
      ∀ key, key ∈ retention ↔ key ∈ m.cache

theorem new_counted (g : Geometry) (grouped segmented : Bool) :
    Counted g (new g grouped segmented : Manager V) where
  resident  := rfl
  retention := fun retention h => by
    cases segmented
    case false => cases h
    case true =>
      obtain rfl := Option.some.inj h
      exact ⟨ExpertRetention.new_sound, ExpertRetention.limit_resize,
        fun key => iff_of_false ExpertRetention.not_mem_new List.not_mem_nil⟩

section Victims

theorem Counted.victim_mem (h : Counted g m) {victim : Nat × Nat}
    (hv : m.cacheVictim excluded = some victim) : victim ∈ m.cache ∧ victim ∉ excluded := by
  rw [Manager.cacheVictim] at hv
  cases hr : m.retention
  case none =>
    rw [hr] at hv
    exact ⟨List.mem_of_find?_eq_some hv, by simpa using List.find?_some hv⟩
  case some retention =>
    rw [hr] at hv
    obtain ⟨hm, hn⟩ := ExpertRetention.victim_eq_some hv
    exact ⟨((h.retention retention hr).2.2 victim).mp hm, hn⟩

theorem Counted.mem_excluded (h : Counted g m) (hv : m.cacheVictim excluded = none)
    (hm : key ∈ m.cache) : key ∈ excluded := by
  rw [Manager.cacheVictim] at hv
  cases hr : m.retention
  case none =>
    rw [hr] at hv
    simpa using List.find?_eq_none.mp hv key hm
  case some retention =>
    rw [hr] at hv
    exact ExpertRetention.victim_eq_none hv (((h.retention retention hr).2.2 key).mpr hm)

theorem Counted.pop (h : Counted g m) (hm : key ∈ m.cache) : Counted g (m.pop g key) where
  resident  := by
    have hb := Geometry.bytes_erase (g := g) (OrderedDict.mem_keySet.mpr hm)
    have hr := h.resident
    simp only [Manager.pop, OrderedDict.keySet_erase]
    omega
  retention := fun retention hr => by
    obtain ⟨old, ho, rfl⟩ := Option.map_eq_some_iff.mp hr
    obtain ⟨hs, hl, hk⟩ := h.retention old ho
    refine ⟨hs.discard, hl, fun other => ?_⟩
    rw [ExpertRetention.mem_discard, hk, Manager.pop, OrderedDict.mem_erase]

theorem Counted.evict (h : Counted g m) (hm : key ∈ m.cache) : Counted g (m.evict g key) :=
  ⟨(h.pop hm).resident, (h.pop hm).retention⟩

end Victims

section Reclaiming

-- What an operation leaves alone that may only evict.
structure Reclaimed (g : Geometry) (excluded : Finset (Nat × Nat)) (m m' : Manager V) : Prop where
  counted   : Counted g m'
  active    : m'.active = m.active
  pinned    : m'.pinned = m.pinned
  leased    : m'.leased = m.leased
  effective : m'.effective = m.effective
  subset    : ∀ key ∈ m'.cache, key ∈ m.cache
  kept      : ∀ key ∈ excluded, m'.cache.get? key = m.cache.get? key

theorem Reclaimed.refl (h : Counted g m) : Reclaimed g excluded m m :=
  ⟨h, rfl, rfl, rfl, rfl, fun _ hm => hm, fun _ _ => rfl⟩

theorem Reclaimed.evict (h : Reclaimed g excluded (m.evict g key) m') (hn : key ∉ excluded) :
    Reclaimed g excluded m m' where
  counted   := h.counted
  active    := h.active
  pinned    := h.pinned
  leased    := h.leased
  effective := h.effective
  subset    := fun other hm => (OrderedDict.mem_erase.mp (h.subset other hm)).1
  kept      := fun other ho =>
    (h.kept other ho).trans (OrderedDict.get?_erase_of_ne (ne_of_mem_of_not_mem ho hn))

-- Some more bytes fit unless all experts are excluded from eviction.
theorem Counted.reclaim (h : Counted g m) :
    ∃ fits m', m.reclaim g excluded size = (.ok fits, m') ∧ Reclaimed g excluded m m' ∧
      (fits = true → m'.resident + size ≤ m'.effective) ∧
      (fits = false → m'.effective < m'.resident + size ∧ ∀ key ∈ m'.cache, key ∈ excluded) := by
  fun_induction Manager.reclaim g excluded size m
  case case1 m hl hv =>
    exact ⟨false, m, rfl, .refl h, fun hf => (by cases hf), fun _ =>
      ⟨hl, fun key => h.mem_excluded hv⟩⟩
  case case2 m hl victim hv hm hi =>
    obtain ⟨fits, m', he, hr, hfits⟩ := hi (h.evict hm)
    exact ⟨fits, m', he, hr.evict (h.victim_mem hv).2, hfits⟩
  case case3 m hl victim hv hm => exact absurd (h.victim_mem hv).1 hm
  case case4 m hl =>
    exact ⟨true, m, rfl, .refl h, fun _ => not_lt.mp hl, fun hf => (by cases hf)⟩

end Reclaiming

section Acquisitions

theorem Counted.moveToEnd (h : Counted g m) {hits : Nat} :
    Counted g { m with hits, cache := m.cache.moveToEnd key } where
  resident  := by simpa using h.resident
  retention := by simpa using h.retention

theorem Counted.store (h : Counted g m) (hn : key ∉ m.cache) (value : V) :
    (m.store g key value).resident = g.bytes (m.store g key value).cache.keySet := by
  have hk : key ∉ m.cache.keySet := fun hk => hn (OrderedDict.mem_keySet.mp hk)
  simp only [Manager.store, OrderedDict.keySet_set, Geometry.bytes_insert hk, h.resident]

-- The expert that is used is in the cache, and it may be new to the order of eviction.
theorem use_counted (hb : m.resident = g.bytes m.cache.keySet)
    (hr : ∀ retention, m.retention = some retention →
      retention.Sound g.size ∧ retention.limit = m.effective * 4 / 5 ∧
        ∀ other, other = key ∨ other ∈ retention ↔ other ∈ m.cache) :
    Counted g (m.use g key now) where
  resident  := hb
  retention := fun retention h => by
    obtain ⟨old, ho, rfl⟩ := Option.map_eq_some_iff.mp h
    obtain ⟨hs, hl, hk⟩ := hr old ho
    exact ⟨hs.touch, ExpertRetention.limit_touch.trans hl,
      fun other => ExpertRetention.mem_touch.trans (hk other)⟩

-- What an acquisition leaves alone. It adds no other expert.
structure Acquired (g : Geometry) (key : Nat × Nat) (m m' : Manager V) : Prop where
  counted   : Counted g m'
  active    : m'.active = m.active
  pinned    : m'.pinned = m.pinned
  leased    : m'.leased = m.leased
  effective : m'.effective = m.effective
  subset    : ∀ other ∈ m'.cache, other = key ∨ other ∈ m.cache
  kept      : ∀ other ∈ m.inUse, other ∈ m.cache → m'.cache.get? other = m.cache.get? other
  fits      : m.resident ≤ m.effective → m'.resident ≤ m.effective

theorem Reclaimed.resident_le (h : Reclaimed g excluded m m') (hc : Counted g m) :
    m'.resident ≤ m.resident := by
  rw [h.counted.resident, hc.resident]
  refine Geometry.bytes_mono fun key hm => ?_
  exact OrderedDict.mem_keySet.mpr (h.subset key (OrderedDict.mem_keySet.mp hm))

theorem Reclaimed.acquired (h : Reclaimed g m.inUse m m') (hc : Counted g m) :
    Acquired g key m m' where
  counted   := h.counted
  active    := h.active
  pinned    := h.pinned
  leased    := h.leased
  effective := h.effective
  subset    := fun other hm => .inr (h.subset other hm)
  kept      := fun other ho _ => h.kept other ho
  fits      := (h.resident_le hc).trans

theorem Counted.acquire_hit (h : Counted g m) {value : V} (hg : m.cache.get? key = some value) :
    (m.acquire g key loaded now).1 = .ok value ∧
      Acquired g key m (m.acquire g key loaded now).2 ∧
      key ∈ (m.acquire g key loaded now).2.cache := by
  have hm : key ∈ m.cache := OrderedDict.mem_iff_get?.mpr ⟨value, hg⟩
  have hc := @Counted.moveToEnd _ _ _ key h (m.hits + 1)
  rw [Manager.acquire, hg]
  refine ⟨rfl, ⟨use_counted hc.resident ?_, rfl, rfl, rfl, rfl,
    fun other ho => .inr (OrderedDict.mem_moveToEnd.mp ho), fun other _ _ => ?_, id⟩,
    OrderedDict.mem_moveToEnd.mpr hm⟩
  case refine_1 =>
    intro retention hr
    obtain ⟨hs, hl, hk⟩ := hc.retention retention hr
    refine ⟨hs, hl, fun other => ?_⟩
    rw [hk, or_iff_right_iff_imp]
    exact fun he => OrderedDict.mem_moveToEnd.mpr (he ▸ hm)
  case refine_2 => exact OrderedDict.get?_moveToEnd

-- A loaded expert takes the room that was made for it.
theorem Reclaimed.load (h : Reclaimed g m.inUse m m') (hn : key ∉ m.cache)
    (hf : m'.resident + g.size key ≤ m'.effective) (value : V) :
    Acquired g key m ((m'.store g key value).use g key now) := by
  have hn' : key ∉ m'.cache := fun hm => hn (h.subset key hm)
  refine ⟨use_counted (h.counted.store hn' value) ?_,
    h.active, h.pinned, h.leased, h.effective, fun other hm => ?_, fun other ho hm => ?_,
    fun _ => hf.trans_eq h.effective⟩
  case refine_1 =>
    intro retention hr
    obtain ⟨hs, hl, hk⟩ := h.counted.retention retention hr
    refine ⟨hs, hl, fun other => ?_⟩
    rw [hk, Manager.store, OrderedDict.mem_set]
  case refine_2 => exact (OrderedDict.mem_set.mp hm).imp_right (h.subset other)
  case refine_3 =>
    exact (OrderedDict.get?_set_of_ne (ne_of_mem_of_not_mem hm hn)).trans (h.kept other ho)

-- An expert that is not in the cache is refused only if it does not fit beside those in use.
theorem Counted.acquire_miss (h : Counted g m) (hn : key ∉ m.cache) :
    Acquired g key m (m.acquire g key loaded now).2 ∧
      (∀ value, (m.acquire g key loaded now).1 = .ok value →
        key ∈ (m.acquire g key loaded now).2.cache) ∧
      (g.bytes (insert key m.inUse) ≤ m.effective →
        (m.acquire g key loaded now).1 = loaded.mapError .raised) := by
  obtain ⟨fits, m', hr, hrec, hyes, hno⟩ := @Counted.reclaim V g m (g.size key) m.inUse h
  rw [Manager.acquire, OrderedDict.get?_eq_none.mpr hn]
  simp only [hr]
  cases fits
  case false =>
    obtain ⟨hlt, hall⟩ := hno rfl
    refine ⟨hrec.acquired h, fun _ he => (by cases he), fun hroom => ?_⟩
    have hn' : key ∉ m'.cache.keySet := fun hm =>
      hn (hrec.subset key (OrderedDict.mem_keySet.mp hm))
    have hsub : insert key m'.cache.keySet ⊆ insert key m.inUse :=
      Finset.insert_subset_insert key fun other hm => hall other (OrderedDict.mem_keySet.mp hm)
    have hle := @Geometry.bytes_mono g _ _ hsub
    have hres := hrec.counted.resident
    have heff := hrec.effective
    rw [Geometry.bytes_insert hn'] at hle
    omega
  case true =>
    cases loaded
    case error => exact ⟨hrec.acquired h, fun _ he => (by cases he), fun _ => rfl⟩
    case ok value =>
      exact ⟨hrec.load hn (hyes rfl) value, fun _ _ => OrderedDict.mem_set.mpr (.inl rfl),
        fun _ => rfl⟩

theorem Counted.acquire (h : Counted g m) :
    Acquired g key m (m.acquire g key loaded now).2 ∧
      (∀ value, (m.acquire g key loaded now).1 = .ok value →
        key ∈ (m.acquire g key loaded now).2.cache) := by
  cases hg : m.cache.get? key
  case none =>
    obtain ⟨ha, hm, -⟩ := @Counted.acquire_miss _ _ _ _ loaded now h (OrderedDict.get?_eq_none.mp hg)
    exact ⟨ha, hm⟩
  case some value =>
    obtain ⟨-, ha, hm⟩ := @Counted.acquire_hit _ _ _ _ loaded now h _ hg
    exact ⟨ha, fun _ _ => hm⟩

end Acquisitions

section Resizing

theorem effectiveFor_eq (m : Manager V) (budget : Int) :
    (m.effectiveFor g budget : Int) =
      max (g.minimum m.inUse : Int) (min (g.ceiling : Int) budget) :=
  Int.toNat_of_nonneg (le_max_of_le_left (Int.natCast_nonneg _))

theorem minimum_le_effectiveFor (m : Manager V) (budget : Int) :
    g.minimum m.inUse ≤ m.effectiveFor g budget :=
  Int.ofNat_le.mp ((le_max_left ..).trans_eq (effectiveFor_eq m budget).symm)

theorem Counted.withBudget (h : Counted g m) (budget : Int) :
    Counted g (m.withBudget g budget) where
  resident  := h.resident
  retention := fun retention hr => by
    obtain ⟨old, ho, rfl⟩ := Option.map_eq_some_iff.mp hr
    obtain ⟨hs, -, hk⟩ := h.retention old ho
    exact ⟨hs.resize, ExpertRetention.limit_resize,
      fun key => ExpertRetention.mem_resize.trans (hk key)⟩

-- A budget is met, whatever it is.
theorem Counted.resizeCache (h : Counted g m) (budget : Int) :
    ∃ m', m.resizeCache g budget = (.ok (), m') ∧
      Reclaimed g m.inUse (m.withBudget g budget) m' ∧ m'.resident ≤ m'.effective := by
  obtain ⟨fits, m', hr, hrec, hyes, hno⟩ :=
    @Counted.reclaim V g _ 0 m.inUse (h.withBudget budget)
  refine ⟨m', by rw [Manager.resizeCache, hr], hrec, ?_⟩
  cases fits
  case true  => exact hyes rfl
  case false =>
    obtain ⟨-, hall⟩ := hno rfl
    have hsub : m'.cache.keySet ⊆ m.inUse := fun key hm => hall key (OrderedDict.mem_keySet.mp hm)
    calc m'.resident
      _ = g.bytes m'.cache.keySet     := hrec.counted.resident
      _ ≤ g.bytes m.inUse             := Geometry.bytes_mono hsub
      _ ≤ g.minimum m.inUse           := Nat.le_add_right ..
      _ ≤ m.effectiveFor g budget     := minimum_le_effectiveFor m budget
      _ = m'.effective                := hrec.effective.symm

theorem Counted.deactivate (h : Counted g m) : Counted g m.deactivate where
  resident  := rfl
  retention := fun retention hr => by
    obtain ⟨old, ho, rfl⟩ := Option.map_eq_some_iff.mp hr
    exact ⟨ExpertRetention.clear_sound, (h.retention old ho).2.1,
      fun key => iff_of_false ExpertRetention.not_mem_clear List.not_mem_nil⟩

end Resizing

end ExpertManager
end Backend
