import WerkModel.Backend.ExpertActionsSafety

-- What holds in all runs of a manager of experts.
namespace Backend
namespace ExpertManager

variable {V : Type} {g : Geometry} {m m' : Manager V} {keys : List (Nat × Nat)}
variable {loads : Nat × Nat → Except String V} {request : Request}

section Actions

-- What an action has met.
structure Checked (g : Geometry) (m : Manager V) (request : Request) : Prop where
  known    : ∀ key ∈ request.keys, g.Known key
  free     : request.action = .evict → ∀ key ∈ request.keys, key ∉ m.pinned
  required : request.action = .pin ∨ request.action = .prefetch →
    g.bytes (m.pinned ∪ request.keys.toFinset) ≤ m.effective
  demand   : request.action = .pin →
    (m.pinned ∪ request.keys.toFinset).card < g.expertBytes.items.length * g.experts →
      g.bytes (m.pinned ∪ request.keys.toFinset) + g.largest ≤ m.effective

theorem checked (h : m.check g request = .ok ()) : Checked g m request := by
  rw [Manager.check] at h
  obtain ⟨-, h⟩ := Checks.ensure_bind_eq_ok.mp h
  obtain ⟨-, h⟩ := Checks.ensure_bind_eq_ok.mp h
  obtain ⟨-, h⟩ := Checks.ensure_bind_eq_ok.mp h
  obtain ⟨hk, h⟩ := Checks.seq_eq_ok.mp h
  obtain ⟨-, h⟩ := Checks.ensure_bind_eq_ok.mp h
  obtain ⟨hf, h⟩ := Checks.ensure_bind_eq_ok.mp h
  obtain ⟨hr, h⟩ := Checks.ensure_bind_eq_ok.mp h
  refine ⟨fun key hm => ?_, hf, hr, Checks.ensure_eq_ok.mp h⟩
  obtain ⟨id, hi, rfl⟩ := List.mem_map.mp hm
  exact Checks.ensure_eq_ok.mp (Checks.forM_eq_ok.mp hk id hi)

-- What is left of the pins that have been acquired.
theorem Settled.withPins (s : Settled g m) (hs : Steadied g (m.pin keys) m') :
    Passed g m { m' with pinned := m.pinned } := by
  have he : m'.effective = m.effective := hs.effective
  have hk : ∀ key ∈ m.pinned, m'.cache.get? key = m.cache.get? key := fun key hm =>
    hs.kept key (Finset.mem_union_left _ (Finset.mem_union_left _ hm)) (s.pinned key hm)
  refine ⟨⟨⟨hs.counted.resident, hs.counted.retention⟩, hs.fits s.fits, s.known, ?_,
    hs.leased.trans s.leased, ?_⟩, hs.active, rfl, he, hk⟩
  case refine_1 =>
    exact fun key hm => hs.mem (Finset.mem_union_left _ (Finset.mem_union_left _ hm))
      (s.pinned key hm)
  case refine_2 =>
    intro key hm hn
    change g.bytes m.pinned + g.size key ≤ m'.effective
    rw [he]
    exact s.room key hm hn

theorem Settled.acquirePinned (s : Settled g m)
    (hr : g.bytes (m.pinned ∪ request.keys.toFinset) ≤ m.effective) (stay : Bool) :
    (∀ failure, (m.acquirePinned g request.keys stay loads).1 = .error failure →
      (∃ key error, loads key = .error error ∧ failure = .raised error) ∧
        Passed g m (m.acquirePinned g request.keys stay loads).2) ∧
    ((m.acquirePinned g request.keys stay loads).1 = .ok () →
      if stay then
        Steadied g (m.pin request.keys) (m.acquirePinned g request.keys stay loads).2 ∧
          ∀ key ∈ request.keys, key ∈ (m.acquirePinned g request.keys stay loads).2.cache
      else
        Passed g m (m.acquirePinned g request.keys stay loads).2) := by
  have hcount : Counted g (m.pin request.keys) := ⟨s.counted.resident, s.counted.retention⟩
  have huse : (m.pin request.keys).inUse = m.pinned ∪ request.keys.toFinset := by
    rw [Manager.inUse, Manager.pin, s.leased, Finset.union_empty]
  obtain ⟨hs, hf, hall⟩ := @Counted.acquireAll _ _ _ request.keys loads (fun _ => none) hcount
    (fun key hk => huse ▸ Finset.mem_union_right _ (List.mem_toFinset.mpr hk)) (huse ▸ hr)
  rw [Manager.acquirePinned]
  generalize (m.pin request.keys).acquireAll g loads (fun _ => none) request.keys = result
    at hs hf hall ⊢
  obtain ⟨failure | _, m'⟩ := result
  case error =>
    refine ⟨fun _ he => ⟨?_, s.withPins hs⟩, fun he => (by cases he)⟩
    obtain rfl := Except.error.inj he
    obtain ⟨key, -, error, hl, hraised⟩ := hf failure rfl
    exact ⟨key, error, hl, hraised⟩
  case ok =>
    refine ⟨fun _ he => (by cases he), fun _ => ?_⟩
    cases stay
    case false => exact s.withPins hs
    case true  => exact ⟨hs, hall rfl⟩

-- Pins that stay leave room for one more expert, which the check has made sure of.
theorem Settled.pinned_stay (s : Settled g m) (c : Checked g m request)
    (ha : request.action = .pin)
    (hs : Steadied g (m.pin request.keys) m')
    (hall : ∀ key ∈ request.keys, key ∈ m'.cache) : Settled g m' := by
  have hp : m'.pinned = m.pinned ∪ request.keys.toFinset := hs.pinned
  have he : m'.effective = m.effective := hs.effective
  have hknown : ∀ key ∈ m.pinned ∪ request.keys.toFinset, g.Known key := fun key hm =>
    (Finset.mem_union.mp hm).elim (s.known key) fun hk => c.known key (List.mem_toFinset.mp hk)
  refine ⟨hs.counted, hs.fits s.fits, hp ▸ hknown, fun key hm => ?_, hs.leased.trans s.leased,
    fun key hk hn => ?_⟩
  case refine_1 =>
    obtain hm | hm := Finset.mem_union.mp (hp ▸ hm)
    case inl =>
      exact hs.mem (Finset.mem_union_left _ (Finset.mem_union_left _ hm)) (s.pinned key hm)
    case inr => exact hall key (List.mem_toFinset.mp hm)
  case refine_2 =>
    rw [hp] at hn ⊢
    have hlt : (m.pinned ∪ request.keys.toFinset).card <
        g.expertBytes.items.length * g.experts :=
      not_le.mp fun hle => hn (Geometry.mem_of_card_le hknown hle hk)
    have hd := c.demand ha hlt
    have hl := Geometry.size_le_largest hk
    omega

theorem Settled.unpin (s : Settled g m) (keys : List (Nat × Nat)) :
    Settled g { m with pinned := m.pinned \ keys.toFinset } where
  counted := ⟨s.counted.resident, s.counted.retention⟩
  fits    := s.fits
  known   := fun key hm => s.known key (Finset.mem_sdiff.mp hm).1
  pinned  := fun key hm => s.pinned key (Finset.mem_sdiff.mp hm).1
  leased  := s.leased
  room    := fun key hk hn => by
    change g.bytes (m.pinned \ keys.toFinset) + g.size key ≤ m.effective
    by_cases hp : key ∈ m.pinned
    case pos =>
      -- The expert was one of the pins before.
      have hsub : insert key (m.pinned \ keys.toFinset) ⊆ m.pinned :=
        Finset.insert_subset hp Finset.sdiff_subset
      rw [←Geometry.bytes_insert hn]
      exact (Geometry.bytes_mono hsub).trans s.bytes_pinned_le
    case neg =>
      have hsub : m.pinned \ keys.toFinset ⊆ m.pinned := Finset.sdiff_subset
      have := @Geometry.bytes_mono g _ _ hsub
      have := s.room key hk hp
      omega

theorem Settled.evictAll (s : Settled g m) (hk : ∀ key ∈ keys, key ∉ m.pinned) :
    Passed g m (m.evictAll g keys) := by
  induction keys generalizing m
  case nil => exact .refl s
  case cons key keys hi =>
    have hn := hk key List.mem_cons_self
    rw [Manager.evictAll]
    split
    case isTrue hm =>
      have hle : (m.pop g key).resident ≤ m.resident := Nat.sub_le ..
      have hkept : ∀ other ∈ m.pinned, (m.pop g key).cache.get? other = m.cache.get? other :=
        fun other ho => OrderedDict.get?_erase_of_ne (ne_of_mem_of_not_mem ho hn)
      have hp : Passed g m (m.pop g key) := {
        settled   := {
          counted := s.counted.pop hm
          fits    := hle.trans s.fits
          known   := s.known
          pinned  := fun other ho =>
            OrderedDict.mem_erase.mpr ⟨s.pinned other ho, ne_of_mem_of_not_mem ho hn⟩
          leased  := s.leased
          room    := s.room }
        active    := rfl
        pinned    := rfl
        effective := rfl
        kept      := hkept }
      exact hp.trans (hi hp.settled fun other ho => hk other (List.mem_cons_of_mem _ ho))
    case isFalse => exact hi s fun other ho => hk other (List.mem_cons_of_mem _ ho)

-- What an action leaves. A failure comes from the check or from a read, and it leaves the pins as
-- they were.
structure Acted (g : Geometry) (m : Manager V) (request : Request)
    (loads : Nat × Nat → Except String V) (failed : Failure → Prop) (m' : Manager V) : Prop where
  settled : Settled g m'
  kept    : ∀ key ∈ m.pinned, m'.cache.get? key = m.cache.get? key
  failure : ∀ failure, failed failure → m'.pinned = m.pinned ∧
    ∃ error, failure = .raised error ∧
      (m.check g request = .error error ∨ ∃ key, loads key = .error error)

theorem Settled.perform (s : Settled g m) (c : Checked g m request) :
    Acted g m request loads (fun failure => (m.perform g request loads).1 = .error failure)
      (m.perform g request loads).2 := by
  rw [Manager.perform]
  cases ha : request.action
  case prefetch =>
    obtain ⟨hf, hok⟩ := @Settled.acquirePinned _ _ _ loads request s (c.required (.inr ha)) false
    generalize m.acquirePinned g request.keys false loads = result at hf hok ⊢
    obtain ⟨failure | _, m'⟩ := result
    case error =>
      obtain ⟨⟨key, error, hl, rfl⟩, hp⟩ := hf failure rfl
      refine ⟨hp.settled, hp.kept, fun _ he => ?_⟩
      exact ⟨hp.pinned, error, (Except.error.inj he).symm, .inr ⟨key, hl⟩⟩
    case ok =>
      have hp : Passed g m m' := hok rfl
      exact ⟨hp.settled, hp.kept, fun _ he => (by cases he)⟩
  case pin =>
    obtain ⟨hf, hok⟩ := @Settled.acquirePinned _ _ _ loads request s (c.required (.inl ha)) true
    generalize m.acquirePinned g request.keys true loads = result at hf hok ⊢
    obtain ⟨failure | _, m'⟩ := result
    case error =>
      obtain ⟨⟨key, error, hl, rfl⟩, hp⟩ := hf failure rfl
      refine ⟨hp.settled, hp.kept, fun _ he => ?_⟩
      exact ⟨hp.pinned, error, (Except.error.inj he).symm, .inr ⟨key, hl⟩⟩
    case ok =>
      obtain ⟨hs, hall⟩ : Steadied g _ m' ∧ ∀ key ∈ request.keys, key ∈ m'.cache := hok rfl
      refine ⟨s.pinned_stay c ha hs hall, fun key hk => ?_, fun _ he => (by cases he)⟩
      exact hs.kept key (Finset.mem_union_left _ (Finset.mem_union_left _ hk)) (s.pinned key hk)
  case unpin =>
    exact ⟨s.unpin request.keys, fun _ _ => rfl, fun _ he => (by cases he)⟩
  case evict =>
    have hp := s.evictAll (c.free ha)
    exact ⟨hp.settled, hp.kept, fun _ he => (by cases he)⟩

theorem Settled.action (s : Settled g m) (request : Request)
    (loads : Nat × Nat → Except String V) :
    Acted g m request loads (fun failure => (m.action g request loads).1 = .error failure)
      (m.action g request loads).2 := by
  rw [Manager.action]
  cases hc : m.check g request
  case error error =>
    refine ⟨s, fun _ _ => rfl, fun failure he => ⟨rfl, error, ?_, .inl hc⟩⟩
    exact (Except.error.inj he).symm
  case ok =>
    dsimp only
    split
    case isTrue  => exact ⟨s, fun _ _ => rfl, fun _ he => (by cases he)⟩
    case isFalse =>
      have ha := @Settled.perform _ _ _ loads request s (checked hc)
      generalize m.perform g request loads = result at ha ⊢
      obtain ⟨failure | _, m'⟩ := result
      case error =>
        refine ⟨ha.settled, ha.kept, fun _ he => ?_⟩
        obtain rfl := Except.error.inj he
        exact ha.failure failure rfl
      case ok    => exact ⟨ha.settled, ha.kept, fun _ he => (by cases he)⟩

end Actions

section Budgets

theorem new_settled (ha : g.largest ≤ g.cacheBytes) (grouped segmented : Bool) :
    Settled g (new g grouped segmented : Manager V) where
  counted := new_counted g grouped segmented
  fits    := Nat.zero_le _
  known   := fun _ hm => absurd hm (Finset.notMem_empty _)
  pinned  := fun _ hm => absurd hm (Finset.notMem_empty _)
  leased  := rfl
  room    := fun key hk _ => by
    change 0 + g.size key ≤ min g.cacheBytes g.total
    rw [Nat.zero_add]
    exact le_min ((Geometry.size_le_largest hk).trans ha) (Geometry.size_le_total hk)

theorem Settled.inUse (s : Settled g m) : m.inUse = m.pinned := by
  rw [Manager.inUse, s.leased, Finset.union_empty]

-- The room for one more expert survives each change of the budget.
theorem Settled.resizeCache (s : Settled g m) (budget : Int) :
    ∃ m', m.resizeCache g budget = (.ok (), m') ∧ Settled g m' ∧ m'.pinned = m.pinned ∧
      ∀ key ∈ m.pinned, m'.cache.get? key = m.cache.get? key := by
  obtain ⟨m', hr, hrec, hfits⟩ := s.counted.resizeCache budget
  have hp : m'.pinned = m.pinned := hrec.pinned
  have hkept : ∀ key ∈ m.pinned, m'.cache.get? key = m.cache.get? key := fun key hm =>
    hrec.kept key (s.inUse ▸ hm)
  have heff : m'.effective = m.effectiveFor g budget := hrec.effective
  refine ⟨m', hr, ⟨hrec.counted, hfits, hp ▸ s.known, fun key hm => ?_, hrec.leased.trans s.leased,
    fun key hk hn => ?_⟩, hp, hkept⟩
  case refine_1 =>
    obtain ⟨value, hv⟩ := OrderedDict.mem_iff_get?.mp (s.pinned key (hp ▸ hm))
    exact OrderedDict.mem_iff_get?.mpr ⟨value, (hkept key (hp ▸ hm)).trans hv⟩
  case refine_2 =>
    rw [hp] at hn ⊢
    calc g.bytes m.pinned + g.size key
      _ ≤ g.bytes m.pinned + g.demand m.pinned :=
        Nat.add_le_add_left (Geometry.size_le_demand s.known hk hn) _
      _ = g.minimum m.inUse                    := by rw [s.inUse, Geometry.minimum]
      _ ≤ m.effectiveFor g budget              := minimum_le_effectiveFor m budget
      _ = m'.effective                         := heff.symm

theorem Settled.deactivate (s : Settled g m) : Settled g m.deactivate where
  counted := s.counted.deactivate
  fits    := Nat.zero_le _
  known   := fun _ hm => absurd hm (Finset.notMem_empty _)
  pinned  := fun _ hm => absurd hm (Finset.notMem_empty _)
  leased  := rfl
  room    := fun key hk _ => by
    change 0 + g.size key ≤ m.effective
    rw [Nat.zero_add]
    by_cases hp : key ∈ m.pinned
    case pos =>
      have hsub : {key} ⊆ m.pinned := Finset.singleton_subset_iff.mpr hp
      have hb : g.bytes {key} = g.size key := Finset.sum_singleton ..
      exact hb ▸ (Geometry.bytes_mono hsub).trans s.bytes_pinned_le
    case neg => exact (Nat.le_add_left ..).trans (s.room key hk hp)

end Budgets

section Runs

theorem settled (ha : g.largest ≤ g.cacheBytes) : (managers g (V := V)).Invariant (Settled g) where
  init := by
    rintro _ ⟨grouped, segmented, rfl⟩
    exact new_settled ha grouped segmented
  step := by
    rintro m event result m' s ⟨hp, hs⟩
    cases event
    case load =>
      obtain ⟨-, rfl⟩ := Prod.mk.inj hs
      exact ⟨⟨s.counted.resident, s.counted.retention⟩, s.fits, s.known, s.pinned, s.leased, s.room⟩
    case forward pass =>
      have h := (s.forward hp).1.settled
      rw [show m.forward g pass = _ from hs] at h
      exact h
    case list =>
      obtain ⟨-, rfl⟩ := Prod.mk.inj hs
      exact s
    case action request loads =>
      obtain ⟨-, rfl⟩ := Prod.mk.inj hs
      exact (s.action request loads).settled
    case resize budget =>
      obtain ⟨next, hr, hn, -⟩ := s.resizeCache budget
      obtain ⟨-, rfl⟩ := Prod.mk.inj (hr.symm.trans hs)
      exact hn
    case deactivate =>
      obtain ⟨-, rfl⟩ := Prod.mk.inj hs
      exact s.deactivate

-- The manager when a pass acquires an expert of one of its groups.
def Manager.Acquires (g : Geometry) (pass : Pass V) (m' : Manager V) (key : Nat × Nat) :
    List (List (Nat × Nat)) → Manager V → Prop
  | [], _              => False
  | group :: groups, m =>
    (∃ done rest, group = done ++ key :: rest ∧
      (m.lease group).acquireAll g pass.loads (fun key => some (pass.times key)) done =
        (.ok (), m')) ∨
    ∃ next, m.runGroup g pass group = (.ok (), next) ∧ Acquires g pass m' key groups next

variable {pass : Pass V} {key : Nat × Nat} {groups : List (List (Nat × Nat))}

-- The group is in use and fits into the budget.
theorem Settled.acquires (s : Settled g m) (hc : ∀ group ∈ groups, m.cost g group ≤ m.effective)
    (h : Manager.Acquires g pass m' key groups m) :
    Counted g m' ∧ key ∈ m'.inUse ∧ g.bytes m'.inUse ≤ m'.effective := by
  induction groups generalizing m
  case nil => exact h.elim
  case cons group groups hi =>
    obtain ⟨done, rest, hg, ha⟩ | ⟨next, hr, h⟩ := h
    case inl =>
      have hcount : Counted g (m.lease group) := ⟨s.counted.resident, s.counted.retention⟩
      have huse : (m.lease group).inUse = m.pinned ∪ group.toFinset := by
        rw [Manager.inUse, Manager.lease, s.leased, Finset.empty_union]
      have hroom : g.bytes (m.lease group).inUse ≤ (m.lease group).effective :=
        huse ▸ (bytes_le_cost group).trans (hc group List.mem_cons_self)
      have hmem : ∀ other ∈ group, other ∈ (m.lease group).inUse := fun other ho =>
        huse ▸ Finset.mem_union_right _ (List.mem_toFinset.mpr ho)
      obtain ⟨hs, -, -⟩ := @Counted.acquireAll _ _ _ done pass.loads
        (fun key => some (pass.times key)) hcount
        (fun other ho => hmem other (hg ▸ List.mem_append_left _ ho)) hroom
      rw [ha] at hs
      refine ⟨hs.counted, hs.inUse ▸ hmem key (hg ▸ ?_), ?_⟩
      case refine_1 => exact List.mem_append_right _ List.mem_cons_self
      case refine_2 => exact hs.inUse ▸ hs.effective ▸ hroom
    case inr =>
      obtain ⟨hp, -⟩ := @Settled.runGroup _ _ _ _ pass s (hc group List.mem_cons_self)
      rw [hr] at hp
      exact hi hp.settled (fun other ho => hp.cost_eq other ▸ hp.effective ▸
        hc other (List.mem_cons_of_mem _ ho)) h

-- The bytes that are resident, the order of eviction, the pins and the leases agree with the
-- cache, and there is room for each expert that is not pinned.
structure Safe (g : Geometry) (m : Manager V) : Prop where
  resident : m.resident = g.bytes m.cache.keySet
  fits     : m.resident ≤ m.effective
  disjoint : ∀ retention, m.retention = some retention →
    Disjoint retention.probation.keySet retention.protectedKeys.keySet
  keys     : ∀ retention, m.retention = some retention →
    retention.probation.keySet ∪ retention.protectedKeys.keySet = m.cache.keySet
  bytes    : ∀ retention, m.retention = some retention →
    retention.protectedBytes = g.bytes retention.protectedKeys.keySet ∧
      retention.protectedBytes ≤ m.effective * 4 / 5
  pinned   : ∀ key ∈ m.pinned, key ∈ m.cache
  leased   : m.leased = ∅
  room     : ∀ key, g.Known key → key ∉ m.pinned → g.bytes m.pinned + g.size key ≤ m.effective

theorem Settled.safe (s : Settled g m) : Safe g m where
  resident := s.counted.resident
  fits     := s.fits
  disjoint := fun retention hr => by
    obtain ⟨hs, -, -⟩ := s.counted.retention retention hr
    refine Finset.disjoint_left.mpr fun key hk hp => ?_
    exact hs.disjoint key (OrderedDict.mem_keySet.mp hk) (OrderedDict.mem_keySet.mp hp)
  keys     := fun retention hr => by
    obtain ⟨-, -, hk⟩ := s.counted.retention retention hr
    ext key
    rw [Finset.mem_union, OrderedDict.mem_keySet, OrderedDict.mem_keySet, OrderedDict.mem_keySet]
    exact hk key
  bytes    := fun retention hr => by
    obtain ⟨hs, hl, -⟩ := s.counted.retention retention hr
    refine ⟨?_, hl ▸ hs.le⟩
    rw [hs.bytes, OrderedDict.total_eq_sum, Geometry.bytes]
    refine Finset.sum_congr rfl fun key hm => ?_
    obtain ⟨size, hi⟩ := OrderedDict.mem_iff.mp (OrderedDict.mem_keySet.mp hm)
    rw [OrderedDict.get?_eq_some.mpr hi, Option.elim_some]
    exact hs.sizes _ hi
  pinned   := s.pinned
  leased   := s.leased
  room     := s.room

theorem Settled.step (s : Settled g m) {event : Event V} {result : Except Failure Unit}
    (hs : (managers g).Step m event result m') :
    result ≠ .error .full ∧
      (event ≠ .deactivate → ∀ key ∈ m.pinned, m'.cache.get? key = m.cache.get? key) := by
  obtain ⟨hp, hs⟩ := hs
  cases event
  case load =>
    obtain ⟨rfl, rfl⟩ := Prod.mk.inj hs
    exact ⟨fun he => (by cases he), fun _ _ _ => rfl⟩
  case forward pass =>
    obtain ⟨hpass, hf⟩ := @Settled.forward _ _ _ pass s hp
    rw [show m.forward g pass = _ from hs] at hpass hf
    refine ⟨fun he => ?_, fun _ => hpass.kept⟩
    cases hf .full he
  case list =>
    obtain ⟨rfl, rfl⟩ := Prod.mk.inj hs
    exact ⟨fun he => (by cases he), fun _ _ _ => rfl⟩
  case action request loads =>
    have ha := s.action request loads
    change ((m.action g request loads).1.map fun _ => (), (m.action g request loads).2) = _ at hs
    generalize m.action g request loads = outcome at hs ha
    obtain ⟨rfl, rfl⟩ := Prod.mk.inj hs
    refine ⟨fun he => ?_, fun _ => ha.kept⟩
    obtain ⟨failure | reply, next⟩ := outcome
    case error =>
      obtain ⟨-, error, rfl, -⟩ := ha.failure failure rfl
      cases he
    case ok => cases he
  case resize budget =>
    obtain ⟨next, hr, -, -, hk⟩ := s.resizeCache budget
    obtain ⟨rfl, rfl⟩ := Prod.mk.inj (hr.symm.trans hs)
    exact ⟨fun he => (by cases he), fun _ => hk⟩
  case deactivate =>
    obtain ⟨rfl, rfl⟩ := Prod.mk.inj hs
    exact ⟨fun he => (by cases he), fun hn => absurd rfl hn⟩

theorem expert_cache_safe (ha : g.largest ≤ g.cacheBytes)
    (r : (managers g : System (Manager V) (Event V) (Except Failure Unit)).Reachable m) :
    Safe g m ∧
    (∀ event result next, (managers g).Step m event result next →
      result ≠ .error .full ∧
        (event ≠ .deactivate → ∀ key ∈ m.pinned, next.cache.get? key = m.cache.get? key)) ∧
    (∀ pass : Pass V, pass.layer ∈ g.expertBytes → (∀ route ∈ pass.routes, route < g.experts) →
      (m.passGroups g pass).2 = .ok () ∧
      ∀ m' key, Manager.Acquires g pass m' key (m.passGroups g pass).1 m →
        ∀ loaded now, (m'.acquire g key loaded now).1 ≠ .error .full ∧
          ∀ other ∈ m'.inUse, other ∈ m'.cache →
            (m'.acquire g key loaded now).2.cache.get? other = m'.cache.get? other) ∧
    ∀ request loads failure next, m.action g request loads = (.error failure, next) →
      next.pinned = m.pinned := by
  have s := (settled ha).reachable r
  refine ⟨s.safe, fun event result next hs => s.step hs, fun pass hl hr => ?_,
    fun request loads failure next he => ?_⟩
  case refine_1 =>
    obtain ⟨hok, hcost⟩ := @Settled.passGroups _ _ _ pass s hl hr
    refine ⟨hok, fun m' key h loaded now => ?_⟩
    obtain ⟨hc, hk, hroom⟩ := s.acquires hcost h
    refine ⟨fun hf => ?_, (@Counted.acquire _ _ _ key loaded now hc).1.kept⟩
    obtain ⟨value, hv⟩ | hl := hc.acquire_outcome hk hroom loaded now
    case inl => cases hv.symm.trans hf
    case inr =>
      have := hl.symm.trans hf
      cases loaded <;> cases this
  case refine_2 =>
    have h := s.action request loads
    rw [he] at h
    exact (h.failure failure rfl).1

end Runs

section Sample

theorem sampleLayers_nodup : ([(0, 10), (1, 20)].map (Prod.fst : Nat × Nat → Nat)).Nodup := by
  decide

-- Two layers with two experts each, and room for three of them at most.
def sampleGeometry : Geometry where
  expertBytes := ⟨[(0, 10), (1, 20)], sampleLayers_nodup⟩
  experts     := 2
  cacheBytes  := 50

def samplePin : Request where
  action     := .pin
  targetTier := none
  ids        := [("layer.1.expert.0", (1, 0)), ("layer.01.expert.0", (1, 0))]
  dryRun     := false

def loadedManager : Manager Nat :=
  (step sampleGeometry (new sampleGeometry true true) .load).2

def pinnedManager : Manager Nat :=
  (step sampleGeometry loadedManager (.action samplePin fun _ => .ok 7)).2

def shrunkManager : Manager Nat :=
  (step sampleGeometry pinnedManager (.resize (-5))).2

theorem shrunk_reachable :
    (managers sampleGeometry : System (Manager Nat) (Event Nat) (Except Failure Unit)).Reachable
      shrunkManager := by
  have hn : (managers sampleGeometry).Reachable (new sampleGeometry true true : Manager Nat) :=
    .init ⟨true, true, rfl⟩
  have hl : (managers sampleGeometry).Reachable loadedManager :=
    hn.step (i := .load) ⟨trivial, rfl⟩
  have hp : (managers sampleGeometry).Reachable pinnedManager :=
    hl.step (i := .action samplePin fun _ => .ok 7) ⟨trivial, rfl⟩
  exact hp.step (i := .resize (-5)) ⟨trivial, rfl⟩

theorem expert_cache_safe_shrunk : Safe sampleGeometry shrunkManager :=
  (expert_cache_safe (by decide) shrunk_reachable).1

end Sample

end ExpertManager
end Backend
