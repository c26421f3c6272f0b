import WerkModel.Backend.ExpertActions

-- The cache of experts stays within its budget, its pins stay in it, and there is always room for
-- one more expert.
namespace Backend
namespace ExpertManager

variable {V : Type} {g : Geometry} {m m' : Manager V} {key : Nat × Nat}
variable {keys group : List (Nat × Nat)}

inductive Event (V : Type)
  | load
  | forward (pass : Pass V)
  | list
  | action (request : Request) (loads : Nat × Nat → Except String V)
  | resize (budget : Int)
  | deactivate

-- A list only reads.
def step (g : Geometry) (m : Manager V) : Event V → Except Failure Unit × Manager V
  | .load                 => (.ok (), { m with active := true })
  | .forward pass         => m.forward g pass
  | .list                 => (.ok (), m)
  | .action request loads =>
    ((m.action g request loads).1.map fun _ => (), (m.action g request loads).2)
  | .resize budget        => m.resizeCache g budget
  | .deactivate           => (.ok (), m.deactivate)

-- A pass goes through a layer with experts.
def Event.Possible (g : Geometry) : Event V → Prop
  | .forward pass => pass.layer ∈ g.expertBytes
  | _             => True

-- The managers of a checkpoint.
def managers (g : Geometry) : System (Manager V) (Event V) (Except Failure Unit) where
  Init m := ∃ grouped segmented, m = new g grouped segmented
  Step m event result next := event.Possible g ∧ step g m event = (result, next)

-- What holds between the operations.
structure Settled (g : Geometry) (m : Manager V) : Prop where
  counted : Counted g m
  fits    : m.resident ≤ m.effective
  known   : ∀ key ∈ m.pinned, g.Known key
  pinned  : ∀ key ∈ m.pinned, key ∈ m.cache
  leased  : m.leased = ∅
  room    : ∀ key, g.Known key → key ∉ m.pinned → g.bytes m.pinned + g.size key ≤ m.effective

section Geometry

theorem Geometry.size_le_largest (h : g.Known key) : g.size key ≤ g.largest := by
  obtain ⟨bytes, hi⟩ := OrderedDict.mem_iff.mp h.1
  have hm : bytes ∈ g.expertBytes.items.map Prod.snd := List.mem_map_of_mem hi
  rw [size, OrderedDict.get?_eq_some.mpr hi, Option.getD_some, largest]
  cases hl : (g.expertBytes.items.map Prod.snd).max?
  case none =>
    rw [List.max?_eq_none_iff.mp hl] at hm
    cases hm
  case some => exact (List.max?_eq_some_iff.mp hl).2 bytes hm

theorem Geometry.size_le_total (h : g.Known key) : g.size key ≤ g.total := by
  obtain ⟨bytes, hi⟩ := OrderedDict.mem_iff.mp h.1
  have hm : bytes ∈ g.expertBytes.items.map Prod.snd := List.mem_map_of_mem hi
  rw [size, OrderedDict.get?_eq_some.mpr hi, Option.getD_some]
  calc bytes
    _ ≤ g.expertBytes.total Prod.snd              := List.le_sum_of_mem hm
    _ ≤ g.expertBytes.total Prod.snd * g.experts  :=
      Nat.le_mul_of_pos_right _ (Nat.zero_lt_of_lt h.2)

-- The experts of all layers.
def Geometry.all (g : Geometry) : Finset (Nat × Nat) :=
  g.expertBytes.keySet ×ˢ Finset.range g.experts

theorem Geometry.mem_all : key ∈ g.all ↔ g.Known key := by
  rw [all, Finset.mem_product, OrderedDict.mem_keySet, Finset.mem_range, Known]

theorem Geometry.card_all : g.all.card = g.expertBytes.items.length * g.experts := by
  rw [all, Finset.card_product, Finset.card_range, OrderedDict.keySet,
    List.toFinset_card_of_nodup g.expertBytes.keys_nodup, OrderedDict.keys, List.length_map]

-- All experts are among some that are as many.
theorem Geometry.mem_of_card_le {required : Finset (Nat × Nat)}
    (hk : ∀ key ∈ required, g.Known key)
    (hc : g.expertBytes.items.length * g.experts ≤ required.card) (h : g.Known key) :
    key ∈ required := by
  have hsub : required ⊆ g.all := fun other ho => Geometry.mem_all.mpr (hk other ho)
  rw [Finset.eq_of_subset_of_card_le hsub (Geometry.card_all.trans_le hc)]
  exact Geometry.mem_all.mpr h

-- A layer with an expert that is not among the keys has fewer of them.
theorem Geometry.size_le_demand {keys : Finset (Nat × Nat)} (hk : ∀ key ∈ keys, g.Known key)
    (h : g.Known key) (hn : key ∉ keys) : g.size key ≤ g.demand keys := by
  obtain ⟨bytes, hi⟩ := OrderedDict.mem_iff.mp h.1
  have hlt : (keys.filter fun other => other.1 = key.1).card < g.experts := by
    have hsub : (keys.filter fun other => other.1 = key.1).image Prod.snd ⊂
        Finset.range g.experts := by
      refine Finset.ssubset_iff_subset_ne.mpr ⟨fun index hm => ?_, fun he => ?_⟩
      case refine_1 =>
        obtain ⟨other, ho, rfl⟩ := Finset.mem_image.mp hm
        exact Finset.mem_range.mpr (hk other (Finset.mem_filter.mp ho).1).2
      case refine_2 =>
        have hm : key.2 ∈ (keys.filter fun other => other.1 = key.1).image Prod.snd :=
          he ▸ Finset.mem_range.mpr h.2
        obtain ⟨other, ho, hs⟩ := Finset.mem_image.mp hm
        obtain ⟨ho, hf⟩ := Finset.mem_filter.mp ho
        exact hn (Prod.ext hf hs ▸ ho)
    have hinj : Set.InjOn Prod.snd
        (keys.filter fun other => other.1 = key.1 : Set (Nat × Nat)) := by
      intro a ha b hb he
      have ha := (Finset.mem_filter.mp ha).2
      have hb := (Finset.mem_filter.mp hb).2
      exact Prod.ext (ha.trans hb.symm) he
    have hcard := Finset.card_lt_card hsub
    rwa [Finset.card_range, Finset.card_image_of_injOn hinj] at hcard
  have hm : bytes ∈ (g.expertBytes.items.filter fun item =>
      (keys.filter fun other => other.1 = item.1).card < g.experts).map Prod.snd :=
    List.mem_map.mpr ⟨(key.1, bytes), List.mem_filter.mpr ⟨hi, decide_eq_true hlt⟩, rfl⟩
  rw [size, OrderedDict.get?_eq_some.mpr hi, Option.getD_some, demand]
  cases hl : ((g.expertBytes.items.filter fun item =>
      (keys.filter fun other => other.1 = item.1).card < g.experts).map Prod.snd).max?
  case none =>
    rw [List.max?_eq_none_iff.mp hl] at hm
    cases hm
  case some => exact (List.max?_eq_some_iff.mp hl).2 bytes hm

end Geometry

section Acquisitions

variable {loads : Nat × Nat → Except String V} {now : Nat × Nat → Option Nat}

-- What a sequence of acquisitions leaves alone. The experts in use stay in the cache.
structure Steadied (g : Geometry) (m m' : Manager V) : Prop where
  counted   : Counted g m'
  active    : m'.active = m.active
  pinned    : m'.pinned = m.pinned
  leased    : m'.leased = m.leased
  effective : m'.effective = m.effective
  fits      : m.resident ≤ m.effective → m'.resident ≤ m'.effective
  kept      : ∀ key ∈ m.inUse, key ∈ m.cache → m'.cache.get? key = m.cache.get? key

theorem Steadied.refl (h : Counted g m) : Steadied g m m :=
  ⟨h, rfl, rfl, rfl, rfl, id, fun _ _ _ => rfl⟩

theorem Steadied.inUse (h : Steadied g m m') : m'.inUse = m.inUse := by
  rw [Manager.inUse, h.pinned, h.leased, Manager.inUse]

theorem Steadied.mem (h : Steadied g m m') (hu : key ∈ m.inUse) (hm : key ∈ m.cache) :
    key ∈ m'.cache := by
  obtain ⟨value, hv⟩ := OrderedDict.mem_iff_get?.mp hm
  exact OrderedDict.mem_iff_get?.mpr ⟨value, (h.kept key hu hm).trans hv⟩

theorem Steadied.trans {m'' : Manager V} (h : Steadied g m m') (h' : Steadied g m' m'') :
    Steadied g m m'' where
  counted   := h'.counted
  active    := h'.active.trans h.active
  pinned    := h'.pinned.trans h.pinned
  leased    := h'.leased.trans h.leased
  effective := h'.effective.trans h.effective
  fits      := fun hf => h'.fits (h.fits hf)
  kept      := fun key hu hm =>
    (h'.kept key (h.inUse ▸ hu) (h.mem hu hm)).trans (h.kept key hu hm)

theorem Acquired.steadied (h : Acquired g key m m') : Steadied g m m' where
  counted   := h.counted
  active    := h.active
  pinned    := h.pinned
  leased    := h.leased
  effective := h.effective
  fits      := fun hf => (h.fits hf).trans_eq h.effective.symm
  kept      := h.kept

-- The outcome of an acquisition is that of the read if the expert has to be read.
theorem Counted.acquire_outcome (h : Counted g m) (hk : key ∈ m.inUse)
    (hroom : g.bytes m.inUse ≤ m.effective) (loaded : Except String V) (now : Option Nat) :
    (∃ value, (m.acquire g key loaded now).1 = .ok value) ∨
      (m.acquire g key loaded now).1 = loaded.mapError .raised := by
  cases hg : m.cache.get? key
  case none =>
    obtain ⟨-, -, hl⟩ :=
      @Counted.acquire_miss _ _ _ _ loaded now h (OrderedDict.get?_eq_none.mp hg)
    rw [Finset.insert_eq_of_mem hk] at hl
    exact .inr (hl hroom)
  case some value =>
    exact .inl ⟨value, (@Counted.acquire_hit _ _ _ _ loaded now h _ hg).1⟩

theorem Counted.acquireAll (h : Counted g m) (hk : ∀ key ∈ keys, key ∈ m.inUse)
    (hroom : g.bytes m.inUse ≤ m.effective) :
    Steadied g m (m.acquireAll g loads now keys).2 ∧
      (∀ failure, (m.acquireAll g loads now keys).1 = .error failure →
        ∃ key ∈ keys, ∃ error, loads key = .error error ∧ failure = .raised error) ∧
      ((m.acquireAll g loads now keys).1 = .ok () →
        ∀ key ∈ keys, key ∈ (m.acquireAll g loads now keys).2.cache) := by
  induction keys generalizing m
  case nil =>
    exact ⟨.refl h, fun _ he => (by cases he), fun _ _ hm => absurd hm List.not_mem_nil⟩
  case cons key keys hi =>
    have hu := hk key List.mem_cons_self
    have hout := h.acquire_outcome hu hroom (loads key) (now key)
    obtain ⟨ha, hmem⟩ := @Counted.acquire _ _ _ key (loads key) (now key) h
    rw [Manager.acquireAll]
    generalize m.acquire g key (loads key) (now key) = result at hout ha hmem ⊢
    obtain ⟨failure | value, m'⟩ := result
    case error =>
      refine ⟨ha.steadied, fun _ he => ?_, fun he => (by cases he)⟩
      obtain rfl := Except.error.inj he
      obtain ⟨value, hv⟩ | hl := hout
      case inl => cases hv
      case inr =>
        refine ⟨key, List.mem_cons_self, ?_⟩
        cases hload : loads key
        case error error =>
          rw [hload] at hl
          exact ⟨error, rfl, Except.error.inj hl⟩
        case ok =>
          rw [hload] at hl
          cases hl
    case ok =>
      have hs := ha.steadied
      obtain ⟨hs', hf, hall⟩ := hi ha.counted
        (fun other ho => hs.inUse ▸ hk other (List.mem_cons_of_mem _ ho))
        (by rw [hs.inUse, hs.effective]; exact hroom)
      refine ⟨hs.trans hs', fun failure he => ?_, fun he other ho => ?_⟩
      case refine_1 =>
        obtain ⟨other, ho, hl⟩ := hf failure he
        exact ⟨other, List.mem_cons_of_mem _ ho, hl⟩
      case refine_2 =>
        obtain rfl | ho := List.mem_cons.mp ho
        case inl => exact hs'.mem (hs.inUse ▸ hu) (hmem value rfl)
        case inr => exact hall he other ho

end Acquisitions

section Passes

variable {pass : Pass V} {layer used : Nat} {experts : List Nat}

-- A group with the pins.
def Manager.cost (g : Geometry) (m : Manager V) (group : List (Nat × Nat)) : Nat :=
  g.bytes m.pinned + (group.map (m.groupBytes g)).sum

theorem bytes_le_cost (group : List (Nat × Nat)) :
    g.bytes (m.pinned ∪ group.toFinset) ≤ m.cost g group := by
  induction group
  case nil => exact (congrArg g.bytes (Finset.union_empty m.pinned)).le
  case cons key group hi =>
    rw [List.toFinset_cons, Finset.union_insert]
    have hc : m.cost g (key :: group) = m.groupBytes g key + m.cost g group := by
      simp only [Manager.cost, List.map_cons, List.sum_cons]
      omega
    by_cases hm : key ∈ m.pinned ∪ group.toFinset
    case pos =>
      rw [Finset.insert_eq_of_mem hm]
      omega
    case neg =>
      rw [Geometry.bytes_insert hm]
      have hg : m.groupBytes g key = g.size key :=
        if_neg fun hp => hm (Finset.mem_union_left _ hp)
      omega

theorem Settled.bytes_pinned_le (s : Settled g m) : g.bytes m.pinned ≤ m.effective := by
  have hsub : m.pinned ⊆ m.cache.keySet := fun key hk =>
    OrderedDict.mem_keySet.mpr (s.pinned key hk)
  calc g.bytes m.pinned
    _ ≤ g.bytes m.cache.keySet := Geometry.bytes_mono hsub
    _ = m.resident             := s.counted.resident.symm
    _ ≤ m.effective            := s.fits

theorem Settled.groupBytes_le (s : Settled g m) (h : g.Known key) :
    g.bytes m.pinned + m.groupBytes g key ≤ m.effective := by
  rw [Manager.groupBytes]
  split
  case isTrue    => exact s.bytes_pinned_le
  case isFalse h => exact s.room key ‹_› h

-- No group takes more than the budget, and no group is refused.
theorem Settled.groups (s : Settled g m) (limit : Nat)
    (hk : ∀ expert ∈ experts, g.Known (layer, expert))
    (hu : used = m.cost g group) (hle : used ≤ m.effective) :
    (m.groups g limit layer experts group used).2 = .ok () ∧
      ∀ other ∈ (m.groups g limit layer experts group used).1, m.cost g other ≤ m.effective := by
  induction experts generalizing group used
  case nil =>
    refine ⟨rfl, fun other ho => ?_⟩
    rw [Manager.groups] at ho
    split at ho
    case isTrue  => cases ho
    case isFalse => exact List.mem_singleton.mp ho ▸ hu ▸ hle
  case cons expert experts hi =>
    have hroom := s.groupBytes_le (hk expert List.mem_cons_self)
    have hrest := fun other ho => hk other (List.mem_cons_of_mem _ ho)
    have hnew : g.bytes m.pinned + m.groupBytes g (layer, expert) =
        m.cost g ([] ++ [(layer, expert)]) := by
      simp [Manager.cost]
    have hadd :
        used + m.groupBytes g (layer, expert) = m.cost g (group ++ [(layer, expert)]) := by
      simp only [hu, Manager.cost, List.map_append, List.sum_append, List.map_singleton,
        List.sum_singleton]
      omega
    rw [Manager.groups]
    by_cases hflush : group ≠ [] ∧ (group.length = limit ∨
        m.effective < used + m.groupBytes g (layer, expert))
    case pos =>
      obtain ⟨hok, hall⟩ := hi hrest hnew hroom
      simp only [if_pos hflush, if_neg (not_lt.mpr hroom)]
      refine ⟨hok, fun other ho => ?_⟩
      obtain ho | ho := List.mem_append.mp ho
      case inl => exact List.mem_singleton.mp ho ▸ hu ▸ hle
      case inr => exact hall other ho
    case neg =>
      have hfit : used + m.groupBytes g (layer, expert) ≤ m.effective := by
        by_cases hg : group = []
        case pos =>
          rw [hg] at hu
          have : used = g.bytes m.pinned := hu
          omega
        case neg =>
          by_contra hlt
          exact hflush ⟨hg, .inr (not_le.mp hlt)⟩
      obtain ⟨hok, hall⟩ := hi hrest hadd hfit
      simp only [if_neg hflush, if_neg (not_lt.mpr hfit)]
      exact ⟨hok, fun other ho => hall other ((List.mem_append.mp ho).resolve_left
        List.not_mem_nil)⟩

-- A failure of a pass over some groups, which comes from outside of the cache.
inductive Pass.Fails (g : Geometry) (pass : Pass V) (groups : List (List (Nat × Nat))) :
    Failure → Prop
  | routing :
    (¬pass.shaped ∨ ∃ route ∈ pass.routes, g.experts ≤ route) →
      Fails g pass groups (.raised "invalid expert routing shape or index")
  | workspace {error} :
    pass.workspace = .error error → Fails g pass groups (.raised error)
  | prefetch {group error} :
    group ∈ groups → pass.prefetch group = .error error → Fails g pass groups (.raised error)
  | load {group key error} :
    group ∈ groups → key ∈ group → pass.loads key = .error error →
      Fails g pass groups (.raised error)
  | evaluate {group error} :
    group ∈ groups → pass.evaluate group = .error error → Fails g pass groups (.raised error)

theorem Pass.Fails.mono {groups groups' : List (List (Nat × Nat))} {failure : Failure}
    (h : pass.Fails g groups failure) (hs : groups ⊆ groups') : pass.Fails g groups' failure := by
  cases h
  case routing h       => exact .routing h
  case workspace h     => exact .workspace h
  case prefetch hm h   => exact .prefetch (hs hm) h
  case load hm hk h    => exact .load (hs hm) hk h
  case evaluate hm h   => exact .evaluate (hs hm) h

-- What an operation leaves that does not change the pins.
structure Passed (g : Geometry) (m m' : Manager V) : Prop where
  settled   : Settled g m'
  active    : m'.active = m.active
  pinned    : m'.pinned = m.pinned
  effective : m'.effective = m.effective
  kept      : ∀ key ∈ m.pinned, m'.cache.get? key = m.cache.get? key

theorem Passed.refl (s : Settled g m) : Passed g m m :=
  ⟨s, rfl, rfl, rfl, fun _ _ => rfl⟩

theorem Passed.trans {m'' : Manager V} (h : Passed g m m') (h' : Passed g m' m'') :
    Passed g m m'' where
  settled   := h'.settled
  active    := h'.active.trans h.active
  pinned    := h'.pinned.trans h.pinned
  effective := h'.effective.trans h.effective
  kept      := fun key hk => (h'.kept key (h.pinned ▸ hk)).trans (h.kept key hk)

theorem Passed.cost_eq (h : Passed g m m') (group : List (Nat × Nat)) :
    m'.cost g group = m.cost g group := by
  have hg : m'.groupBytes g = m.groupBytes g := by
    funext key
    rw [Manager.groupBytes, h.pinned, Manager.groupBytes]
  rw [Manager.cost, hg, h.pinned, Manager.cost]

-- The leases of a group are given back.
theorem Settled.unlease (s : Settled g m) (h : Steadied g (m.lease group) m') :
    Passed g m (m'.unlease group) := by
  have hp : m'.pinned = m.pinned := h.pinned
  have he : m'.effective = m.effective := h.effective
  have hk : ∀ key ∈ m.pinned, m'.cache.get? key = m.cache.get? key := fun key hm =>
    h.kept key (Finset.mem_union_left _ hm) (s.pinned key hm)
  refine ⟨⟨⟨h.counted.resident, h.counted.retention⟩, h.fits s.fits, ?_, ?_, ?_, ?_⟩,
    h.active, hp, he, hk⟩
  case refine_1 => exact fun key hm => s.known key (hp ▸ hm)
  case refine_2 =>
    exact fun key hm => h.mem (Finset.mem_union_left _ (hp ▸ hm)) (s.pinned key (hp ▸ hm))
  case refine_3 =>
    change m'.leased \ group.toFinset = ∅
    have hl : m'.leased = m.leased ∪ group.toFinset := h.leased
    rw [hl, s.leased, Finset.empty_union, Finset.sdiff_self]
  case refine_4 =>
    intro key hm hn
    change g.bytes m'.pinned + g.size key ≤ m'.effective
    rw [hp, he]
    exact s.room key hm (hp ▸ hn)

theorem Settled.runGroup (s : Settled g m) (hc : m.cost g group ≤ m.effective) :
    Passed g m (m.runGroup g pass group).2 ∧
      ∀ failure, (m.runGroup g pass group).1 = .error failure → pass.Fails g [group] failure := by
  have hcount : Counted g (m.lease group) := ⟨s.counted.resident, s.counted.retention⟩
  have huse : (m.lease group).inUse = m.pinned ∪ group.toFinset := by
    rw [Manager.inUse, Manager.lease, s.leased, Finset.empty_union]
  obtain ⟨hs, hf, -⟩ := @Counted.acquireAll _ _ _ group pass.loads
    (fun key => some (pass.times key)) hcount
    (fun key hk => huse ▸ Finset.mem_union_right _ (List.mem_toFinset.mpr hk))
    (huse ▸ (bytes_le_cost group).trans hc)
  have hself : group ∈ [group] := List.mem_singleton_self group
  rw [Manager.runGroup]
  cases hpre : pass.prefetch group
  case error error =>
    exact ⟨s.unlease (.refl hcount), fun failure he => Except.error.inj he ▸ .prefetch hself hpre⟩
  case ok =>
    generalize (m.lease group).acquireAll g pass.loads (fun key => some (pass.times key)) group =
      result at hs hf
    obtain ⟨failure | _, m'⟩ := result
    case error =>
      refine ⟨s.unlease hs, fun failure he => ?_⟩
      obtain ⟨key, hk, error, hl, rfl⟩ := hf failure he
      exact .load hself hk hl
    case ok =>
      refine ⟨s.unlease hs, fun failure he => ?_⟩
      cases hev : pass.evaluate group
      case error error =>
        simp only [hev] at he
        exact Except.error.inj he ▸ .evaluate hself hev
      case ok =>
        simp only [hev] at he
        cases he

theorem Settled.runGroups {groups : List (List (Nat × Nat))} (s : Settled g m)
    (hc : ∀ group ∈ groups, m.cost g group ≤ m.effective) :
    Passed g m (m.runGroups g pass groups).2 ∧
      ∀ failure, (m.runGroups g pass groups).1 = .error failure → pass.Fails g groups failure := by
  induction groups generalizing m
  case nil => exact ⟨.refl s, fun _ he => (by cases he)⟩
  case cons group groups hi =>
    obtain ⟨hp, hf⟩ := @Settled.runGroup _ _ _ _ pass s (hc group List.mem_cons_self)
    rw [Manager.runGroups]
    generalize m.runGroup g pass group = result at hp hf ⊢
    obtain ⟨failure | _, m'⟩ := result
    case error =>
      exact ⟨hp, fun failure he =>
        (hf failure he).mono (List.cons_subset_cons _ (List.nil_subset _))⟩
    case ok =>
      obtain ⟨hp', hf'⟩ := hi hp.settled fun other ho => by
        rw [hp.cost_eq, hp.effective]
        exact hc other (List.mem_cons_of_mem _ ho)
      exact ⟨hp.trans hp', fun failure he => (hf' failure he).mono (List.subset_cons_self ..)⟩

theorem Settled.passGroups (s : Settled g m) (hl : pass.layer ∈ g.expertBytes)
    (hr : ∀ route ∈ pass.routes, route < g.experts) :
    (m.passGroups g pass).2 = .ok () ∧
      ∀ group ∈ (m.passGroups g pass).1, m.cost g group ≤ m.effective := by
  have hk : ∀ expert ∈ pass.routes.dedup.insertionSort (· ≤ ·), g.Known (pass.layer, expert) :=
    fun expert hm => ⟨hl, hr expert (List.mem_dedup.mp ((List.mem_insertionSort _).mp hm))⟩
  exact s.groups m.groupLimit hk rfl s.bytes_pinned_le

theorem Settled.forward (s : Settled g m) (hl : pass.layer ∈ g.expertBytes) :
    Passed g m (m.forward g pass).2 ∧
      ∀ failure, (m.forward g pass).1 = .error failure →
        pass.Fails g (m.passGroups g pass).1 failure := by
  rw [Manager.forward]
  split
  case isTrue hr => exact ⟨.refl s, fun _ he => Except.error.inj he ▸ .routing hr⟩
  case isFalse hr =>
    cases hw : pass.workspace
    case error => exact ⟨.refl s, fun _ he => Except.error.inj he ▸ .workspace hw⟩
    case ok =>
      obtain ⟨hok, hall⟩ := @Settled.passGroups _ _ _ pass s hl fun route hm =>
        not_le.mp fun hle => hr (.inr ⟨route, hm, hle⟩)
      obtain ⟨hp, hf⟩ := @Settled.runGroups _ _ _ pass _ s hall
      generalize m.runGroups g pass (m.passGroups g pass).1 = result at hp hf ⊢
      obtain ⟨failure | _, m'⟩ := result
      case error => exact ⟨hp, hf⟩
      case ok    => exact ⟨hp, fun _ he => (by cases hok.symm.trans he)⟩

end Passes

end ExpertManager
end Backend
