import WerkModel.Backend.SharedCacheOperations

-- A cache in use: leases are taken and given back in any order, and loaders use the cache again
-- while they run.
namespace Backend
namespace SharedCache

variable {ν κ α : Type} [DecidableEq ν] [DecidableEq κ]

-- The loaders that run, the innermost of them first, and the acquisitions that are open.
structure World (ν κ α : Type) where
  cache   : SharedCache ν κ α
  loading : List ((ν × κ) × Nat)
  opens   : List (ν × κ)

inductive Event (ν κ α : Type)
  | acquire (identity : ν × κ) (size : Nat)
  | returns (value : α)
  | raises
  | release (identity : ν × κ)
  | resize (budget : Nat)

inductive Reply (α : Type)
  | refused (error : String)
  | loading
  | value (value : α)
  | done

def World.step (world : World ν κ α) : Event ν κ α → Option (World ν κ α × Reply α)
  | .acquire identity size =>
    match world.cache.acquire identity size with
    | (.error error, cache)      => some ({ world with cache }, .refused error)
    | (.ok none, cache)          =>
      some ({ world with cache, loading := (identity, size) :: world.loading }, .loading)
    | (.ok (some value), cache)  =>
      some ({ world with cache, opens := identity :: world.opens }, .value value)
  | .returns value =>
    match world.loading with
    | []                          => none
    | (identity, size) :: loading => some ({
        cache   := world.cache.store identity size value
        loading
        opens   := identity :: world.opens
      }, .value value)
  | .raises =>
    match world.loading with
    | []                          => none
    | (identity, size) :: loading =>
      some ({ world with cache := world.cache.abandon identity size, loading }, .done)
  | .release identity =>
    if identity ∈ world.opens then
      some ({ world with cache := world.cache.release identity
                         opens := world.opens.erase identity }, .done)
    else
      none
  | .resize budget =>
    match world.cache.resize budget with
    | (.error error, cache) => some ({ world with cache }, .refused error)
    | (.ok (), cache)       => some ({ world with cache }, .done)

def system (ν κ α : Type) [DecidableEq ν] [DecidableEq κ] :
    System (World ν κ α) (Event ν κ α) (Reply α) where
  Init world := ∃ budget limits cache,
    SharedCache.new budget limits = .ok cache ∧ world = ⟨cache, [], []⟩
  Step world event reply next := world.step event = some (next, reply)

structure Accounted (world : World ν κ α) : Prop where
  balanced : world.cache.Balanced
  bounded  : world.cache.Bounded
  counts   : ∀ identity, world.cache.leaseCount identity = world.opens.count identity
  loading  : world.cache.pending.items = world.loading.reverse

section Bounds

variable {cache cache' : SharedCache ν κ α} {identity : ν × κ} {size : Nat}

theorem Bounded.evicted (h : cache.Bounded) (hb : cache.Balanced) (hb' : cache'.Balanced)
    (he : Evicted cache cache') : cache'.Bounded where
  used := by
    have := hb.used
    have := he.held_le fun _ => true
    have := h.used
    rw [hb'.used, he.budget, he.reservedBytes_eq]
    omega
  bytes := fun space => by
    rw [he.limit_eq]
    exact (hb'.bytes_le_bytes hb he space).trans (h.bytes space)

theorem Bounded.lease (h : cache.Bounded) : (cache.lease identity).Bounded where
  used  := h.used
  bytes := h.bytes

theorem Bounded.reserve (h : cache.Bounded) (hu : cache.used + size ≤ cache.budget)
    (hl : cache.bytes identity.1 + size ≤ cache.limit identity.1) :
    (cache.reserve identity size).Bounded where
  used := hu
  bytes := by
    intro space
    by_cases hs : space = identity.1
    case pos =>
      rw [hs, bytes_reserve_self]
      exact hl
    case neg =>
      rw [bytes_reserve_of_ne hs]
      exact h.bytes space

theorem Bounded.abandon (h : cache.Bounded) : (cache.abandon identity size).Bounded where
  used := (Nat.sub_le ..).trans h.used
  bytes := by
    intro space
    by_cases hs : space = identity.1
    case pos =>
      rw [hs, bytes_abandon_self]
      exact (Nat.sub_le ..).trans (h.bytes _)
    case neg =>
      rw [bytes_abandon_of_ne hs]
      exact h.bytes space

theorem Bounded.store (h : cache.Bounded) (value : α) :
    (cache.store identity size value).Bounded where
  used  := h.used
  bytes := fun space => (bytes_store space).trans_le (h.bytes space)

-- A namespace without a limit of its own stays below the budget with all of the cache.
theorem Shrunk.bounded {budget : Nat} {result : Except String Unit × SharedCache ν κ α}
    (h : cache.Bounded) (hb : cache.Balanced) (hs : Shrunk { cache with budget } result) :
    result.2.Bounded where
  used  := hs.used_le.trans_eq hs.evicted.budget.symm
  bytes := by
    intro space
    have hu := (hs.balanced.bytes_le_used space).trans hs.used_le
    have he := (hs.balanced.bytes_le_bytes (hb.withBudget budget) hs.evicted space).trans
      (h.bytes space)
    rw [hs.evicted.limit_eq]
    simp only [limit] at he ⊢
    cases hl : cache.limits.get? space
    case none => exact hu
    case some => rwa [hl] at he

end Bounds

section Accounting

variable {world next : World ν κ α} {identity : ν × κ} {size : Nat} {reply : Reply α}

-- The entries under lease are neither evicted nor replaced.
def Kept (cache cache' : SharedCache ν κ α) : Prop :=
  ∀ identity ∈ cache.leases, cache'.entries.get? identity = cache.entries.get? identity

theorem new_accounted {budget : Nat} {limits : OrderedDict ν Nat} {cache : SharedCache ν κ α}
    (h : SharedCache.new budget limits = .ok cache) : Accounted ⟨cache, [], []⟩ := by
  have ⟨hb, he⟩ := Checks.seq_eq_ok.mp h
  cases he
  exact {
    balanced := {
      used     := rfl
      bytes    := fun _ => rfl
      leased   := nofun
      positive := nofun
      fresh    := nofun }
    bounded  := ⟨Nat.zero_le _, fun _ => Nat.zero_le _⟩
    counts   := fun _ => rfl
    loading  := rfl }

theorem Accounted.mem_pending (h : Accounted world) {loading : List ((ν × κ) × Nat)}
    (hl : world.loading = (identity, size) :: loading) :
    (identity, size) ∈ world.cache.pending.items := by
  rw [h.loading, hl]
  simp

-- The loader that returns or raises is the one that was called last.
theorem Accounted.erase_pending (h : Accounted world) {loading : List ((ν × κ) × Nat)}
    (hl : world.loading = (identity, size) :: loading) :
    (world.cache.pending.erase identity).items = loading.reverse := by
  have hp := h.loading
  rw [hl, List.reverse_cons] at hp
  exact OrderedDict.erase_last hp

theorem Accounted.mem_leases (h : Accounted world) (ho : identity ∈ world.opens) :
    identity ∈ world.cache.leases := by
  by_contra hn
  have hc := h.counts identity
  rw [leaseCount, OrderedDict.get?_eq_none.mpr hn] at hc
  exact absurd (List.count_pos_iff.mpr ho) (by simp [←hc])

theorem Accounted.mem_opens (h : Accounted world) (hl : identity ∈ world.cache.leases) :
    identity ∈ world.opens := by
  have hc := h.balanced.positive identity hl
  rw [h.counts] at hc
  exact List.count_pos_iff.mp hc

theorem Accounted.count_lease (h : Accounted world) {cache : SharedCache ν κ α}
    (hl : cache.leases = world.cache.leases) (identity other : ν × κ) :
    (cache.lease identity).leaseCount other = (identity :: world.opens).count other := by
  have hc := h.counts other
  by_cases he : other = identity
  case pos =>
    rw [he] at hc ⊢
    rw [leaseCount_lease_self, List.count_cons_self, ←hc, leaseCount, hl, leaseCount]
  case neg =>
    rw [leaseCount_lease_of_ne he, List.count_cons_of_ne (Ne.symm he), ←hc, leaseCount, hl,
      leaseCount]

-- What one step preserves.
structure Steady (world next : World ν κ α) : Prop where
  accounted : Accounted next
  kept      : Kept world.cache next.cache

theorem Accounted.of_evicted (h : Accounted world) {cache : SharedCache ν κ α}
    (hb : cache.Balanced) (he : Evicted world.cache cache) :
    Steady world { world with cache } where
  accounted := {
    balanced := hb
    bounded  := h.bounded.evicted h.balanced hb he
    counts   := by simpa [leaseCount, he.leases] using h.counts
    loading  := he.pending ▸ h.loading }
  kept := he.kept

theorem Accounted.acquire (h : Accounted world)
    (hs : world.step (.acquire identity size) = some (next, reply)) : Steady world next := by
  have ha := h.balanced.acquire identity size
  simp only [World.step] at hs
  generalize world.cache.acquire identity size = result at ha hs
  cases ha
  case refused error cache hb he =>
    cases hs
    exact h.of_evicted hb he
  case hit value cache hv hb he hm =>
    cases hs
    exact {
      accounted := {
        balanced := hb.lease hm
        bounded  := (h.bounded.evicted h.balanced hb he).lease
        counts   := h.count_lease he.leases identity
        loading  := he.pending ▸ h.loading }
      kept := he.kept }
  case miss cache hp hn hb he hu hl =>
    cases hs
    have hp' : identity ∉ cache.pending := he.pending ▸ hp
    have hu' := h.bounded.evicted h.balanced hb he
    exact {
      accounted := {
        balanced := hb.reserve hp' (he.absent identity hn) size
        bounded  := hu'.reserve (he.budget ▸ hu) (he.limit_eq _ ▸ hl)
        counts   := by simpa [leaseCount, reserve, he.leases] using h.counts
        loading  := by
          rw [List.reverse_cons, ←h.loading, ←he.pending]
          exact OrderedDict.items_set_of_not_mem hp' }
      kept := he.kept }

theorem Accounted.returns (h : Accounted world) {value : α}
    (hs : world.step (.returns value) = some (next, reply)) : Steady world next := by
  rw [World.step.eq_def] at hs
  cases hl : world.loading
  case nil => simp [hl] at hs
  case cons load loading =>
    simp only [hl, Option.some.injEq, Prod.mk.injEq] at hs
    have ⟨identity, size⟩ := load
    have hi := h.mem_pending hl
    rw [←hs.1]
    exact {
      accounted := {
        balanced := h.balanced.store hi value
        bounded  := h.bounded.store value
        counts   := h.count_lease rfl identity
        loading  := h.erase_pending hl }
      kept := by
        intro other ho
        refine OrderedDict.get?_set_of_ne fun he => ?_
        have hn := h.balanced.fresh identity (OrderedDict.mem_of_item hi)
        rw [←show other = identity from he] at hn
        exact hn (h.balanced.leased other ho) }

theorem Accounted.raises (h : Accounted world)
    (hs : world.step .raises = some (next, reply)) : Steady world next := by
  rw [World.step.eq_def] at hs
  cases hl : world.loading
  case nil => simp [hl] at hs
  case cons load loading =>
    simp only [hl, Option.some.injEq, Prod.mk.injEq] at hs
    have ⟨identity, size⟩ := load
    rw [←hs.1]
    exact {
      accounted := {
        balanced := h.balanced.abandon (h.mem_pending hl)
        bounded  := h.bounded.abandon
        counts   := h.counts
        loading  := h.erase_pending hl }
      kept := fun _ _ => rfl }

theorem Accounted.release (h : Accounted world)
    (hs : world.step (.release identity) = some (next, reply)) : Steady world next := by
  rw [World.step.eq_def] at hs
  by_cases ho : identity ∈ world.opens
  case neg => simp [ho] at hs
  case pos =>
    simp only [ho, if_true, Option.some.injEq, Prod.mk.injEq] at hs
    rw [←hs.1]
    exact {
      accounted := {
        balanced := h.balanced.release (h.mem_leases ho)
        bounded  := ⟨h.bounded.used, h.bounded.bytes⟩
        counts   := by
          intro other
          by_cases he : other = identity
          case pos => rw [he, leaseCount_release_self, h.counts, List.count_erase_self]
          case neg => rw [leaseCount_release_of_ne he, h.counts, List.count_erase_of_ne he]
        loading  := h.loading }
      kept := fun _ _ => rfl }

theorem Accounted.resize (h : Accounted world) {budget : Nat}
    (hs : world.step (.resize budget) = some (next, reply)) : Steady world next := by
  have hr := h.balanced.resize budget
  simp only [World.step] at hs
  obtain ⟨_, _, _, hr⟩ | ⟨_, error, _, he⟩ := hr
  case inl =>
    generalize world.cache.resize budget = result at hr hs
    obtain ⟨outcome, cache⟩ := result
    have ho : outcome = .ok () := hr.succeeds
    have he := hr.evicted
    rw [ho] at hs
    cases hs
    exact {
      accounted := {
        balanced := hr.balanced
        bounded  := hr.bounded h.bounded h.balanced
        counts   := by
          intro other
          rw [leaseCount, he.leases]
          exact h.counts other
        loading  := he.pending ▸ h.loading }
      kept := he.kept }
  case inr =>
    simp only [he, Option.some.injEq, Prod.mk.injEq] at hs
    rw [←hs.1]
    exact ⟨h, fun _ _ => rfl⟩

theorem Accounted.step (h : Accounted world) {event : Event ν κ α}
    (hs : world.step event = some (next, reply)) : Steady world next := by
  cases event
  case acquire => exact h.acquire hs
  case returns => exact h.returns hs
  case raises  => exact h.raises hs
  case release => exact h.release hs
  case resize  => exact h.resize hs

theorem accounted : (system ν κ α).Invariant Accounted where
  init := by
    rintro _ ⟨_, _, _, hn, rfl⟩
    exact new_accounted hn
  step := fun _ _ _ _ h hs => (h.step hs).accounted

end Accounting

section Claims

variable {world : World ν κ α}

-- What a loader leaves that raises: the reservation of its entry is given back.
structure GivenBack (identity : ν × κ) (size : Nat) (cache cache' : SharedCache ν κ α) :
    Prop where
  used    : cache'.used + size = cache.used
  bytes   : cache'.bytes identity.1 + size = cache.bytes identity.1
  others  : ∀ space ≠ identity.1, cache'.bytes space = cache.bytes space
  entries : cache'.entries = cache.entries
  leases  : cache'.leases = cache.leases

theorem Accounted.givenBack (h : Accounted world) {identity : ν × κ} {size : Nat}
    {loading : List ((ν × κ) × Nat)} (hl : world.loading = (identity, size) :: loading) :
    ∃ next, world.step .raises = some (next, .done) ∧
      GivenBack identity size world.cache next.cache := by
  refine ⟨_, by rw [World.step, hl], ?_⟩
  have hi := h.mem_pending hl
  have hr := reservedBytes_abandon hi (fun _ => true)
  have hb := reservedBytes_abandon hi (· = identity.1)
  rw [if_pos rfl] at hr
  rw [if_pos (by simp)] at hb
  have hu := h.balanced.used
  have hs := h.balanced.bytes identity.1
  exact {
    used    := by
      change world.cache.used - size + size = _
      omega
    bytes   := by
      rw [bytes_abandon_self]
      omega
    others  := fun space => bytes_abandon_of_ne
    entries := rfl
    leases  := rfl }

-- A loader that raises without a use of the cache leaves it as it was after the evictions.
theorem Accounted.reverted (h : Accounted world) {identity : ν × κ} {size : Nat}
    {next last : World ν κ α} {reply : Reply α}
    (hs : world.step (.acquire identity size) = some (next, .loading))
    (hr : next.step .raises = some (last, reply)) :
    ∃ evicted, Evicted world.cache evicted ∧ next.cache = evicted.reserve identity size ∧
      last.cache.used = evicted.used ∧ ∀ space, last.cache.bytes space = evicted.bytes space := by
  have ha := h.balanced.acquire identity size
  simp only [World.step] at hs
  generalize world.cache.acquire identity size = result at ha hs
  cases ha
  case refused => cases hs
  case hit     => cases hs
  case miss evicted _ _ _ he _ _ =>
    cases hs
    cases hr
    refine ⟨evicted, he, rfl, Nat.add_sub_cancel .., fun space => ?_⟩
    by_cases hs : space = identity.1
    case pos => rw [hs, bytes_abandon_self, bytes_reserve_self, Nat.add_sub_cancel]
    case neg => rw [bytes_abandon_of_ne hs, bytes_reserve_of_ne hs]

theorem Accounted.refused_iff (h : Accounted world) {identity : ν × κ} {size : Nat}
    (hs : 1 ≤ size) (hp : identity ∉ world.cache.pending) (he : identity ∉ world.cache.entries) :
    (∃ next error, world.step (.acquire identity size) = some (next, .refused error)) ↔
      world.cache.Crowded identity.1 size (world.cache.limit identity.1) := by
  rw [←h.balanced.refused_iff hs hp he]
  simp only [World.step]
  rcases world.cache.acquire identity size with ⟨_ | _ | _, _⟩
  case error => simp
  case ok.none => simp
  case ok.some => simp

theorem Accounted.resize_iff (h : Accounted world) (budget : Nat) :
    ((∃ next, world.step (.resize budget) = some (next, .done)) ↔
      1 ≤ budget ∧ world.cache.leasedBytes + world.cache.pendingBytes ≤ budget) ∧
    ∀ next error, world.step (.resize budget) = some (next, .refused error) →
      next = world ∧ error ≠ "StopIteration" := by
  have hr := h.balanced.resize budget
  simp only [World.step]
  obtain ⟨ho, hb, hl, _⟩ | ⟨hb, error, hn, he⟩ := hr
  case inl =>
    generalize world.cache.resize budget = result at ho
    obtain ⟨outcome, cache⟩ := result
    cases ho
    simp [hb, hl]
  case inr =>
    rw [he]
    constructor
    case left =>
      have hb : ¬(1 ≤ budget ∧ world.cache.leasedBytes + world.cache.pendingBytes ≤ budget) := by
        omega
      simp [hb]
    case right =>
      rintro next _ ⟨⟩
      exact ⟨rfl, hn⟩

theorem shared_cache_accounting (h : (system ν κ α).Reachable world) :
    Accounted world ∧
    (∀ event next reply, world.step event = some (next, reply) → Kept world.cache next.cache) ∧
    (∀ identity size loading, world.loading = (identity, size) :: loading →
      ∃ next, world.step .raises = some (next, .done) ∧
        GivenBack identity size world.cache next.cache) ∧
    (∀ identity size next last reply,
      world.step (.acquire identity size) = some (next, .loading) →
      next.step .raises = some (last, reply) →
      ∃ evicted, Evicted world.cache evicted ∧ next.cache = evicted.reserve identity size ∧
        last.cache.used = evicted.used ∧
        ∀ space, last.cache.bytes space = evicted.bytes space) ∧
    (∀ identity size, 1 ≤ size → identity ∉ world.cache.pending → identity ∉ world.cache.entries →
      ((∃ next error, world.step (.acquire identity size) = some (next, .refused error)) ↔
        world.cache.Crowded identity.1 size (world.cache.limit identity.1))) ∧
    ∀ budget,
      ((∃ next, world.step (.resize budget) = some (next, .done)) ↔
        1 ≤ budget ∧ world.cache.leasedBytes + world.cache.pendingBytes ≤ budget) ∧
      ∀ next error, world.step (.resize budget) = some (next, .refused error) →
        next = world ∧ error ≠ "StopIteration" := by
  have h := accounted.reachable h
  exact ⟨h, fun _ _ _ hs => (h.step hs).kept, fun _ _ _ => h.givenBack,
    fun _ _ _ _ _ => h.reverted, fun _ _ => h.refused_iff, h.resize_iff⟩

end Claims

section Examples

def World.run {α : Type} (world : World Nat Nat α) : List (Event Nat Nat α) →
    Option (World Nat Nat α)
  | []              => some world
  | event :: events => do
    let (next, _) ← world.step event
    next.run events

theorem run_reachable {world next : World Nat Nat Nat} {events : List (Event Nat Nat Nat)}
    (h : (system Nat Nat Nat).Reachable world) (hr : world.run events = some next) :
    (system Nat Nat Nat).Reachable next := by
  induction events generalizing world
  case nil => exact Option.some.inj hr ▸ h
  case cons event events hi =>
    have ⟨(middle, reply), hs, hr⟩ := Option.bind_eq_some_iff.mp hr
    exact hi (h.step hs) hr

def small : World Nat Nat Nat where
  loading := []
  opens   := []
  cache   := {
    budget  := 10
    limits  := .empty
    entries := .empty
    leases  := .empty
    pending := .empty
    used    := 0
    stats   := .empty }

theorem small_reachable : (system Nat Nat Nat).Reachable small :=
  .init ⟨10, .empty, _, rfl, rfl⟩

def nestedLoad : List (Event Nat Nat Nat) :=
  [.acquire (0, 0) 1, .acquire (0, 1) 2, .returns 7, .release (0, 1)]

-- A loader that has loaded an entry, which is no longer in use.
def nested : World Nat Nat Nat :=
  (small.run nestedLoad).getD small

theorem nested_reachable : (system Nat Nat Nat).Reachable nested := by
  have ⟨world, hr⟩ : ∃ world, small.run nestedLoad = some world :=
    Option.isSome_iff_exists.mp (by decide +kernel)
  rw [nested, hr]
  exact run_reachable small_reachable hr

theorem shared_cache_accounting_small : ∃ next, nested.step .raises = some (next, .done) ∧
    GivenBack (0, 0) 1 nested.cache next.cache :=
  (shared_cache_accounting nested_reachable).2.2.1 (0, 0) 1 [] (by decide +kernel)

def Reply.isRefused {α : Type} : Reply α → Bool
  | .refused _ => true
  | _          => false

-- What a loader has loaded stays when it raises. A key that is being loaded is refused, whatever
-- fits, and so is a budget of zero, whatever is in use.
theorem nested_load_stays :
    small.cache.used = 0 ∧ (nested.step .raises).map (·.1.cache.used) = some 2 ∧
    ((0, 0) ∉ nested.cache.entries ∧
      1 + nested.cache.leasedBytes + nested.cache.pendingBytes ≤ nested.cache.budget ∧
      (nested.step (.acquire (0, 0) 1)).map (·.2.isRefused) = some true) ∧
    small.cache.leasedBytes + small.cache.pendingBytes ≤ 0 ∧
    (small.step (.resize 0)).map (·.2.isRefused) = some true := by
  decide +kernel

end Examples
end SharedCache
end Backend
