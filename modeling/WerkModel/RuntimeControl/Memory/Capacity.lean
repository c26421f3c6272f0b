import WerkModel.RuntimeControl.Memory.Conservation

-- Admission keeps what is managed and reserved below the hard threshold, for the pool of memory
-- that a tier belongs to: the tier itself in discrete memory, all tiers in unified memory.
open Std ExtTreeMap Saturating

namespace RuntimeControl.Memory

section Utilization

variable {thresholds : PressureThresholds} {used budget bytes : Nat} {account : TierAccount}

-- Utilization below the hard threshold bounds the use, and keeps it away from saturation.
theorem utilization_lt (h : utilizationBasisPoints used budget < thresholds.hardBasisPoints) :
    used * BASIS_POINTS < thresholds.hardBasisPoints * budget := by
  have ht := thresholds.hard_lt_basisPoints
  simp only [BASIS_POINTS] at ht
  rw [utilizationBasisPoints] at h
  split at h
  case isTrue => simp only [u32Max] at h; omega
  case isFalse hb =>
    have hd : used * BASIS_POINTS / budget < thresholds.hardBasisPoints := by
      simp only [u32Max] at h; omega
    exact (Nat.div_lt_iff_lt_mul (by omega)).mp hd

theorem lt_of_utilization_lt (h : utilizationBasisPoints used budget < thresholds.hardBasisPoints) :
    used < budget := by
  have hu := utilization_lt h
  have ht := Nat.mul_le_mul_right budget <| Nat.le_of_lt thresholds.hard_lt_basisPoints
  simp only [BASIS_POINTS] at *
  omega

theorem underHardPressure_sound (h : underHardPressure thresholds account bytes)
    (hb : account.budgetBytes ≤ u64Max) :
    (account.managedUsedBytes + account.reservedBytes + bytes) * BASIS_POINTS <
      thresholds.hardBasisPoints * account.budgetBytes := by
  simp only [underHardPressure, decide_eq_true_eq] at h
  have h := PressureThresholds.classify_lt_hard_iff.mp h
  have he : account.effectiveBudget ≤ account.budgetBytes := Nat.min_le_left ..
  have hl := lt_of_utilization_lt h
  have hs : add u64Max account.effectiveUsed bytes = account.effectiveUsed + bytes :=
    add_eq_of_lt (by omega)
  have hs' : account.effectiveUsed =
      max account.observedUsedBytes account.managedUsedBytes + account.reservedBytes := by
    refine add_eq_of_lt ?_
    rw [hs] at hl
    exact (Nat.le_add_right ..).trans_lt (hl.trans_le (he.trans hb))
  have hm := Nat.le_max_right account.observedUsedBytes account.managedUsedBytes
  calc
    _ ≤ add u64Max account.effectiveUsed bytes * BASIS_POINTS := by
      refine Nat.mul_le_mul_right _ ?_
      omega
    _ < thresholds.hardBasisPoints * account.effectiveBudget := utilization_lt h
    _ ≤ thresholds.hardBasisPoints * account.budgetBytes     := Nat.mul_le_mul_left _ he

theorem min?_getD_le {l : List Nat} {a : Nat} (h : a ∈ l) : l.min?.getD 0 ≤ a := by
  have ⟨b, hb⟩ := Option.isSome_iff_exists.mp <| List.isSome_min?_of_mem h
  rw [hb]
  exact (List.min?_eq_some_iff.mp hb).2 a h

theorem sharedPoolAccepts_sound {s : ManagerState} {tier tier' : MemoryTier}
    (h : sharedPoolAccepts s thresholds tier bytes)
    (ha : s.tiers[tier']? = some account) (hb : account.budgetBytes ≤ u64Max) :
    (s.tiers.valueSum (·.managedUsedBytes) + s.tiers.valueSum (·.reservedBytes) + bytes) *
      BASIS_POINTS < thresholds.hardBasisPoints * account.budgetBytes := by
  simp only [sharedPoolAccepts, effectiveAccounting, ManagerState.sharedManaged,
    ManagerState.sharedReserved, foldl_add_zero, decide_eq_true_eq] at h
  have h := PressureThresholds.classify_lt_hard_iff.mp h.2
  have he : (s.tiers.valueList.map TierAccount.effectiveBudget).min?.getD 0 ≤
      account.effectiveBudget :=
    min?_getD_le <| List.mem_map_of_mem <| mem_valueList_iff.mpr ⟨_, ha⟩
  have he' : account.effectiveBudget ≤ account.budgetBytes := Nat.min_le_left ..
  have hl := lt_of_utilization_lt h
  have hu := utilization_lt h
  simp only [valueSum]
  have hc := add_eq_of_lt (hl.trans_le <| he.trans <| he'.trans hb)
  rw [hc] at hl hu
  have hc' := add_eq_of_lt <| (Nat.le_add_right ..).trans_lt <|
    hl.trans_le <| he.trans <| he'.trans hb
  rw [hc'] at hl hu
  calc
    _ ≤ _ := Nat.mul_le_mul_right _ (by omega)
    _ < _ := hu
    _ ≤ _ := Nat.mul_le_mul_left _ (he.trans he')

end Utilization
open World ManagerState

namespace MemoryManagerConfig

variable {config : MemoryManagerConfig} {tier tier' : MemoryTier}

def tiers (config : MemoryManagerConfig) : Finset MemoryTier :=
  (config.budgets.map TierBudget.tier).toFinset

-- The tiers that share their memory with a tier.
def pool (config : MemoryManagerConfig) (tier : MemoryTier) : Finset MemoryTier :=
  match config.topology with
  | .discrete => {tier}
  | .unified  => config.tiers

theorem mem_pool (h : tier ∈ config.tiers) : tier ∈ config.pool tier := by
  rw [pool]
  split
  case h_1 => exact Finset.mem_singleton_self _
  case h_2 => exact h

end MemoryManagerConfig

namespace World

variable {config : MemoryManagerConfig} {world world' : World} {tier : MemoryTier} {bytes : Nat}
variable {pool : Finset MemoryTier}

-- The bytes of allocations and active claims on a tier.
def usageOn (world : World) (tier : MemoryTier) : Nat :=
  world.state.allocatedOn tier + bytesOn world.claims tier

def usage (world : World) (pool : Finset MemoryTier) : Nat :=
  ∑ tier ∈ pool, world.usageOn tier

def Solvent (config : MemoryManagerConfig) (world : World) : Prop :=
  ∀ budget ∈ config.budgets, world.usage (config.pool budget.tier) * BASIS_POINTS <
    config.thresholds.hardBasisPoints * budget.bytes

theorem Solvent.mono (h : world.Solvent config)
    (hu : ∀ tier, world'.usageOn tier ≤ world.usageOn tier) : world'.Solvent config := by
  intro budget hb
  refine (Nat.mul_le_mul_right _ ?_).trans_lt (h budget hb)
  exact Finset.sum_le_sum fun tier _ => hu tier

theorem usage_add
    (hu : ∀ tier', world'.usageOn tier' =
      (if tier = tier' then bytes else 0) + world.usageOn tier') :
    world'.usage pool = (if tier ∈ pool then bytes else 0) + world.usage pool := by
  simp only [usage, hu, Finset.sum_add_distrib, Finset.sum_ite_eq]

theorem usage_le_budget {budget : TierBudget} (h : world.Solvent config)
    (hb : budget ∈ config.budgets) : world.usage (config.pool budget.tier) ≤ budget.bytes := by
  have hs := h budget hb
  have ht := Nat.mul_le_mul_right budget.bytes <|
    Nat.le_of_lt config.thresholds.hard_lt_basisPoints
  simp only [BASIS_POINTS] at *
  omega

theorem usageOn_le_budget {budget : TierBudget} (h : world.Solvent config)
    (hb : budget ∈ config.budgets) : world.usageOn budget.tier ≤ budget.bytes := by
  have hm : budget.tier ∈ config.pool budget.tier :=
    MemoryManagerConfig.mem_pool <| List.mem_toFinset.mpr <| List.mem_map_of_mem hb
  have hu : world.usageOn budget.tier ≤ world.usage (config.pool budget.tier) :=
    Finset.single_le_sum (fun _ _ => Nat.zero_le _) hm
  exact hu.trans (usage_le_budget h hb)

theorem usage_singleton : world.usage {tier} = world.usageOn tier :=
  Finset.sum_singleton ..

-- The effect of a step on the use of every tier.

theorem usageOn_dropReservation {reservation} (h : reservation ∈ world.reservations) :
    world.usageOn tier = (if reservation.tier = tier then reservation.bytes else 0) +
      (dropReservation reservation world).usageOn tier := by
  rw [usageOn, usageOn, claims_dropReservation h, bytesOn_cons, allocatedOn, allocatedOn,
    placements_dropReservation]
  dsimp only
  omega

theorem usageOn_dropPermit {permit} (h : permit ∈ world.permits) :
    world.usageOn tier =
      permit.claim.elim 0 (fun claim => if claim.1 = tier then claim.2 else 0) +
      (dropPermit permit world).usageOn tier := by
  rw [usageOn, usageOn, claims_dropPermit h, allocatedOn, allocatedOn, placements_dropPermit]
  cases permit.claim
  case none => simp
  case some =>
    simp only [Option.elim_some, bytesOn_cons]
    omega

theorem usageOn_sameBooks {s s' : ManagerState} (hs : s.SameBooks s') :
    usageOn { world with state := s' } tier = usageOn { world with state := s } tier := by
  rw [usageOn, usageOn, allocatedOn, allocatedOn, hs.placements]
  rfl

-- A committed allocation takes the place of the claim it was loaded or moved under.

theorem usageOn_place {allocation : ManagedAllocation}
    (h : world.state.placements[allocation.id]? = none) :
    usageOn { world with state := world.state.place allocation } tier =
      (if allocation.tier = tier then allocation.bytes else 0) + world.usageOn tier := by
  rw [usageOn, allocatedOn_place h, Nat.add_assoc]
  rfl

theorem usageOn_remove {id target bytes} {placement : Placement}
    (h : world.state.placements[id]? = some placement) :
    usageOn { world with state := world.state.remove id target bytes } tier ≤
      world.usageOn tier := by
  have ha : world.state.allocatedOn tier = _ +
    (world.state.remove id target bytes).allocatedOn tier := allocatedOn_remove h
  exact Nat.add_le_add_right (ha ▸ Nat.le_add_left ..) _

theorem usageOn_move {id source target bytes update} {placement : Placement}
    {update' : Placement → Placement} (h : world.state.placements[id]? = some placement)
    (hu : ∀ a : ManagedAllocation, (update a).toPlacement = update' a.toPlacement)
    (hu' : ∀ p, (update' p).tier = target ∧ (update' p).bytes = p.bytes) :
    usageOn { world with state := world.state.move id source target bytes update } tier ≤
      (if target = tier then placement.bytes else 0) + world.usageOn tier := by
  have ha : (world.state.move id source target bytes update).allocatedOn tier + _ = _ :=
    allocatedOn_move h hu hu'
  rw [usageOn, usageOn, ←Nat.add_assoc, ←ha]
  exact Nat.add_le_add_right (Nat.le_add_right ..) _

end World

variable {config : MemoryManagerConfig} {world world' : World} {operation : Operation}
variable {result : Result}

-- A step adds to the use of memory only what it has been admitted to.
theorem Effect.usage (hx : world.Exclusive config)
    (he : Effect config world operation result world') :
    (∀ tier, world'.usageOn tier ≤ world.usageOn tier) ∨
    (∃ s tier bytes, world.state.SameBooks s ∧ Admitted config s tier bytes ∧
      ∀ tier', world'.usageOn tier' =
        (if tier = tier' then bytes else 0) + world.usageOn tier') := by
  cases he
  case rejected hs _         => exact .inl fun _ => (usageOn_sameBooks hs.toSameBooks).le
  case mismatched hm _       => exact .inl fun _ => usageOn_dropReservation hm ▸ Nat.le_add_left ..
  case quiet hs              => exact .inl fun _ => (usageOn_sameBooks hs).le
  case reserved o s r hs hg  =>
    refine .inr ⟨s, r.tier, r.bytes, hs.toSameBooks, hg.admitted, fun tier' => ?_⟩
    have hu : usageOn { world with state := s } tier' = world.usageOn tier' :=
      usageOn_sameBooks hs.toSameBooks
    rw [usageOn, claims_addReservation, bytesOn_cons, ←hu, usageOn]
    change s.allocatedOn tier' + (_ + bytesOn { world with state := s }.claims tier') = _
    dsimp only
    omega
  case permitted o p hp      =>
    have ⟨action⟩ := p
    cases action
    case demote id source target bytes =>
      refine .inr ⟨_, target, bytes, .refl, (hp.admitted _ rfl).2, fun tier' => ?_⟩
      rw [usageOn, claims_addPermit, usageOn]
      change world.state.allocatedOn tier' + bytesOn ((target, bytes) ::ₘ world.claims) tier' = _
      rw [bytesOn_cons]
      dsimp only
      omega
    case evict =>
      refine .inl fun tier' => ?_
      rw [usageOn, claims_addPermit]
      exact le_rfl
  case droppedReservation hm => exact .inl fun _ => usageOn_dropReservation hm ▸ Nat.le_add_left ..
  case droppedPermit hm      => exact .inl fun _ => usageOn_dropPermit hm ▸ Nat.le_add_left ..
  case loaded o r a hm hk ht hy =>
    have hi : a.id ∈ r.loadIds := hk ▸ Finset.mem_singleton_self _
    refine .inl fun tier => ?_
    rw [usageOn_place (hx.committed_load hm hi).2.1, usageOn_dropReservation hm, ht, hy]
  case promoted o r id source update update' hm hb hu hu' =>
    have hr := (hx.reserved _ hm).2
    rw [hb] at hr
    have ⟨placement, hp, _, hy⟩ := hr
    have hp' : (World.dropReservation r world).state.placements[id]? = some placement :=
      placements_dropReservation.symm ▸ hp
    refine .inl fun tier => (usageOn_move hp' hu hu').trans ?_
    rw [usageOn_dropReservation hm, hy]
  case demoted o p id source target bytes update s update' hm ha hu hu' hs =>
    have ⟨placement, hp, _, hy, _⟩ := hx.permitted _ hm
    rw [ha] at hp hy
    have hp' : (World.dropPermit p world).state.placements[id]? = some placement :=
      placements_dropPermit.symm ▸ hp
    have hc : p.claim = some (target, bytes) := congrArg PressureAction.claim ha
    refine .inl fun tier => (usageOn_sameBooks hs).trans_le <| (usageOn_move hp' hu hu').trans ?_
    rw [usageOn_dropPermit hm, hc, hy]
    rfl
  case evicted o p id tier bytes s hm ha hs =>
    have ⟨placement, hp, _⟩ := hx.permitted _ hm
    rw [ha] at hp
    have hp' : (World.dropPermit p world).state.placements[id]? = some placement :=
      placements_dropPermit.symm ▸ hp
    refine .inl fun tier => (usageOn_sameBooks hs).trans_le <| (usageOn_remove hp').trans ?_
    exact usageOn_dropPermit hm ▸ Nat.le_add_left ..
  case removed hp _ _        => exact .inl fun _ => usageOn_remove hp
  case orphaned              => exact .inl fun _ => le_rfl

section Accounts

variable {s : ManagerState} {tier : MemoryTier} {account : TierAccount}

theorem budget_of_account (h : s.budgets = (ManagerState.new config).budgets)
    (ht : s.tiers[tier]? = some account) :
    ∃ budget ∈ config.budgets, budget.tier = tier ∧ account.budgetBytes = budget.bytes := by
  have he := congrArg (·[tier]?) h
  simp only [getElem?_budgets, getElem?_balances, ht, Option.map_some] at he
  have ⟨balance, hb, hb'⟩ := Option.map_eq_some_iff.mp he.symm
  have ⟨account', hb, he'⟩ := Option.map_eq_some_iff.mp hb
  have ⟨budget, hm, ht', ha⟩ := tiers_new_eq hb
  refine ⟨budget, hm, ht', ?_⟩
  rw [←hb', ←he', ha]
  rfl

theorem keySet_tiers (h : s.budgets = (ManagerState.new config).budgets) :
    s.tiers.keySet = config.tiers := by
  ext tier
  rw [mem_keySet_iff, MemoryManagerConfig.tiers, List.mem_toFinset, List.mem_map]
  constructor
  case mp =>
    intro hm
    have ⟨budget, hb, ht, _⟩ := budget_of_account h (exists_lookup hm).choose_spec
    exact ⟨budget, hb, ht⟩
  case mpr =>
    intro ⟨budget, hb, ht⟩
    have ⟨_, ha, _⟩ := account_of_budget h hb
    exact ht ▸ mem_of_lookup ha

theorem balance_of_account (hs : world.state.SameBooks s) (ht : s.tiers[tier]? = some account) :
    world.state.balances[tier]? = some account.toTierBalance := by
  rw [←hs.balances, getElem?_balances, ht]
  rfl

end Accounts

-- What holds in all runs. An orphaned release leaves a counter above the bytes that it counts, and
-- a saturated counter is above all bytes that fit a budget.
structure World.Counted (world : World) : Prop where
  managed  : ∀ (tier : MemoryTier) balance, world.state.balances[tier]? = some balance →
               world.state.allocatedOn tier ≤ balance.managedUsedBytes
  reserved : ∀ (tier : MemoryTier) balance, world.state.balances[tier]? = some balance →
               bytesOn world.claims tier ≤ balance.reservedBytes

structure World.Covered (config : MemoryManagerConfig) (world : World) : Prop
    extends World.Counted world where
  exclusive : world.Exclusive config
  budgets   : world.state.budgets = (ManagerState.new config).budgets
  solvent   : world.Solvent config

namespace World.Covered

variable {s : ManagerState} {tier : MemoryTier} {account : TierAccount}

theorem budgets_of_sameBooks (h : world.Covered config) (hs : world.state.SameBooks s) :
    s.budgets = (ManagerState.new config).budgets :=
  (budgets_of_balances hs.balances).trans h.budgets

theorem counters (h : world.Covered config) (hs : world.state.SameBooks s)
    (ht : s.tiers[tier]? = some account) :
    world.usageOn tier ≤ account.managedUsedBytes + account.reservedBytes :=
  have hb := balance_of_account hs ht
  Nat.add_le_add (h.managed _ _ hb) (h.reserved _ _ hb)

theorem shared_counters (h : world.Covered config) (hs : world.state.SameBooks s) :
    world.usage config.tiers ≤
      s.tiers.valueSum (·.managedUsedBytes) + s.tiers.valueSum (·.reservedBytes) := by
  have hk := keySet_tiers (h.budgets_of_sameBooks hs)
  rw [valueSum_eq_sum, valueSum_eq_sum, hk, ←Finset.sum_add_distrib]
  apply Finset.sum_le_sum
  intro tier hm
  rw [←hk, mem_keySet_iff] at hm
  have ⟨account, ht⟩ := exists_lookup hm
  rw [ht]
  exact h.counters hs ht

-- The admission of more bytes keeps every pool below its hard threshold.
theorem admitted {bytes} (h : world.Covered config) (hs : world.state.SameBooks s)
    (ha : Admitted config s tier bytes)
    (hu : ∀ tier', world'.usageOn tier' =
      (if tier = tier' then bytes else 0) + world.usageOn tier') : world'.Solvent config := by
  have ⟨account, ht⟩ := exists_lookup <| mem_balances.mp ha.configured
  intro budget hb
  rw [usage_add hu]
  split
  case isFalse =>
    rw [Nat.zero_add]
    exact h.solvent budget hb
  case isTrue hm =>
    have ⟨account', ht', hb'⟩ := account_of_budget (h.budgets_of_sameBooks hs) hb
    have ⟨hp, hd⟩ := canAcceptBytes_pressure ht ha.accepted
    rw [Nat.add_comm]
    cases htop : config.topology
    case discrete =>
      simp only [MemoryManagerConfig.pool, htop] at hm ⊢
      cases Finset.mem_singleton.mp hm
      cases Option.some.inj (ht.symm.trans ht')
      have hv := underHardPressure_sound hp (hb' ▸ budget.bytes_le)
      have hc := h.counters hs ht
      rw [hb'] at hv
      rw [usage_singleton]
      exact (Nat.mul_le_mul_right _ (Nat.add_le_add_right hc _)).trans_lt hv
    case unified =>
      simp only [MemoryManagerConfig.pool, htop]
      have hq := hd.resolve_left (htop ▸ nofun)
      have hv := sharedPoolAccepts_sound hq ht' (hb' ▸ budget.bytes_le)
      have hc := h.shared_counters hs
      rw [hb'] at hv
      exact (Nat.mul_le_mul_right _ (Nat.add_le_add_right hc _)).trans_lt hv

theorem solvent_effect (h : world.Covered config)
    (he : Effect config world operation result world') : world'.Solvent config := by
  cases he.usage h.exclusive
  case inl hu => exact h.solvent.mono hu
  case inr hu =>
    have ⟨s, tier, bytes, hs, ha, hu⟩ := hu
    exact h.admitted hs ha hu

end World.Covered

-- What holds in runs without orphaned releases. Every counter is the sum of what it counts, because
-- solvency keeps these sums away from saturation.
structure World.Sound (config : MemoryManagerConfig) (world : World) : Prop where
  exclusive : world.Exclusive config
  balanced  : world.Balanced
  budgets   : world.state.budgets = (ManagerState.new config).budgets
  orphans   : world.orphans = 0
  solvent   : world.Solvent config

namespace World.Sound

variable {tier : MemoryTier} {account : TierAccount}

theorem managedOn_eq (h : world.Sound config) :
    world.managedOn tier = world.state.allocatedOn tier := by
  rw [managedOn, h.orphans]
  rfl

theorem covered (h : world.Sound config) : world.Covered config where
  exclusive      := h.exclusive
  budgets        := h.budgets
  solvent        := h.solvent
  managed _ _ hb := ((h.balanced.managed _ _ hb).trans h.managedOn_eq).ge
  reserved _ _ h' := (h.balanced.reserved _ _ h').ge

theorem counters (h : world.Sound config) (ht : world.state.tiers[tier]? = some account) :
    account.managedUsedBytes = world.state.allocatedOn tier ∧
    account.reservedBytes = bytesOn world.claims tier :=
  have hb := balance_of_account .refl ht
  ⟨(h.balanced.managed _ _ hb).trans h.managedOn_eq, h.balanced.reserved _ _ hb⟩

theorem shared_counters (h : world.Sound config) :
    world.state.tiers.valueSum (·.managedUsedBytes) +
      world.state.tiers.valueSum (·.reservedBytes) = world.usage config.tiers := by
  rw [valueSum_eq_sum, valueSum_eq_sum, keySet_tiers h.budgets, ←Finset.sum_add_distrib]
  apply Finset.sum_congr rfl
  intro tier hm
  rw [←keySet_tiers h.budgets, mem_keySet_iff] at hm
  have ⟨account, ht⟩ := exists_lookup hm
  have ⟨hm, hr⟩ := h.counters ht
  rw [ht, usageOn, ←hm, ←hr]
  rfl

theorem fits (h : world.Solvent config)
    (hb : world.state.budgets = (ManagerState.new config).budgets) (ho : world.orphans = 0) :
    world.Fits := by
  intro tier hm
  have ⟨balance, hs⟩ := exists_lookup hm
  have he := congrArg (·[tier]?) hb
  simp only [getElem?_budgets, hs, Option.map_some] at he
  have ⟨balance', hs', _⟩ := Option.map_eq_some_iff.mp he.symm
  have ⟨budget, hb, ht, _⟩ := balances_new_eq hs'
  have hu := (usageOn_le_budget h hb).trans budget.bytes_le
  rw [ht, usageOn] at hu
  rw [managedOn, ho]
  exact ⟨(Nat.le_add_right ..).trans hu, (Nat.le_add_left ..).trans hu⟩

theorem new : (World.new config).Sound config where
  exclusive := .new
  balanced  := .new
  budgets   := rfl
  orphans   := rfl
  solvent budget hb := by
    have hz (tier) : (World.new config).usageOn tier = 0 := by
      rw [usageOn, World.new, allocatedOn, placements_new, valueSum_empty]
      rfl
    have hu : (World.new config).usage (config.pool budget.tier) = 0 :=
      Finset.sum_eq_zero fun tier _ => hz tier
    rw [hu, Nat.zero_mul]
    exact Nat.mul_pos (config.thresholds.soft_pos.trans config.thresholds.soft_lt_hard)
      (config.budgets_pos budget hb)

theorem effect (h : world.Sound config) (he : Effect config world operation result world')
    (hn : ∀ tier bytes, operation ≠ .recordOrphanedRelease tier bytes) : world'.Sound config := by
  have hb := he.budgets.trans h.budgets
  have ho : world'.orphans = 0 := by
    cases he
    case orphaned => exact absurd rfl (hn _ _)
    all_goals exact h.orphans
  have hs := h.covered.solvent_effect he
  exact ⟨h.exclusive.effect he, h.balanced.effect h.exclusive he (fits hs hb ho), hb, ho, hs⟩

end World.Sound

-- The runs in which no operation records an orphaned release.
def quietSystem (config : MemoryManagerConfig) : System World Operation Result :=
  (system config).restrict fun _ operation _ _ =>
    ∀ tier bytes, operation ≠ .recordOrphanedRelease tier bytes

theorem sound (config : MemoryManagerConfig) :
    (quietSystem config).Invariant (World.Sound config) where
  init _ h            := h ▸ .new
  step _ _ _ _ h hstp := h.effect (apply_effect h.exclusive hstp.1.1 hstp.1.2) hstp.2

-- The utilization of a pool of accounts by the bytes that are managed and reserved on them.
def committedBasisPoints (used budget : Nat) : Nat :=
  used * BASIS_POINTS / budget

theorem committedBasisPoints_lt {used budget hard : Nat} (h : used * BASIS_POINTS < hard * budget) :
    committedBasisPoints used budget < hard := by
  have hb : 0 < budget := Nat.pos_of_ne_zero fun hz => by simp [hz] at h
  exact (Nat.div_lt_iff_lt_mul hb).mpr h

namespace World.Sound

theorem discrete_lt {tier : MemoryTier} {account} (h : world.Sound config)
    (htop : config.topology = .discrete) (ht : world.state.tiers[tier]? = some account) :
    committedBasisPoints (account.managedUsedBytes + account.reservedBytes) account.budgetBytes <
      config.thresholds.hardBasisPoints := by
  have ⟨budget, hb, hb', he⟩ := budget_of_account h.budgets ht
  have ⟨h₁, h₂⟩ := h.counters ht
  have hs := h.solvent budget hb
  simp only [MemoryManagerConfig.pool, htop] at hs
  rw [usage_singleton, usageOn, hb', ←h₁, ←h₂, ←he] at hs
  exact committedBasisPoints_lt hs

theorem unified_lt (h : world.Sound config) (htop : config.topology = .unified) :
    committedBasisPoints
      (world.state.tiers.valueSum fun account => account.managedUsedBytes + account.reservedBytes)
      ((world.state.tiers.valueList.map (·.budgetBytes)).min?.getD 0) <
        config.thresholds.hardBasisPoints := by
  have ⟨host, hm, _⟩ := List.mem_map.mp config.host_mem
  have ⟨account, ht, _⟩ := account_of_budget h.budgets hm
  have hl : account.budgetBytes ∈ world.state.tiers.valueList.map (·.budgetBytes) :=
    List.mem_map_of_mem <| mem_valueList_iff.mpr ⟨_, ht⟩
  have ⟨least, hm⟩ := Option.isSome_iff_exists.mp <| List.isSome_min?_of_mem hl
  have ⟨account', ha, he⟩ := List.mem_map.mp <| List.min?_mem hm
  have ⟨tier, ht⟩ := mem_valueList_iff.mp ha
  have ⟨budget, hb, _, he'⟩ := budget_of_account h.budgets ht
  have hs := h.solvent budget hb
  simp only [MemoryManagerConfig.pool, htop] at hs
  rw [←h.shared_counters, ←he', he, ←valueSum_add] at hs
  rw [hm]
  exact committedBasisPoints_lt hs

theorem le_budget {tier : MemoryTier} {account} (h : world.Sound config)
    (ht : world.state.tiers[tier]? = some account) :
    account.managedUsedBytes + account.reservedBytes ≤ account.budgetBytes := by
  have ⟨budget, hb, hb', he⟩ := budget_of_account h.budgets ht
  have ⟨h₁, h₂⟩ := h.counters ht
  have hs := usageOn_le_budget h.solvent hb
  rwa [usageOn, hb', ←h₁, ←h₂, ←he] at hs

end World.Sound

theorem never_overcommits (h : (quietSystem config).Reachable world) :
    (match config.topology with
      | .discrete => ∀ (tier : MemoryTier) account, world.state.tiers[tier]? = some account →
          committedBasisPoints (account.managedUsedBytes + account.reservedBytes)
            account.budgetBytes < config.thresholds.hardBasisPoints
      | .unified  =>
          committedBasisPoints
            (world.state.tiers.valueSum fun account =>
              account.managedUsedBytes + account.reservedBytes)
            ((world.state.tiers.valueList.map (·.budgetBytes)).min?.getD 0) <
              config.thresholds.hardBasisPoints) ∧
    ∀ (tier : MemoryTier) account, world.state.tiers[tier]? = some account →
      account.managedUsedBytes + account.reservedBytes ≤ account.budgetBytes := by
  have hs := (sound config).reachable h
  refine ⟨?threshold, fun _ _ => hs.le_budget⟩
  cases htop : config.topology
  case discrete => exact fun _ _ => hs.discrete_lt htop
  case unified  => exact hs.unified_lt htop

theorem never_overcommits_small :
    smallWorld.state.tiers.valueSum (·.reservedBytes) = 100 ∧
    ∀ (tier : MemoryTier) account, smallWorld.state.tiers[tier]? = some account →
      committedBasisPoints (account.managedUsedBytes + account.reservedBytes)
        account.budgetBytes < 8500 := by
  have h : (quietSystem smallConfig).Reachable smallWorld :=
    (System.Reachable.init rfl).step (i := smallLoad) ⟨⟨trivial, rfl⟩, nofun⟩
  exact ⟨by decide +kernel, (never_overcommits h).1⟩

end RuntimeControl.Memory
