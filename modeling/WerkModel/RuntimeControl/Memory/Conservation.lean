import WerkModel.RuntimeControl.Memory.Exclusion

-- The counters of the manager are the sums of what they count: allocations and orphans, and the
-- bytes that active tokens hold.
open Std ExtTreeMap Saturating

namespace RuntimeControl.Memory

-- Bytes charged to tiers.
section Charges

variable {charges : Multiset (MemoryTier × Nat)} {charge : MemoryTier × Nat} {tier : MemoryTier}

def bytesOn (charges : Multiset (MemoryTier × Nat)) (tier : MemoryTier) : Nat :=
  (charges.map fun charge => if charge.1 = tier then charge.2 else 0).sum

def countOn (charges : Multiset (MemoryTier × Nat)) (tier : MemoryTier) : Nat :=
  charges.countP (·.1 = tier)

theorem bytesOn_cons : bytesOn (charge ::ₘ charges) tier =
    (if charge.1 = tier then charge.2 else 0) + bytesOn charges tier := by
  simp [bytesOn]

theorem countOn_cons : countOn (charge ::ₘ charges) tier =
    (if charge.1 = tier then 1 else 0) + countOn charges tier := by
  rw [countOn, countOn, Multiset.countP_cons, Nat.add_comm]

end Charges

namespace ManagerState

variable {s : ManagerState} {id : AllocationId} {tier target : MemoryTier} {bytes : Nat}
variable {placement : Placement}

def allocatedOn (s : ManagerState) (tier : MemoryTier) : Nat :=
  s.placements.valueSum fun placement => if placement.tier = tier then placement.bytes else 0

theorem le_allocatedOn (h : s.placements[id]? = some placement) :
    (if placement.tier = tier then placement.bytes else 0) ≤ s.allocatedOn tier :=
  le_valueSum (f := fun placement => if placement.tier = tier then placement.bytes else 0) h

theorem allocatedOn_place {allocation : ManagedAllocation}
    (h : s.placements[allocation.id]? = none) :
    (s.place allocation).allocatedOn tier =
      (if allocation.tier = tier then allocation.bytes else 0) + s.allocatedOn tier := by
  rw [allocatedOn, placements_place, valueSum_insert_of_none h]
  rfl

theorem allocatedOn_remove (h : s.placements[id]? = some placement) :
    s.allocatedOn tier = (if placement.tier = tier then placement.bytes else 0) +
      (s.remove id target bytes).allocatedOn tier := by
  rw [allocatedOn, allocatedOn, placements_remove, valueSum_erase _ id, h]
  rfl

theorem allocatedOn_move {source} {update : ManagedAllocation → ManagedAllocation}
    {update' : Placement → Placement} (h : s.placements[id]? = some placement)
    (hu : ∀ a, (update a).toPlacement = update' a.toPlacement)
    (hu' : ∀ p, (update' p).tier = target ∧ (update' p).bytes = p.bytes) :
    (s.move id source target bytes update).allocatedOn tier +
        (if placement.tier = tier then placement.bytes else 0) =
      (if target = tier then placement.bytes else 0) + s.allocatedOn tier := by
  rw [allocatedOn, allocatedOn, placements_move hu, valueSum_modify h, valueSum_erase s.placements id, h]
  simp only [hu', Option.elim_some]
  omega

end ManagerState

def PressureActionPermit.claim (permit : PressureActionPermit) : Option (MemoryTier × Nat) :=
  permit.action.claim

namespace World

open ManagerState

variable {world : World} {reservation : MemoryReservation} {permit : PressureActionPermit}

-- The bytes that the active tokens hold.
def claims (world : World) : Multiset (MemoryTier × Nat) :=
  world.reservations.map (fun reservation => (reservation.tier, reservation.bytes)) +
  world.permits.filterMap PressureActionPermit.claim

theorem claims_addReservation :
    (addReservation reservation world).claims =
      (reservation.tier, reservation.bytes) ::ₘ world.claims := by
  simp [claims, addReservation]

theorem claims_dropReservation (h : reservation ∈ world.reservations) :
    world.claims =
      (reservation.tier, reservation.bytes) ::ₘ (dropReservation reservation world).claims := by
  rw [claims, ←Multiset.cons_erase h]
  simp [claims, dropReservation, removeReservation]

theorem claims_addPermit :
    (addPermit permit world).claims = permit.claim.elim world.claims (· ::ₘ world.claims) := by
  simp only [claims, addPermit]
  cases hc : permit.claim
  case none   => rw [Multiset.filterMap_cons_none _ _ hc]; rfl
  case some c => rw [Multiset.filterMap_cons_some _ _ _ hc, Multiset.add_cons]; rfl

theorem claims_dropPermit (h : permit ∈ world.permits) :
    world.claims = permit.claim.elim (dropPermit permit world).claims
      (· ::ₘ (dropPermit permit world).claims) := by
  have ha : (addPermit permit (dropPermit permit world)).claims = permit.claim.elim
      (dropPermit permit world).claims (· ::ₘ (dropPermit permit world).claims) := claims_addPermit
  rw [←ha]
  simp only [claims, addPermit, dropPermit, removePermit, Multiset.cons_erase h]

def managedOn (world : World) (tier : MemoryTier) : Nat :=
  world.state.allocatedOn tier + bytesOn world.orphans tier

-- The true sums are 64-bit numbers, so that no saturating addition saturates.
def Fits (world : World) : Prop :=
  ∀ tier ∈ world.state.balances,
    world.managedOn tier ≤ u64Max ∧ bytesOn world.claims tier ≤ u64Max

instance : Decidable world.Fits :=
  decidable_of_iff (∀ tier ∈ world.state.balances.keys,
    world.managedOn tier ≤ u64Max ∧ bytesOn world.claims tier ≤ u64Max) <| by simp [Fits]

structure Balanced (world : World) : Prop where
  managed  : ∀ (tier : MemoryTier) balance, world.state.balances[tier]? = some balance →
               balance.managedUsedBytes = world.managedOn tier
  reserved : ∀ (tier : MemoryTier) balance, world.state.balances[tier]? = some balance →
               balance.reservedBytes = bytesOn world.claims tier
  active   : ∀ (tier : MemoryTier) balance, world.state.balances[tier]? = some balance →
               balance.activeReservations = countOn world.claims tier
  total    : world.state.activeReservations =
               world.state.balances.valueSum fun balance => balance.activeReservations

namespace Balanced

variable {world' : World} {tier : MemoryTier} {bytes : Nat}

-- Bytes are held by a token, or given back by it.

theorem hold (h : world.Balanced) (hm : tier ∈ world.state.balances)
    (hb : world'.state.balances = world.state.balances.modify tier (·.hold bytes))
    (hc : world'.claims = (tier, bytes) ::ₘ world.claims)
    (ha : world'.state.activeReservations = add usizeMax world.state.activeReservations 1)
    (ht : ∀ tier, world'.managedOn tier = world.managedOn tier)
    (hl : world.state.activeReservations < usizeMax) (hf : world'.Fits) : world'.Balanced where
  managed tier' balance' h' := by
    have ⟨balance, hs, he⟩ := lookup_modify (hb ▸ h')
    have := h.managed _ _ hs
    rw [ht, ←this, he]
    split <;> rfl
  reserved tier' balance' h' := by
    have ⟨balance, hs, he⟩ := lookup_modify (hb ▸ h')
    have hr := h.reserved _ _ hs
    have hu := (hf _ <| mem_of_lookup h').2
    rw [hc, bytesOn_cons] at hu ⊢
    rw [he]
    split
    case isTrue ht =>
      rw [if_pos ht] at hu
      rw [←hr, Nat.add_comm] at hu ⊢
      exact add_eq hu
    case isFalse => omega
  active tier' balance' h' := by
    have ⟨balance, hs, he⟩ := lookup_modify (hb ▸ h')
    have hr := h.active _ _ hs
    have hs' : balance.activeReservations ≤ world.state.activeReservations :=
      h.total ▸ le_valueSum hs
    rw [hc, countOn_cons, he]
    split
    case isTrue ht =>
      rw [←hr, Nat.add_comm]
      exact add_eq (by omega)
    case isFalse => omega
  total := by
    have ⟨balance, hs⟩ := exists_lookup hm
    have hs' : balance.activeReservations ≤ world.state.activeReservations :=
      h.total ▸ le_valueSum hs
    have hv := valueSum_erase world.state.balances tier fun b => b.activeReservations
    rw [hb, valueSum_modify hs, ha, add_eq (by omega), h.total, hv, hs]
    simp only [Option.elim_some, TierBalance.hold]
    rw [add_eq (by omega)]
    omega

theorem unhold (h : world.Balanced) (hm : tier ∈ world.state.balances)
    (hb : world'.state.balances = world.state.balances.modify tier (·.unhold bytes))
    (hc : world.claims = (tier, bytes) ::ₘ world'.claims)
    (ha : world'.state.activeReservations = world.state.activeReservations - 1)
    (ht : ∀ tier, world'.managedOn tier = world.managedOn tier) : world'.Balanced where
  managed tier' balance' h' := by
    have ⟨balance, hs, he⟩ := lookup_modify (hb ▸ h')
    have := h.managed _ _ hs
    rw [ht, ←this, he]
    split <;> rfl
  reserved tier' balance' h' := by
    have ⟨balance, hs, he⟩ := lookup_modify (hb ▸ h')
    have hr := h.reserved _ _ hs
    rw [hc, bytesOn_cons] at hr
    rw [he]
    split
    case isTrue ht =>
      rw [if_pos ht] at hr
      simp only [TierBalance.unhold]
      omega
    case isFalse ht =>
      rw [if_neg ht] at hr
      omega
  active tier' balance' h' := by
    have ⟨balance, hs, he⟩ := lookup_modify (hb ▸ h')
    have hr := h.active _ _ hs
    rw [hc, countOn_cons] at hr
    rw [he]
    split
    case isTrue ht =>
      rw [if_pos ht] at hr
      simp only [TierBalance.unhold]
      omega
    case isFalse ht =>
      rw [if_neg ht] at hr
      omega
  total := by
    have ⟨balance, hs⟩ := exists_lookup hm
    have hr := h.active _ _ hs
    rw [hc, countOn_cons, if_pos rfl] at hr
    have hv := valueSum_erase world.state.balances tier fun b => b.activeReservations
    rw [hb, valueSum_modify hs, ha, h.total, hv, hs]
    simp only [Option.elim_some, TierBalance.unhold]
    omega

-- Managed bytes change, and nothing else.
theorem manage (h : world.Balanced) (hc : world'.claims = world.claims)
    (ha : world'.state.activeReservations = world.state.activeReservations)
    (hv : world'.state.balances.valueSum (·.activeReservations) =
      world.state.balances.valueSum (·.activeReservations))
    (hb : ∀ (tier : MemoryTier) balance', world'.state.balances[tier]? = some balance' →
      ∃ balance, world.state.balances[tier]? = some balance ∧
        balance'.reservedBytes = balance.reservedBytes ∧
        balance'.activeReservations = balance.activeReservations ∧
        (balance.managedUsedBytes = world.managedOn tier →
          balance'.managedUsedBytes = world'.managedOn tier)) : world'.Balanced where
  managed tier balance' h' := by
    have ⟨balance, hs, _, _, he⟩ := hb _ _ h'
    exact he <| h.managed _ _ hs
  reserved tier balance' h' := by
    have ⟨balance, hs, he, _, _⟩ := hb _ _ h'
    rw [he, hc, h.reserved _ _ hs]
  active tier balance' h' := by
    have ⟨balance, hs, _, he, _⟩ := hb _ _ h'
    rw [he, hc, h.active _ _ hs]
  total := by rw [ha, hv, h.total]

theorem sameBooks {s : ManagerState} (h : world.Balanced) (hs : world.state.SameBooks s) :
    Balanced { world with state := s } := by
  refine h.manage rfl hs.active (by rw [hs.balances]) ?_
  intro tier balance hb
  refine ⟨balance, hs.balances ▸ hb, rfl, rfl, fun hm => ?_⟩
  rw [hm, managedOn, managedOn, allocatedOn, allocatedOn, hs.placements]

-- The counters saturate at the bound that the true sums keep to.
theorem charge_eq {balance : TierBalance} {managed : Nat} (hb : balance.managedUsedBytes = managed)
    (hf : managed + bytes ≤ u64Max) : (balance.charge bytes).managedUsedBytes = managed + bytes :=
  hb ▸ add_eq (hb ▸ hf)

theorem place {allocation : ManagedAllocation} (h : world.Balanced)
    (hp : world.state.placements[allocation.id]? = none)
    (hf : Fits { world with state := world.state.place allocation }) :
    Balanced { world with state := world.state.place allocation } := by
  refine h.manage rfl rfl (balances_place ▸ valueSum_modify_of_eq fun _ => rfl) ?_
  intro tier balance' h'
  have ⟨balance, hs, he⟩ := lookup_modify (balances_place ▸ h')
  refine ⟨balance, hs, by rw [he]; split <;> rfl, by rw [he]; split <;> rfl, fun hm => ?_⟩
  have hu := (hf _ <| mem_of_lookup h').1
  simp only [managedOn, allocatedOn_place hp] at hm hu ⊢
  rw [he]
  split
  case isTrue ht =>
    rw [if_pos ht] at hu
    rw [charge_eq hm (by omega)]
    omega
  case isFalse => omega

theorem remove {id bytes} {placement : Placement} (h : world.Balanced)
    (hp : world.state.placements[id]? = some placement) (hy : placement.bytes = bytes) :
    Balanced { world with state := world.state.remove id placement.tier bytes } := by
  refine h.manage rfl rfl (balances_remove ▸ valueSum_modify_of_eq fun _ => rfl) ?_
  intro tier balance' h'
  have ⟨balance, hs, he⟩ := lookup_modify (balances_remove ▸ h')
  refine ⟨balance, hs, by rw [he]; split <;> rfl, by rw [he]; split <;> rfl, fun hm => ?_⟩
  have ha : world.state.allocatedOn tier = _ +
    (world.state.remove id placement.tier bytes).allocatedOn tier := allocatedOn_remove hp
  simp only [managedOn] at hm ⊢
  rw [ha] at hm
  rw [he]
  split
  case isTrue ht =>
    rw [if_pos ht] at hm
    simp only [TierBalance.discharge]
    omega
  case isFalse ht =>
    rw [if_neg ht] at hm
    omega

theorem move {id bytes target} {placement : Placement}
    {update : ManagedAllocation → ManagedAllocation} {update' : Placement → Placement}
    (h : world.Balanced) (hp : world.state.placements[id]? = some placement)
    (hy : placement.bytes = bytes) (hu : ∀ a, (update a).toPlacement = update' a.toPlacement)
    (hu' : ∀ p, (update' p).tier = target ∧ (update' p).bytes = p.bytes)
    (hf : Fits { world with
      state := world.state.move id placement.tier target bytes update }) :
    Balanced { world with
      state := world.state.move id placement.tier target bytes update } := by
  refine h.manage rfl rfl ?_ ?_
  · rw [balances_move]
    exact (valueSum_modify_of_eq (by intro; rfl)).trans <| valueSum_modify_of_eq (by intro; rfl)
  · intro tier balance' h'
    have ⟨balance₁, hs₁, he'⟩ := lookup_modify (balances_move ▸ h')
    have ⟨balance, hs, he⟩ := lookup_modify hs₁
    refine ⟨balance, hs, ?reserved, ?active, fun hm => ?managed⟩
    case reserved => rw [he', he]; split <;> split <;> rfl
    case active   => rw [he', he]; split <;> split <;> rfl
    case managed  =>
      have hf' := (hf _ <| mem_of_lookup h').1
      have hl : (if placement.tier = tier then placement.bytes else 0) ≤
        world.state.allocatedOn tier := le_allocatedOn hp
      have ha : (world.state.move id placement.tier target bytes update).allocatedOn tier + _ = _ :=
        allocatedOn_move hp hu hu'
      have h₁ : balance₁.managedUsedBytes +
          (if placement.tier = tier then placement.bytes else 0) = world.managedOn tier := by
        rw [he, ←hm]
        rw [managedOn] at hm
        split
        case isTrue ht =>
          rw [if_pos ht] at hl
          simp only [TierBalance.discharge]
          omega
        case isFalse => rfl
      simp only [managedOn] at h₁ hf' ⊢
      rw [he']
      split
      case isTrue ht =>
        rw [if_pos ht] at ha
        rw [charge_eq rfl (by omega)]
        omega
      case isFalse ht =>
        rw [if_neg ht] at ha
        omega

theorem orphan {failedReleases orphanedReleaseBytes} (h : world.Balanced)
    (hf : Fits { world with
      state := { world.state.modifyBalance tier (·.charge bytes) with
        failedReleases, orphanedReleaseBytes }
      orphans := (tier, bytes) ::ₘ world.orphans }) :
    Balanced { world with
      state := { world.state.modifyBalance tier (·.charge bytes) with
        failedReleases, orphanedReleaseBytes }
      orphans := (tier, bytes) ::ₘ world.orphans } := by
  have hv : (world.state.modifyBalance tier (·.charge bytes)).balances =
      world.state.balances.modify tier (·.charge bytes) := balances_modifyBalance _
  refine h.manage rfl rfl (hv ▸ valueSum_modify_of_eq fun _ => rfl) ?_
  intro tier' balance' h'
  have ⟨balance, hs, he⟩ := lookup_modify (hv ▸ h')
  refine ⟨balance, hs, by rw [he]; split <;> rfl, by rw [he]; split <;> rfl, fun hm => ?_⟩
  have hu := (hf _ <| mem_of_lookup h').1
  simp only [managedOn, bytesOn_cons] at hm hu ⊢
  rw [he]
  change _ = world.state.allocatedOn tier' + _
  change world.state.allocatedOn tier' + _ ≤ _ at hu
  split
  case isTrue ht =>
    rw [if_pos ht] at hu
    rw [charge_eq hm (by omega)]
    omega
  case isFalse => omega

theorem claim (h : world.Balanced) (hm : reservation.tier ∈ world.state.balances)
    (hl : world.state.activeReservations < usizeMax)
    (hf : Fits <| addReservation reservation
      { world with state := world.state.claim reservation }) :
    Balanced <| addReservation reservation
      { world with state := world.state.claim reservation } :=
  h.hold hm balances_claim claims_addReservation rfl (fun _ => rfl) hl hf

theorem claimAction (h : world.Balanced)
    (hm : ∀ claim ∈ permit.claim, claim.1 ∈ world.state.balances ∧
      world.state.activeReservations < usizeMax)
    (hf : Fits <| addPermit permit { world with state := world.state.claimAction permit }) :
    Balanced <| addPermit permit { world with state := world.state.claimAction permit } := by
  have ⟨action⟩ := permit
  cases action
  case demote =>
    have hm := hm _ rfl
    exact h.hold hm.1 balances_claimAction claims_addPermit rfl (fun _ => rfl) hm.2 hf
  case evict =>
    refine h.manage claims_addPermit rfl rfl ?_
    exact fun _ balance h' => ⟨balance, h', rfl, rfl, id⟩

theorem dropReservation (h : world.Balanced) (hm : reservation ∈ world.reservations)
    (ht : reservation.tier ∈ world.state.balances) :
    Balanced (World.dropReservation reservation world) := by
  refine h.unhold ht balances_release (claims_dropReservation hm) active_release fun _ => ?_
  simp only [managedOn, allocatedOn, World.dropReservation, removeReservation,
    MemoryReservation.drop, placements_release]

theorem dropPermit (h : world.Balanced) (hm : permit ∈ world.permits)
    (ht : ∀ claim ∈ permit.claim, claim.1 ∈ world.state.balances) :
    Balanced (World.dropPermit permit world) := by
  have hc := claims_dropPermit hm
  have ⟨action⟩ := permit
  cases action
  case demote => exact h.unhold (ht _ rfl) balances_releaseAction hc rfl (fun _ => rfl)
  case evict =>
    refine h.manage hc.symm rfl rfl ?_
    exact fun _ balance h' => ⟨balance, h', rfl, rfl, id⟩

end Balanced

theorem Fits.of_sameBooks {s s' : ManagerState} (hs : s.SameBooks s')
    (h : Fits { world with state := s' }) : Fits { world with state := s } := by
  intro tier hm
  have := h tier (hs.balances ▸ hm)
  simpa only [managedOn, allocatedOn, claims, hs.placements] using this

end World

open World ManagerState

variable {config : MemoryManagerConfig} {world world' : World} {operation : Operation}
variable {result : Result}

theorem Admitted.lt_usizeMax {s : ManagerState} {tier bytes}
    (h : Admitted config s tier bytes) : s.activeReservations < usizeMax := by
  have h₁ := config.reservations_limit.2
  have h₂ := h.active
  simp only [MAX_ACTIVE_RESERVATIONS, usizeMax] at *
  omega

theorem World.placements_dropReservation {reservation} :
    (dropReservation reservation world).state.placements = world.state.placements :=
  placements_release

theorem World.placements_dropPermit {permit} :
    (dropPermit permit world).state.placements = world.state.placements :=
  placements_releaseAction

theorem World.Exclusive.claim_configured {permit} (hx : world.Exclusive config)
    (hm : permit ∈ world.permits) : ∀ claim ∈ permit.claim, claim.1 ∈ world.state.balances := by
  have ⟨_, _, _, _, hb⟩ := hx.permitted _ hm
  intro claim hc
  have ⟨action⟩ := permit
  cases action
  case demote =>
    cases Option.mem_some_iff.mp hc
    exact hb.2
  case evict => cases hc

theorem World.Balanced.effect (h : world.Balanced) (hx : world.Exclusive config)
    (he : Effect config world operation result world') (hf : world'.Fits) : world'.Balanced := by
  cases he
  case rejected hs _          => exact h.sameBooks hs.toSameBooks
  case mismatched r hm _      => exact h.dropReservation hm (hx.reserved _ hm).1
  case quiet hs               => exact h.sameBooks hs
  case reserved hs hg         =>
    exact (h.sameBooks hs.toSameBooks).claim hg.admitted.configured
      hg.admitted.lt_usizeMax hf
  case permitted hp           =>
    exact h.claimAction (fun _ hm => ⟨(hp.admitted _ hm).2.configured,
      (hp.admitted _ hm).2.lt_usizeMax⟩) hf
  case droppedReservation hm  => exact h.dropReservation hm (hx.reserved _ hm).1
  case droppedPermit hm       => exact h.dropPermit hm (hx.claim_configured hm)
  case loaded o r a hm hk ht hy =>
    have hi : a.id ∈ r.loadIds := hk ▸ Finset.mem_singleton_self _
    exact (h.dropReservation hm (hx.reserved _ hm).1).place (hx.committed_load hm hi).2.1 hf
  case promoted o r id source update update' hm hb hu hu' =>
    have hr := (hx.reserved _ hm).2
    rw [hb] at hr
    have ⟨placement, hp, ht, hy⟩ := hr
    cases ht
    have hp' : (World.dropReservation r world).state.placements[id]? = some placement :=
      placements_dropReservation.symm ▸ hp
    exact (h.dropReservation hm (hx.reserved _ hm).1).move hp' hy hu hu' hf
  case demoted o p id source target bytes update s update' hm ha hu hu' hs =>
    have ⟨placement, hp, ht, hy, _⟩ := hx.permitted _ hm
    rw [ha] at hp ht hy
    cases ht
    have hp' : (World.dropPermit p world).state.placements[id]? = some placement :=
      placements_dropPermit.symm ▸ hp
    have hd := h.dropPermit hm (hx.claim_configured hm)
    exact (hd.move hp' hy hu hu' <| hf.of_sameBooks hs).sameBooks hs
  case evicted o p id tier bytes s hm ha hs =>
    have ⟨placement, hp, ht, hy, _⟩ := hx.permitted _ hm
    rw [ha] at hp ht hy
    cases ht
    have hp' : (World.dropPermit p world).state.placements[id]? = some placement :=
      placements_dropPermit.symm ▸ hp
    have hd := h.dropPermit hm (hx.claim_configured hm)
    exact (hd.remove hp' hy).sameBooks hs
  case removed hp _ _         => exact h.remove hp rfl
  case orphaned               => exact h.orphan hf

theorem Effect.budgets (he : Effect config world operation result world') :
    world'.state.budgets = world.state.budgets := by
  have hr {world : World} {reservation} :
      (dropReservation reservation world).state.budgets = world.state.budgets :=
    budgets_of_modify balances_release fun _ => rfl
  have hp {world : World} {permit} :
      (dropPermit permit world).state.budgets = world.state.budgets := by
    have ⟨action⟩ := permit
    cases action
    case demote => exact budgets_of_modify balances_releaseAction fun _ => rfl
    case evict  => rfl
  have hs {s s' : ManagerState} (hs : s.SameBooks s') : s'.budgets = s.budgets :=
    budgets_of_balances hs.balances
  cases he
  case rejected hs' _       => exact hs hs'.toSameBooks
  case mismatched           => exact hr
  case quiet hs'            => exact hs hs'
  case reserved hs' _       =>
    exact (budgets_of_modify balances_claim fun _ => rfl).trans (hs hs'.toSameBooks)
  case permitted o permit _ =>
    have ⟨action⟩ := permit
    cases action
    case demote => exact budgets_of_modify balances_claimAction fun _ => rfl
    case evict  => rfl
  case droppedReservation   => exact hr
  case droppedPermit        => exact hp
  case loaded               => exact (budgets_of_modify balances_place fun _ => rfl).trans hr
  case promoted             => exact budgets_move.trans hr
  case demoted hs'          => exact (hs hs').trans <| budgets_move.trans hp
  case evicted hs'          =>
    exact (hs hs').trans <| (budgets_of_modify balances_remove fun _ => rfl).trans hp
  case removed              => exact budgets_of_modify balances_remove fun _ => rfl
  case orphaned tier bytes output accounted _ _ _ =>
    have hv : (world.state.modifyBalance tier (·.charge accounted)).balances = _ :=
      balances_modifyBalance _
    exact budgets_of_modify hv fun _ => rfl

-- The accounts of a new manager are its budgets, each with nothing counted in it.
theorem tiers_new {budget : TierBudget} (h : budget ∈ config.budgets) :
    (ManagerState.new config).tiers[budget.tier]? = some (TierAccount.new budget) := by
  refine getElem?_ofList_of_mem ReflCmp.compare_self ?distinct ?mem
  case mem => exact List.mem_map_of_mem h
  case distinct =>
    have hn := List.pairwise_map.mp config.budgets_nodup
    refine List.pairwise_map.mpr <| hn.imp fun hne => ?_
    exact LawfulEqCmp.compare_eq_iff_eq.not.mpr hne

theorem mem_tiers_new {tier : MemoryTier} :
    tier ∈ (ManagerState.new config).tiers ↔ ∃ budget ∈ config.budgets, budget.tier = tier := by
  rw [ManagerState.new, mem_ofList]
  simp

theorem tiers_new_eq {tier : MemoryTier} {account}
    (h : (ManagerState.new config).tiers[tier]? = some account) :
    ∃ budget ∈ config.budgets, budget.tier = tier ∧ account = .new budget := by
  have ⟨budget, hb, ht⟩ := mem_tiers_new.mp <| mem_of_lookup h
  refine ⟨budget, hb, ht, ?_⟩
  rw [←ht, tiers_new hb] at h
  exact (Option.some.inj h).symm

theorem balances_new_eq {tier : MemoryTier} {balance}
    (h : (ManagerState.new config).balances[tier]? = some balance) :
    ∃ budget ∈ config.budgets, budget.tier = tier ∧ balance = (TierAccount.new budget).toTierBalance := by
  rw [getElem?_balances] at h
  have ⟨account, ht, he⟩ := Option.map_eq_some_iff.mp h
  have ⟨budget, hb, hb', ha⟩ := tiers_new_eq ht
  exact ⟨budget, hb, hb', by rw [←he, ha]⟩

theorem placements_new : (ManagerState.new config).placements = ∅ := by
  ext1 id
  simp [getElem?_placements, ManagerState.new]

theorem World.Balanced.new : (World.new config).Balanced where
  managed tier balance h := by
    have ⟨_, _, _, he⟩ := balances_new_eq h
    rw [he, managedOn, World.new, allocatedOn, placements_new, valueSum_empty]
    rfl
  reserved tier balance h := by
    have ⟨_, _, _, he⟩ := balances_new_eq h
    rw [he]
    rfl
  active tier balance h := by
    have ⟨_, _, _, he⟩ := balances_new_eq h
    rw [he]
    rfl
  total := by
    refine (valueSum_eq_zero fun tier balance h => ?_).symm
    have ⟨_, _, _, he⟩ := balances_new_eq h
    rw [he]
    rfl

theorem balanced (config : MemoryManagerConfig) :
    ((system config).restrict fun _ _ _ world => world.Fits).Invariant
      fun world => world.Exclusive config ∧ world.Balanced where
  init _ h             := h ▸ ⟨.new, .new⟩
  step _ _ _ _ h hstp :=
    have he := apply_effect h.1 hstp.1.1 hstp.1.2
    ⟨h.1.effect he, h.2.effect h.1 he hstp.2⟩

theorem budgets_constant (config : MemoryManagerConfig) :
    (system config).Invariant fun world =>
      world.Exclusive config ∧ world.state.budgets = (ManagerState.new config).budgets :=
  (exclusive config).strengthen (fun _ h => h ▸ rfl) fun _ _ _ _ hx h hstp =>
    (apply_effect hx hstp.1 hstp.2).budgets.trans h

-- The accounts of a state whose budgets are the configured ones.
theorem account_of_budget {s : ManagerState} {budget : TierBudget}
    (h : s.budgets = (ManagerState.new config).budgets) (hb : budget ∈ config.budgets) :
    ∃ account, s.tiers[budget.tier]? = some account ∧ account.budgetBytes = budget.bytes := by
  have he := congrArg (·[budget.tier]?) h
  simp only [getElem?_budgets, getElem?_balances, tiers_new hb, Option.map_map,
    Option.map_some] at he
  have ⟨account, ht, hb'⟩ := Option.map_eq_some_iff.mp he
  exact ⟨account, ht, hb'⟩

-- The sum of the bytes of the allocations on a tier.
def allocatedBytes (state : ManagerState) (tier : MemoryTier) : Nat :=
  state.allocations.valueSum fun allocation =>
    if allocation.tier = tier then allocation.bytes else 0

theorem allocatedOn_eq {state : ManagerState} {tier : MemoryTier} :
    state.allocatedOn tier = allocatedBytes state tier :=
  valueSum_map fun _ _ => rfl

theorem accounting_conserved
    (h : ((system config).restrict fun _ _ _ world => world.Fits).Reachable world) :
    (∀ budget ∈ config.budgets, ∃ account, world.state.tiers[budget.tier]? = some account ∧
      account.managedUsedBytes =
        allocatedBytes world.state budget.tier + bytesOn world.orphans budget.tier ∧
      account.reservedBytes = bytesOn world.claims budget.tier ∧
      account.activeReservations = countOn world.claims budget.tier) ∧
    world.state.activeReservations =
      world.state.tiers.valueSum fun account => account.activeReservations := by
  have ⟨_, hb⟩ := (balanced config).reachable h
  refine ⟨fun budget hm => ?tier, ?total⟩
  case tier =>
    have ⟨account, ht, _⟩ := account_of_budget ((budgets_constant config).reachable h.of_restrict).2 hm
    have hs : world.state.balances[budget.tier]? = some account.toTierBalance := by
      rw [getElem?_balances, ht]
      rfl
    refine ⟨account, ht, ?_, hb.reserved _ _ hs, hb.active _ _ hs⟩
    rw [hb.managed _ _ hs, managedOn, allocatedOn_eq]
  case total => exact hb.total.trans <| valueSum_map fun _ _ => rfl

-- The small machine after a reservation and an orphaned release on the accelerator.
def chargedWorld : World :=
  (smallWorld.apply smallConfig <| .recordOrphanedRelease (.accelerator 0) (some 50)).2

theorem reachable_chargedWorld :
    ((system smallConfig).restrict fun _ _ _ world => world.Fits).Reachable chargedWorld := by
  have h : ((system smallConfig).restrict fun _ _ _ world => world.Fits).Reachable smallWorld :=
    (System.Reachable.init rfl).step (i := smallLoad) ⟨⟨trivial, rfl⟩, by decide +kernel⟩
  exact h.step (i := .recordOrphanedRelease (.accelerator 0) (some 50))
    ⟨⟨trivial, rfl⟩, by decide +kernel⟩

theorem accounting_conserved_charged :
    bytesOn chargedWorld.orphans (.accelerator 0) = 50 ∧
    bytesOn chargedWorld.claims (.accelerator 0) = 100 ∧
    chargedWorld.state.activeReservations =
      chargedWorld.state.tiers.valueSum fun account => account.activeReservations :=
  ⟨by decide +kernel, by decide +kernel, (accounting_conserved reachable_chargedWorld).2⟩

end RuntimeControl.Memory
