import WerkModel.RuntimeControl.Memory.Capacity

-- The counters of a tier cover its allocations and claims in every reachable state, also where
-- orphaned releases have been charged to it.
open Std ExtTreeMap Saturating

namespace RuntimeControl.Memory

open World ManagerState

section Counted

variable {config : MemoryManagerConfig} {world world' : World} {operation : Operation}
variable {result : Result} {tier : MemoryTier} {bytes : Nat} {s : ManagerState}
variable {reservation : MemoryReservation} {permit : PressureActionPermit}

theorem World.Solvent.usageOn_le (h : world.Solvent config)
    (hb : world.state.budgets = (ManagerState.new config).budgets)
    (hm : tier ∈ world.state.balances) : world.usageOn tier ≤ u64Max := by
  have ⟨account, ha⟩ := exists_lookup (mem_balances.mp hm)
  have ⟨budget, hm, ht, _⟩ := budget_of_account hb ha
  exact ht ▸ (usageOn_le_budget h hm).trans budget.bytes_le

-- The use of every configured tier is a 64-bit number.
def World.Bounded (world : World) : Prop :=
  ∀ tier ∈ world.state.balances, world.usageOn tier ≤ u64Max

namespace World.Counted

theorem update (h : world.Counted)
    (hb : ∀ (tier : MemoryTier) balance', world'.state.balances[tier]? = some balance' →
      ∃ balance, world.state.balances[tier]? = some balance ∧
        (world.state.allocatedOn tier ≤ balance.managedUsedBytes →
          world'.state.allocatedOn tier ≤ balance'.managedUsedBytes) ∧
        (bytesOn world.claims tier ≤ balance.reservedBytes →
          bytesOn world'.claims tier ≤ balance'.reservedBytes)) : world'.Counted where
  managed _ _ h'  :=
    have ⟨_, hs, hm, _⟩ := hb _ _ h'
    hm <| h.managed _ _ hs
  reserved _ _ h' :=
    have ⟨_, hs, _, hr⟩ := hb _ _ h'
    hr <| h.reserved _ _ hs

theorem sameBooks (h : world.Counted) (hs : world.state.SameBooks s) :
    Counted { world with state := s } := by
  refine h.update fun tier balance hb => ⟨balance, hs.balances ▸ hb, fun hm => ?_, id⟩
  rwa [allocatedOn, hs.placements]

theorem hold (h : world.Counted)
    (hb : world'.state.balances = world.state.balances.modify tier (·.hold bytes))
    (hc : world'.claims = (tier, bytes) ::ₘ world.claims)
    (hp : world'.state.placements = world.state.placements) (hf : world'.Bounded) :
    world'.Counted := by
  refine h.update fun tier' balance' h' => ?_
  have ⟨balance, hs, he⟩ := lookup_modify (hb ▸ h')
  have hu := hf tier' (mem_of_lookup h')
  rw [usageOn, hc, bytesOn_cons] at hu
  refine ⟨balance, hs, fun hm => ?_, fun hr => ?_⟩
  · rw [allocatedOn, hp, he]
    split <;> exact hm
  · rw [hc, bytesOn_cons, he]
    split
    case isTrue ht =>
      rw [if_pos ht] at hu
      simp only [TierBalance.hold, add]
      omega
    case isFalse => omega

theorem unhold (h : world.Counted)
    (hb : world'.state.balances = world.state.balances.modify tier (·.unhold bytes))
    (hc : world.claims = (tier, bytes) ::ₘ world'.claims)
    (hp : world'.state.placements = world.state.placements) : world'.Counted := by
  refine h.update fun tier' balance' h' => ?_
  have ⟨balance, hs, he⟩ := lookup_modify (hb ▸ h')
  refine ⟨balance, hs, fun hm => ?_, fun hr => ?_⟩
  · rw [allocatedOn, hp, he]
    split <;> exact hm
  · rw [hc, bytesOn_cons] at hr
    rw [he]
    split
    case isTrue ht =>
      rw [if_pos ht] at hr
      simp only [TierBalance.unhold]
      omega
    case isFalse ht =>
      rw [if_neg ht] at hr
      omega

-- Managed bytes change, and no claim.
theorem manage {update : TierBalance → TierBalance} (h : world.Counted)
    (hb : s.balances = world.state.balances.modify tier update)
    (hr : ∀ balance, (update balance).reservedBytes = balance.reservedBytes)
    (hm : ∀ tier' ∈ s.balances, ∀ balance,
      world.state.allocatedOn tier' ≤ balance.managedUsedBytes →
        s.allocatedOn tier' ≤ (if tier = tier' then update balance else balance).managedUsedBytes) :
    Counted { world with state := s } := by
  refine h.update fun tier' balance' h' => ?_
  have ⟨balance, hs, he⟩ := lookup_modify (hb ▸ h')
  refine ⟨balance, hs, fun h => he ▸ hm tier' (mem_of_lookup h') balance h, fun h => ?_⟩
  rw [he]
  split
  case isTrue  => exact hr balance ▸ h
  case isFalse => exact h

theorem place {allocation : ManagedAllocation} (h : world.Counted)
    (hp : world.state.placements[allocation.id]? = none)
    (hf : Bounded { world with state := world.state.place allocation }) :
    Counted { world with state := world.state.place allocation } := by
  refine h.manage balances_place (fun _ => rfl) fun tier' ht balance hm => ?_
  have hu := (Nat.le_add_right ..).trans (hf tier' ht)
  dsimp only at hu
  rw [allocatedOn_place hp] at hu ⊢
  split
  case isTrue ht =>
    rw [if_pos ht] at hu
    simp only [TierBalance.charge, add]
    omega
  case isFalse => omega

theorem remove {id} {placement : Placement} (h : world.Counted)
    (hp : world.state.placements[id]? = some placement) :
    Counted { world with state := world.state.remove id placement.tier placement.bytes } := by
  refine h.manage balances_remove (fun _ => rfl) fun tier' _ balance hm => ?_
  have ha : world.state.allocatedOn tier' = _ +
    (world.state.remove id placement.tier placement.bytes).allocatedOn tier' :=
    allocatedOn_remove hp
  split
  case isTrue ht =>
    rw [if_pos ht] at ha
    simp only [TierBalance.discharge]
    omega
  case isFalse ht =>
    rw [if_neg ht] at ha
    omega

theorem move {id target} {placement : Placement} {update : ManagedAllocation → ManagedAllocation}
    {update' : Placement → Placement} (h : world.Counted)
    (hp : world.state.placements[id]? = some placement)
    (hu : ∀ a, (update a).toPlacement = update' a.toPlacement)
    (hu' : ∀ p, (update' p).tier = target ∧ (update' p).bytes = p.bytes)
    (hf : Bounded { world with
      state := world.state.move id placement.tier target placement.bytes update }) :
    Counted { world with
      state := world.state.move id placement.tier target placement.bytes update } := by
  refine h.update fun tier balance' h' => ?_
  have ⟨balance₁, hs₁, he'⟩ := lookup_modify (balances_move ▸ h')
  have ⟨balance, hs, he⟩ := lookup_modify hs₁
  refine ⟨balance, hs, fun hm => ?managed, fun hr => ?reserved⟩
  case reserved =>
    rw [he', he]
    split <;> split <;> exact hr
  case managed =>
    have hb := (Nat.le_add_right ..).trans (hf tier (mem_of_lookup h'))
    have hl : (if placement.tier = tier then placement.bytes else 0) ≤
      world.state.allocatedOn tier := le_allocatedOn hp
    have ha : (world.state.move id placement.tier target placement.bytes update).allocatedOn tier +
      _ = _ := allocatedOn_move hp hu hu'
    have h₁ : world.state.allocatedOn tier ≤ balance₁.managedUsedBytes +
        (if placement.tier = tier then placement.bytes else 0) := by
      rw [he]
      split
      case isTrue  => simp only [TierBalance.discharge]; omega
      case isFalse => exact hm
    dsimp only at hb ⊢
    rw [he']
    split
    case isTrue ht =>
      rw [if_pos ht] at ha
      simp only [TierBalance.charge, add]
      omega
    case isFalse ht =>
      rw [if_neg ht] at ha
      omega

theorem orphan {failedReleases orphanedReleaseBytes orphans} (h : world.Counted)
    (hf : world.Bounded) :
    Counted { world with
      state := { world.state.modifyBalance tier (·.charge bytes) with
        failedReleases, orphanedReleaseBytes }
      orphans } := by
  have hv : (world.state.modifyBalance tier (·.charge bytes)).balances =
      world.state.balances.modify tier (·.charge bytes) := balances_modifyBalance _
  refine h.update fun tier' balance' h' => ?_
  have ⟨balance, hs, he⟩ := lookup_modify (hv ▸ h')
  have hu := (Nat.le_add_right ..).trans (hf tier' (mem_of_lookup hs))
  refine ⟨balance, hs, fun hm => ?_, fun hr => ?_⟩
  · change world.state.allocatedOn tier' ≤ _
    rw [he]
    split
    case isTrue  => simp only [TierBalance.charge, add]; omega
    case isFalse => exact hm
  · rw [he]
    split <;> exact hr

theorem claim (h : world.Counted)
    (hf : Bounded <| addReservation reservation
      { world with state := world.state.claim reservation }) :
    Counted <| addReservation reservation { world with state := world.state.claim reservation } :=
  h.hold balances_claim claims_addReservation rfl hf

theorem claimAction (h : world.Counted)
    (hf : Bounded <| addPermit permit { world with state := world.state.claimAction permit }) :
    Counted <| addPermit permit { world with state := world.state.claimAction permit } := by
  have ⟨action⟩ := permit
  cases action
  case demote => exact h.hold balances_claimAction claims_addPermit rfl hf
  case evict =>
    refine h.update fun _ balance h' => ⟨balance, h', id, fun hr => ?_⟩
    rw [claims_addPermit]
    exact hr

theorem dropReservation (h : world.Counted) (hm : reservation ∈ world.reservations) :
    Counted (World.dropReservation reservation world) :=
  h.unhold balances_release (claims_dropReservation hm) placements_dropReservation

theorem dropPermit (h : world.Counted) (hm : permit ∈ world.permits) :
    Counted (World.dropPermit permit world) := by
  have hc := claims_dropPermit hm
  have ⟨action⟩ := permit
  cases action
  case demote => exact h.unhold balances_releaseAction hc placements_dropPermit
  case evict =>
    refine h.update fun _ balance h' => ⟨balance, h', id, fun hr => ?_⟩
    rw [hc] at hr
    exact hr

end World.Counted

theorem World.Bounded.sameBooks {s s' : ManagerState} (hs : s.SameBooks s')
    (h : Bounded { world with state := s' }) : Bounded { world with state := s } := by
  intro tier hm
  have hu := h tier (hs.balances ▸ hm)
  rwa [usageOn_sameBooks hs] at hu

theorem World.Counted.effect (h : world.Covered config)
    (he : Effect config world operation result world') (hf : world'.Bounded) : world'.Counted := by
  have hx := h.exclusive
  have hn := h.toCounted
  cases he
  case rejected hs _          => exact hn.sameBooks hs.toSameBooks
  case mismatched r hm _      => exact hn.dropReservation hm
  case quiet hs               => exact hn.sameBooks hs
  case reserved hs hg         => exact (hn.sameBooks hs.toSameBooks).claim hf
  case permitted hp           => exact hn.claimAction hf
  case droppedReservation hm  => exact hn.dropReservation hm
  case droppedPermit hm       => exact hn.dropPermit hm
  case loaded o r a hm hk ht hy =>
    have hi : a.id ∈ r.loadIds := hk ▸ Finset.mem_singleton_self _
    exact (hn.dropReservation hm).place (hx.committed_load hm hi).2.1 hf
  case promoted o r id source update update' hm hb hu hu' =>
    have hr := (hx.reserved _ hm).2
    rw [hb] at hr
    have ⟨placement, hp, ht, hy⟩ := hr
    have hp' : (World.dropReservation r world).state.placements[id]? = some placement :=
      placements_dropReservation.symm ▸ hp
    rw [←ht, ←hy] at hf ⊢
    exact (hn.dropReservation hm).move hp' hu hu' hf
  case demoted o p id source target bytes update s update' hm ha hu hu' hs =>
    have ⟨placement, hp, ht, hy, _⟩ := hx.permitted _ hm
    rw [ha] at hp ht hy
    cases ht
    cases hy
    have hp' : (World.dropPermit p world).state.placements[id]? = some placement :=
      placements_dropPermit.symm ▸ hp
    exact ((hn.dropPermit hm).move hp' hu hu' <| hf.sameBooks hs).sameBooks hs
  case evicted o p id tier bytes s hm ha hs =>
    have ⟨placement, hp, ht, hy, _⟩ := hx.permitted _ hm
    rw [ha] at hp ht hy
    cases ht
    cases hy
    have hp' : (World.dropPermit p world).state.placements[id]? = some placement :=
      placements_dropPermit.symm ▸ hp
    exact ((hn.dropPermit hm).remove hp').sameBooks hs
  case removed hp _ _         => exact hn.remove hp
  case orphaned               => exact hn.orphan fun _ => h.solvent.usageOn_le h.budgets

theorem World.Covered.new : (World.new config).Covered config :=
  World.Sound.new.covered

theorem covered (config : MemoryManagerConfig) :
    (system config).Invariant (World.Covered config) where
  init _ h := h ▸ .new
  step _ _ _ _ h hstp := by
    have he := apply_effect h.exclusive hstp.1 hstp.2
    have hb := he.budgets.trans h.budgets
    have hs := h.solvent_effect he
    exact ⟨.effect h he fun _ => hs.usageOn_le hb, h.exclusive.effect he, hb, hs⟩

end Counted
end RuntimeControl.Memory
