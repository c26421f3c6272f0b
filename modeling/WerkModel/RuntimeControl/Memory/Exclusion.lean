import WerkModel.RuntimeControl.Memory.Effect

-- Claims are exclusive in every reachable state, and the tokens that hold them always commit.
open Std ExtTreeMap Tokens

namespace RuntimeControl.Memory

open ManagerState World

variable {config : MemoryManagerConfig} {world world' : World} {operation : Operation}
variable {result : Result}

theorem World.Exclusive.new : (World.new config).Exclusive config where
  loads       := Hold.zero
  promotions  := Hold.zero
  actions     := Hold.zero
  fresh       := nofun
  disjoint    := Finset.disjoint_empty_left _
  reserved    := fun _ hm => absurd hm (Multiset.notMem_zero _)
  permitted   := fun _ hm => absurd hm (Multiset.notMem_zero _)
  configured  := fun id placement h => by
    have hn : (ManagerState.new config).placements[id]? = none := by
      simp [getElem?_placements, ManagerState.new]
    exact absurd (hn.symm.trans h) nofun
  allocations := by simp [World.new, ManagerState.new, placements, size_map]
  active      := Nat.zero_le _

-- The claim that a reservation gives back when it is committed.
theorem World.Exclusive.committed_load {reservation id} (h : world.Exclusive config)
    (hm : reservation ∈ world.reservations) (hk : id ∈ reservation.loadIds) :
    id ∉ (World.dropReservation reservation world).state.pendingLoads ∧
    (World.dropReservation reservation world).state.placements[id]? = none ∧
    (World.dropReservation reservation world).state.placements.size +
      (World.dropReservation reservation world).state.pendingLoads.card < config.maxAllocations := by
  have hi := h.loads.subset hm hk
  simp only [World.dropReservation, removeReservation, MemoryReservation.drop, pendingLoads_release,
    placements_release]
  refine ⟨fun hn => (Finset.mem_sdiff.mp hn).2 hk, h.fresh _ hi, ?_⟩
  have hc : (world.state.pendingLoads \ reservation.loadIds).card < world.state.pendingLoads.card :=
    Finset.card_lt_card <| Finset.sdiff_ssubset (h.loads.subset hm) ⟨_, hk⟩
  have := h.allocations
  omega

theorem World.Exclusive.committed_promotion {reservation id} (h : world.Exclusive config)
    (hm : reservation ∈ world.reservations) (hk : id ∈ reservation.promotionIds) :
    id ∉ (World.dropReservation reservation world).state.pendingActions ∧
    id ∉ (World.dropReservation reservation world).state.pendingPromotions := by
  have hi := h.promotions.subset hm hk
  simp only [World.dropReservation, removeReservation, MemoryReservation.drop,
    pendingPromotions_release, pendingActions_release]
  exact ⟨Finset.disjoint_left.mp h.disjoint hi, fun hn => (Finset.mem_sdiff.mp hn).2 hk⟩

theorem World.Exclusive.committed_action {permit} (h : world.Exclusive config)
    (hm : permit ∈ world.permits) :
    permit.action.allocationId ∉ (World.dropPermit permit world).state.pendingActions ∧
    permit.action.allocationId ∉ (World.dropPermit permit world).state.pendingPromotions := by
  have hi := h.actions.subset hm <| Finset.mem_singleton_self _
  simp only [World.dropPermit, removePermit, PressureActionPermit.drop,
    pendingPromotions_releaseAction, pendingActions_releaseAction]
  exact ⟨Finset.notMem_erase _ _, Finset.disjoint_right.mp h.disjoint hi⟩

theorem World.Exclusive.effect (h : world.Exclusive config)
    (he : Effect config world operation result world') : world'.Exclusive config := by
  cases he
  case rejected hs _            => exact h.sameBooks hs.toSameBooks
  case mismatched error r hm _          => exact h.dropReservation hm
  case quiet o s hs                 => exact h.sameBooks hs
  case reserved o s r hs hg       =>
    exact (h.sameBooks hs.toSameBooks).claim hg.backed hg.loads hg.promotions hg.space
      hg.admitted.active
  case permitted o p hp           =>
    refine h.claimAction hp.backed hp.actions hp.promotions ?_
    have ⟨action⟩ := p
    cases action
    case demote => exact Saturating.add_le.trans <| (hp.admitted _ rfl).2.active
    case evict  => exact h.active
  case droppedReservation o r hm    => exact h.dropReservation hm
  case droppedPermit o p hm         => exact h.dropPermit hm
  case loaded o r a hm hk ht hy =>
    have hi : a.id ∈ r.loadIds := hk ▸ Finset.mem_singleton_self _
    have ⟨hl, hp, hs⟩ := h.committed_load hm hi
    refine (h.dropReservation hm).place (ht ▸ ?_) hp hl hs
    exact mem_balances_release.mpr (h.reserved _ hm).1
  case promoted o r id source update update' hm hb hu hu' =>
    have hi : id ∈ r.promotionIds := MemoryReservation.promotionIds_eq hb ▸ Finset.mem_singleton_self _
    have ⟨ha, hp⟩ := h.committed_promotion hm hi
    exact (h.dropReservation hm).move hu (fun p => (hu' p).1)
      (mem_balances_release.mpr (h.reserved _ hm).1) ha hp
  case demoted o p id source target bytes update s update' hm ha hu hu' hs =>
    have ⟨hi, hp⟩ := h.committed_action hm
    have ⟨_, _, _, _, hd⟩ := h.permitted _ hm
    rw [ha] at hi hp hd
    exact ((h.dropPermit hm).move hu (fun p => (hu' p).1)
      (mem_balances_releaseAction.mpr hd.2) hi hp).sameBooks hs
  case evicted o p id tier bytes s hm ha hs =>
    have ⟨hi, hp⟩ := h.committed_action hm
    rw [ha] at hi hp
    exact ((h.dropPermit hm).remove hi hp).sameBooks hs
  case removed o id p hp ha hq      => exact h.remove ha hq
  case orphaned              => exact h.charge

theorem exclusive (config : MemoryManagerConfig) :
    (system config).Invariant (World.Exclusive config) where
  init _ h            := h ▸ .new
  step _ _ _ _ h hstp := h.effect <| apply_effect h hstp.1 hstp.2

namespace Operation

-- The operation commits a token as the kind that it is.
def CommitsClaim : Operation → Prop
  | .commitLoad reservation _      => reservation.loadIds ≠ ∅
  | .commitPromotion reservation _ => reservation.promotionIds ≠ ∅
  | .commitPermit ..               => True
  | _                              => False

end Operation

theorem Effect.commit_ok (h : Effect config world operation result world')
    (hc : operation.CommitsClaim) : ∃ output, result = .ok output := by
  cases h
  case rejected hn =>
    cases operation
    case commitLoad | commitPromotion | commitPermit => exact absurd trivial hn
    all_goals cases hc
  case mismatched hm =>
    cases operation
    case commitLoad | commitPromotion => exact absurd hm.2 (hm.1 ▸ hc)
    all_goals cases hm
  all_goals exact ⟨_, rfl⟩

-- The world with its reservations and permits, as an operation leaves it when it is rejected.
def World.Untouched (world world' : World) : Prop :=
  world.state.Unchanged world'.state ∧ world'.reservations = world.reservations ∧
  world'.permits = world.permits

theorem Effect.error_untouched {error} (h : Effect config world operation (.error error) world') :
    world.Untouched world' ∨
    ∃ reservation ∈ world.reservations, operation.Mismatches reservation ∧
      world' = dropReservation reservation world := by
  cases h
  case rejected hs _      => exact .inl ⟨hs, rfl, rfl⟩
  case mismatched r hm hc => exact .inr ⟨r, hm, hc, rfl⟩

theorem claims_exclusive (h : (system config).Reachable world) :
    (Hold MemoryReservation.loadIds world.reservations world.state.pendingLoads ∧
      Hold MemoryReservation.promotionIds world.reservations world.state.pendingPromotions ∧
      Hold PressureActionPermit.actionIds world.permits world.state.pendingActions) ∧
    (Disjoint world.state.pendingLoads world.state.pendingPromotions ∧
      Disjoint world.state.pendingLoads world.state.pendingActions ∧
      Disjoint world.state.pendingPromotions world.state.pendingActions) ∧
    ((∀ id ∈ world.state.pendingPromotions, id ∈ world.state.allocations) ∧
      (∀ id ∈ world.state.pendingActions, id ∈ world.state.allocations) ∧
      ∀ id ∈ world.state.pendingLoads, id ∉ world.state.allocations) ∧
    (world.state.allocations.size + world.state.pendingLoads.card ≤ config.maxAllocations ∧
      world.state.activeReservations ≤ config.maxReservations) ∧
    (∀ operation result world', (system config).Step world operation result world' →
      operation.CommitsClaim → ∃ output, result = .ok output) ∧
    (∀ operation error world', (system config).Step world operation (.error error) world' →
      world.Untouched world' ∨ ∃ reservation ∈ world.reservations,
        operation.Mismatches reservation ∧ world' = dropReservation reservation world) := by
  have hx := (exclusive config).reachable h
  have hm {id} (hp : ∃ placement, world.state.placements[id]? = some placement) :
      id ∈ world.state.allocations := mem_placements.mp <| mem_of_lookup hp.choose_spec
  refine ⟨⟨hx.loads, hx.promotions, hx.actions⟩, ?disjoint, ⟨?promoted, ?acted, ?loaded⟩,
    ⟨?space, hx.active⟩, ?commit, ?error⟩
  case disjoint => exact ⟨hx.load_disjoint_promotion, hx.load_disjoint_action, hx.disjoint⟩
  case promoted => exact fun _ hi => hm <| hx.placement_of_promotion hi
  case acted    => exact fun _ hi => hm <| hx.placement_of_action hi
  case loaded   =>
    intro id hi ha
    have ⟨_, hp⟩ := exists_lookup (mem_placements.mpr ha)
    exact absurd (hx.fresh id hi ▸ hp) nofun
  case space    => exact size_placements (s := world.state) ▸ hx.allocations
  case commit   => exact fun _ _ _ hs => (apply_effect hx hs.1 hs.2).commit_ok
  case error    => exact fun _ _ _ hs => (apply_effect hx hs.1 hs.2).error_untouched

theorem claims_exclusive_small : smallWorld.state.pendingLoads = {⟨1, by decide⟩} ∧
    ∀ operation result world', (system smallConfig).Step smallWorld operation result world' →
      operation.CommitsClaim → ∃ output, result = .ok output :=
  ⟨by decide +kernel, (claims_exclusive reachable_smallWorld).2.2.2.2.1⟩

-- A reservation that is committed as the kind that it is not fails, and releases its claim.
theorem mismatched_commit_releases :
    ¬∀ config world, (system config).Reachable world → ∀ operation error world',
      (system config).Step world operation (.error error) world' → world.Untouched world' := by
  intro h
  have hm : smallReservation ∈ smallWorld.reservations := by
    rw [reservations_smallWorld]
    exact Multiset.mem_singleton_self _
  have hl := (h _ _ reachable_smallWorld (.commitPromotion smallReservation 0) _ _ ⟨hm, rfl⟩).1.loads
  revert hl
  decide +kernel

end RuntimeControl.Memory
