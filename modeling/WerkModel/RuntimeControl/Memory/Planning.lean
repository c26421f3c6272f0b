import WerkModel.RuntimeControl.Memory.Coverage
import WerkModel.RuntimeControl.Memory.Direction
import WerkModel.RuntimeControl.Memory.Relief

-- What the loops of a plan choose: actions on distinct candidates, no more of them than the relief
-- takes, demotions first and evictions from the least recently used on.
open Std ExtTreeMap Saturating

namespace RuntimeControl.Memory

open ManagerState

-- An allocation that a plan for a tier may move.
structure Candidate (config : MemoryManagerConfig) (s : ManagerState) (tier : MemoryTier)
    (eligible : Option (Finset AllocationId)) (allocation : ManagedAllocation) : Prop where
  stored     : s.allocations[allocation.id]? = some allocation
  placed     : config.topology = .unified ∨ allocation.tier = tier
  unpinned   : ¬allocation.pinned
  eligible   : ∀ ids ∈ eligible, allocation.id ∈ ids
  promotions : allocation.id ∉ s.pendingPromotions
  actions    : allocation.id ∉ s.pendingActions

def ManagedAllocation.eviction (allocation : ManagedAllocation) : PressureAction :=
  .evict allocation.id allocation.tier allocation.bytes

namespace PressureAction

-- The action on an allocation. Only discrete memory has somewhere to demote it to.
inductive Moves (config : MemoryManagerConfig) (allocation : ManagedAllocation) :
    PressureAction → Prop
  | demote {target} :
    config.topology = .discrete → allocation.demotionTarget = some target →
    Moves config allocation (.demote allocation.id allocation.tier target allocation.bytes)
  | evict : Moves config allocation allocation.eviction

variable {config : MemoryManagerConfig} {allocation : ManagedAllocation} {action : PressureAction}

theorem Moves.id_eq (h : Moves config allocation action) : action.allocationId = allocation.id := by
  cases h <;> rfl

theorem Moves.tier_eq (h : Moves config allocation action) : action.tier = allocation.tier := by
  cases h <;> rfl

theorem Moves.bytes_eq (h : Moves config allocation action) : action.bytes = allocation.bytes := by
  cases h <;> rfl

theorem Moves.discrete {claim} (h : Moves config allocation action) (hc : claim ∈ action.claim) :
    config.topology = .discrete ∧ allocation.demotionTarget = some claim.1 := by
  cases h
  case demote target htop ht =>
    cases Option.mem_some_iff.mp hc
    exact ⟨htop, ht⟩
  case evict => cases hc

-- The bytes that an action frees on its own tier.
def relief (action : PressureAction) : MemoryTier × Nat :=
  (action.tier, action.bytes)

-- The bytes that an action brings to a tier.
def brings (action : PressureAction) (tier : MemoryTier) : Nat :=
  action.claim.elim 0 fun claim => if claim.1 = tier then claim.2 else 0

end PressureAction

-- The bytes that actions free, and those that their demotions bring to a tier.

def reliefOf (actions : List PressureAction) : Nat :=
  (actions.map (·.bytes)).sum

def incoming (actions : List PressureAction) (tier : MemoryTier) : Nat :=
  bytesOn (actions.filterMap PressureAction.claim) tier

section Sums

variable {actions : List PressureAction} {action : PressureAction} {tier : MemoryTier}

theorem reliefOf_concat : reliefOf (actions ++ [action]) = reliefOf actions + action.bytes := by
  simp [reliefOf]

theorem incoming_concat :
    incoming (actions ++ [action]) tier = incoming actions tier + action.brings tier := by
  rw [incoming, List.filterMap_append, PressureAction.brings]
  cases hc : action.claim
  case none   => simp [hc, incoming]
  case some c =>
    rw [List.filterMap_cons_some hc, List.filterMap_nil, ←Multiset.coe_add, Multiset.coe_singleton,
      Multiset.add_comm, Multiset.singleton_add, bytesOn_cons, Nat.add_comm]
    rfl

end Sums

section Candidates

variable {config : MemoryManagerConfig} {s : ManagerState} {tier : MemoryTier}
variable {eligible : Option (Finset AllocationId)} {allocation : ManagedAllocation}

theorem mem_planCandidates (h : s.Tidy) :
    allocation ∈ planCandidates config s tier eligible ↔
      Candidate config s tier eligible allocation := by
  simp only [planCandidates, List.mem_mergeSort, List.mem_filter, decide_eq_true_eq]
  constructor
  case mp =>
    intro h'
    obtain ⟨hm, ht, hp, he, hq, ha⟩ := h'
    obtain ⟨id, hl⟩ := mem_valueList_iff.mp hm
    exact ⟨(h id allocation hl).1 ▸ hl, ht, hp, he, hq, ha⟩
  case mpr =>
    intro h'
    obtain ⟨hl, ht, hp, he, hq, ha⟩ := h'
    exact ⟨mem_valueList_iff.mpr ⟨_, hl⟩, ht, hp, he, hq, ha⟩

theorem planCandidates_nodup (h : s.Tidy) :
    ((planCandidates config s tier eligible).map (·.id)).Nodup := by
  have hk : (s.allocations.valueList.map (·.id)).Nodup :=
    map_valueList_of_keyed (fun id v hl => (h id v hl).1) ▸ nodup_keys
  refine ((List.mergeSort_perm _ _).map _).nodup_iff.mpr ?_
  exact hk.sublist <| List.filter_sublist.map _

theorem planCandidates_sorted :
    (planCandidates config s tier eligible).Pairwise (leastRecentlyUsed · ·) := by
  refine List.pairwise_mergeSort ?trans ?total _
  case trans =>
    intro a b c hab hbc
    simp only [leastRecentlyUsed, decide_eq_true_eq, UInt64.le_iff_toNat_le] at *
    omega
  case total =>
    intro a b
    simp only [leastRecentlyUsed, Bool.or_eq_true, decide_eq_true_eq, UInt64.le_iff_toNat_le]
    omega

end Candidates

-- The bytes that are planned besides count like those that are asked for.
theorem canAcceptBytes_additional {s : ManagerState} {tier : MemoryTier} {bytes additional : Nat}
    {topology thresholds} :
    canAcceptBytes s tier bytes additional topology thresholds =
      canAcceptBytes s tier (additional + bytes) 0 topology thresholds := by
  have he : add u64Max additional bytes = add u64Max 0 (additional + bytes) := by
    simp only [add]
    omega
  simp only [canAcceptBytes, he]

theorem canAcceptBytes_min {s : ManagerState} {tier : MemoryTier} {bytes additional : Nat}
    {topology thresholds} :
    canAcceptBytes s tier bytes (min additional u64Max) topology thresholds =
      canAcceptBytes s tier bytes additional topology thresholds := by
  have he : add u64Max (min additional u64Max) bytes = add u64Max additional bytes := by
    simp only [add]
    omega
  simp only [canAcceptBytes, he]

-- What the loops have chosen so far.
structure Planning.Chosen (config : MemoryManagerConfig) (s : ManagerState) (tier : MemoryTier)
    (eligible : Option (Finset AllocationId)) (required : Nat) (planning : Planning) : Prop where
  ids      : ∀ id, id ∈ planning.plannedIds ↔ id ∈ planning.actions.map (·.allocationId)
  distinct : (planning.actions.map (·.allocationId)).Nodup
  moves    : ∀ action ∈ planning.actions, ∃ allocation ∈ planCandidates config s tier eligible,
               action.Moves config allocation
  limit    : planning.actions.length ≤ config.maxActionsPerCycle
  relieved : planning.relieved = min (reliefOf planning.actions) u64Max
  incoming : ∀ target, planning.plannedIncoming.getD target 0 =
               min (incoming planning.actions target) u64Max
  -- An action is chosen only where relief is missing, and a demotion only where its bytes fit
  -- together with those of the demotions before it.
  minimal  : ∀ earlier action, earlier ++ [action] <+: planning.actions →
               min (reliefOf earlier) u64Max < required
  fits     : ∀ earlier action, earlier ++ [action] <+: planning.actions →
               ∀ claim ∈ action.claim, canAcceptBytes s claim.1 claim.2
                 (Memory.incoming earlier claim.1) config.topology config.thresholds

namespace Planning.Chosen

variable {config : MemoryManagerConfig} {s : ManagerState} {tier : MemoryTier}
variable {eligible : Option (Finset AllocationId)} {required : Nat} {planning : Planning}
variable {allocation : ManagedAllocation} {action : PressureAction}
variable {allocations : List ManagedAllocation}

theorem empty : Chosen config s tier eligible required .empty where
  ids _          := Iff.rfl
  distinct       := .nil
  moves _ hm     := absurd hm List.not_mem_nil
  limit          := Nat.zero_le _
  relieved       := rfl
  incoming _     := rfl
  minimal _ _ hp := absurd (List.prefix_nil.mp hp) (List.concat_ne_nil _ _)
  fits _ _ hp    := absurd (List.prefix_nil.mp hp) (List.concat_ne_nil _ _)

-- One action more. The first loop updates the incoming bytes of a target along with it.
theorem push {plannedIncoming : ExtTreeMap MemoryTier Nat}
    (h : Chosen config s tier eligible required planning) (hd : ¬planning.Done config required)
    (hm : allocation ∈ planCandidates config s tier eligible)
    (hn : allocation.id ∉ planning.plannedIds) (ha : action.Moves config allocation)
    (hi : ∀ target, plannedIncoming.getD target 0 =
      min (Memory.incoming (planning.actions ++ [action]) target) u64Max)
    (hf : ∀ claim ∈ action.claim, canAcceptBytes s claim.1 claim.2
      (Memory.incoming planning.actions claim.1) config.topology config.thresholds) :
    Chosen config s tier eligible required
      (Planning.push { planning with plannedIncoming } allocation action) := by
  simp only [Planning.Done, not_or, Nat.not_le] at hd
  constructor
  case ids =>
    intro id
    simp only [Planning.push, Finset.mem_insert, h.ids, List.map_append, List.map_singleton,
      List.mem_append, List.mem_singleton, ha.id_eq]
    exact Or.comm
  case distinct =>
    rw [Planning.push, List.map_append, List.map_singleton, ←List.concat_eq_append]
    exact h.distinct.concat (ha.id_eq ▸ (h.ids _).not.mp hn)
  case moves =>
    intro action' hm'
    cases List.mem_append.mp hm'
    case inl hm' => exact h.moves _ hm'
    case inr hm' => exact ⟨allocation, hm, List.mem_singleton.mp hm' ▸ ha⟩
  case limit =>
    rw [Planning.push, List.length_append, List.length_singleton]
    exact hd.2
  case relieved =>
    rw [Planning.push, reliefOf_concat, ha.bytes_eq]
    simp only [h.relieved, add]
    omega
  case incoming => exact hi
  case minimal =>
    intro earlier action' hp
    cases List.prefix_concat_iff.mp hp
    case inl he => exact (List.append_inj_left' he rfl) ▸ h.relieved ▸ hd.1
    case inr hp => exact h.minimal _ _ hp
  case fits =>
    intro earlier action' hp
    cases List.prefix_concat_iff.mp hp
    case inl he =>
      obtain ⟨he, he'⟩ := List.append_inj' he rfl
      cases he
      cases he'
      exact hf
    case inr hp => exact h.fits _ _ hp

theorem planDemotions (h : Chosen config s tier eligible required planning)
    (htop : config.topology = .discrete) (ht : s.Tidy)
    (hm : ∀ a ∈ allocations, a ∈ planCandidates config s tier eligible)
    (hd : (allocations.map (·.id)).Nodup) (hn : ∀ a ∈ allocations, a.id ∉ planning.plannedIds) :
    Chosen config s tier eligible required
      (planDemotions config s tier required allocations planning) := by
  induction allocations generalizing planning
  case nil => exact h
  case cons a rest hi =>
    have ⟨hm₁, hm₂⟩ := List.forall_mem_cons.mp hm
    have ⟨hn₁, hn₂⟩ := List.forall_mem_cons.mp hn
    have ⟨hd₁, hd₂⟩ := List.nodup_cons.mp hd
    rw [Memory.planDemotions]
    split
    case h_1 => exact hi h hm₂ hd₂ hn₂
    case h_2 target htg =>
      split
      case isTrue => exact h
      case isFalse hdone =>
        simp only
        split
        case isFalse => exact hi h hm₂ hd₂ hn₂
        case isTrue hacc =>
          have hc := (mem_planCandidates ht).mp hm₁
          have hp := hc.placed.resolve_left (htop ▸ nofun)
          have ha := PressureAction.Moves.demote htop htg
          rw [hp] at ha
          refine hi (h.push hdone hm₁ hn₁ ha ?incoming ?fits) hm₂ hd₂ ?fresh
          case incoming =>
            intro target'
            rw [getD_insert, incoming_concat]
            simp only [PressureAction.brings, PressureAction.claim, Option.elim_some, h.incoming]
            split
            case isTrue he =>
              cases LawfulEqCmp.eq_of_compare he
              rw [if_pos rfl]
              simp only [add]
              omega
            case isFalse he =>
              have hne : target ≠ target' := fun heq => he (heq ▸ ReflCmp.compare_self)
              rw [if_neg hne, Nat.add_zero]
          case fits =>
            intro claim hcl
            cases Option.mem_some_iff.mp hcl
            rwa [h.incoming target, canAcceptBytes_min] at hacc
          case fresh =>
            intro a' ha' hin
            cases Finset.mem_insert.mp hin
            case inl he => exact hd₁ (List.mem_map.mpr ⟨a', ha', he⟩)
            case inr hin => exact hn₂ _ ha' hin

theorem planEvictions (h : Chosen config s tier eligible required planning)
    (hm : ∀ a ∈ allocations, a ∈ planCandidates config s tier eligible) :
    Chosen config s tier eligible required
      (planEvictions config required allocations planning) := by
  induction allocations generalizing planning
  case nil => exact h
  case cons a rest hi =>
    have ⟨hm₁, hm₂⟩ := List.forall_mem_cons.mp hm
    rw [Memory.planEvictions]
    split_ifs with hdone hin
    case pos => exact h
    case pos => exact hi h hm₂
    case neg =>
      refine hi (h.push hdone hm₁ hin .evict ?incoming nofun) hm₂
      intro target
      rw [incoming_concat]
      exact h.incoming target

end Planning.Chosen

section Loops

variable {config : MemoryManagerConfig} {s : ManagerState} {tier : MemoryTier}
variable {eligible : Option (Finset AllocationId)} {required : Nat} {planning : Planning}
variable {allocations : List ManagedAllocation}

theorem planDemotions_demotes (h : ∀ action ∈ planning.actions, action.claim.isSome) :
    ∀ action ∈ (planDemotions config s tier required allocations planning).actions,
      action.claim.isSome := by
  induction allocations generalizing planning
  case nil => exact h
  case cons a rest hi =>
    rw [planDemotions]
    split
    case h_1 => exact hi h
    case h_2 =>
      split
      case isTrue => exact h
      case isFalse =>
        simp only
        split
        case isFalse => exact hi h
        case isTrue =>
          refine hi fun action hm => ?_
          cases List.mem_append.mp hm
          case inl hm => exact h _ hm
          case inr hm => exact List.mem_singleton.mp hm ▸ rfl

-- The second loop evicts in the order of the candidates. `demoted` are the ids that it skips.
theorem planEvictions_order {demoted : List AllocationId} (hd : (allocations.map (·.id)).Nodup)
    (hp : ∀ a ∈ allocations, a.id ∈ planning.plannedIds ↔ a.id ∈ demoted) :
    ∃ evicted, evicted <+: allocations.filter (·.id ∉ demoted) ∧
      (planEvictions config required allocations planning).actions =
        planning.actions ++ evicted.map (·.eviction) := by
  induction allocations generalizing planning
  case nil => exact ⟨[], List.nil_prefix, (List.append_nil _).symm⟩
  case cons a rest hi =>
    have ⟨hp₁, hp₂⟩ := List.forall_mem_cons.mp hp
    have ⟨hd₁, hd₂⟩ := List.nodup_cons.mp hd
    rw [planEvictions]
    split
    case isTrue => exact ⟨[], List.nil_prefix, (List.append_nil _).symm⟩
    case isFalse =>
      split
      case isTrue hin =>
        rw [List.filter_cons_of_neg (by simpa using hp₁.mp hin)]
        exact hi hd₂ hp₂
      case isFalse hin =>
        rw [List.filter_cons_of_pos (by simpa using hp₁.not.mp hin)]
        have hp' (a') (hm : a' ∈ rest) :
            a'.id ∈ (planning.push a a.eviction).plannedIds ↔ a'.id ∈ demoted := by
          rw [←hp₂ a' hm, Planning.push, Finset.mem_insert]
          exact or_iff_right fun he => hd₁ (List.mem_map.mpr ⟨a', hm, he⟩)
        have ⟨evicted, he, ha⟩ := hi hd₂ hp'
        refine ⟨a :: evicted, List.cons_prefix_cons.mpr ⟨rfl, he⟩, ha.trans ?_⟩
        simp [Planning.push]

theorem plannedIds_planEvictions :
    planning.plannedIds ⊆ (planEvictions config required allocations planning).plannedIds := by
  induction allocations generalizing planning
  case nil => exact Finset.Subset.refl _
  case cons a rest hi =>
    rw [planEvictions]
    split
    case isTrue => exact Finset.Subset.refl _
    case isFalse =>
      split
      case isTrue  => exact hi
      case isFalse => exact fun _ hm => hi (Finset.mem_insert_of_mem hm)

-- It ends with enough actions, or with all candidates.
theorem planEvictions_complete :
    (planEvictions config required allocations planning).Done config required ∨
    ∀ a ∈ allocations, a.id ∈ (planEvictions config required allocations planning).plannedIds := by
  induction allocations generalizing planning
  case nil => exact .inr nofun
  case cons a rest hi =>
    rw [planEvictions]
    split
    case isTrue hd => exact .inl hd
    case isFalse =>
      split
      case isTrue hin =>
        exact hi.imp_right fun h => List.forall_mem_cons.mpr ⟨plannedIds_planEvictions hin, h⟩
      case isFalse =>
        refine hi.imp_right fun h => List.forall_mem_cons.mpr ⟨?_, h⟩
        exact plannedIds_planEvictions (Finset.mem_insert_self ..)

theorem planning_chosen (ht : s.Tidy) :
    (Memory.planning config s tier required eligible).Chosen config s tier eligible required := by
  refine Planning.Chosen.planEvictions ?_ fun _ => id
  split
  case h_1 htop =>
    exact Planning.Chosen.empty.planDemotions htop ht (fun _ => id) (planCandidates_nodup ht)
      fun _ _ => Finset.notMem_empty _
  case h_2 => exact .empty

theorem planning_complete :
    (Memory.planning config s tier required eligible).Done config required ∨
    ∀ a ∈ planCandidates config s tier eligible,
      a.id ∈ (Memory.planning config s tier required eligible).plannedIds :=
  planEvictions_complete

theorem planning_order (ht : s.Tidy) :
    ∃ demotions evicted, (Memory.planning config s tier required eligible).actions =
        demotions ++ evicted.map ManagedAllocation.eviction ∧
      (∀ action ∈ demotions, action.claim.isSome) ∧
      evicted <+: (planCandidates config s tier eligible).filter
        (·.id ∉ demotions.map PressureAction.allocationId) := by
  have hnone (action) (hm : action ∈ Planning.empty.actions) : action.claim.isSome :=
    absurd hm List.not_mem_nil
  have ho : ∃ demotions : Planning, demotions.Chosen config s tier eligible required ∧
      (∀ action ∈ demotions.actions, action.claim.isSome) ∧
      Memory.planning config s tier required eligible =
        planEvictions config required (planCandidates config s tier eligible) demotions := by
    rw [Memory.planning]
    cases htop : config.topology
    case discrete =>
      exact ⟨_, Planning.Chosen.empty.planDemotions htop ht (fun _ => id) (planCandidates_nodup ht)
        fun _ _ => Finset.notMem_empty _, planDemotions_demotes hnone, rfl⟩
    case unified => exact ⟨_, .empty, hnone, rfl⟩
  obtain ⟨demotions, hc, hd, hp⟩ := ho
  have he : ∃ evicted, evicted <+: _ ∧
      (planEvictions config required (planCandidates config s tier eligible) demotions).actions =
        demotions.actions ++ _ :=
    planEvictions_order (planCandidates_nodup ht) fun a _ => hc.ids a.id
  obtain ⟨evicted, he, ha⟩ := he
  exact ⟨demotions.actions, evicted, hp ▸ ha, hd, he⟩

end Loops

-- The relief of a plan is a 64-bit number: it is memory that allocations take up.
section Bound

variable {config : MemoryManagerConfig} {s : ManagerState} {world : World} {tier : MemoryTier}
variable {actions : List PressureAction} {charges : Multiset (MemoryTier × Nat)}

theorem sum_bytesOn {pool : Finset MemoryTier} (h : ∀ charge ∈ charges, charge.1 ∈ pool) :
    ∑ tier ∈ pool, bytesOn charges tier = (charges.map Prod.snd).sum := by
  induction charges using Multiset.induction_on
  case empty => exact Finset.sum_eq_zero fun _ _ => rfl
  case cons charge charges hi =>
    simp only [bytesOn_cons, Finset.sum_add_distrib, Finset.sum_ite_eq]
    rw [if_pos (h _ (Multiset.mem_cons_self ..)), hi fun c hm => h c (Multiset.mem_cons_of_mem hm),
      Multiset.map_cons, Multiset.sum_cons]

-- The bytes that distinct allocations have on a tier are allocated there.
theorem bytesOn_relief_le (hd : (actions.map (·.allocationId)).Nodup)
    (hp : ∀ action ∈ actions, ∃ placement, s.placements[action.allocationId]? = some placement ∧
      placement.tier = action.tier ∧ placement.bytes = action.bytes) :
    bytesOn (actions.map PressureAction.relief) tier ≤ s.allocatedOn tier := by
  induction actions generalizing s
  case nil => exact Nat.zero_le _
  case cons action rest hi =>
    have ⟨hd₁, hd₂⟩ := List.nodup_cons.mp hd
    have ⟨hp₁, hp₂⟩ := List.forall_mem_cons.mp hp
    have ⟨placement, hl, ht, hy⟩ := hp₁
    have hr := hi (s := s.remove action.allocationId tier 0) hd₂ fun action' hm => by
      have ⟨placement', hl', he⟩ := hp₂ action' hm
      refine ⟨placement', ?_, he⟩
      rw [placements_remove, getElem?_erase, if_neg, hl']
      intro hc
      exact hd₁ (List.mem_map.mpr ⟨action', hm, (LawfulEqCmp.eq_of_compare hc).symm⟩)
    rw [List.map_cons, ←Multiset.cons_coe, bytesOn_cons, allocatedOn_remove hl, ht, hy]
    exact Nat.add_le_add_left hr _

theorem reliefOf_eq : reliefOf actions =
    ((actions.map PressureAction.relief : Multiset (MemoryTier × Nat)).map Prod.snd).sum := by
  rw [Multiset.map_coe, Multiset.sum_coe, List.map_map]
  rfl

end Bound

-- A plan over the accounts of `s` that is to relieve `required` bytes.
structure PressureActionPlan.WellFormed (config : MemoryManagerConfig) (s : ManagerState)
    (tier : MemoryTier) (eligible : Option (Finset AllocationId)) (required : Nat)
    (plan : PressureActionPlan) : Prop where
  distinct   : (plan.actions.map (·.allocationId)).Nodup
  moves      : ∀ action ∈ plan.actions, ∃ allocation,
                 Candidate config s tier eligible allocation ∧ action.Moves config allocation
  limit      : plan.actions.length ≤ config.maxActionsPerCycle
  relief     : plan.plannedReliefBytes = (plan.actions.map (·.bytes)).sum
  unresolved : plan.unresolvedPressureBytes = required - plan.plannedReliefBytes
  minimal    : ∀ earlier last, plan.actions = earlier ++ [last] →
                 (earlier.map (·.bytes)).sum < required
  fits       : ∀ earlier action, earlier ++ [action] <+: plan.actions →
                 ∀ claim ∈ action.claim, canAcceptBytes s claim.1 claim.2
                   (incoming earlier claim.1) config.topology config.thresholds
  order      : ∃ (candidates evicted : List ManagedAllocation) (demotions : List PressureAction),
                 candidates.Pairwise (leastRecentlyUsed · ·) ∧ candidates.Nodup ∧
                 (∀ allocation, allocation ∈ candidates ↔
                   Candidate config s tier eligible allocation) ∧
                 plan.actions = demotions ++ evicted.map ManagedAllocation.eviction ∧
                 (∀ action ∈ demotions, action.claim.isSome) ∧
                 evicted <+: candidates.filter (·.id ∉ demotions.map PressureAction.allocationId)

-- What a plan is to relieve.
def requirement (config : MemoryManagerConfig) (s : ManagerState) (tier : MemoryTier)
    (account : TierAccount) (bytes : Nat) : Nat :=
  (targetBasisPoints config.thresholds account.pressure bytes).elim 0 fun target =>
    requiredRelief config s tier bytes target

section Plans

variable {config : MemoryManagerConfig} {world : World} {s : ManagerState} {tier : MemoryTier}
variable {eligible : Option (Finset AllocationId)} {required bytes now : Nat}
variable {plan : PressureActionPlan} {telemetry : Telemetry} {account : TierAccount}

theorem placement_of_candidate {allocation} {action : PressureAction}
    (hc : Candidate config s tier eligible allocation) (ha : action.Moves config allocation) :
    s.placements[action.allocationId]? = some allocation.toPlacement ∧
      allocation.tier = action.tier ∧ allocation.bytes = action.bytes :=
  ⟨ha.id_eq ▸ placement_of_allocation hc.stored, ha.tier_eq.symm, ha.bytes_eq.symm⟩

theorem candidate_mem_pool {allocation} (h : world.Covered config)
    (hc : Candidate config world.state tier eligible allocation) :
    allocation.tier ∈ config.pool tier := by
  rw [MemoryManagerConfig.pool]
  split
  case h_1 htop =>
    refine Finset.mem_singleton.mpr (hc.placed.resolve_left fun hu => ?_)
    rw [htop] at hu
    cases hu
  case h_2 =>
    have hm := h.exclusive.configured _ _ (placement_of_allocation hc.stored)
    rw [←keySet_tiers h.budgets, mem_keySet_iff]
    exact mem_balances.mp hm

-- The relief of actions on candidates, tier by tier.
theorem reliefOf_eq_sum {actions : List PressureAction} (h : world.Covered config)
    (hm : ∀ action ∈ actions, ∃ allocation, Candidate config world.state tier eligible allocation ∧
      action.Moves config allocation) :
    reliefOf actions =
      ∑ tier ∈ config.pool tier, bytesOn (actions.map PressureAction.relief) tier := by
  refine reliefOf_eq.trans (sum_bytesOn fun charge hc => ?_).symm
  have ⟨action, ha, he⟩ := List.mem_map.mp (Multiset.mem_coe.mp hc)
  have ⟨allocation, hc, hv⟩ := hm action ha
  have ht : action.tier = allocation.tier := hv.tier_eq
  rw [←he, PressureAction.relief, ht]
  exact candidate_mem_pool h hc

theorem relief_le_allocatedOn {actions : List PressureAction} {tier' : MemoryTier}
    (hd : (actions.map (·.allocationId)).Nodup)
    (hm : ∀ action ∈ actions, ∃ allocation, Candidate config s tier eligible allocation ∧
      action.Moves config allocation) :
    bytesOn (actions.map PressureAction.relief) tier' ≤ s.allocatedOn tier' := by
  refine bytesOn_relief_le hd fun action ha => ?_
  have ⟨allocation, hc, hv⟩ := hm action ha
  exact ⟨_, placement_of_candidate hc hv⟩

theorem reliefOf_le_u64Max {actions : List PressureAction} (h : world.Covered config)
    (ht : tier ∈ config.tiers) (hd : (actions.map (·.allocationId)).Nodup)
    (hm : ∀ action ∈ actions, ∃ allocation, Candidate config world.state tier eligible allocation ∧
      action.Moves config allocation) : reliefOf actions ≤ u64Max := by
  have ⟨budget, hb, hb'⟩ := List.mem_map.mp (List.mem_toFinset.mp ht)
  calc
    reliefOf actions = _ := reliefOf_eq_sum h hm
    _ ≤ world.usage (config.pool tier) :=
      Finset.sum_le_sum fun _ _ => (relief_le_allocatedOn hd hm).trans (Nat.le_add_right ..)
    _ ≤ budget.bytes := hb' ▸ World.usage_le_budget h.solvent hb
    _ ≤ u64Max       := budget.bytes_le

theorem drawnPlan_wellFormed {pressure} (h : world.Covered config) (hs : world.state.Tidy)
    (ht : tier ∈ config.tiers) :
    (drawnPlan config world.state tier pressure required eligible).WellFormed config world.state
      tier eligible required := by
  have hc : (planning config world.state tier required eligible).Chosen config _ _ _ _ :=
    planning_chosen hs
  have hm (action) (ha : action ∈ (planning config world.state tier required eligible).actions) :
      ∃ allocation, Candidate config world.state tier eligible allocation ∧
        action.Moves config allocation := by
    have ⟨allocation, hm, hv⟩ := hc.moves action ha
    exact ⟨allocation, (mem_planCandidates hs).mp hm, hv⟩
  have hu := reliefOf_le_u64Max h ht hc.distinct hm
  constructor
  case distinct   => exact hc.distinct
  case moves      => exact hm
  case limit      => exact hc.limit
  case relief     => exact hc.relieved.trans (Nat.min_eq_left hu)
  case unresolved => rfl
  case minimal    =>
    intro earlier last he
    have hp := hc.minimal earlier last ⟨[], (List.append_nil _).trans he.symm⟩
    have hr : reliefOf earlier ≤ u64Max := by
      have he' : (planning config world.state tier required eligible).actions = _ := he
      rw [he', reliefOf_concat] at hu
      omega
    rwa [Nat.min_eq_left hr] at hp
  case fits       => exact hc.fits
  case order      =>
    have ho : ∃ demotions evicted,
      (planning config world.state tier required eligible).actions = _ ∧ _ ∧ _ := planning_order hs
    have ⟨demotions, evicted, he, hd, hp⟩ := ho
    exact ⟨_, evicted, demotions, planCandidates_sorted, (planCandidates_nodup hs).of_map _,
      fun _ => mem_planCandidates hs, he, hd, hp⟩

theorem emptyActionPlan_wellFormed {pressure} (ht : s.Tidy) :
    (emptyActionPlan tier pressure false).WellFormed config s tier eligible 0 where
  distinct       := .nil
  moves _ hm     := absurd hm List.not_mem_nil
  limit          := Nat.zero_le _
  relief         := rfl
  unresolved     := rfl
  minimal _ _ he := absurd he.symm (List.concat_ne_nil _ _)
  fits _ _ hp    := absurd (List.prefix_nil.mp hp) (List.concat_ne_nil _ _)
  order          := ⟨_, [], [], planCandidates_sorted, (planCandidates_nodup ht).of_map _,
    fun _ => mem_planCandidates ht, rfl, nofun, List.nil_prefix⟩

-- The world in which a plan leaves the manager is reachable.
theorem reachable_planned (h : (system config).Reachable world)
    (hp : planPressureActionsFor config telemetry tier bytes eligible now world.state =
      (.ok plan, s)) : (system config).Reachable { world with state := s } := by
  by_cases hb : bytes = 0
  case pos =>
    have hr : (system config).Reachable
        (world.apply config (.planPressureActions telemetry tier eligible now)).2 :=
      reachable_apply h trivial
    rw [hb] at hp
    simpa only [World.apply, planPressureActions, hp, World.settle, World.report] using hr
  case neg =>
    have hr : (system config).Reachable
        (world.apply config (.planForReservation telemetry tier bytes eligible now)).2 :=
      reachable_apply h trivial
    simpa only [World.apply, planForReservation, if_neg hb, hp, World.settle, World.report] using hr

theorem planPressureActionsFor_outcome
    (hp : planPressureActionsFor config telemetry tier bytes eligible now world.state =
      (.ok plan, s)) :
    s = world.state.refreshed config telemetry ∧ ∃ account, s.tiers[tier]? = some account ∧
      Outcome config s tier bytes eligible account plan := by
  rw [planPressureActionsFor, withRefreshed] at hp
  split at hp
  case h_1 => cases hp
  case h_2 observations ho =>
    have hs := congrArg Prod.snd hp
    simp only at hs
    rw [hs] at hp
    have hr := congrArg Prod.fst hp
    refine ⟨by rw [ManagerState.refreshed, ho]; exact hs.symm, ?_⟩
    cases ha : s.tiers[tier]?
    case none =>
      rw [planRelief, ha] at hr
      cases hr
    case some account => exact ⟨account, rfl, planRelief_outcome ha hr⟩

theorem plan_wellFormed (h : (system config).Reachable world)
    (hp : planPressureActionsFor config telemetry tier bytes eligible now world.state =
      (.ok plan, s)) (hd : ¬plan.deferredByCooldown) :
    ∃ account, s.tiers[tier]? = some account ∧
      plan.WellFormed config s tier eligible (requirement config s tier account bytes) := by
  have hr := reachable_planned h hp
  have hc := (covered config).reachable hr
  have ht := ((tidy config).reachable hr).state
  have ⟨_, account, ha, ho⟩ := planPressureActionsFor_outcome hp
  have hm : tier ∈ config.tiers := by
    rw [←keySet_tiers hc.budgets, mem_keySet_iff]
    exact mem_of_lookup ha
  refine ⟨account, ha, ?_⟩
  rw [requirement]
  cases ho
  case relaxed hn =>
    rw [hn]
    exact emptyActionPlan_wellFormed ht
  case met target hn hz =>
    rw [hn, Option.elim_some, hz]
    exact emptyActionPlan_wellFormed ht
  case deferred => exact absurd rfl hd
  case drawn target hn _ =>
    rw [hn]
    exact drawnPlan_wellFormed hc ht hm

end Plans
end RuntimeControl.Memory
