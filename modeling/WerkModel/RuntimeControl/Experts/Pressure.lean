import WerkModel.RuntimeControl.Experts.Claims

-- What a plan for pressure relief consists of, and that it can be begun as a whole.
open Std ExtTreeMap Saturating

namespace RuntimeControl.Experts

open ExpertState ScoredCandidate

variable {φ : Type} [Score φ]

-- Scores that are compared by one total preorder.
class Score.Ordered (φ : Type) [Score φ] : Prop where
  trans  : TransCmp (Score.totalCmp (φ := φ))
  lt_iff : ∀ a b : φ, Score.lt a b ↔ Score.totalCmp a b = .lt
  le_iff : ∀ a b : φ, Score.le a b ↔ Score.totalCmp a b ≠ .gt

attribute [instance] Score.Ordered.trans

-- The bytes that actions are known to free.
def knownBytes (actions : List ExpertPolicyAction) : Nat :=
  (actions.map fun action => action.bytes.getD 0).sum

def ExpertPolicyAction.isMove (action : ExpertPolicyAction) : Bool :=
  action.targetTier.isSome

-- What is free to be moved or evicted under some pressure.
structure Eligible (config : ExpertResidencyConfig φ) (s : ExpertState φ)
    (request : ExpertPressureRequest) (now : Nat) (row : ScoredCandidate φ) : Prop where
  lookup   : s.lookup row.key = some row.expert
  hotness  : row.hotness = row.expert.decayedHotness now config.hotnessHalfLifeMillis
  tier     : row.expert.tier = request.sourceTier
  unpinned : row.expert.pinned = false
  free     : row.key ∉ s.pending
  policy   : request.level ≠ .emergency →
    row.expert.inCooldown now config.transitionCooldownMillis = false ∧ request.level ≠ .soft ∧
      Score.le row.hotness config.demoteHotness

-- The candidates that a plan does not demote, the coldest first.
structure ColdFirst (config : ExpertResidencyConfig φ) (s : ExpertState φ)
    (request : ExpertPressureRequest) (now : Nat) (actions : List ExpertPolicyAction)
    (order : List (ScoredCandidate φ)) : Prop where
  sorted   : order.Pairwise fun left right => coldOrder left right ≠ .gt
  distinct : (order.map ScoredCandidate.key).Nodup
  mem_iff  : ∀ row, row ∈ order ↔ Eligible config s request now row ∧
    ∀ action ∈ actions, action.isMove → action.key ≠ row.key

structure Relieves (config : ExpertResidencyConfig φ) (s : ExpertState φ)
    (request : ExpertPressureRequest) (now : Nat) (plan : ExpertPressurePlan) : Prop where
  distinct   : (plan.actions.map (·.key)).Nodup
  eligible   : ∀ action ∈ plan.actions, ∃ row, Eligible config s request now row ∧
    (action = row.evictFrom request.sourceTier ∨ action = row.moveTo .vram .ram)
  bounded    : plan.actions.length ≤ request.maxActions
  moves      : ∀ action ∈ plan.actions, action.isMove → request.sourceTier = .vram ∧
    action.bytes.isSome
  headroom   : knownBytes (plan.actions.filter (·.isMove)) ≤ request.ramHeadroomBytes
  known      : plan.knownPlannedReliefBytes = min (knownBytes plan.actions) u64Max
  unresolved : plan.unresolvedReliefBytes = request.reliefBytes - plan.knownPlannedReliefBytes
  soft       : request.level = .soft → plan.actions = []
  evictions  : ∃ order, ColdFirst config s request now plan.actions order ∧
    plan.actions.filter (!·.isMove) <+: order.map (·.evictFrom request.sourceTier)
  minimal    : ∀ rest action, plan.actions = rest ++ [action] → knownBytes rest < request.reliefBytes
  begins     : plan.actions ≠ [] → ∃ permit s', beginActions config plan.actions s = (.ok permit, s')

section Candidates

variable {config : ExpertResidencyConfig φ} {s : ExpertState φ} {request : ExpertPressureRequest}
variable {now : Nat} {row : ScoredCandidate φ} {candidates : List (ScoredCandidate φ)}

instance coldOrderTrans [Score.Ordered φ] : TransCmp (coldOrder (φ := φ)) :=
  let _ : Ord φ := ⟨Score.totalCmp⟩
  have : TransOrd φ := Score.Ordered.trans
  inferInstanceAs <| TransCmp <| compareLex (compareOn ScoredCandidate.hotness) <|
    compareLex (compareOn (·.expert.lastUsedMonotonicMillis)) <|
    compareLex (compareOn (·.key.modelId)) (compareOn (·.key.expertId))

theorem sorted_coldOrder [Score.Ordered φ] : (sort coldOrder candidates).Pairwise
    fun left right => coldOrder left right ≠ .gt := by
  have hle (left right : ScoredCandidate φ) :
      (coldOrder left right != .gt) = (coldOrder left right).isLE := by
    cases coldOrder left right <;> rfl
  refine (List.pairwise_mergeSort ?_ ?_ candidates).imp fun h => by simpa using h
  case refine_1 =>
    intro a b c hab hbc
    rw [hle] at *
    exact TransCmp.isLE_trans hab hbc
  case refine_2 =>
    intro a b
    have hs : coldOrder b a = (coldOrder a b).swap := OrientedCmp.eq_swap
    rw [hle, hle, hs]
    cases coldOrder a b <;> rfl

theorem pressureVerdict_iff [Score.Ordered φ] :
    row ∈ s.rows config now ∧ pressureVerdict config s request now row = .candidate ↔
      Eligible config s request now row := by
  rw [mem_rows, pressureVerdict]
  have hle : Score.lt config.demoteHotness row.hotness = false ↔
      Score.le row.hotness config.demoteHotness := by
    have hs : Score.totalCmp row.hotness config.demoteHotness =
      (Score.totalCmp config.demoteHotness row.hotness).swap := OrientedCmp.eq_swap
    rw [←Bool.not_eq_true, Score.Ordered.lt_iff, Score.Ordered.le_iff, hs]
    cases Score.totalCmp config.demoteHotness row.hotness <;> simp
  constructor
  case mp =>
    intro ⟨⟨hl, hh⟩, hv⟩
    split at hv <;> try cases hv
    split at hv <;> try cases hv
    split at hv <;> try cases hv
    split at hv <;> try cases hv
    split at hv <;> try cases hv
    refine ⟨hl, hh, ?_, ?_, ‹_›, fun he => ?_⟩
    all_goals simp_all
  case mpr =>
    intro h
    refine ⟨⟨h.lookup, h.hotness⟩, ?_⟩
    have hp := h.policy
    rw [if_neg (not_not.mpr h.tier), if_neg (by simp [h.unpinned]), if_neg h.free]
    by_cases he : request.level = .emergency
    case pos => simp [he]
    case neg =>
      have ⟨hc, hs, hl⟩ := hp he
      simp [hc, hs, hle.mpr hl]

end Candidates

section Drafts

variable {request : ExpertPressureRequest} {actions : List ExpertPolicyAction} {relief relief' : Nat}
variable {action : ExpertPolicyAction} {candidates : List (ScoredCandidate φ)}
variable {draft : PressureDraft}

omit [Score φ] in
@[simp]
theorem bytes_moveTo {row : ScoredCandidate φ} {source target : ExpertTier} :
    (row.moveTo source target).bytes = row.expert.bytes :=
  rfl

omit [Score φ] in
@[simp]
theorem bytes_evictFrom {row : ScoredCandidate φ} {source : ExpertTier} :
    (row.evictFrom source).bytes = row.expert.bytes :=
  rfl

@[simp]
theorem knownBytes_append {actions' : List ExpertPolicyAction} :
    knownBytes (actions ++ actions') = knownBytes actions + knownBytes actions' := by
  simp [knownBytes]

-- The actions that have been planned so far, where each of them was needed.
structure Needed (request : ExpertPressureRequest) (actions : List ExpertPolicyAction)
    (relief : Nat) : Prop where
  bounded : actions.length ≤ request.maxActions
  known   : relief = min (knownBytes actions) u64Max
  minimal : ∀ rest action, actions = rest ++ [action] → knownBytes rest < request.reliefBytes

theorem Needed.nil : Needed request [] 0 where
  bounded := Nat.zero_le _
  known   := (Nat.zero_min _).symm
  minimal rest action h := by simp at h

theorem Needed.push (h : Needed request draft.actions draft.knownRelief)
    (hr : request.reliefBytes ≤ u64Max) (hc : ¬draft.isComplete request)
    (hk : relief' = min (draft.knownRelief + action.bytes.getD 0) u64Max) :
    Needed request (draft.actions ++ [action]) relief' := by
  simp only [PressureDraft.isComplete, Bool.or_eq_true, decide_eq_true_eq, not_or, ge_iff_le, Nat.not_le] at hc
  have hknown := h.known
  refine ⟨?_, ?_, fun rest last he => ?_⟩
  case refine_1 =>
    rw [List.length_append]
    exact hc.1
  case refine_2 =>
    rw [hk, hknown, knownBytes_append]
    simp only [knownBytes, List.map_singleton, List.sum_singleton]
    omega
  case refine_3 =>
    have ⟨hrest, _⟩ := List.append_inj' he rfl
    subst hrest
    omega

omit [Score φ] in
theorem demote_spec (h : request.reliefBytes ≤ u64Max →
    Needed request draft.actions draft.knownRelief) :
    ∃ moved : List (ScoredCandidate φ), moved.Sublist candidates ∧
      (∀ row ∈ moved, row.expert.bytes.isSome) ∧
      (draft.demote request candidates).actions = draft.actions ++ moved.map (·.moveTo .vram .ram) ∧
      (∀ key, key ∈ (draft.demote request candidates).demoted ↔
        key ∈ draft.demoted ∨ key ∈ moved.map ScoredCandidate.key) ∧
      knownBytes (moved.map (·.moveTo .vram .ram)) ≤ draft.ramHeadroom ∧
      (request.reliefBytes ≤ u64Max → Needed request (draft.demote request candidates).actions
        (draft.demote request candidates).knownRelief) := by
  induction candidates generalizing draft
  case nil => exact ⟨[], .slnil, by simpa [PressureDraft.demote, knownBytes] using h⟩
  case cons row rest hi =>
    rw [PressureDraft.demote]
    split
    case isTrue => exact ⟨[], List.nil_sublist _, by simpa [knownBytes] using h⟩
    case isFalse hc =>
      split
      case h_1 =>
        obtain ⟨moved, hs, hm⟩ := hi h
        exact ⟨moved, hs.cons _, hm⟩
      case h_2 bytes hb =>
        split
        case isTrue =>
          obtain ⟨moved, hs, hm⟩ := hi h
          exact ⟨moved, hs.cons _, hm⟩
        case isFalse hl =>
          let draft' : PressureDraft := { draft with
            actions     := draft.actions ++ [row.moveTo .vram .ram]
            knownRelief := add u64Max draft.knownRelief bytes
            ramHeadroom := draft.ramHeadroom - bytes
            demoted     := insert row.key draft.demoted }
          have hn (hr : request.reliefBytes ≤ u64Max) :
              Needed request draft'.actions draft'.knownRelief :=
            (h hr).push hr hc <| by simp [draft', hb, add]
          obtain ⟨moved, hs, hm, ha, hd, hh, hn⟩ := hi hn
          refine ⟨row :: moved, hs.cons_cons _, ?_, ?_, fun key => ?_, ?_, hn⟩
          case refine_1 => exact List.forall_mem_cons.mpr ⟨by simp [hb], hm⟩
          case refine_2 => simp [ha, draft']
          case refine_3 =>
            rw [hd]
            simp only [draft', Finset.mem_insert, List.map_cons, List.mem_cons]
            tauto
          case refine_4 =>
            simp only [knownBytes, List.map_cons, List.sum_cons, bytes_moveTo, hb,
              Option.getD_some, draft'] at hh ⊢
            omega

omit [Score φ] in
theorem evict_spec (h : request.reliefBytes ≤ u64Max →
    Needed request draft.actions draft.knownRelief) :
    ∃ evicted : List (ScoredCandidate φ),
      evicted <+: candidates.filter (fun row => row.key ∉ draft.demoted) ∧
      (draft.evict request candidates).actions =
        draft.actions ++ evicted.map (·.evictFrom request.sourceTier) ∧
      (request.reliefBytes ≤ u64Max → Needed request (draft.evict request candidates).actions
        (draft.evict request candidates).knownRelief) := by
  induction candidates generalizing draft
  case nil => exact ⟨[], List.nil_prefix, by simpa [PressureDraft.evict] using h⟩
  case cons row rest hi =>
    rw [PressureDraft.evict]
    split
    case isTrue => exact ⟨[], List.nil_prefix, by simpa using h⟩
    case isFalse hc =>
      split
      case isTrue hd =>
        rw [List.filter_cons_of_neg (by simpa using hd)]
        exact hi h
      case isFalse hd =>
        rw [List.filter_cons_of_pos (by simpa using hd)]
        dsimp only
        split
        case h_1 hb =>
          let draft' : PressureDraft := { draft with
            actions            := draft.actions ++ [row.evictFrom request.sourceTier]
            unknownSizeActions := draft.unknownSizeActions + 1 }
          have hn (hr : request.reliefBytes ≤ u64Max) :
              Needed request draft'.actions draft'.knownRelief := by
            have := (h hr).known
            refine (h hr).push hr hc ?_
            simp only [draft', bytes_evictFrom, hb, Option.getD_none]
            omega
          have ⟨evicted, hp, ha, hn⟩ := hi hn
          exact ⟨row :: evicted, List.cons_prefix_cons.mpr ⟨rfl, hp⟩, by simp [ha, draft'], hn⟩
        case h_2 bytes hb =>
          let draft' : PressureDraft := { draft with
            actions     := draft.actions ++ [row.evictFrom request.sourceTier]
            knownRelief := add u64Max draft.knownRelief bytes }
          have hn (hr : request.reliefBytes ≤ u64Max) :
              Needed request draft'.actions draft'.knownRelief :=
            (h hr).push hr hc <| by simp [draft', hb, add]
          have ⟨evicted, hp, ha, hn⟩ := hi hn
          exact ⟨row :: evicted, List.cons_prefix_cons.mpr ⟨rfl, hp⟩, by simp [ha, draft'], hn⟩

end Drafts

section Plans

variable {config : ExpertResidencyConfig φ} {s : ExpertState φ} {request : ExpertPressureRequest}
variable {now : Nat} {plan : ExpertPressurePlan} {row : ScoredCandidate φ}
variable {actions : List ExpertPolicyAction} {action : ExpertPolicyAction}

-- The candidates of a plan, the coldest first.
def coldCandidates (config : ExpertResidencyConfig φ) (s : ExpertState φ)
    (request : ExpertPressureRequest) (now : Nat) : List (ScoredCandidate φ) :=
  sort coldOrder <| (s.rows config now).filter fun row =>
    pressureVerdict config s request now row = .candidate

theorem mem_coldCandidates_rows : row ∈ coldCandidates config s request now ↔
    row ∈ s.rows config now ∧ pressureVerdict config s request now row = .candidate := by
  rw [coldCandidates, sort, (List.mergeSort_perm ..).mem_iff, List.mem_filter, decide_eq_true_iff]

theorem mem_coldCandidates [Score.Ordered φ] :
    row ∈ coldCandidates config s request now ↔ Eligible config s request now row :=
  mem_coldCandidates_rows.trans pressureVerdict_iff

theorem nodup_coldCandidates :
    ((coldCandidates config s request now).map ScoredCandidate.key).Nodup := by
  rw [coldCandidates, sort, ((List.mergeSort_perm ..).map _).nodup_iff]
  exact (List.filter_sublist.map _).nodup nodup_rows

-- A plan consists of demotions and of evictions of other candidates.
structure Drawn (config : ExpertResidencyConfig φ) (s : ExpertState φ)
    (request : ExpertPressureRequest) (now : Nat) (plan : ExpertPressurePlan)
    (demoted evicted : List (ScoredCandidate φ)) : Prop where
  actions    : plan.actions = demoted.map (·.moveTo .vram .ram) ++
    evicted.map (·.evictFrom request.sourceTier)
  sublist    : demoted.Sublist (coldCandidates config s request now)
  tier       : demoted ≠ [] → request.sourceTier = .vram
  sized      : ∀ row ∈ demoted, row.expert.bytes.isSome
  headroom   : knownBytes (demoted.map (·.moveTo .vram .ram)) ≤ request.ramHeadroomBytes
  coldest    : evicted <+: (coldCandidates config s request now).filter
    fun row => row.key ∉ demoted.map ScoredCandidate.key
  needed     : request.reliefBytes ≤ u64Max →
    Needed request plan.actions plan.knownPlannedReliefBytes
  unresolved : plan.unresolvedReliefBytes = request.reliefBytes - plan.knownPlannedReliefBytes
  limit      : request.maxActions ≤ config.maxActions
  source     : request.sourceTier ≠ .external

theorem validateActionLimit_ok {limit maximum : Nat} (h : validateActionLimit limit maximum = .ok ()) :
    0 < limit ∧ limit ≤ maximum := by
  rw [validateActionLimit] at h
  split at h
  case isTrue    => cases h
  case isFalse h => omega

theorem planPressure_drawn (h : planPressure config request now s = .ok plan) :
    ∃ demoted evicted, Drawn config s request now plan demoted evicted := by
  rw [planPressure] at h
  cases hl : validateActionLimit request.maxActions config.maxActions
  case error => simp [hl, bind, Except.bind] at h
  case ok =>
    have ⟨_, hl'⟩ := validateActionLimit_ok hl
    simp only [hl, bind, Except.bind] at h
    split at h
    case isTrue      => cases h
    case isFalse hne =>
      cases h
      let draft : PressureDraft := ⟨[], 0, 0, request.ramHeadroomBytes, ∅⟩
      let candidates := coldCandidates config s request now
      by_cases hv : request.sourceTier = .vram
      case pos =>
        have ⟨demoted, hm, hs, ha, hd, hh, hn⟩ := @demote_spec _ request candidates draft fun _ => .nil
        have ⟨evicted, hp, he, hn⟩ := @evict_spec _ request candidates _ hn
        have hd : (fun row => decide (row.key ∉ (draft.demote request candidates).demoted)) =
            fun row : ScoredCandidate φ => decide (row.key ∉ demoted.map ScoredCandidate.key) := by
          funext row
          simp [hd, draft]
        rw [hd] at hp
        refine ⟨demoted, evicted, ?_, hm, fun _ => hv, hs, hh, hp, ?_, rfl, hl', hne⟩
        case refine_1 =>
          rw [ha] at he
          simp only [if_pos hv]
          exact he
        case refine_2 =>
          simp only [if_pos hv]
          exact hn
      case neg =>
        have ⟨evicted, hp, he, hn⟩ := @evict_spec _ request candidates draft fun _ => .nil
        refine ⟨[], evicted, ?_, List.nil_sublist _, fun hc => absurd rfl hc, by simp, ?_, ?_, ?_,
          rfl, hl', hne⟩
        case refine_1 =>
          simp only [if_neg hv]
          exact he
        case refine_2 => exact Nat.zero_le _
        case refine_3 => simpa [draft] using hp
        case refine_4 =>
          simp only [if_neg hv]
          exact hn

variable {demoted evicted : List (ScoredCandidate φ)}

omit [Score φ] in
theorem validatePlannedActions_of_valid {unique : Finset ExpertKey}
    (hn : (actions.map (·.key)).Nodup) (hu : ∀ action ∈ actions, action.key ∉ unique)
    (hv : ∀ action ∈ actions, validatePlannedAction s action = .ok ()) :
    validatePlannedActions s unique actions = .ok () := by
  induction actions generalizing unique
  case nil => rfl
  case cons action rest hi =>
    have ⟨hne, hn⟩ := List.nodup_cons.mp hn
    have ⟨hua, hu⟩ := List.forall_mem_cons.mp hu
    have ⟨hva, hv⟩ := List.forall_mem_cons.mp hv
    rw [validatePlannedActions, if_neg hua, hva]
    refine hi hn (fun other ho hm => ?_) hv
    cases Finset.mem_insert.mp hm
    case inl he => exact hne <| List.mem_map.mpr ⟨other, ho, he⟩
    case inr hm => exact hu other ho hm

omit [Score φ] in
theorem validateEviction_of {expert : TrackedExpert φ} {key : ExpertKey}
    (ht : expert.tier ≠ .external) (hp : expert.pinned = false) :
    validateEviction expert key = .ok () := by
  rw [validateEviction, if_neg ht, if_neg (by simp [hp])]

omit [Score φ] in
theorem beginActions_of_valid (hn : (actions.map (·.key)).Nodup)
    (hl : 0 < actions.length ∧ actions.length ≤ config.maxActions)
    (hv : ∀ action ∈ actions, validatePlannedAction s action = .ok ()) :
    beginActions config actions s =
      (.ok ⟨actions⟩, { s with pending := keysOf actions ∪ s.pending }) := by
  have ha : validateActionLimit actions.length config.maxActions = .ok () :=
    if_neg (by omega)
  rw [beginActions, ha, validatePlannedActions_of_valid hn (fun _ _ => Finset.notMem_empty _) hv]

namespace Drawn

variable (d : Drawn config s request now plan demoted evicted)

include d

theorem eligible_demoted [Score.Ordered φ] (h : row ∈ demoted) :
    Eligible config s request now row :=
  mem_coldCandidates.mp <| d.sublist.subset h

theorem eligible_evicted [Score.Ordered φ] (h : row ∈ evicted) :
    Eligible config s request now row :=
  mem_coldCandidates.mp <| List.mem_of_mem_filter <| d.coldest.subset h

theorem mem_actions : action ∈ plan.actions ↔ (∃ row ∈ demoted, action = row.moveTo .vram .ram) ∨
    ∃ row ∈ evicted, action = row.evictFrom request.sourceTier := by
  rw [d.actions]
  simp [eq_comm]

theorem distinct : (plan.actions.map (·.key)).Nodup := by
  have hk : plan.actions.map (·.key) =
      demoted.map ScoredCandidate.key ++ evicted.map ScoredCandidate.key := by
    rw [d.actions, List.map_append, List.map_map, List.map_map]
    rfl
  rw [hk, List.nodup_append']
  refine ⟨(d.sublist.map _).nodup nodup_coldCandidates, ?_, fun key hd he => ?_⟩
  case refine_1 =>
    exact (((d.coldest.sublist).trans List.filter_sublist).map _).nodup nodup_coldCandidates
  case refine_2 =>
    have ⟨row, hm, hr⟩ := List.mem_map.mp he
    have hn := (List.mem_filter.mp (d.coldest.subset hm)).2
    exact of_decide_eq_true hn (hr ▸ hd)

theorem filter_isMove : plan.actions.filter (·.isMove) = demoted.map (·.moveTo .vram .ram) := by
  rw [d.actions, List.filter_append, List.filter_eq_self.mpr, List.filter_eq_nil_iff.mpr,
    List.append_nil]
  all_goals simp [moveTo, evictFrom, ExpertPolicyAction.isMove, ExpertPolicyAction.targetTier]

theorem filter_not_isMove : plan.actions.filter (!·.isMove) =
    evicted.map (·.evictFrom request.sourceTier) := by
  rw [d.actions, List.filter_append, List.filter_eq_nil_iff.mpr, List.filter_eq_self.mpr,
    List.nil_append]
  all_goals simp [moveTo, evictFrom, ExpertPolicyAction.isMove, ExpertPolicyAction.targetTier]

theorem coldFirst [Score.Ordered φ] : ColdFirst config s request now plan.actions <|
    (coldCandidates config s request now).filter
      fun row => row.key ∉ demoted.map ScoredCandidate.key where
  sorted      := sorted_coldOrder.filter _
  distinct    := (List.filter_sublist.map _).nodup nodup_coldCandidates
  mem_iff row := by
    rw [List.mem_filter, mem_coldCandidates, decide_eq_true_iff]
    refine and_congr_right fun _ => ⟨fun hn action ha hm he => hn ?_, fun h hm => ?_⟩
    case refine_1 =>
      have hm : action ∈ plan.actions.filter (·.isMove) := List.mem_filter.mpr ⟨ha, hm⟩
      rw [d.filter_isMove] at hm
      have ⟨other, ho, hr⟩ := List.mem_map.mp hm
      exact List.mem_map.mpr ⟨other, ho, he ▸ hr ▸ rfl⟩
    case refine_2 =>
      have ⟨other, ho, hr⟩ := List.mem_map.mp hm
      exact h _ (d.mem_actions.mpr <| .inl ⟨other, ho, rfl⟩) rfl hr

-- The state backs every action of the plan.
theorem valid [Score.Ordered φ] (h : action ∈ plan.actions) :
    validatePlannedAction s action = .ok () := by
  obtain ⟨row, hm, rfl⟩ | ⟨row, hm, rfl⟩ := d.mem_actions.mp h
  case inl =>
    have he := d.eligible_demoted hm
    have ht : row.expert.tier = .vram := he.tier.trans <| d.tier <| List.ne_nil_of_mem hm
    have hs : isStale row.expert (row.moveTo .vram .ram) = false := by
      simp [isStale, moveTo, ExpertPolicyAction.revision, ExpertPolicyAction.sourceTier,
        ExpertPolicyAction.bytes, ht]
    have hf : (row.moveTo .vram .ram).key ∉ s.pending := he.free
    have hl : s.lookupExpert (row.moveTo .vram .ram).key = .ok row.expert :=
      lookupExpert_of_lookup he.lookup
    rw [validatePlannedAction, if_neg hf, hl]
    simp only [hs]
    rfl
  case inr =>
    have he := d.eligible_evicted hm
    have hs : isStale row.expert (row.evictFrom request.sourceTier) = false := by
      simp [isStale, evictFrom, ExpertPolicyAction.revision, ExpertPolicyAction.sourceTier,
        ExpertPolicyAction.bytes, he.tier]
    have hf : (row.evictFrom request.sourceTier).key ∉ s.pending := he.free
    have hl : s.lookupExpert (row.evictFrom request.sourceTier).key = .ok row.expert :=
      lookupExpert_of_lookup he.lookup
    rw [validatePlannedAction, if_neg hf, hl]
    simp only [hs]
    exact validateEviction_of (he.tier.trans_ne d.source) he.unpinned

end Drawn

theorem pressure_plans [Score.Ordered φ] (hr : request.reliefBytes ≤ u64Max)
    (h : planPressure config request now s = .ok plan) : Relieves config s request now plan := by
  have ⟨demoted, evicted, d⟩ := planPressure_drawn h
  have hn := d.needed hr
  refine ⟨d.distinct, fun action ha => ?_, hn.bounded, fun action ha hm => ?_, ?_, hn.known,
    d.unresolved, fun hs => ?_, ⟨_, d.coldFirst, ?_⟩, hn.minimal, fun hne => ⟨_, _,
      beginActions_of_valid d.distinct ⟨List.length_pos_iff.mpr hne, hn.bounded.trans d.limit⟩
        fun _ => d.valid⟩⟩
  case refine_1 =>
    obtain ⟨row, hm, rfl⟩ | ⟨row, hm, rfl⟩ := d.mem_actions.mp ha
    case inl => exact ⟨row, d.eligible_demoted hm, .inr rfl⟩
    case inr => exact ⟨row, d.eligible_evicted hm, .inl rfl⟩
  case refine_2 =>
    have hm : action ∈ plan.actions.filter (·.isMove) := List.mem_filter.mpr ⟨ha, hm⟩
    rw [d.filter_isMove] at hm
    have ⟨row, ho, hr⟩ := List.mem_map.mp hm
    exact ⟨d.tier <| List.ne_nil_of_mem ho, hr ▸ d.sized row ho⟩
  case refine_3 =>
    rw [d.filter_isMove]
    exact d.headroom
  case refine_4 =>
    have hnone (row : ScoredCandidate φ) : ¬Eligible config s request now row := fun he =>
      (he.policy <| by simp [hs]).2.1 hs
    rw [d.actions, List.eq_nil_iff_forall_not_mem.mpr fun row hm => hnone row <|
      d.eligible_demoted hm, List.eq_nil_iff_forall_not_mem.mpr fun row hm => hnone row <|
      d.eligible_evicted hm]
    rfl
  case refine_5 =>
    rw [d.filter_not_isMove]
    exact d.coldest.map _

end Plans

section Examples

instance exactScoreOrdered : Score.Ordered ℚ where
  trans      := inferInstanceAs <| TransCmp (compare : ℚ → ℚ → Ordering)
  lt_iff _ _ := decide_eq_true_iff.trans compare_lt_iff_lt.symm
  le_iff _ _ := decide_eq_true_iff.trans compare_le_iff_le.symm

def emergency (maxActions : Nat) : ExpertPressureRequest where
  sourceTier       := .vram
  level            := .emergency
  reliefBytes      := u64Max
  ramHeadroomBytes := 0
  maxActions       := maxActions

theorem pressure_plans_small : ∃ plan, planPressure smallConfig (emergency 1) 0 observedWorld.state =
    .ok plan ∧ Relieves smallConfig observedWorld.state (emergency 1) 0 plan := by
  have hp : (planPressure smallConfig (emergency 1) 0 observedWorld.state).isOk := by decide +kernel
  cases h : planPressure smallConfig (emergency 1) 0 observedWorld.state
  case error => simp [h, Except.isOk, Except.toBool] at hp
  case ok plan => exact ⟨plan, rfl, pressure_plans le_rfl h⟩

def largeConfig : ExpertResidencyConfig ℚ :=
  { smallConfig with maxActions := 2 }

def observeLarge (expertId : String) : Operation ℚ :=
  .observe ⟨"model", expertId, .vram, some (u64Max - 1)⟩ 0

def largeWorld : World ℚ :=
  ((World.new.apply largeConfig <| observeLarge "a").2.apply largeConfig <| observeLarge "b").2

-- The known relief of a plan saturates.
theorem pressure_saturates : (system largeConfig).Reachable largeWorld ∧ ∃ plan,
    planPressure largeConfig (emergency 2) 0 largeWorld.state = .ok plan ∧
      plan.knownPlannedReliefBytes ≠ knownBytes plan.actions := by
  have hi : (system largeConfig).Reachable World.new := .init ⟨by decide +kernel, rfl⟩
  have ha : (system largeConfig).Reachable (World.new.apply largeConfig <| observeLarge "a").2 :=
    hi.step (i := observeLarge "a") ⟨trivial, rfl⟩
  have hs : coldCandidates largeConfig largeWorld.state (emergency 2) 0 =
      largeWorld.state.rows largeConfig 0 := by
    have hc : (largeWorld.state.rows largeConfig 0).filter (fun row =>
        pressureVerdict largeConfig largeWorld.state (emergency 2) 0 row = .candidate) =
        largeWorld.state.rows largeConfig 0 :=
      List.filter_eq_self.mpr <| List.all_eq_true.mp <| by decide +kernel
    rw [coldCandidates, hc]
    exact List.mergeSort_of_pairwise <| by decide +kernel
  have hp : (planPressure largeConfig (emergency 2) 0 largeWorld.state).toOption.any fun plan =>
      plan.knownPlannedReliefBytes ≠ knownBytes plan.actions := by
    rw [coldCandidates] at hs
    simp only [planPressure, hs]
    decide +kernel
  refine ⟨ha.step (i := observeLarge "b") ⟨trivial, rfl⟩, ?_⟩
  cases h : planPressure largeConfig (emergency 2) 0 largeWorld.state
  case error   => simp [h, Except.toOption] at hp
  case ok plan => exact ⟨plan, rfl, by simpa [h, Except.toOption] using hp⟩

end Examples
end RuntimeControl.Experts
