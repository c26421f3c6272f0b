import WerkModel.RuntimeControl.Experts.Residency

-- The plans of the residency policy. Planning only reads the state.
open Std ExtTreeMap Saturating

namespace RuntimeControl.Experts

variable {φ : Type} [Score φ]

inductive ExpertPressureLevel
  | soft
  | hard
  | emergency
  deriving DecidableEq

structure ExpertPressureRequest where
  sourceTier       : ExpertTier
  level            : ExpertPressureLevel
  reliefBytes      : Nat
  ramHeadroomBytes : Nat
  maxActions       : Nat

structure ExpertCandidatePlan where
  targetTier           : ExpertTier
  actions              : List ExpertPolicyAction
  deferredByCooldown   : Nat
  deferredByHysteresis : Nat
  protectedByPin       : Nat
  inFlight             : Nat

structure ExpertPressurePlan where
  sourceTier              : ExpertTier
  level                   : ExpertPressureLevel
  actions                 : List ExpertPolicyAction
  requestedReliefBytes    : Nat
  knownPlannedReliefBytes : Nat
  unresolvedReliefBytes   : Nat
  unknownSizeActions      : Nat
  deferredByCooldown      : Nat
  deferredByHysteresis    : Nat
  protectedByPin          : Nat
  inFlight                : Nat

-- What the policy makes of a tracked expert.
inductive Verdict
  | elsewhere
  | pinned
  | inFlight
  | cooldown
  | hysteresis
  | candidate
  deriving DecidableEq

structure ScoredCandidate (φ : Type) where
  key     : ExpertKey
  expert  : TrackedExpert φ
  hotness : φ

namespace ScoredCandidate

def idOrder (left right : ScoredCandidate φ) : Ordering :=
  (compare left.key.modelId right.key.modelId).then <|
    compare left.key.expertId right.key.expertId

def coldOrder (left right : ScoredCandidate φ) : Ordering :=
  (Score.totalCmp left.hotness right.hotness).then <|
    (compare left.expert.lastUsedMonotonicMillis right.expert.lastUsedMonotonicMillis).then <|
    idOrder left right

def hotOrder (left right : ScoredCandidate φ) : Ordering :=
  (Score.totalCmp right.hotness left.hotness).then <|
    (compare right.expert.lastUsedMonotonicMillis left.expert.lastUsedMonotonicMillis).then <|
    idOrder left right

def sort (order : ScoredCandidate φ → ScoredCandidate φ → Ordering)
    (candidates : List (ScoredCandidate φ)) : List (ScoredCandidate φ) :=
  candidates.mergeSort fun left right => order left right != .gt

def sortMovementCandidates (candidates : List (ScoredCandidate φ)) (target : ExpertTier) :
    List (ScoredCandidate φ) :=
  sort (if target = .vram then hotOrder else coldOrder) candidates

def moveTo (candidate : ScoredCandidate φ) (source target : ExpertTier) : ExpertPolicyAction :=
  .move candidate.key source target candidate.expert.bytes candidate.expert.revision

def evictFrom (candidate : ScoredCandidate φ) (source : ExpertTier) : ExpertPolicyAction :=
  .evict candidate.key source candidate.expert.bytes candidate.expert.revision

end ScoredCandidate

open ScoredCandidate

variable (config : ExpertResidencyConfig φ)

def ExpertState.rows (s : ExpertState φ) (now : Nat) : List (ScoredCandidate φ) :=
  s.models.toList.flatMap fun (modelId, experts) =>
    experts.toList.map fun (expertId, expert) =>
      ⟨⟨modelId, expertId⟩, expert, expert.decayedHotness now config.hotnessHalfLifeMillis⟩

section Rows

variable {config} {s : ExpertState φ} {now : Nat} {row : ScoredCandidate φ}

-- The rows are the tracked experts.
theorem ExpertState.mem_rows :
    row ∈ s.rows config now ↔ s.lookup row.key = some row.expert ∧
      row.hotness = row.expert.decayedHotness now config.hotnessHalfLifeMillis := by
  rw [rows, List.mem_flatMap, lookup_eq_some]
  constructor
  case mp =>
    intro ⟨entry, hm, hr⟩
    have ⟨e, he, h⟩ := List.mem_map.mp hr
    cases h
    exact ⟨⟨_, mem_toList_iff_getElem?_eq_some.mp hm, mem_toList_iff_getElem?_eq_some.mp he⟩, rfl⟩
  case mpr =>
    intro ⟨⟨experts, hm, he⟩, hh⟩
    refine ⟨_, mem_toList_iff_getElem?_eq_some.mpr hm, List.mem_map.mpr ?_⟩
    exact ⟨_, mem_toList_iff_getElem?_eq_some.mpr he, by simp only [←hh]⟩

theorem ExpertState.nodup_rows : ((s.rows config now).map ScoredCandidate.key).Nodup := by
  rw [rows, List.map_flatMap, List.nodup_flatMap]
  constructor
  case left =>
    intro entry _
    rw [List.map_map]
    refine List.Nodup.of_map ExpertKey.expertId ?_
    rw [List.map_map]
    exact map_fst_toList_eq_keys (t := entry.2) ▸ nodup_keys
  case right =>
    have hd := List.pairwise_map.mp <| map_fst_toList_eq_keys (t := s.models) ▸ nodup_keys
    refine hd.imp fun hne key h h' => hne ?_
    simp only [List.map_map, List.mem_map] at h h'
    have ⟨_, _, h⟩ := h
    have ⟨_, _, h'⟩ := h'
    exact congrArg ExpertKey.modelId <| h.trans h'.symm

end Rows

def oppositeMemoryTier : ExpertTier → Except ExpertResidencyError ExpertTier
  | .vram     => .ok .ram
  | .ram      => .ok .vram
  | .external => .error <| .invalidTierTransition .external .external

def crossesHysteresis (target : ExpertTier) (hotness : φ) : Bool :=
  match target with
  | .vram     => Score.le config.promoteHotness hotness
  | .ram      => Score.le hotness config.demoteHotness
  | .external => false

def movementVerdict (s : ExpertState φ) (source target : ExpertTier) (now : Nat)
    (row : ScoredCandidate φ) : Verdict :=
  if row.expert.tier ≠ source then
    .elsewhere
  else if target = .ram && row.expert.pinned then
    .pinned
  else if row.key ∈ s.pending then
    .inFlight
  else if row.expert.inCooldown now config.transitionCooldownMillis then
    .cooldown
  else if !crossesHysteresis config target row.hotness then
    .hysteresis
  else
    .candidate

def prefetchCandidates (modelId : String) (target : ExpertTier) (limit now : Nat)
    (s : ExpertState φ) : Except ExpertResidencyError ExpertCandidatePlan := do
  validateModelId modelId
  validateActionLimit limit config.maxActions
  let source ← oppositeMemoryTier target
  if modelId ∉ s.models then
    .error <| .unknownModel modelId
  else
    let rows       := (s.rows config now).filter fun row => row.key.modelId = modelId
    let verdict    := movementVerdict config s source target now
    let count      := fun v => rows.countP fun row => verdict row = v
    let candidates := sortMovementCandidates (rows.filter fun row => verdict row = .candidate) target
    .ok {
      targetTier           := target
      actions              := (candidates.take limit).map fun row => row.moveTo source target
      deferredByCooldown   := count .cooldown
      deferredByHysteresis := count .hysteresis
      protectedByPin       := count .pinned
      inFlight             := count .inFlight }

def pressureVerdict (s : ExpertState φ) (request : ExpertPressureRequest) (now : Nat)
    (row : ScoredCandidate φ) : Verdict :=
  if row.expert.tier ≠ request.sourceTier then
    .elsewhere
  else if row.expert.pinned then
    .pinned
  else if row.key ∈ s.pending then
    .inFlight
  else if request.level ≠ .emergency &&
      row.expert.inCooldown now config.transitionCooldownMillis then
    .cooldown
  else if request.level ≠ .emergency &&
      (request.level = .soft || Score.lt config.demoteHotness row.hotness) then
    .hysteresis
  else
    .candidate

-- A plan for pressure relief while it is drawn up.
structure PressureDraft where
  actions            : List ExpertPolicyAction
  knownRelief        : Nat
  unknownSizeActions : Nat
  ramHeadroom        : Nat
  demoted            : Finset ExpertKey

namespace PressureDraft

def isComplete (draft : PressureDraft) (request : ExpertPressureRequest) : Bool :=
  draft.actions.length ≥ request.maxActions || draft.knownRelief ≥ request.reliefBytes

-- Demotions need a known size and room for it.
def demote (request : ExpertPressureRequest) :
    List (ScoredCandidate φ) → PressureDraft → PressureDraft
  | [], draft                => draft
  | candidate :: rest, draft =>
    if draft.isComplete request then
      draft
    else
      match candidate.expert.bytes with
      | none       => demote request rest draft
      | some bytes =>
        if bytes > draft.ramHeadroom then
          demote request rest draft
        else
          demote request rest { draft with
            actions     := draft.actions ++ [candidate.moveTo .vram .ram]
            knownRelief := add u64Max draft.knownRelief bytes
            ramHeadroom := draft.ramHeadroom - bytes
            demoted     := insert candidate.key draft.demoted }

def evict (request : ExpertPressureRequest) :
    List (ScoredCandidate φ) → PressureDraft → PressureDraft
  | [], draft                => draft
  | candidate :: rest, draft =>
    if draft.isComplete request then
      draft
    else if candidate.key ∈ draft.demoted then
      evict request rest draft
    else
      let draft := { draft with
        actions := draft.actions ++ [candidate.evictFrom request.sourceTier] }
      match candidate.expert.bytes with
      | none       =>
        evict request rest { draft with unknownSizeActions := draft.unknownSizeActions + 1 }
      | some bytes =>
        evict request rest { draft with knownRelief := add u64Max draft.knownRelief bytes }

end PressureDraft

def planPressure (request : ExpertPressureRequest) (now : Nat) (s : ExpertState φ) :
    Except ExpertResidencyError ExpertPressurePlan := do
  validateActionLimit request.maxActions config.maxActions
  if request.sourceTier = .external then
    .error <| .invalidTierTransition .external .external
  else
    let rows       := s.rows config now
    let verdict    := pressureVerdict config s request now
    let count      := fun v => rows.countP fun row => verdict row = v
    let candidates := sort coldOrder <| rows.filter fun row => verdict row = .candidate
    let draft : PressureDraft := ⟨[], 0, 0, request.ramHeadroomBytes, ∅⟩
    let draft := if request.sourceTier = .vram then draft.demote request candidates else draft
    let draft := draft.evict request candidates
    .ok {
      sourceTier              := request.sourceTier
      level                   := request.level
      actions                 := draft.actions
      requestedReliefBytes    := request.reliefBytes
      knownPlannedReliefBytes := draft.knownRelief
      unresolvedReliefBytes   := request.reliefBytes - draft.knownRelief
      unknownSizeActions      := draft.unknownSizeActions
      deferredByCooldown      := count .cooldown
      deferredByHysteresis    := count .hysteresis
      protectedByPin          := count .pinned
      inFlight                := count .inFlight }

end RuntimeControl.Experts
