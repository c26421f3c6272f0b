import WerkModel.Inference.Planner

-- A plan does not depend on the order of the candidates, and selects the best one that is suitable.
open Std Ranking

namespace Inference

section Order

variable {left right : PlanCandidateDecision} {score score' : Int}

instance transCmp_decisions : TransCmp compareDecisions :=
  have : TransCmp fun left right : PlanCandidateDecision => compare right.score left.score :=
    @TransCmp.opposite _ (compareOn PlanCandidateDecision.score) _
  inferInstanceAs <| TransCmp <| compareLex (fun left right => compare right.score left.score)
    (compareOn PlanCandidateDecision.runtimeId)

instance transCmp_preferences : TransCmp comparePreferences :=
  have : TransCmp fun left right : Int × PlanCandidateDecision => compare right.1 left.1 :=
    @TransCmp.opposite _ (compareOn Prod.fst) _
  inferInstanceAs <| TransCmp <|
    compareLex (fun left right : Int × PlanCandidateDecision => compare right.1 left.1)
      (compareOn (·.2.runtimeId))

-- A greater score comes first, then a lesser identifier.
def Before (score score' : Int) (id id' : String) : Prop :=
  score' < score ∨ score' = score ∧ id ≤ id'

theorem isLE_then {id id' : String} :
    ((compare score' score).then (compare id id')).isLE = true ↔ Before score score' id id' := by
  rw [Ordering.isLE_then_iff_or, compare_lt_iff_lt, LawfulEqCmp.compare_eq_iff_eq,
    LawfulBCmp.isLE_iff_le, Before]

theorem isLE_comparePreferences {id id' : Int × PlanCandidateDecision} :
    (comparePreferences id id').isLE = true ↔ Before id.1 id'.1 id.2.runtimeId id'.2.runtimeId :=
  isLE_then

theorem isLE_compareDecisions (h : left.score = some score) (h' : right.score = some score') :
    (compareDecisions left right).isLE = true ↔
      Before score score' left.runtimeId right.runtimeId := by
  rw [compareDecisions, h, h']
  exact isLE_then

theorem runtimeId_of_compareDecisions (h : compareDecisions left right = .eq) :
    left.runtimeId = right.runtimeId :=
  LawfulEqCmp.compare_eq_iff_eq.mp (Ordering.then_eq_eq.mp h).right

theorem runtimeId_of_comparePreferences {left right : Int × PlanCandidateDecision}
    (h : comparePreferences left right = .eq) : left.2.runtimeId = right.2.runtimeId :=
  LawfulEqCmp.compare_eq_iff_eq.mp (Ordering.then_eq_eq.mp h).right

end Order

section Decision

variable {φ : Type} {manifest : ModelManifest} {request : EffectiveInferenceRequest φ}
variable {estimate : WorkloadEstimate} {candidate : InferenceRuntimeCandidate} {reason : String}
variable {condition : Bool} {degradation : ExecutionDegradation}

def Accepted (manifest : ModelManifest) (request : EffectiveInferenceRequest φ)
    (estimate : WorkloadEstimate) (candidate : InferenceRuntimeCandidate) : Prop :=
  candidateReasons manifest request estimate candidate = []

theorem status_eq_accepted : (candidateDecision manifest request estimate candidate).status =
    .accepted ↔ Accepted manifest request estimate candidate := by
  simp [candidateDecision, Accepted]

theorem status_eq_rejected : (candidateDecision manifest request estimate candidate).status =
    .rejected ↔ ¬Accepted manifest request estimate candidate := by
  simp [candidateDecision, Accepted]

theorem Accepted.score_eq (h : Accepted manifest request estimate candidate) :
    (candidateDecision manifest request estimate candidate).score =
      some (candidateScore request estimate candidate) := by
  rw [Accepted] at h
  simp [candidateDecision, h]

def IsOffload (degradation : ExecutionDegradation) : Prop :=
  ∃ path, (path, degradation) ∈ offloadOptions

-- An offload that the request permits, where an explicit permission comes before all others.
def Permitted (request : EffectiveInferenceRequest φ) (degradation : ExecutionDegradation) : Prop :=
  ∃ path, (path, degradation) ∈ offloadOptions ∧ request.boolParameter path = some true ∧
    (path ∈ request.explicitParameters ∨ fallbackPolicy request = "degrade" ∧
      ¬("routing.allow_cpu_offload" ∈ request.explicitParameters ∧
        request.boolParameter "routing.allow_cpu_offload" = some false) ∧
      ∀ option ∈ offloadOptions, option.1 ∈ request.explicitParameters →
        request.boolParameter option.1 ≠ some true)

-- What a runtime must be for the model and the request, by what is known of the memory.
structure Suitable (manifest : ModelManifest) (request : EffectiveInferenceRequest φ)
    (estimate : WorkloadEstimate) (candidate : InferenceRuntimeCandidate)
    (degradations : List ExecutionDegradation) : Prop where
  available    : candidate.available = true
  task         : request.task ∈ candidate.supportedTasks
  layout       : candidate.supportedLayouts = [] ∨
    manifest.metadata.repositoryLayout ∈ candidate.supportedLayouts
  format       : candidate.supportedFormats = [] ∨ manifest.format ∈ candidate.supportedFormats
  family       : ∀ family ∈ manifest.metadata.family, candidate.supportedFamilies = [] ∨
    ∃ supported ∈ candidate.supportedFamilies, eqIgnoreAsciiCase supported family = true
  architecture : ∀ architecture ∈ manifest.architecture, candidate.supportedArchitectures = [] ∨
    ∃ supported ∈ candidate.supportedArchitectures, eqIgnoreAsciiCase supported architecture = true
  target       : ∀ target ∈ requestedAccelerator request,
    runtimeAcceleratorMatches candidate.accelerator target = true
  backend      : fallbackPolicy request = "none" → ∀ backend ∈ requestedBackend request,
    eqIgnoreAsciiCase candidate.backend backend = true
  relaxed      : memoryPressure estimate = false → degradations = []
  host         : hostMemoryExceeded estimate = false
  pressure     : memoryPressure estimate = true → ∃ offload rest,
    degradations = offload :: rest ∧ Permitted request offload ∧
      (∀ other ∈ rest, ¬IsOffload other) ∧ ∀ limit ∈ estimate.hostMemoryLimitBytes,
        ∀ required ∈ projectedHostPeakWithOffload estimate, required < limit

theorem reject_eq_nil : reject condition reason = [] ↔ condition = false := by
  cases condition <;> simp [reject]

theorem supportsName_iff {supported : List String} {name : Option String} :
    supportsName supported name = true ↔ ∀ text ∈ name, supported = [] ∨
      ∃ other ∈ supported, eqIgnoreAsciiCase other text = true := by
  cases name <;> simp [supportsName]

theorem permitted_selectedOffload
    (h : selectedOffload request (allowDegradation request) = some degradation) :
    Permitted request degradation := by
  rw [selectedOffload] at h
  split at h
  case h_1 option ho =>
    cases h
    have hp := List.find?_some ho
    simp only [Bool.and_eq_true, decide_eq_true_eq] at hp
    exact ⟨_, List.mem_of_find?_eq_some ho, hp.right, .inl (by simpa using hp.left)⟩
  case h_2 hn =>
    split at h
    case isTrue => nomatch h
    case isFalse hd =>
      split at h
      case isTrue     => nomatch h
      case isFalse hc =>
        obtain ⟨option, ho, rfl⟩ := Option.map_eq_some_iff.mp h
        have hp : request.boolParameter option.1 = some true := by
          simpa using List.find?_some ho
        refine ⟨option.1, List.mem_of_find?_eq_some ho, hp, .inr ⟨?_, ?_, fun other hm he hb => ?_⟩⟩
        · simpa [allowDegradation] using hd
        · simpa using hc
        · have hother := List.find?_eq_none.mp hn other hm
          simp [he, hb] at hother

theorem not_isOffload_taskDegradations (h : degradation ∈ taskDegradations request) :
    ¬IsOffload degradation := by
  have hd : degradation = .vaeTiling ∨ degradation = .temporalWindowing := by
    simp only [taskDegradations, List.mem_append] at h
    obtain h | h := h
    all_goals
      split at h
      · simp_all
      · nomatch h
  rintro ⟨path, hp⟩
  obtain rfl | rfl := hd <;> simp [offloadOptions] at hp

theorem offloadHostMemoryRejectionReason_eq_none
    (h : offloadHostMemoryRejectionReason estimate = none) :
    ∀ limit ∈ estimate.hostMemoryLimitBytes, ∀ required ∈ projectedHostPeakWithOffload estimate,
      required < limit := by
  intro limit hl required hr
  by_contra hn
  rw [offloadHostMemoryRejectionReason, Option.mem_def.mp hl, Option.mem_def.mp hr] at h
  simp [Nat.not_lt.mp hn] at h

-- Under memory pressure only an offload keeps a candidate.
theorem memory_of_nil (h : (memoryDecision request estimate candidate).1 = []) :
    hostMemoryExceeded estimate = false ∧ (memoryPressure estimate = true → ∃ offload rest,
      (memoryDecision request estimate candidate).2 = offload :: rest ∧
      Permitted request offload ∧ (∀ other ∈ rest, ¬IsOffload other) ∧
      ∀ limit ∈ estimate.hostMemoryLimitBytes,
        ∀ required ∈ projectedHostPeakWithOffload estimate, required < limit) := by
  rw [memoryDecision] at h ⊢
  split_ifs at h ⊢ with hp hh
  case pos =>
    have hp : memoryPressure estimate = false := by simpa using hp
    have hh : hostMemoryExceeded estimate = false := by
      rw [memoryPressure, Bool.or_eq_false_iff] at hp
      exact hp.right
    exact ⟨hh, fun h => by simp [hp] at h⟩
  case neg =>
    split at h
    case h_2 => nomatch h
    case h_1 offload ho =>
      split at h
      case h_1 => nomatch h
      case h_2 hn =>
        refine ⟨by simpa using hh, fun _ => ⟨offload, taskDegradations request, rfl, ?_,
          fun _ => not_isOffload_taskDegradations, offloadHostMemoryRejectionReason_eq_none hn⟩⟩
        rw [candidateOffload] at ho
        split at ho
        case isTrue  => exact permitted_selectedOffload ho
        case isFalse => nomatch ho

theorem Accepted.suitable (h : Accepted manifest request estimate candidate) :
    Suitable manifest request estimate candidate (memoryDecision request estimate candidate).2 := by
  obtain ⟨hr, hm⟩ := List.append_eq_nil_iff.mp h
  simp only [routingReasons, List.append_eq_nil_iff, reject_eq_nil, Bool.not_eq_false',
    List.map_eq_nil_iff] at hr
  obtain ⟨⟨⟨⟨⟨⟨⟨⟨havailable, htask⟩, hlayout⟩, hformat⟩, hfamily⟩, harchitecture⟩, hbackend⟩,
    htarget⟩, -⟩ := hr
  have hmemory := memory_of_nil hm
  refine {
    available    := havailable
    task         := by simpa using htask
    layout       := by simpa [supportsLayout] using hlayout
    format       := by simpa [supportsFormat] using hformat
    family       := supportsName_iff.mp hfamily
    architecture := supportsName_iff.mp harchitecture
    target       := (Option.all_eq_true ..).mp htarget
    backend      := fun hp => ?_
    relaxed      := fun hp => by simp [memoryDecision, hp]
    host         := hmemory.left
    pressure     := hmemory.right
  }
  rw [matchesBackend, hp] at hbackend
  exact (Option.all_eq_true ..).mp hbackend

end Decision

section Plan

variable {φ : Type} {manifest : ModelManifest} {request : EffectiveInferenceRequest φ}
variable {estimate : WorkloadEstimate} {candidates others : List InferenceRuntimeCandidate}
variable {selected : PlanCandidateDecision} {candidate : InferenceRuntimeCandidate}

-- Distinct identifiers tell the candidates apart, which leaves one way of ranking them.
theorem sortedDecisions_congr (hd : (candidates.map (·.id)).Nodup) (h : candidates.Perm others) :
    sortedDecisions manifest request estimate candidates =
      sortedDecisions manifest request estimate others := by
  refine sortBy_congr (h.map _) fun decision hm decision' hm' he => ?_
  obtain ⟨c, hc, rfl⟩ := List.mem_map.mp hm
  obtain ⟨c', hc', rfl⟩ := List.mem_map.mp hm'
  rw [List.inj_on_of_nodup_map hd hc hc' (runtimeId_of_compareDecisions he)]

theorem preferenceOrder_congr (hd : (candidates.map (·.id)).Nodup) (h : candidates.Perm others) :
    preferenceOrder manifest request estimate candidates =
      preferenceOrder manifest request estimate others := by
  refine sortBy_congr ((h.filter _).map _) fun entry hm entry' hm' he => ?_
  obtain ⟨c, hc, rfl⟩ := List.mem_map.mp hm
  obtain ⟨c', hc', rfl⟩ := List.mem_map.mp hm'
  have hi : c.id = c'.id := runtimeId_of_comparePreferences he
  rw [List.inj_on_of_nodup_map hd (List.mem_filter.mp hc).left (List.mem_filter.mp hc').left hi]

theorem planExecution_congr (hd : (candidates.map (·.id)).Nodup) (h : candidates.Perm others) :
    planExecution manifest request estimate candidates =
      planExecution manifest request estimate others := by
  have hf : fallbackChain manifest request estimate candidates =
      fallbackChain manifest request estimate others := by
    funext selected
    rw [fallbackChain, fallbackChain, preferenceOrder_congr hd h]
  rw [planExecution, planExecution, sortedDecisions_congr hd h, hf]

def selection (manifest : ModelManifest) (request : EffectiveInferenceRequest φ)
    (estimate : WorkloadEstimate) (candidates : List InferenceRuntimeCandidate) :
    Option PlanCandidateDecision :=
  (sortedDecisions manifest request estimate candidates).find? (·.status = .accepted)

theorem selectedRuntime_isSome :
    (planExecution manifest request estimate candidates).selectedRuntime.isSome = true ↔
      ∃ candidate ∈ candidates, Accepted manifest request estimate candidate := by
  simp [planExecution, sortedDecisions, status_eq_accepted]

theorem selection_eq_some (h : selection manifest request estimate candidates = some selected) :
    ∃ candidate ∈ candidates, selected = candidateDecision manifest request estimate candidate ∧
      Accepted manifest request estimate candidate ∧
      ∀ other ∈ candidates, Accepted manifest request estimate other →
        Before (candidateScore request estimate candidate) (candidateScore request estimate other)
          candidate.id other.id := by
  obtain ⟨hm, hs, hb⟩ := isLE_of_find? h
  obtain ⟨candidate, hc, rfl⟩ := List.mem_map.mp hm
  have ha := status_eq_accepted.mp (of_decide_eq_true hs)
  refine ⟨candidate, hc, rfl, ha, fun other ho hother => ?_⟩
  have hle := hb _ (List.mem_map_of_mem ho) (decide_eq_true (status_eq_accepted.mpr hother))
  exact (isLE_compareDecisions ha.score_eq hother.score_eq).mp hle

theorem Accepted.isPreferred (h : Accepted manifest request estimate candidate) :
    isPreferred manifest request candidate = true := by
  obtain ⟨hr, -⟩ := List.append_eq_nil_iff.mp h
  simp only [routingReasons, List.append_eq_nil_iff, reject_eq_nil, Bool.not_eq_false',
    List.map_eq_nil_iff] at hr
  obtain ⟨⟨⟨⟨⟨⟨⟨⟨-, htask⟩, hlayout⟩, hformat⟩, -⟩, -⟩, hbackend⟩, htarget⟩, -⟩ := hr
  rw [Inference.isPreferred, htask, hlayout, hformat, htarget, hbackend]
  rfl

-- The selected candidate is itself a preferred route, where the chain ends.
theorem mem_fallbackChain (hc : candidate ∈ candidates)
    (ha : Accepted manifest request estimate candidate) {decision : PlanCandidateDecision}
    (h : decision ∈ fallbackChain manifest request estimate candidates
      (candidateDecision manifest request estimate candidate)) :
    ∃ passed ∈ candidates, decision = candidateDecision manifest request estimate passed ∧
      ¬Accepted manifest request estimate passed ∧ passed.id ≠ candidate.id ∧
      Before (candidateScore request estimate passed) (candidateScore request estimate candidate)
        passed.id candidate.id := by
  obtain ⟨entry, he, rfl⟩ := List.mem_map.mp h
  obtain ⟨ht, hr⟩ := List.mem_filter.mp he
  obtain ⟨passed, hp, rfl⟩ := List.mem_map.mp (mem_sortBy.mp ((List.takeWhile_subset _) ht))
  have hm : (candidateScore request estimate candidate,
      candidateDecision manifest request estimate candidate) ∈
        (candidates.filter (Inference.isPreferred manifest request)).map fun candidate =>
          (candidateScore request estimate candidate,
            candidateDecision manifest request estimate candidate) :=
    List.mem_map_of_mem (List.mem_filter.mpr ⟨hc, ha.isPreferred⟩)
  refine ⟨passed, (List.mem_filter.mp hp).left, rfl, ?_, ?_, ?_⟩
  · exact status_eq_rejected.mp (of_decide_eq_true hr)
  · have hn := List.mem_takeWhile_imp ht
    exact of_decide_eq_true hn
  · exact isLE_comparePreferences.mp (isLE_of_mem_takeWhile ht hm (by simp))

-- What a plan promises for the candidates that it has been made from.
structure Sound (manifest : ModelManifest) (request : EffectiveInferenceRequest φ)
    (estimate : WorkloadEstimate) (candidates : List InferenceRuntimeCandidate)
    (plan : ExecutionPlan) : Prop where
  congr    : ∀ others, candidates.Perm others →
    planExecution manifest request estimate others = plan
  selects  : plan.selectedRuntime.isSome = true ↔
    ∃ candidate ∈ candidates, Accepted manifest request estimate candidate
  selected : ∀ id ∈ plan.selectedRuntime, ∃ selected ∈ candidates, selected.id = id ∧
    Accepted manifest request estimate selected ∧ plan.selectedBackend = some selected.backend ∧
    plan.score = some (candidateScore request estimate selected) ∧
    (∀ other ∈ candidates, Accepted manifest request estimate other →
      Before (candidateScore request estimate selected) (candidateScore request estimate other)
        selected.id other.id) ∧
    Suitable manifest request estimate selected plan.degradations ∧
    ∀ decision ∈ plan.fallbackChain, ∃ passed ∈ candidates,
      decision = candidateDecision manifest request estimate passed ∧
      ¬Accepted manifest request estimate passed ∧ passed.id ≠ selected.id ∧
      Before (candidateScore request estimate passed) (candidateScore request estimate selected)
        passed.id selected.id
  rejected : plan.selectedRuntime = none → plan.score = none ∧ plan.fallbackChain = [] ∧
    plan.degradations = []

theorem sound_planExecution (hd : (candidates.map (·.id)).Nodup) :
    Sound manifest request estimate candidates
      (planExecution manifest request estimate candidates) where
  congr others h := (planExecution_congr hd h).symm
  selects := selectedRuntime_isSome
  selected id hid := by
    obtain ⟨decision, hs, rfl⟩ := Option.map_eq_some_iff.mp hid
    obtain ⟨candidate, hc, rfl, ha, hb⟩ := selection_eq_some hs
    refine ⟨candidate, hc, rfl, ha, ?_, ?_, hb, ?_, fun decision h => ?_⟩
    · simp only [planExecution, hs]
      rfl
    · simp only [planExecution, hs]
      exact ha.score_eq
    · simp only [planExecution, hs]
      exact ha.suitable
    · simp only [planExecution, hs] at h
      exact mem_fallbackChain hc ha h
  rejected hn := by
    have hs := Option.map_eq_none_iff.mp hn
    simp only [planExecution, hs]
    exact ⟨rfl, rfl, rfl⟩

def offloadingRequest : EffectiveInferenceRequest Int where
  task               := .imageGeneration
  parameters         := ExtTreeMap.ofList
    [("routing.allow_cpu_offload", ⟨.boolean true, .requestOverride⟩)] compare
  explicitParameters := ExtTreeSet.ofList ["routing.allow_cpu_offload"] compare

def offloadingRuntimes : List InferenceRuntimeCandidate := [
  {
    id                 := "cpu"
    backend            := "torch"
    accelerator        := .cpu
    available          := true
    supportedTasks     := [.imageGeneration]
    supportsOffloading := false
    priority           := 500
  },
  {
    id                 := "cuda"
    backend            := "torch"
    accelerator        := .cuda
    available          := true
    supportedTasks     := [.imageGeneration]
    supportsOffloading := true
    priority           := 300
  }
]

theorem sound_planExecution_offloading :
    Sound { id := "flux", format := .safeTensors } offloadingRequest
      { weightPayloadBytes          := some 12, acceleratorPeakBytes := some 20,
        acceleratorMemoryLimitBytes := some 16, hostPeakBytes        := some 4,
        hostMemoryLimitBytes        := some 32, fit                  := .likelyOom }
      offloadingRuntimes
      (planExecution { id := "flux", format := .safeTensors } offloadingRequest
        { weightPayloadBytes          := some 12, acceleratorPeakBytes := some 20,
          acceleratorMemoryLimitBytes := some 16, hostPeakBytes        := some 4,
          hostMemoryLimitBytes        := some 32, fit                  := .likelyOom }
        offloadingRuntimes) :=
  sound_planExecution (by decide)

-- An offload is selected although nothing is known of the memory of the host.
theorem offload_without_limit :
    ¬∀ (manifest : ModelManifest) (request : EffectiveInferenceRequest Int)
      (estimate : WorkloadEstimate) (candidates : List InferenceRuntimeCandidate),
      (candidates.map (·.id)).Nodup → memoryPressure estimate = true →
      (planExecution manifest request estimate candidates).selectedRuntime.isSome = true →
      ∃ limit ∈ estimate.hostMemoryLimitBytes,
        ∃ required ∈ projectedHostPeakWithOffload estimate, required < limit := by
  intro h
  obtain ⟨limit, hl, -⟩ := h { id := "flux", format := .safeTensors } offloadingRequest
    { acceleratorPeakBytes := some 20, acceleratorMemoryLimitBytes := some 16, fit := .likelyOom }
    offloadingRuntimes (by decide) (by decide) (selectedRuntime_isSome.mpr
      ⟨_, List.mem_cons_of_mem _ List.mem_cons_self, by unfold Accepted; decide +kernel⟩)
  nomatch hl

end Plan

end Inference
