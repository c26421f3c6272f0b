import WerkModel.RuntimeControl.Experts.Config

open Std ExtTreeMap Saturating

namespace RuntimeControl.Experts

structure ExpertKey where
  modelId  : String
  expertId : String
  deriving DecidableEq

structure TrackedExpert (φ : Type) where
  tier                    : ExpertTier
  bytes                   : Option Nat
  hotness                 : φ
  hotnessUpdatedMillis    : Nat
  pinned                  : Bool
  lastUsedMonotonicMillis : Option Nat
  lastUsedUnixMillis      : Option Nat
  lastTransitionMillis    : Option Nat
  revision                : Nat

structure ExpertSummary (φ : Type) where
  id             : String
  modelId        : String
  tier           : ExpertTier
  bytes          : Option Nat
  hotness        : φ
  pinned         : Bool
  lastUsedUnixMs : Option Nat

structure ExpertObservation where
  modelId  : String
  expertId : String
  tier     : ExpertTier
  bytes    : Option Nat

structure ExpertAccess (φ : Type) where
  expertId : String
  weight   : φ

inductive ExpertPolicyAction
  | move (key : ExpertKey) (source target : ExpertTier) (bytes : Option Nat) (revision : Nat)
  | evict (key : ExpertKey) (source : ExpertTier) (bytes : Option Nat) (revision : Nat)
  deriving DecidableEq

namespace ExpertPolicyAction

def key : ExpertPolicyAction → ExpertKey
  | .move key .. | .evict key .. => key

def sourceTier : ExpertPolicyAction → ExpertTier
  | .move _ source .. | .evict _ source .. => source

def targetTier : ExpertPolicyAction → Option ExpertTier
  | .move _ _ target .. => some target
  | .evict ..           => none

def bytes : ExpertPolicyAction → Option Nat
  | .move _ _ _ bytes _ | .evict _ _ bytes _ => bytes

def revision : ExpertPolicyAction → Nat
  | .move _ _ _ _ revision | .evict _ _ _ revision => revision

end ExpertPolicyAction

abbrev ModelExperts (φ : Type) := ExtTreeMap String (TrackedExpert φ)

structure ExpertState (φ : Type) where
  models       : ExtTreeMap String (ModelExperts φ)
  pending      : Finset ExpertKey
  totalExperts : Nat

structure ExpertCommitOutcome (φ : Type) where
  updated : List (ExpertSummary φ)
  evicted : List ExpertKey

def unknownExpert (key : ExpertKey) : ExpertResidencyError :=
  .unknownExpert key.modelId key.expertId

def actionInFlight (key : ExpertKey) : ExpertResidencyError :=
  .actionInFlight key.modelId key.expertId

def staleAction (key : ExpertKey) : ExpertResidencyError :=
  .staleAction key.modelId key.expertId

variable {φ : Type}

namespace ExpertState

def new : ExpertState φ where
  models       := ∅
  pending      := ∅
  totalExperts := 0

def lookup (s : ExpertState φ) (key : ExpertKey) : Option (TrackedExpert φ) :=
  s.models[key.modelId]?.bind fun experts => experts[key.expertId]?

def lookupExpert (s : ExpertState φ) (key : ExpertKey) :
    Except ExpertResidencyError (TrackedExpert φ) :=
  match s.models[key.modelId]? with
  | none         => .error <| .unknownModel key.modelId
  | some experts =>
    match experts[key.expertId]? with
    | none        => .error <| unknownExpert key
    | some expert => .ok expert

def update (key : ExpertKey) (f : TrackedExpert φ → TrackedExpert φ) (s : ExpertState φ) :
    ExpertState φ :=
  { s with models := s.models.modify key.modelId fun experts => experts.modify key.expertId f }

def insert (key : ExpertKey) (expert : TrackedExpert φ) (s : ExpertState φ) : ExpertState φ :=
  { s with
    models       := s.models.modify key.modelId fun experts => experts.insert key.expertId expert
    totalExperts := add usizeMax s.totalExperts 1 }

def remove (key : ExpertKey) (s : ExpertState φ) : ExpertState φ :=
  { s with
    models       := s.models.modify key.modelId fun experts => experts.erase key.expertId
    totalExperts := s.totalExperts - 1 }

def addModel (modelId : String) (s : ExpertState φ) : ExpertState φ :=
  { s with models := s.models.insertIfNew modelId ∅ }

def removeEmptyModels (s : ExpertState φ) : ExpertState φ :=
  { s with models := s.models.filter fun _ experts => !experts.isEmpty }

section Lemmas

variable {s : ExpertState φ} {key k : ExpertKey} {f : TrackedExpert φ → TrackedExpert φ}
variable {expert : TrackedExpert φ}

-- The number of tracked experts of every model.
def sizes (s : ExpertState φ) : ExtTreeMap String Nat :=
  s.models.map fun _ => ExtTreeMap.size

theorem lookup_eq_some : s.lookup key = some expert ↔
    ∃ experts, s.models[key.modelId]? = some experts ∧ experts[key.expertId]? = some expert :=
  Option.bind_eq_some_iff

theorem lookup_sizes {modelId : String} :
    s.sizes[modelId]? = s.models[modelId]?.map ExtTreeMap.size := by
  simp [sizes]

theorem size_sizes : s.sizes.size = s.models.size := by
  simp [sizes]

theorem lookup_update : (s.update key f).lookup k =
    if key = k then (s.lookup k).map f else s.lookup k := by
  have ⟨modelId, expertId⟩ := key
  have ⟨modelId', expertId'⟩ := k
  simp only [lookup, update, getElem?_modify, LawfulEqCmp.compare_eq_iff_eq, ExpertKey.mk.injEq]
  by_cases hm : modelId = modelId'
  case neg => simp [hm]
  case pos =>
    subst hm
    cases s.models[modelId]? <;> by_cases he : expertId = expertId' <;> simp [he, getElem?_modify]

theorem lookup_insert (h : key.modelId ∈ s.models) : (s.insert key expert).lookup k =
    if key = k then some expert else s.lookup k := by
  have ⟨modelId, expertId⟩ := key
  have ⟨modelId', expertId'⟩ := k
  have ⟨experts, h⟩ := exists_lookup h
  simp only [lookup, insert, getElem?_modify, LawfulEqCmp.compare_eq_iff_eq, ExpertKey.mk.injEq]
  by_cases hm : modelId = modelId'
  case neg => simp [hm]
  case pos =>
    subst hm
    by_cases he : expertId = expertId' <;> simp_all [getElem?_insert]

theorem lookup_remove : (s.remove key).lookup k = if key = k then none else s.lookup k := by
  have ⟨modelId, expertId⟩ := key
  have ⟨modelId', expertId'⟩ := k
  simp only [lookup, remove, getElem?_modify, LawfulEqCmp.compare_eq_iff_eq, ExpertKey.mk.injEq]
  by_cases hm : modelId = modelId'
  case neg => simp [hm]
  case pos =>
    subst hm
    cases s.models[modelId]? <;> by_cases he : expertId = expertId' <;> simp [he, getElem?_erase]

theorem lookup_removeEmptyModels : s.removeEmptyModels.lookup k = s.lookup k := by
  simp only [lookup, removeEmptyModels, getElem?_filter']
  cases s.models[k.modelId]?
  case none => rfl
  case some experts =>
    rw [Option.filter_some]
    split
    case isTrue    => rfl
    case isFalse h => simp_all

theorem lookup_addModel {modelId : String} : (s.addModel modelId).lookup k = s.lookup k := by
  simp only [lookup, addModel, getElem?_insertIfNew]
  split
  case isTrue h  => rw [←LawfulEqCmp.compare_eq_iff_eq.mp h.1, getElem?_eq_none h.2]; simp
  case isFalse h => rfl

theorem sizes_update : (s.update key f).sizes = s.sizes :=
  map_modify_of_eq fun _ => size_modify

theorem sizes_insert {experts} (hm : s.models[key.modelId]? = some experts)
    (hl : s.lookup key = none) :
    (s.insert key expert).sizes = s.sizes.insert key.modelId (experts.size + 1) := by
  have he : key.expertId ∉ experts := by simpa [lookup, hm] using hl
  ext1 m
  simp only [sizes, insert, getElem?_map, getElem?_modify, getElem?_insert]
  split
  case isTrue  => simp [hm, size_insert, he]
  case isFalse => rfl

theorem sizes_remove {expert} (hl : s.lookup key = some expert) :
    ∃ n, s.sizes[key.modelId]? = some (n + 1) ∧
      (s.remove key).sizes = s.sizes.insert key.modelId n := by
  have ⟨experts, hm, he⟩ := Option.bind_eq_some_iff.mp hl
  have hk : key.expertId ∈ experts := mem_of_lookup he
  have hs : (experts.erase key.expertId).size + 1 = experts.size := by
    have hp : experts.size ≠ 0 := fun hz => by simp [eq_empty_iff_size_eq_zero.mpr hz] at hk
    simp only [size_erase, mem_iff_contains.mp hk, if_true]
    omega
  refine ⟨(experts.erase key.expertId).size, by rw [lookup_sizes, hm, hs]; rfl, ?_⟩
  ext1 m
  simp only [sizes, remove, getElem?_map, getElem?_modify, getElem?_insert]
  split
  case isTrue  => simp [hm]
  case isFalse => rfl

theorem model_addModel {modelId : String} :
    (s.addModel modelId).models[modelId]? = some (s.models[modelId]?.getD ∅) := by
  simp only [addModel, getElem?_insertIfNew, ReflCmp.compare_self, true_and]
  split
  case isTrue h  => rw [getElem?_eq_none h]; rfl
  case isFalse h =>
    have ⟨experts, h⟩ := exists_lookup (not_not.mp h)
    rw [h]
    rfl

-- The first expert of a model is tracked together with it.
theorem sizes_track (hl : s.lookup key = none) :
    ((s.addModel key.modelId).insert key expert).sizes =
      s.sizes.insert key.modelId (s.sizes[key.modelId]?.getD 0 + 1) := by
  rw [sizes_insert model_addModel (lookup_addModel.trans hl)]
  ext1 m
  simp only [getElem?_insert, lookup_sizes, addModel, getElem?_insertIfNew]
  split
  case isTrue     => cases s.models[key.modelId]? <;> simp
  case isFalse hm => rw [if_neg fun h => hm h.1]

theorem sizes_removeEmptyModels :
    s.removeEmptyModels.sizes = s.sizes.filter fun _ size => size ≠ 0 := by
  ext1 m
  simp only [sizes, removeEmptyModels, getElem?_map, getElem?_filter']
  cases s.models[m]?
  case none => rfl
  case some experts =>
    by_cases h : experts = ∅
    case pos => simp [Option.filter_some, h]
    case neg => simp [Option.filter_some, h, eq_empty_iff_size_eq_zero.not.mp h]

end Lemmas
end ExpertState

namespace TrackedExpert

variable [Score φ]

def decayedHotness (expert : TrackedExpert φ) (now halfLife : Nat) : φ :=
  let elapsed := now - expert.hotnessUpdatedMillis
  -- A hotness that is zero compares as such in both directions.
  if elapsed = 0 || (Score.le expert.hotness Score.zero && Score.le Score.zero expert.hotness) then
    expert.hotness
  else
    let value := Score.halve expert.hotness elapsed halfLife
    if Score.isFinite value then
      Score.clamp value Score.zero Score.maxHotness
    else
      Score.zero

def inCooldown (expert : TrackedExpert φ) (now cooldownMillis : Nat) : Bool :=
  cooldownMillis > 0 &&
  expert.lastTransitionMillis.any fun last => now - last < cooldownMillis

def summary (expert : TrackedExpert φ) (key : ExpertKey) (now halfLife : Nat) :
    ExpertSummary φ where
  id             := key.expertId
  modelId        := key.modelId
  tier           := expert.tier
  bytes          := expert.bytes
  hotness        := expert.decayedHotness now halfLife
  pinned         := expert.pinned
  lastUsedUnixMs := expert.lastUsedUnixMillis

def new (observation : ExpertObservation) (now : Nat) : TrackedExpert φ where
  tier                    := observation.tier
  bytes                   := observation.bytes
  hotness                 := Score.zero
  hotnessUpdatedMillis    := now
  pinned                  := false
  lastUsedMonotonicMillis := none
  lastUsedUnixMillis      := none
  lastTransitionMillis    := none
  revision                := 1

def bump (expert : TrackedExpert φ) : TrackedExpert φ :=
  { expert with revision := add u64Max expert.revision 1 }

def observed (observation : ExpertObservation) (now : Nat) (expert : TrackedExpert φ) :
    TrackedExpert φ :=
  let moved :=
    if expert.tier ≠ observation.tier then
      { expert with tier := observation.tier, lastTransitionMillis := some now }
    else
      expert
  if expert.tier ≠ observation.tier ∨ expert.bytes ≠ observation.bytes then
    { moved with bytes := observation.bytes }.bump
  else
    moved

def accessed (weight : φ) (nowMono nowUnix halfLife : Nat) (expert : TrackedExpert φ) :
    TrackedExpert φ :=
  { expert with
    hotness                 :=
      Score.min (Score.add (expert.decayedHotness nowMono halfLife) weight) Score.maxHotness
    hotnessUpdatedMillis    := nowMono
    lastUsedMonotonicMillis := some nowMono
    lastUsedUnixMillis      := some nowUnix }.bump

def setPinned (pinned : Bool) (expert : TrackedExpert φ) : TrackedExpert φ :=
  if expert.pinned ≠ pinned then { expert with pinned }.bump else expert

def moved (target : ExpertTier) (now : Nat) (expert : TrackedExpert φ) : TrackedExpert φ :=
  { expert with tier := target, lastTransitionMillis := some now }.bump

end TrackedExpert

open ExpertState

abbrev Outcome (φ α : Type) := Except ExpertResidencyError α × ExpertState φ

section Updates

variable [Score φ] (config : ExpertResidencyConfig φ)

-- A model is added with its first expert.
def track (key : ExpertKey) (expert : TrackedExpert φ) (now : Nat) (s : ExpertState φ) :
    Outcome φ (ExpertSummary φ) :=
  let s := s.addModel key.modelId
  if s.models[key.modelId]?.elim 0 ExtTreeMap.size ≥ config.maxExpertsPerModel then
    (.error <| .modelExpertLimitReached key.modelId config.maxExpertsPerModel, s)
  else
    (.ok <| expert.summary key now config.hotnessHalfLifeMillis, s.insert key expert)

def observe (observation : ExpertObservation) (now : Nat) (s : ExpertState φ) :
    Outcome φ (ExpertSummary φ) :=
  let key : ExpertKey := ⟨observation.modelId, observation.expertId⟩
  match validateModelId observation.modelId, validateExpertId observation.expertId with
  | .error error, _          => (.error error, s)
  | .ok (), .error error     => (.error error, s)
  | .ok (), .ok ()           =>
    if observation.bytes = some 0 then
      (.error <| .invalidConfiguration "expert byte size must be greater than zero when known", s)
    else if key ∈ s.pending then
      (.error <| actionInFlight key, s)
    else
      match s.lookup key with
      | some expert =>
        let expert := expert.observed observation now
        (.ok <| expert.summary key now config.hotnessHalfLifeMillis, s.update key fun _ => expert)
      | none =>
        if observation.modelId ∉ s.models ∧ s.models.size ≥ config.maxModels then
          (.error <| .modelLimitReached config.maxModels, s)
        else if s.totalExperts ≥ config.maxTotalExperts then
          (.error <| .totalExpertLimitReached config.maxTotalExperts, s)
        else
          track config key (.new observation now) now s

def invalidWeight (weight : φ) : Bool :=
  !Score.isFinite weight || Score.le weight Score.zero || Score.lt Score.maxAccessWeight weight

-- The weights of the same expert are added up.
def combineAccess (combined : ExtTreeMap String φ) (access : ExpertAccess φ) :
    Except ExpertResidencyError (ExtTreeMap String φ) := do
  validateExpertId access.expertId
  if invalidWeight access.weight then
    .error .invalidAccessWeight
  else
    let value := Score.add (combined[access.expertId]?.getD Score.zero) access.weight
    if !Score.isFinite value || Score.lt Score.maxAccessWeight value then
      .error .invalidAccessWeight
    else
      .ok <| combined.insert access.expertId value

-- All experts of a batch must be tracked and free.
def validateBatch (s : ExpertState φ) (modelId : String) :
    List String → Except ExpertResidencyError Unit
  | []                   => .ok ()
  | expertId :: rest =>
    let key : ExpertKey := ⟨modelId, expertId⟩
    match s.lookup key with
    | none   => .error <| unknownExpert key
    | some _ => if key ∈ s.pending then .error <| actionInFlight key else validateBatch s modelId rest

-- The updates of a batch, and a summary of each updated expert.
def updateBatch {α} (modelId : String) (expertId : α → String)
    (f : α → TrackedExpert φ → TrackedExpert φ) (now : Nat) (batch : List α) (s : ExpertState φ) :
    List (ExpertSummary φ) × ExpertState φ :=
  match batch with
  | []        => ([], s)
  | a :: rest =>
    let key : ExpertKey := ⟨modelId, expertId a⟩
    let s := s.update key (f a)
    let summary := (s.lookup key).map fun expert =>
      expert.summary key now config.hotnessHalfLifeMillis
    let (summaries, s) := updateBatch modelId expertId f now rest s
    (summary.toList ++ summaries, s)

def recordAccesses (modelId : String) (accesses : List (ExpertAccess φ)) (nowMono nowUnix : Nat)
    (s : ExpertState φ) : Outcome φ (List (ExpertSummary φ)) :=
  match validateModelId modelId with
  | .error error => (.error error, s)
  | .ok ()       =>
    if accesses.isEmpty || accesses.length > config.maxAccessBatch then
      (.error <| .invalidLimit "access batch" config.maxAccessBatch, s)
    else
      match accesses.foldlM combineAccess (∅ : ExtTreeMap String φ) with
      | .error error => (.error error, s)
      | .ok combined =>
        if modelId ∉ s.models then
          (.error <| .unknownModel modelId, s)
        else
          match validateBatch s modelId combined.keys with
          | .error error => (.error error, s)
          | .ok ()       =>
            let access := fun (entry : String × φ) =>
              TrackedExpert.accessed entry.2 nowMono nowUnix config.hotnessHalfLifeMillis
            let (summaries, s) :=
              updateBatch config modelId Prod.fst access nowMono combined.toList s
            (.ok summaries, s)

def validateActionLimit (limit maximum : Nat) : Except ExpertResidencyError Unit :=
  if limit = 0 ∨ limit > maximum then .error <| .invalidLimit "action" maximum else .ok ()

def validateUnique (modelId : String) (unique : Finset String) :
    List String → Except ExpertResidencyError Unit
  | []                   => .ok ()
  | expertId :: rest =>
    match validateExpertId expertId with
    | .error error => .error error
    | .ok ()       =>
      if expertId ∈ unique then
        .error <| .duplicateExpert modelId expertId
      else
        validateUnique modelId (Insert.insert expertId unique) rest

def validateIdBatch (modelId : String) (ids : List String) (maximum : Nat) :
    Except ExpertResidencyError Unit :=
  match validateActionLimit ids.length maximum with
  | .error error => .error error
  | .ok ()       => validateUnique modelId ∅ ids

-- A dry run reports the pins that it would set.
def setPinned (modelId : String) (expertIds : List String) (pinned dryRun : Bool) (now : Nat)
    (s : ExpertState φ) : Outcome φ (List (ExpertSummary φ)) :=
  match validateModelId modelId, validateIdBatch modelId expertIds config.maxActions with
  | .error error, _      => (.error error, s)
  | .ok (), .error error => (.error error, s)
  | .ok (), .ok ()       =>
    if modelId ∉ s.models then
      (.error <| .unknownModel modelId, s)
    else
      match validateBatch s modelId expertIds with
      | .error error => (.error error, s)
      | .ok ()       =>
        let pin := fun (_ : String) expert => if dryRun then expert else expert.setPinned pinned
        let (summaries, s) := updateBatch config modelId id pin now expertIds s
        let summaries :=
          if dryRun then summaries.map fun summary => { summary with pinned } else summaries
        (.ok summaries, s)

-- What the updates do, case by case.
section Cases

variable {config : ExpertResidencyConfig φ} {s : ExpertState φ} {modelId : String} {now : Nat}

-- Updates of experts that no permit claims.
inductive Touched : ExpertState φ → ExpertState φ → Prop
  | refl {s : ExpertState φ} : Touched s s
  | step {s s' : ExpertState φ} {key f} :
    key ∉ s.pending → Touched (s.update key f) s' → Touched s s'

-- The capacity for one more expert of a model.
structure Room (config : ExpertResidencyConfig φ) (s : ExpertState φ) (modelId : String) :
    Prop where
  models   : modelId ∉ s.models → s.models.size < config.maxModels
  experts  : s.totalExperts < config.maxTotalExperts
  perModel : ∀ experts, s.models[modelId]? = some experts →
    experts.size < config.maxExpertsPerModel

-- A model that is added for a new expert has room for it, so that no empty model stays.
theorem track_cases {key expert} (hp : 0 < config.maxExpertsPerModel) :
    (∃ error, track config key expert now s = (.error error, s)) ∨
    ∃ summary, (∀ experts, s.models[key.modelId]? = some experts →
        experts.size < config.maxExpertsPerModel) ∧
      track config key expert now s = (.ok summary, (s.addModel key.modelId).insert key expert) := by
  rw [track, model_addModel]
  split
  case isTrue hs =>
    cases hm : s.models[key.modelId]?
    case none =>
      rw [hm] at hs
      exact absurd hs <| Nat.not_le.mpr <| by simpa using hp
    case some experts =>
      have ha : s.addModel key.modelId = s := by
        have hi : key.modelId ∈ s.models := mem_of_lookup hm
        have : s.models.insertIfNew key.modelId ∅ = s.models := by
          ext1 m
          rw [getElem?_insertIfNew, if_neg fun h => h.2 hi]
        rw [addModel, this]
      exact .inl ⟨_, by rw [ha]⟩
  case isFalse hs =>
    refine .inr ⟨_, fun experts hm => ?_, rfl⟩
    rw [hm] at hs
    exact Nat.not_le.mp hs

theorem observe_cases {observation key} (hk : key = ⟨observation.modelId, observation.expertId⟩)
    (hp : 0 < config.maxExpertsPerModel) :
    (∃ error, observe config observation now s = (.error error, s)) ∨
    (∃ summary f, key ∉ s.pending ∧
      observe config observation now s = (.ok summary, s.update key f)) ∨
    ∃ summary expert, key ∉ s.pending ∧ s.lookup key = none ∧ Room config s key.modelId ∧
      observe config observation now s =
        (.ok summary, (s.addModel key.modelId).insert key expert) := by
  subst hk
  rw [observe]
  split
  case h_1 => exact .inl ⟨_, rfl⟩
  case h_2 => exact .inl ⟨_, rfl⟩
  case h_3 =>
    split
    case isTrue => exact .inl ⟨_, rfl⟩
    case isFalse =>
      split
      case isTrue      => exact .inl ⟨_, rfl⟩
      case isFalse hn =>
        split
        case h_1 expert _ => exact .inr <| .inl ⟨_, _, hn, rfl⟩
        case h_2 hl =>
          split
          case isTrue     => exact .inl ⟨_, rfl⟩
          case isFalse hm =>
            split
            case isTrue     => exact .inl ⟨_, rfl⟩
            case isFalse ht =>
              cases track_cases hp
              case inl h => exact .inl h
              case inr h =>
                have ⟨_, hr, he⟩ := h
                have hm : observation.modelId ∉ s.models → s.models.size < config.maxModels :=
                  fun hi => Nat.not_le.mp fun hs => hm ⟨hi, hs⟩
                exact .inr <| .inr ⟨_, _, hn, hl, ⟨hm, Nat.not_le.mp ht, hr⟩, he⟩

omit [Score φ] in
theorem validateBatch_ok {expertIds} (h : validateBatch s modelId expertIds = .ok ()) :
    ∀ expertId ∈ expertIds, ⟨modelId, expertId⟩ ∉ s.pending := by
  induction expertIds
  case nil => nofun
  case cons hd tl hi =>
    rw [validateBatch] at h
    split at h
    case h_1 => cases h
    case h_2 =>
      split at h
      case isTrue     => cases h
      case isFalse hn => exact List.forall_mem_cons.mpr ⟨hn, hi h⟩

theorem updateBatch_touched {α} {expertId : α → String} {f : α → TrackedExpert φ → TrackedExpert φ}
    {batch : List α} (h : ∀ a ∈ batch, ⟨modelId, expertId a⟩ ∉ s.pending) :
    Touched s (updateBatch config modelId expertId f now batch s).2 := by
  induction batch generalizing s
  case nil           => exact .refl
  case cons hd tl hi =>
    have ⟨hh, ht⟩ := List.forall_mem_cons.mp h
    exact .step hh <| hi ht

theorem recordAccesses_cases {accesses nowUnix} :
    (∃ error, recordAccesses config modelId accesses now nowUnix s = (.error error, s)) ∨
    ∃ summaries s', Touched s s' ∧
      recordAccesses config modelId accesses now nowUnix s = (.ok summaries, s') := by
  rw [recordAccesses]
  split
  case h_1 => exact .inl ⟨_, rfl⟩
  case h_2 =>
    split
    case isTrue  => exact .inl ⟨_, rfl⟩
    case isFalse =>
      split
      case h_1          => exact .inl ⟨_, rfl⟩
      case h_2 combined _ =>
        split
        case isTrue  => exact .inl ⟨_, rfl⟩
        case isFalse =>
          split
          case h_1    => exact .inl ⟨_, rfl⟩
          case h_2 hb =>
            refine .inr ⟨_, _, updateBatch_touched fun a ha => ?_, rfl⟩
            refine validateBatch_ok hb _ ?_
            rw [←map_fst_toList_eq_keys]
            exact List.mem_map_of_mem ha

theorem setPinned_cases {expertIds pinned dryRun} :
    (∃ error, setPinned config modelId expertIds pinned dryRun now s = (.error error, s)) ∨
    ∃ summaries s', Touched s s' ∧
      setPinned config modelId expertIds pinned dryRun now s = (.ok summaries, s') := by
  rw [setPinned]
  split
  case h_1 => exact .inl ⟨_, rfl⟩
  case h_2 => exact .inl ⟨_, rfl⟩
  case h_3 =>
    split
    case isTrue  => exact .inl ⟨_, rfl⟩
    case isFalse =>
      split
      case h_1    => exact .inl ⟨_, rfl⟩
      case h_2 hb =>
        exact .inr ⟨_, _, updateBatch_touched fun a ha => validateBatch_ok hb _ ha, rfl⟩

end Cases
end Updates

section Actions

def validateMemoryTransition : ExpertTier → ExpertTier → Except ExpertResidencyError Unit
  | .ram, .vram | .vram, .ram => .ok ()
  | source, target            => .error <| .invalidTierTransition source target

def isStale (expert : TrackedExpert φ) (action : ExpertPolicyAction) : Bool :=
  expert.revision ≠ action.revision || expert.tier ≠ action.sourceTier ||
  expert.bytes ≠ action.bytes

def validateEviction (expert : TrackedExpert φ) (key : ExpertKey) :
    Except ExpertResidencyError Unit :=
  if expert.tier = .external then
    .error <| .invalidTierTransition .external .external
  else if expert.pinned then
    .error <| .pinnedExpert key.modelId key.expertId
  else
    .ok ()

-- An explicit action bypasses the policy, but not the pins that protect from evictions.
def explicitAction (key : ExpertKey) (target : Option ExpertTier) (s : ExpertState φ) :
    Except ExpertResidencyError ExpertPolicyAction := do
  validateModelId key.modelId
  validateExpertId key.expertId
  let expert ← s.lookupExpert key
  if key ∈ s.pending then
    .error <| actionInFlight key
  else
    match target with
    | some target =>
      validateMemoryTransition expert.tier target
      .ok <| .move key expert.tier target expert.bytes expert.revision
    | none =>
      validateEviction expert key
      .ok <| .evict key expert.tier expert.bytes expert.revision

def validatePlannedAction (s : ExpertState φ) (action : ExpertPolicyAction) :
    Except ExpertResidencyError Unit :=
  if action.key ∈ s.pending then
    .error <| actionInFlight action.key
  else
    match s.lookupExpert action.key with
    | .error error => .error error
    | .ok expert   =>
      if isStale expert action then
        .error <| staleAction action.key
      else
        match action with
        | .move _ source target .. => validateMemoryTransition source target
        | .evict key ..            => validateEviction expert key

def validateCommittableAction (s : ExpertState φ) (action : ExpertPolicyAction) :
    Except ExpertResidencyError Unit :=
  if action.key ∉ s.pending then
    .error <| staleAction action.key
  else
    match s.lookupExpert action.key with
    | .error error => .error error
    | .ok expert   => if isStale expert action then .error <| staleAction action.key else .ok ()

-- A permit that was neither committed nor dropped.
structure ExpertActionPermit where
  actions : List ExpertPolicyAction
  deriving DecidableEq

def validatePlannedActions (s : ExpertState φ) (unique : Finset ExpertKey) :
    List ExpertPolicyAction → Except ExpertResidencyError Unit
  | []                   => .ok ()
  | action :: rest =>
    if action.key ∈ unique then
      .error <| .duplicateExpert action.key.modelId action.key.expertId
    else
      match validatePlannedAction s action with
      | .error error => .error error
      | .ok ()       => validatePlannedActions s (Insert.insert action.key unique) rest

def keysOf (actions : List ExpertPolicyAction) : Finset ExpertKey :=
  (actions.map (·.key)).toFinset

def beginActions (config : ExpertResidencyConfig φ) (actions : List ExpertPolicyAction)
    (s : ExpertState φ) : Outcome φ ExpertActionPermit :=
  match validateActionLimit actions.length config.maxActions with
  | .error error => (.error error, s)
  | .ok ()       =>
    match validatePlannedActions s ∅ actions with
    | .error error => (.error error, s)
    | .ok ()       => (.ok { actions }, { s with pending := keysOf actions ∪ s.pending })

def validateCommittableActions (s : ExpertState φ) :
    List ExpertPolicyAction → Except ExpertResidencyError Unit
  | []             => .ok ()
  | action :: rest =>
    match validateCommittableAction s action with
    | .error error => .error error
    | .ok ()       => validateCommittableActions s rest

def applyAction (action : ExpertPolicyAction) (now : Nat) (s : ExpertState φ) : ExpertState φ :=
  match action with
  | .move key _ target .. => s.update key (TrackedExpert.moved target now)
  | .evict key ..         => s.remove key

def applyActions (actions : List ExpertPolicyAction) (now : Nat) (s : ExpertState φ) :
    ExpertState φ :=
  actions.foldl (fun s action => applyAction action now s) s

-- The actions that were applied, as they are reported.
def commitOutcome [Score φ] (config : ExpertResidencyConfig φ) (actions : List ExpertPolicyAction) (now : Nat)
    (s : ExpertState φ) : ExpertCommitOutcome φ :=
  match actions with
  | []             => ⟨[], []⟩
  | action :: rest =>
    let s       := applyAction action now s
    let outcome := commitOutcome config rest now s
    match action with
    | .move key .. =>
      let summary := (s.lookup key).map fun expert =>
        expert.summary key now config.hotnessHalfLifeMillis
      { outcome with updated := summary.toList ++ outcome.updated }
    | .evict key .. =>
      { outcome with evicted := key :: outcome.evicted }

def release (actions : List ExpertPolicyAction) (s : ExpertState φ) : ExpertState φ :=
  { s with pending := s.pending \ keysOf actions }

namespace ExpertActionPermit

def drop (permit : ExpertActionPermit) (s : ExpertState φ) : ExpertState φ :=
  release permit.actions s

def commit [Score φ] (config : ExpertResidencyConfig φ) (permit : ExpertActionPermit) (now : Nat)
    (s : ExpertState φ) : Outcome φ (ExpertCommitOutcome φ) :=
  match validateCommittableActions s permit.actions with
  | .error error => (.error error, permit.drop s)
  | .ok ()       =>
    (.ok <| commitOutcome config permit.actions now s,
      release permit.actions (applyActions permit.actions now s).removeEmptyModels)

end ExpertActionPermit

-- What an action makes of the expert that it is about.
def ExpertPolicyAction.effect (action : ExpertPolicyAction) (now : Nat) (expert : TrackedExpert φ) :
    Option (TrackedExpert φ) :=
  match action with
  | .move _ _ target .. => some <| expert.moved target now
  | .evict ..           => none

variable {s s' : ExpertState φ} {action : ExpertPolicyAction} {actions : List ExpertPolicyAction}
variable {now : Nat} {key k : ExpertKey} {expert : TrackedExpert φ}

-- The state still backs an action as it was planned.
structure Backed (s : ExpertState φ) (action : ExpertPolicyAction) (expert : TrackedExpert φ) :
    Prop where
  lookup   : s.lookup action.key = some expert
  current  : isStale expert action = false
  unpinned : action.targetTier = none → expert.pinned = false

theorem lookupExpert_ok (h : s.lookupExpert key = .ok expert) : s.lookup key = some expert := by
  rw [lookupExpert] at h
  split at h
  case h_1 => cases h
  case h_2 hm =>
    split at h
    case h_1    => cases h
    case h_2 he =>
      cases h
      rw [lookup, hm]
      exact he

theorem lookupExpert_of_lookup (h : s.lookup key = some expert) : s.lookupExpert key = .ok expert := by
  have ⟨experts, hm, he⟩ := Option.bind_eq_some_iff.mp h
  rw [lookupExpert, hm]
  dsimp only
  rw [he]

theorem validateEviction_ok (h : validateEviction expert key = .ok ()) : expert.pinned = false := by
  rw [validateEviction] at h
  split at h
  case isTrue => cases h
  case isFalse =>
    split at h
    case isTrue     => cases h
    case isFalse hp => exact Bool.eq_false_iff.mpr hp

theorem validatePlannedAction_ok (h : validatePlannedAction s action = .ok ()) :
    action.key ∉ s.pending ∧ ∃ expert, Backed s action expert := by
  rw [validatePlannedAction] at h
  split at h
  case isTrue => cases h
  case isFalse hn =>
    split at h
    case h_1           => cases h
    case h_2 expert he =>
      split at h
      case isTrue     => cases h
      case isFalse hs =>
        refine ⟨hn, expert, lookupExpert_ok he, Bool.eq_false_iff.mpr hs, fun ht => ?_⟩
        cases action
        case move  => cases ht
        case evict => exact validateEviction_ok h

theorem validatePlannedActions_ok {unique} (h : validatePlannedActions s unique actions = .ok ()) :
    (actions.map (·.key)).Nodup ∧ ∀ action ∈ actions, action.key ∉ unique ∧
      action.key ∉ s.pending ∧ ∃ expert, Backed s action expert := by
  induction actions generalizing unique
  case nil           => exact ⟨.nil, nofun⟩
  case cons hd tl hi =>
    rw [validatePlannedActions] at h
    split at h
    case isTrue     => cases h
    case isFalse hu =>
      split at h
      case h_1    => cases h
      case h_2 hv =>
        have ⟨hn, ht⟩ := hi h
        have ⟨hp, hb⟩ := validatePlannedAction_ok hv
        refine ⟨List.nodup_cons.mpr ⟨fun hm => ?_, hn⟩, List.forall_mem_cons.mpr ⟨⟨hu, hp, hb⟩, ?_⟩⟩
        · have ⟨a, ha, hk⟩ := List.mem_map.mp hm
          exact (ht a ha).1 <| hk ▸ Finset.mem_insert_self _ _
        · exact fun a ha => (ht a ha).imp_left fun hu hm => hu <| Finset.mem_insert_of_mem hm

theorem mem_keysOf : k ∈ keysOf actions ↔ ∃ action ∈ actions, action.key = k := by
  simp [keysOf]

theorem beginActions_cases {config : ExpertResidencyConfig φ} :
    (∃ error, beginActions config actions s = (.error error, s)) ∨
    (actions.map (·.key)).Nodup ∧
      (∀ action ∈ actions, action.key ∉ s.pending ∧ ∃ expert, Backed s action expert) ∧
      beginActions config actions s =
        (.ok ⟨actions⟩, { s with pending := keysOf actions ∪ s.pending }) := by
  rw [beginActions]
  split
  case h_1 => exact .inl ⟨_, rfl⟩
  case h_2 =>
    split
    case h_1    => exact .inl ⟨_, rfl⟩
    case h_2 hv =>
      have ⟨hn, hb⟩ := validatePlannedActions_ok hv
      exact .inr ⟨hn, fun a ha => (hb a ha).2, rfl⟩

theorem validateCommittableActions_of_backed
    (hb : ∀ action ∈ actions, action.key ∈ s.pending ∧ ∃ expert, Backed s action expert) :
    validateCommittableActions s actions = .ok () := by
  induction actions
  case nil           => rfl
  case cons hd tl hi =>
    have ⟨⟨hp, expert, hd⟩, ht⟩ := List.forall_mem_cons.mp hb
    simp [validateCommittableActions, validateCommittableAction, hp,
      lookupExpert_of_lookup hd.lookup, hd.current, hi ht]

theorem commit_of_backed [Score φ] {config : ExpertResidencyConfig φ} {permit : ExpertActionPermit}
    (hb : ∀ action ∈ permit.actions, action.key ∈ s.pending ∧ ∃ expert, Backed s action expert) :
    permit.commit config now s = (.ok <| commitOutcome config permit.actions now s,
      release permit.actions (applyActions permit.actions now s).removeEmptyModels) := by
  rw [ExpertActionPermit.commit, validateCommittableActions_of_backed hb]

theorem lookup_applyAction : (applyAction action now s).lookup k =
    if action.key = k then (s.lookup k).bind (action.effect now) else s.lookup k := by
  cases action
  case move key source target bytes revision =>
    rw [applyAction, lookup_update]
    cases s.lookup k <;> rfl
  case evict key source bytes revision =>
    rw [applyAction, lookup_remove]
    cases s.lookup k <;> rfl

theorem pending_applyAction : (applyAction action now s).pending = s.pending := by
  cases action <;> rfl

theorem lookup_applyActions_of_notMem (h : k ∉ keysOf actions) :
    (applyActions actions now s).lookup k = s.lookup k := by
  induction actions generalizing s
  case nil           => rfl
  case cons hd tl hi =>
    have hk : hd.key ≠ k := fun hk => h <| mem_keysOf.mpr ⟨hd, List.mem_cons_self, hk⟩
    have ht : k ∉ keysOf tl := fun hm => by
      have ⟨a, ha, hm⟩ := mem_keysOf.mp hm
      exact h <| mem_keysOf.mpr ⟨a, List.mem_cons_of_mem _ ha, hm⟩
    exact (hi ht).trans <| lookup_applyAction.trans <| if_neg hk

-- Every action of a batch without duplicates has its own effect.
theorem lookup_applyActions_of_mem (hn : (actions.map (·.key)).Nodup) (hm : action ∈ actions) :
    (applyActions actions now s).lookup action.key =
      (s.lookup action.key).bind (action.effect now) := by
  induction actions generalizing s
  case nil           => cases hm
  case cons hd tl hi =>
    have ⟨hh, ht⟩ := List.nodup_cons.mp hn
    cases List.mem_cons.mp hm
    case inl hm =>
      subst hm
      have hk : action.key ∉ keysOf tl := fun hk => hh <| List.mem_map.mpr <| mem_keysOf.mp hk
      refine (lookup_applyActions_of_notMem hk).trans ?_
      rw [lookup_applyAction, if_pos rfl]
    case inr hm =>
      have hk : hd.key ≠ action.key := fun hk => hh <| List.mem_map.mpr ⟨action, hm, hk.symm⟩
      refine (hi ht hm).trans ?_
      rw [lookup_applyAction, if_neg hk]

theorem pending_applyActions : (applyActions actions now s).pending = s.pending := by
  induction actions generalizing s
  case nil           => rfl
  case cons hd tl hi => exact hi.trans pending_applyAction

theorem pending_commit :
    (release actions (applyActions actions now s).removeEmptyModels).pending =
      s.pending \ keysOf actions := by
  rw [release, removeEmptyModels, pending_applyActions]

end Actions
end RuntimeControl.Experts
