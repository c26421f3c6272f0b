import WerkModel.Lib.Tokens
import WerkModel.RuntimeControl.Experts.World

-- The tracked experts are counted, and the pending ones are exactly those that a live permit claims.
open Std ExtTreeMap Saturating Tokens

namespace RuntimeControl.Experts

open ExpertState

variable {φ : Type} {config : ExpertResidencyConfig φ}

namespace ExpertState

variable {s s' : ExpertState φ} {key k : ExpertKey} {expert : TrackedExpert φ}

-- The bounds of the tracked experts. Models may be empty while actions are applied.
structure Counted (config : ExpertResidencyConfig φ) (s : ExpertState φ) : Prop where
  total    : s.totalExperts = s.sizes.valueSum id
  models   : s.sizes.size ≤ config.maxModels
  perModel : ∀ (modelId : String) size, s.sizes[modelId]? = some size →
    size ≤ config.maxExpertsPerModel
  experts  : s.totalExperts ≤ config.maxTotalExperts

theorem sizes_new : (ExpertState.new : ExpertState φ).sizes = ∅ := by
  ext1 modelId
  simp [lookup_sizes, ExpertState.new]

theorem Counted.new : (ExpertState.new : ExpertState φ).Counted config where
  total    := by rw [sizes_new, valueSum_empty]; rfl
  models   := by simp [sizes_new]
  perModel := by simp [sizes_new]
  experts  := Nat.zero_le _

def NoEmptyModel (s : ExpertState φ) : Prop :=
  ∀ modelId : String, s.sizes[modelId]? ≠ some 0

theorem Counted.update {f} (h : s.Counted config) : (s.update key f).Counted config where
  total    := sizes_update (s := s) ▸ h.total
  models   := sizes_update (s := s) ▸ h.models
  perModel := sizes_update (s := s) ▸ h.perModel
  experts  := h.experts

-- There is room for the expert, so that the saturating counter counts it.
theorem Counted.track (h : s.Counted config) (hl : s.lookup key = none)
    (hr : Room config s key.modelId)
    (hv : 0 < config.maxExpertsPerModel ∧ config.maxTotalExperts ≤ Experts.maxTotalExperts) :
    ((s.addModel key.modelId).insert key expert).Counted config := by
  have ht : s.sizes.valueSum id =
      s.sizes[key.modelId]?.getD 0 + (s.sizes.erase key.modelId).valueSum id := by
    rw [valueSum_erase _ key.modelId]
    cases s.sizes[key.modelId]? <;> rfl
  have ha : ((s.addModel key.modelId).insert key expert).totalExperts = s.totalExperts + 1 := by
    refine add_eq ?_
    have := hr.experts
    simp only [addModel, Experts.maxTotalExperts, usizeMax] at *
    omega
  have := h.total
  constructor
  case total =>
    rw [ha, sizes_track hl, valueSum_insert]
    simp only [id]
    omega
  case models =>
    rw [sizes_track hl, ExtTreeMap.size_insert]
    split
    case isTrue     => exact h.models
    case isFalse hm =>
      have hm : key.modelId ∉ s.models := by simpa [sizes] using hm
      rw [size_sizes]
      exact hr.models hm
  case perModel =>
    intro modelId n hn
    rw [sizes_track hl, getElem?_insert] at hn
    split at hn
    case isFalse => exact h.perModel _ _ hn
    case isTrue  =>
      cases hn
      rw [lookup_sizes]
      cases hm : s.models[key.modelId]?
      case none         => exact hv.1
      case some experts => exact hr.perModel _ hm
  case experts =>
    rw [ha]
    exact hr.experts

theorem NoEmptyModel.track (h : s.NoEmptyModel) (hl : s.lookup key = none) :
    ((s.addModel key.modelId).insert key expert).NoEmptyModel := by
  intro modelId hn
  rw [sizes_track hl, getElem?_insert] at hn
  split at hn
  case isTrue  => cases hn
  case isFalse => exact h modelId hn

theorem NoEmptyModel.update {f} (h : s.NoEmptyModel) : (s.update key f).NoEmptyModel := by
  rw [NoEmptyModel, sizes_update]
  exact h

theorem Counted.remove (h : s.Counted config) (hl : s.lookup key = some expert) :
    (s.remove key).Counted config := by
  have ⟨size, hs, hr⟩ := sizes_remove hl
  have ht : s.sizes.valueSum id = size + 1 + (s.sizes.erase key.modelId).valueSum id := by
    rw [valueSum_erase _ key.modelId, hs]
    rfl
  have := h.total
  have hm : key.modelId ∈ s.sizes := mem_of_lookup hs
  constructor
  case total =>
    rw [hr, valueSum_insert]
    simp only [ExpertState.remove, id]
    omega
  case models =>
    rw [hr, ExtTreeMap.size_insert, if_pos (by simpa using hm)]
    exact h.models
  case perModel =>
    intro modelId n hn
    rw [hr, getElem?_insert] at hn
    split at hn
    case isTrue  => cases hn; exact (Nat.le_succ _).trans <| h.perModel _ _ hs
    case isFalse => exact h.perModel _ _ hn
  case experts => exact (Nat.sub_le ..).trans h.experts

theorem Counted.removeEmptyModels (h : s.Counted config) :
    s.removeEmptyModels.Counted config where
  total               := by
    rw [sizes_removeEmptyModels, valueSum_filter_of_zero (by simp)]
    exact h.total
  models              := by
    rw [sizes_removeEmptyModels]
    exact size_filter_le_size.trans h.models
  perModel modelId n hn := by
    rw [sizes_removeEmptyModels, getElem?_filter', Option.filter_eq_some_iff] at hn
    exact h.perModel modelId n hn.1
  experts             := h.experts

theorem noEmptyModel_removeEmptyModels : s.removeEmptyModels.NoEmptyModel := by
  intro modelId h
  rw [sizes_removeEmptyModels, getElem?_filter', Option.filter_eq_some_iff] at h
  simp at h

theorem Counted.applyActions {actions : List ExpertPolicyAction} {now : Nat}
    (h : s.Counted config) (hn : (actions.map (·.key)).Nodup)
    (hb : ∀ action ∈ actions, ∃ expert, s.lookup action.key = some expert) :
    (applyActions actions now s).Counted config := by
  induction actions generalizing s
  case nil => exact h
  case cons hd tl hi =>
    have ⟨hh, ht⟩ := List.nodup_cons.mp hn
    have ⟨⟨expert, hd'⟩, hb⟩ := List.forall_mem_cons.mp hb
    have hs : (applyAction hd now s).Counted config := by
      cases hd
      case move  => exact h.update
      case evict => exact h.remove hd'
    refine hi hs ht fun action ha => ?_
    have hk : hd.key ≠ action.key := fun hk => hh <| List.mem_map.mpr ⟨action, ha, hk.symm⟩
    rw [lookup_applyAction, if_neg hk]
    exact hb action ha

end ExpertState

structure World.Consistent (config : ExpertResidencyConfig φ) (world : World φ) : Prop where
  counted  : world.state.Counted config
  nonempty : world.state.NoEmptyModel
  held     : Hold (fun permit : ExpertActionPermit => keysOf permit.actions) world.permits
    world.state.pending
  distinct : ∀ permit ∈ world.permits, (permit.actions.map (·.key)).Nodup
  backed   : ∀ permit ∈ world.permits, ∀ action ∈ permit.actions,
    ∃ expert, Backed world.state action expert

variable [Score φ] {world world' : World φ} {operation : Operation φ} {result : Result φ}
variable {s s' : ExpertState φ} {permit : ExpertActionPermit} {key : ExpertKey}

-- What an operation does to a consistent world.
inductive Effect (config : ExpertResidencyConfig φ) (world : World φ) :
    Operation φ → Result φ → World φ → Prop
  | touched {operation result state} :
    Touched world.state state →
    Effect config world operation result { world with state }
  | tracked {observation now summary} {key : ExpertKey} {expert} :
    key ∉ world.state.pending →
    world.state.lookup key = none →
    Room config world.state key.modelId →
    Effect config world (.observe observation now) (.ok <| .summary summary)
      { world with state := (world.state.addModel key.modelId).insert key expert }
  | begun {actions} :
    (actions.map (·.key)).Nodup →
    (∀ action ∈ actions, action.key ∉ world.state.pending ∧
      ∃ expert, Backed world.state action expert) →
    Effect config world (.beginActions actions) (.ok <| .permit ⟨actions⟩)
      (world.begin ⟨actions⟩)
  | committed {permit : ExpertActionPermit} {now} :
    permit ∈ world.permits →
    Effect config world (.commitPermit permit now)
      (.ok <| .committed <| commitOutcome config permit.actions now world.state)
      (world.commit permit now)
  | dropped {permit : ExpertActionPermit} :
    permit ∈ world.permits →
    Effect config world (.dropPermit permit) (.ok .done) (world.drop permit)

namespace World.Consistent

omit [Score φ] in
theorem pending_of_mem (h : world.Consistent config) (hm : permit ∈ world.permits)
    {action} (ha : action ∈ permit.actions) : action.key ∈ world.state.pending :=
  h.held.subset hm <| mem_keysOf.mpr ⟨action, ha, rfl⟩

theorem commit_ok (h : world.Consistent config) (hm : permit ∈ world.permits) (now : Nat) :
    permit.commit config now world.state =
      (.ok <| commitOutcome config permit.actions now world.state,
        release permit.actions (applyActions permit.actions now world.state).removeEmptyModels) :=
  commit_of_backed fun action ha => ⟨h.pending_of_mem hm ha, h.backed _ hm action ha⟩

end World.Consistent

theorem apply_effect (h : world.Consistent config) (hv : config.validate = .ok ())
    (hl : world.Holds operation) :
    Effect config world operation (world.apply config operation).1
      (world.apply config operation).2 := by
  cases operation
  case observe observation now =>
    obtain ⟨_, he⟩ | ⟨_, _, hn, he⟩ | ⟨_, _, hn, hl, hr, he⟩ :=
      observe_cases (s := world.state) rfl (ExpertResidencyConfig.bounds_of_validate hv).1
    · exact World.apply_observe he ▸ .touched .refl
    · exact World.apply_observe he ▸ .touched (.step hn .refl)
    · exact World.apply_observe he ▸ .tracked hn hl hr
  case recordAccesses modelId accesses nowMono nowUnix =>
    cases recordAccesses_cases (s := world.state)
    case inl he => exact World.apply_recordAccesses he.choose_spec ▸ .touched .refl
    case inr he =>
      have ⟨_, _, ht, he⟩ := he
      exact World.apply_recordAccesses he ▸ .touched ht
  case setPinned modelId expertIds pinned dryRun now =>
    cases setPinned_cases (s := world.state)
    case inl he => exact World.apply_setPinned he.choose_spec ▸ .touched .refl
    case inr he =>
      have ⟨_, _, ht, he⟩ := he
      exact World.apply_setPinned he ▸ .touched ht
  case prefetchCandidates => exact .touched .refl
  case planPressure       => exact .touched .refl
  case explicitAction     => exact .touched .refl
  case beginActions actions =>
    cases beginActions_cases (s := world.state)
    case inl he => exact World.apply_beginActions_error he.choose_spec ▸ .touched .refl
    case inr he => exact World.apply_beginActions he.2.2 ▸ .begun he.1 he.2.1
  case commitPermit permit now =>
    exact World.apply_commitPermit (h.commit_ok hl now) ▸ .committed hl
  case dropPermit permit => exact .dropped hl

omit [Score φ] in
-- An expert that no permit claims is updated without a change of what is tracked.
theorem Touched.induct {I : ExpertState φ → Prop} (h : Touched s s') (hi : I s)
    (hu : ∀ s (key : ExpertKey) f, key ∉ s.pending → I s → I (s.update key f)) : I s' := by
  induction h
  case refl            => exact hi
  case step hk _ ih    => exact ih <| hu _ _ _ hk hi

namespace World.Consistent

omit [Score φ]

theorem new : (World.new : World φ).Consistent config where
  counted  := .new
  nonempty := by simp [World.new, NoEmptyModel, sizes_new]
  held     := Hold.zero
  distinct := fun _ hm => absurd hm (Multiset.notMem_zero _)
  backed   := fun _ hm => absurd hm (Multiset.notMem_zero _)

theorem update {f} (h : world.Consistent config) (hk : key ∉ world.state.pending) :
    { world with state := world.state.update key f : World φ }.Consistent config where
  counted              := h.counted.update
  nonempty             := h.nonempty.update
  held                 := h.held
  distinct             := h.distinct
  backed permit hm a ha := by
    have ⟨expert, hb⟩ := h.backed permit hm a ha
    refine ⟨expert, ?_, hb.current, hb.unpinned⟩
    have hn : key ≠ a.key := fun he => hk <| he ▸ h.pending_of_mem hm ha
    rw [lookup_update, if_neg hn]
    exact hb.lookup

theorem track {expert} (h : world.Consistent config)
    (hv : 0 < config.maxExpertsPerModel ∧ config.maxTotalExperts ≤ Experts.maxTotalExperts)
    (hk : key ∉ world.state.pending) (hl : world.state.lookup key = none)
    (hr : Room config world.state key.modelId) :
    { world with
      state := (world.state.addModel key.modelId).insert key expert : World φ }.Consistent config
      where
  counted              := h.counted.track hl hr hv
  nonempty             := h.nonempty.track hl
  held                 := h.held
  distinct             := h.distinct
  backed permit hm a ha := by
    have ⟨expert, hb⟩ := h.backed permit hm a ha
    refine ⟨expert, ?_, hb.current, hb.unpinned⟩
    have hn : key ≠ a.key := fun he => hk <| he ▸ h.pending_of_mem hm ha
    rw [lookup_insert (mem_of_lookup model_addModel), lookup_addModel, if_neg hn]
    exact hb.lookup

theorem begin (h : world.Consistent config) (hn : (permit.actions.map (·.key)).Nodup)
    (hb : ∀ action ∈ permit.actions, action.key ∉ world.state.pending ∧
      ∃ expert, Backed world.state action expert) :
    (world.begin permit).Consistent config where
  counted              := ⟨h.counted.total, h.counted.models, h.counted.perModel, h.counted.experts⟩
  nonempty             := h.nonempty
  held                 := by
    refine h.held.add <| Finset.disjoint_left.mpr fun key hk => ?_
    have ⟨action, ha, he⟩ := mem_keysOf.mp hk
    exact he ▸ (hb action ha).1
  distinct permit' hm  := by
    cases Multiset.mem_cons.mp hm
    case inl hm => exact hm ▸ hn
    case inr hm => exact h.distinct _ hm
  backed permit' hm a ha := by
    have ⟨expert, hb⟩ : ∃ expert, Backed world.state a expert := by
      cases Multiset.mem_cons.mp hm
      case inl hm => exact (hb a <| hm ▸ ha).2
      case inr hm => exact h.backed _ hm a ha
    exact ⟨expert, hb.lookup, hb.current, hb.unpinned⟩

theorem drop (h : world.Consistent config) (hm : permit ∈ world.permits) :
    (world.drop permit).Consistent config where
  counted              := ⟨h.counted.total, h.counted.models, h.counted.perModel, h.counted.experts⟩
  nonempty             := h.nonempty
  held                 := h.held.remove hm
  distinct _ hm'       := h.distinct _ <| Multiset.mem_of_mem_erase hm'
  backed _ hm' a ha    :=
    have ⟨expert, hb⟩ := h.backed _ (Multiset.mem_of_mem_erase hm') a ha
    ⟨expert, hb.lookup, hb.current, hb.unpinned⟩

-- The actions of other permits are about other experts.
theorem commit {now} (h : world.Consistent config) (hm : permit ∈ world.permits) :
    (world.commit permit now).Consistent config where
  counted := by
    have hb : ∀ action ∈ permit.actions, ∃ expert, world.state.lookup action.key = some expert :=
      fun a ha => (h.backed _ hm a ha).imp fun _ hb => hb.lookup
    have ha : (applyActions permit.actions now world.state).Counted config :=
      h.counted.applyActions (h.distinct _ hm) hb
    have hc := ha.removeEmptyModels
    exact ⟨hc.total, hc.models, hc.perModel, hc.experts⟩
  nonempty := noEmptyModel_removeEmptyModels
  held     := by
    have hp : (world.commit permit now).state.pending = _ := pending_commit
    rw [hp]
    exact h.held.remove hm
  distinct _ hm' := h.distinct _ <| Multiset.mem_of_mem_erase hm'
  backed permit' hm' a ha := by
    have ⟨expert, hb⟩ := h.backed _ (Multiset.mem_of_mem_erase hm') a ha
    have hk : a.key ∉ keysOf permit.actions := fun hk =>
      Finset.disjoint_left.mp (h.held.disjoint hm hm') hk <| mem_keysOf.mpr ⟨a, ha, rfl⟩
    refine ⟨expert, ?_, hb.current, hb.unpinned⟩
    exact (lookup_removeEmptyModels.trans <| lookup_applyActions_of_notMem hk).trans hb.lookup

end World.Consistent

theorem Effect.consistent (he : Effect config world operation result world')
    (h : world.Consistent config) (hv : config.validate = .ok ()) : world'.Consistent config := by
  cases he
  case touched state ht =>
    exact ht.induct (I := fun s => { world with state := s : World φ }.Consistent config) h
      fun _ _ _ hk hi => hi.update hk
  case tracked hk hl hr =>
    exact h.track (ExpertResidencyConfig.bounds_of_validate hv) hk hl hr
  case begun hn hb      => exact h.begin hn hb
  case committed hm     => exact h.commit hm
  case dropped hm       => exact h.drop hm

theorem consistent (config : ExpertResidencyConfig φ) :
    (system config).Invariant fun world => config.validate = .ok () ∧ world.Consistent config where
  init _ h           := ⟨h.1, h.2 ▸ .new⟩
  step _ _ _ _ h hst := by
    have he := apply_effect h.2 h.1 hst.1
    rw [hst.2] at he
    exact ⟨h.1, he.consistent h.2 h.1⟩

-- Only an eviction removes an expert, and it was not pinned.
theorem Effect.unpinned {expert} (he : Effect config world operation result world')
    (h : world.Consistent config) (hl : world.state.lookup key = some expert)
    (hn : world'.state.lookup key = none) : expert.pinned = false := by
  cases he
  case touched state ht =>
    have hs : ∃ expert, state.lookup key = some expert := by
      refine ht.induct (I := fun s => ∃ expert, s.lookup key = some expert) ⟨_, hl⟩ ?_
      intro s k f _ ⟨expert, hl⟩
      rw [lookup_update, hl]
      split
      case isTrue  => exact ⟨_, rfl⟩
      case isFalse => exact ⟨_, rfl⟩
    have ⟨_, hs⟩ := hs
    exact absurd (hs.symm.trans hn) nofun
  case tracked =>
    rw [lookup_insert (mem_of_lookup model_addModel), lookup_addModel, hl] at hn
    split at hn
    case isTrue  => cases hn
    case isFalse => cases hn
  case begun   => exact absurd (hl.symm.trans hn) nofun
  case dropped => exact absurd (hl.symm.trans hn) nofun
  case committed permit now hm =>
    have hn := lookup_removeEmptyModels.symm.trans hn
    by_cases hk : key ∈ keysOf permit.actions
    case neg => exact absurd (hl.symm.trans <| (lookup_applyActions_of_notMem hk).symm.trans hn) nofun
    case pos =>
      have ⟨action, ha, hk⟩ := mem_keysOf.mp hk
      have ⟨_, hb⟩ := h.backed _ hm _ ha
      rw [←hk, lookup_applyActions_of_mem (h.distinct _ hm) ha, hk, hl] at hn
      have he : expert = _ := Option.some.inj <| hl.symm.trans <| hk ▸ hb.lookup
      cases action
      case move  => cases hn
      case evict => exact he ▸ hb.unpinned rfl

theorem expert_claims (h : (system config).Reachable world) :
    (world.state.totalExperts = world.state.models.valueSum ExtTreeMap.size ∧
      (∀ (modelId : String) experts, world.state.models[modelId]? = some experts →
        0 < experts.size ∧ experts.size ≤ config.maxExpertsPerModel) ∧
      world.state.models.size ≤ config.maxModels ∧
      world.state.totalExperts ≤ config.maxTotalExperts) ∧
    (Hold (fun permit : ExpertActionPermit => keysOf permit.actions) world.permits
        world.state.pending ∧
      ∀ key ∈ world.state.pending, ∃ expert, world.state.lookup key = some expert) ∧
    (∀ permit ∈ world.permits, ∀ now, ∃ outcome state,
      permit.commit config now world.state = (.ok outcome, state) ∧
      (∀ action ∈ permit.actions, ∃ expert, world.state.lookup action.key = some expert ∧
        state.lookup action.key = action.effect now expert) ∧
      (∀ key ∉ keysOf permit.actions, state.lookup key = world.state.lookup key) ∧
      state.pending = world.state.pending \ keysOf permit.actions) ∧
    (∀ permit ∈ world.permits, permit.drop world.state =
      { world.state with pending := world.state.pending \ keysOf permit.actions }) ∧
    (∀ operation result world', (system config).Step world operation result world' →
      ∀ key expert, world.state.lookup key = some expert → world'.state.lookup key = none →
        expert.pinned = false) := by
  have ⟨hv, hc⟩ := (consistent config).reachable h
  refine ⟨⟨?total, ?models, ?size, hc.counted.experts⟩, ⟨hc.held, ?tracked⟩, ?commit,
    fun _ _ => rfl, ?unpinned⟩
  case total =>
    rw [hc.counted.total]
    exact valueSum_map fun _ _ => rfl
  case models =>
    intro modelId experts hm
    have hs : world.state.sizes[modelId]? = some experts.size := by rw [lookup_sizes, hm]; rfl
    refine ⟨Nat.pos_of_ne_zero fun hz => ?_, hc.counted.perModel _ _ hs⟩
    exact hc.nonempty modelId (hz ▸ hs)
  case size => exact size_sizes (s := world.state) ▸ hc.counted.models
  case tracked =>
    intro key hk
    have ⟨permit, hm, hk⟩ := hc.held.mem_iff.mp hk
    have ⟨action, ha, hk⟩ := mem_keysOf.mp hk
    exact hk ▸ (hc.backed _ hm _ ha).imp fun _ hb => hb.lookup
  case commit =>
    intro permit hm now
    refine ⟨_, _, hc.commit_ok hm now, fun action ha => ?_, fun key hk => ?_, ?_⟩
    · have ⟨expert, hb⟩ := hc.backed _ hm _ ha
      refine ⟨expert, hb.lookup, ?_⟩
      refine lookup_removeEmptyModels.trans ?_
      rw [lookup_applyActions_of_mem (hc.distinct _ hm) ha, hb.lookup]
      rfl
    · exact lookup_removeEmptyModels.trans <| lookup_applyActions_of_notMem hk
    · exact pending_commit
  case unpinned =>
    intro operation result world' hs key expert hl hn
    have he := apply_effect hc hv hs.1
    rw [hs.2] at he
    exact he.unpinned hc hl hn

-- A hotness in exact arithmetic. It agrees with the one in double precision as long as the values
-- are small and time passes in multiples of the half-life.
instance exactScore : Score ℚ where
  zero                     := 0
  one                      := 1
  maxAccessWeight          := 1000000
  maxHotness               := 1000000000000
  isFinite _               := true
  lt a b                   := a < b
  le a b                   := a ≤ b
  add a b                  := a + b
  halve a elapsed halfLife := a / 2 ^ (elapsed / halfLife)
  totalCmp                 := compare

-- One expert that is observed, and then claimed for an eviction.

def smallConfig : ExpertResidencyConfig ℚ where
  maxModels                := 1
  maxExpertsPerModel       := 2
  maxTotalExperts          := 2
  maxAccessBatch           := 1
  defaultPageSize          := 1
  maxPageSize              := 1
  maxActions               := 1
  hotnessHalfLifeMillis    := 1000
  promoteHotness           := 2
  demoteHotness            := 1 / 2
  transitionCooldownMillis := 0

def smallEviction : ExpertPolicyAction :=
  .evict ⟨"model", "expert"⟩ .vram (some 10) 1

def observedWorld : World ℚ :=
  (World.new.apply smallConfig <| .observe ⟨"model", "expert", .vram, some 10⟩ 0).2

def claimedWorld : World ℚ :=
  (observedWorld.apply smallConfig <| .beginActions [smallEviction]).2

theorem reachable_claimedWorld : (system smallConfig).Reachable claimedWorld := by
  have hi : (system smallConfig).Reachable World.new := .init ⟨by decide +kernel, rfl⟩
  have ho : (system smallConfig).Reachable observedWorld :=
    hi.step (i := .observe ⟨"model", "expert", .vram, some 10⟩ 0) ⟨trivial, rfl⟩
  exact ho.step (i := .beginActions [smallEviction]) ⟨trivial, rfl⟩

theorem expert_claims_small :
    claimedWorld.permits = {⟨[smallEviction]⟩} ∧ claimedWorld.state.totalExperts = 1 ∧
    claimedWorld.state.totalExperts = claimedWorld.state.models.valueSum ExtTreeMap.size ∧
    ∀ permit ∈ claimedWorld.permits, permit.drop claimedWorld.state =
      { claimedWorld.state with
        pending := claimedWorld.state.pending \ keysOf permit.actions } := by
  have hc := expert_claims reachable_claimedWorld
  exact ⟨by decide +kernel, by decide +kernel, hc.1.1, hc.2.2.2.1⟩

end RuntimeControl.Experts
