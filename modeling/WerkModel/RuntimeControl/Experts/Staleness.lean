import WerkModel.Lib.Checks
import WerkModel.RuntimeControl.Experts.Pressure

-- Actions that were planned earlier are begun only as long as their expert has not changed. The
-- revision of an expert starts again when it is evicted and observed again.
open Std ExtTreeMap Saturating Checks

namespace RuntimeControl.Experts

open ExpertState ScoredCandidate

variable {φ : Type} [Score φ]

def Output.actions : Output φ → List ExpertPolicyAction
  | .candidatePlan plan => plan.actions
  | .pressurePlan plan  => plan.actions
  | .action planned     => [planned]
  | _                   => []

-- An action that is planned in some state.
def Planned (config : ExpertResidencyConfig φ) (world : World φ) (action : ExpertPolicyAction) :
    Prop :=
  ∃ operation output, (system config).Step world operation (.ok output) world ∧
    action ∈ output.actions

-- An operation gives an expert another tier or size or pin, or accesses, moves or evicts it.
def Changes (key : ExpertKey) (world : World φ) : Operation φ → Result φ → World φ → Prop
  | .observe observation _, .ok _, _ =>
    key = ⟨observation.modelId, observation.expertId⟩ ∧ ∃ expert,
      world.state.lookup key = some expert ∧
        (expert.tier ≠ observation.tier ∨ expert.bytes ≠ observation.bytes)
  | .recordAccesses modelId accesses _ _, .ok _, _ =>
    key.modelId = modelId ∧ key.expertId ∈ accesses.map (·.expertId)
  | .setPinned modelId expertIds pinned dryRun _, .ok _, _ =>
    key.modelId = modelId ∧ key.expertId ∈ expertIds ∧ dryRun = false ∧ ∃ expert,
      world.state.lookup key = some expert ∧ expert.pinned ≠ pinned
  | .commitPermit permit _, .ok _, _ => key ∈ keysOf permit.actions
  | _, _, _ => False

-- An expert that is not tracked is observed.
def Restores (key : ExpertKey) (world : World φ) : Operation φ → Result φ → World φ → Prop
  | .observe observation _, .ok _, _ =>
    key = ⟨observation.modelId, observation.expertId⟩ ∧ world.state.lookup key = none
  | _, _, _ => False

-- The revision starts again, or it cannot be counted up any more.
def Blurs (key : ExpertKey) (world : World φ) (operation : Operation φ) (result : Result φ)
    (world' : World φ) : Prop :=
  Restores key world operation result world' ∨
    Changes key world operation result world' ∧
      ∃ expert, world.state.lookup key = some expert ∧ u64Max ≤ expert.revision

section Updates

variable {config : ExpertResidencyConfig φ} {s s' : ExpertState φ} {key : ExpertKey} {now : Nat}
variable {modelId : String} {expert : TrackedExpert φ}

theorem updateBatch_cons {α : Type} {expertId : α → String}
    {f : α → TrackedExpert φ → TrackedExpert φ} {a : α} {rest : List α} :
    (updateBatch config modelId expertId f now (a :: rest) s).2 =
      (updateBatch config modelId expertId f now rest (s.update ⟨modelId, expertId a⟩ (f a))).2 :=
  rfl

theorem lookup_updateBatch_of_notMem {α : Type} {expertId : α → String}
    {f : α → TrackedExpert φ → TrackedExpert φ} {batch : List α}
    (hk : ∀ a ∈ batch, key ≠ ⟨modelId, expertId a⟩) :
    (updateBatch config modelId expertId f now batch s).2.lookup key = s.lookup key := by
  induction batch generalizing s
  case nil => rfl
  case cons a rest hi =>
    have ⟨ha, hk⟩ := List.forall_mem_cons.mp hk
    refine (hi hk).trans ?_
    rw [lookup_update, if_neg (Ne.symm ha)]

-- Every expert of a batch without duplicates is updated once.
theorem lookup_updateBatch_of_mem {α : Type} {expertId : α → String}
    {f : α → TrackedExpert φ → TrackedExpert φ} {batch : List α} {a : α}
    (hn : (batch.map expertId).Nodup) (ha : a ∈ batch) :
    (updateBatch config modelId expertId f now batch s).2.lookup ⟨modelId, expertId a⟩ =
      (s.lookup ⟨modelId, expertId a⟩).map (f a) := by
  induction batch generalizing s
  case nil => cases ha
  case cons b rest hi =>
    have ⟨hb, hn⟩ := List.nodup_cons.mp hn
    cases List.mem_cons.mp ha
    case inl he =>
      subst he
      rw [updateBatch_cons, lookup_updateBatch_of_notMem, lookup_update, if_pos rfl]
      exact fun c hc he => hb <|
        List.mem_map.mpr ⟨c, hc, (congrArg ExpertKey.expertId he).symm⟩
    case inr ha =>
      have hne : (⟨modelId, expertId b⟩ : ExpertKey) ≠ ⟨modelId, expertId a⟩ := fun he =>
        hb <| List.mem_map.mpr ⟨a, ha, (congrArg ExpertKey.expertId he).symm⟩
      rw [updateBatch_cons, hi hn ha, lookup_update, if_neg hne]

-- The experts of a batch of accesses are those whose weights are added up.
theorem mem_combined {accesses : List (ExpertAccess φ)} {combined combined' : ExtTreeMap String φ}
    (h : accesses.foldlM combineAccess combined = .ok combined') {expertId : String} :
    expertId ∈ combined' ↔ expertId ∈ combined ∨ expertId ∈ accesses.map (·.expertId) := by
  induction accesses generalizing combined
  case nil =>
    cases h
    simp
  case cons access rest hi =>
    rw [List.foldlM_cons] at h
    cases hc : combineAccess combined access
    case error => simp [hc, bind, Except.bind] at h
    case ok next =>
      simp only [hc, bind, Except.bind] at h
      have hm : expertId ∈ next ↔ expertId ∈ combined ∨ expertId = access.expertId := by
        rw [combineAccess] at hc
        cases hv : validateExpertId access.expertId
        case error => simp [hv, bind, Except.bind] at hc
        case ok =>
          simp only [hv, bind, Except.bind] at hc
          split at hc
          case isTrue => cases hc
          case isFalse =>
            split at hc
            case isTrue  => cases hc
            case isFalse =>
              cases hc
              rw [ExtTreeMap.mem_insert, LawfulEqCmp.compare_eq_iff_eq]
              tauto
      rw [hi h, hm, List.map_cons, List.mem_cons, or_assoc]

-- An expert that is tracked before and after a change, with its revisions.
def Revised (s s' : ExpertState φ) (key : ExpertKey) : Prop :=
  ∃ expert expert', s.lookup key = some expert ∧ s'.lookup key = some expert' ∧
    expert'.revision = add u64Max expert.revision 1

omit [Score φ] in
theorem exists_of_validateBatch {expertIds} (h : validateBatch s modelId expertIds = .ok ()) :
    ∀ expertId ∈ expertIds, ∃ expert, s.lookup ⟨modelId, expertId⟩ = some expert := by
  induction expertIds
  case nil => exact fun _ hm => absurd hm List.not_mem_nil
  case cons expertId rest hi =>
    rw [validateBatch] at h
    split at h
    case h_1 => cases h
    case h_2 expert hl =>
      split at h
      case isTrue  => cases h
      case isFalse => exact List.forall_mem_cons.mpr ⟨⟨expert, hl⟩, hi h⟩

theorem nodup_of_validateUnique {expertIds} {unique : Finset String}
    (h : validateUnique modelId unique expertIds = .ok ()) :
    expertIds.Nodup ∧ ∀ expertId ∈ expertIds, expertId ∉ unique := by
  induction expertIds generalizing unique
  case nil => exact ⟨List.nodup_nil, fun _ hm => absurd hm List.not_mem_nil⟩
  case cons expertId rest hi =>
    rw [validateUnique] at h
    split at h
    case h_1 => cases h
    case h_2 =>
      split at h
      case isTrue     => cases h
      case isFalse hu =>
        have ⟨hn, hr⟩ := hi h
        refine ⟨List.nodup_cons.mpr ⟨fun hm => hr _ hm <| Finset.mem_insert_self _ _, hn⟩, ?_⟩
        exact List.forall_mem_cons.mpr
          ⟨hu, fun other ho hm => hr other ho <| Finset.mem_insert_of_mem hm⟩

variable (key) in
theorem lookup_recordAccesses {accesses nowUnix summaries}
    (h : recordAccesses config modelId accesses now nowUnix s = (.ok summaries, s')) :
    (key.modelId = modelId ∧ key.expertId ∈ accesses.map (·.expertId)) ∧ Revised s s' key ∨
    ¬(key.modelId = modelId ∧ key.expertId ∈ accesses.map (·.expertId)) ∧
      s'.lookup key = s.lookup key := by
  rw [recordAccesses] at h
  split at h
  case h_1 => cases h
  case h_2 =>
    split at h
    case isTrue  => cases h
    case isFalse =>
      split at h
      case h_1             => cases h
      case h_2 combined hc =>
        split at h
        case isTrue  => cases h
        case isFalse =>
          split at h
          case h_1    => cases h
          case h_2 hb =>
            have hs := congrArg Prod.snd h
            simp only at hs
            have hn : (combined.toList.map Prod.fst).Nodup := by
              rw [map_fst_toList_eq_keys]
              exact nodup_keys
            have hm {expertId : String} :
                expertId ∈ combined.toList.map Prod.fst ↔ expertId ∈ accesses.map (·.expertId) := by
              rw [map_fst_toList_eq_keys, mem_keys, mem_combined hc]
              simp
            rw [←hs]
            by_cases hk : key.modelId = modelId ∧ key.expertId ∈ accesses.map (·.expertId)
            case pos =>
              refine .inl ⟨hk, ?_⟩
              obtain ⟨entry, he, hi⟩ := List.mem_map.mp (hm.mpr hk.2)
              have hkey : key = ⟨modelId, entry.1⟩ := by rw [hi, ←hk.1]
              obtain ⟨expert, hl⟩ := exists_of_validateBatch hb entry.1 <| by
                rw [←map_fst_toList_eq_keys]
                exact List.mem_map_of_mem he
              rw [hkey]
              refine ⟨expert, expert.accessed entry.2 now nowUnix config.hotnessHalfLifeMillis, hl,
                (lookup_updateBatch_of_mem hn he).trans ?_, rfl⟩
              rw [hl]
              rfl
            case neg =>
              refine .inr ⟨hk, lookup_updateBatch_of_notMem fun entry he hkey => hk ?_⟩
              subst hkey
              exact ⟨rfl, hm.mp <| List.mem_map_of_mem he⟩

variable (key) in
theorem lookup_setPinned {expertIds pinned dryRun summaries}
    (h : setPinned config modelId expertIds pinned dryRun now s = (.ok summaries, s')) :
    (key.modelId = modelId ∧ key.expertId ∈ expertIds ∧ dryRun = false ∧ ∃ expert,
      s.lookup key = some expert ∧ expert.pinned ≠ pinned) ∧ Revised s s' key ∨
    ¬(key.modelId = modelId ∧ key.expertId ∈ expertIds ∧ dryRun = false ∧ ∃ expert,
      s.lookup key = some expert ∧ expert.pinned ≠ pinned) ∧
      s'.lookup key = s.lookup key := by
  rw [setPinned] at h
  split at h
  case h_1 => cases h
  case h_2 => cases h
  case h_3 hv =>
    split at h
    case isTrue  => cases h
    case isFalse =>
      split at h
      case h_1    => cases h
      case h_2 hb =>
        have hs := congrArg Prod.snd h
        simp only at hs
        have hn : (expertIds.map id).Nodup := by
          rw [validateIdBatch] at hv
          split at hv
          case h_1 => cases hv
          case h_2 =>
            rw [List.map_id]
            exact (nodup_of_validateUnique hv).1
        rw [←hs]
        by_cases hk : key.modelId = modelId ∧ key.expertId ∈ expertIds
        case neg =>
          refine .inr ⟨fun hc => hk ⟨hc.1, hc.2.1⟩, ?_⟩
          refine lookup_updateBatch_of_notMem fun expertId he hkey => hk ?_
          subst hkey
          exact ⟨rfl, he⟩
        case pos =>
          obtain ⟨modelId', expertId⟩ := key
          obtain ⟨rfl, hm⟩ : modelId' = modelId ∧ expertId ∈ expertIds := hk
          obtain ⟨expert, hl⟩ := exists_of_validateBatch hb expertId hm
          have hu : s'.lookup ⟨modelId', expertId⟩ =
              some (if dryRun then expert else expert.setPinned pinned) := by
            rw [←hs]
            refine (lookup_updateBatch_of_mem hn hm).trans ?_
            rw [id, hl]
            rfl
          rw [hs]
          by_cases hd : dryRun = false ∧ expert.pinned ≠ pinned
          case pos =>
            have hp : expert.setPinned pinned = { expert with pinned }.bump := if_pos hd.2
            refine .inl ⟨⟨rfl, hm, hd.1, expert, hl, hd.2⟩, expert, _, hl, hu, ?_⟩
            simp [hd.1, hp, TrackedExpert.bump]
          case neg =>
            refine .inr ⟨fun hr => ?_, hu.trans ?_⟩
            case refine_1 =>
              obtain ⟨_, _, hf, other, ho, hp⟩ := hr
              exact hd ⟨hf, by rwa [Option.some.inj (hl.symm.trans ho)]⟩
            case refine_2 =>
              rw [hl]
              cases dryRun
              case false =>
                have hp : expert.setPinned pinned = expert := if_neg fun hp => hd ⟨rfl, hp⟩
                simp [hp]
              case true => rfl

variable (key) in
theorem lookup_observe {observation summary}
    (h : observe config observation now s = (.ok summary, s')) :
    (key = ⟨observation.modelId, observation.expertId⟩ ∧ s.lookup key = none) ∨
    (key = ⟨observation.modelId, observation.expertId⟩ ∧ ∃ expert,
      s.lookup key = some expert ∧
        (expert.tier ≠ observation.tier ∨ expert.bytes ≠ observation.bytes)) ∧ Revised s s' key ∨
    ¬(key = ⟨observation.modelId, observation.expertId⟩ ∧ ∃ expert,
      s.lookup key = some expert ∧
        (expert.tier ≠ observation.tier ∨ expert.bytes ≠ observation.bytes)) ∧
      s'.lookup key = s.lookup key := by
  rw [observe] at h
  split at h
  case h_1 => cases h
  case h_2 => cases h
  case h_3 =>
    split at h
    case isTrue  => cases h
    case isFalse =>
      split at h
      case isTrue  => cases h
      case isFalse =>
        split at h
        case h_1 expert hl =>
          have hs : s.update _ _ = s' := congrArg Prod.snd h
          rw [←hs, lookup_update]
          by_cases hk : key = ⟨observation.modelId, observation.expertId⟩
          case neg => exact .inr <| .inr ⟨fun hc => hk hc.1, if_neg (Ne.symm hk)⟩
          case pos =>
            subst hk
            rw [if_pos rfl, hl]
            by_cases hc : expert.tier ≠ observation.tier ∨ expert.bytes ≠ observation.bytes
            case pos =>
              refine .inr <| .inl ⟨⟨rfl, expert, rfl, hc⟩, expert, expert.observed observation now, hl,
                ?_, ?_⟩
              case refine_1 => exact lookup_update.trans <| (if_pos rfl).trans <| by rw [hl]; rfl
              case refine_2 =>
                rw [TrackedExpert.observed, if_pos hc]
                simp only [TrackedExpert.bump]
                split <;> rfl
            case neg =>
              refine .inr <| .inr ⟨fun hr => ?_, ?_⟩
              case refine_1 =>
                obtain ⟨_, other, ho, hd⟩ := hr
                exact hc <| Option.some.inj ho ▸ hd
              have ht : ¬expert.tier ≠ observation.tier := fun ht => hc <| .inl ht
              have he : expert.observed observation now = expert := by
                rw [TrackedExpert.observed, if_neg hc, if_neg ht]
              simp [he]
        case h_2 hl =>
          split at h
          case isTrue  => cases h
          case isFalse =>
            split at h
            case isTrue  => cases h
            case isFalse =>
              by_cases hk : key = ⟨observation.modelId, observation.expertId⟩
              case pos => exact .inl ⟨hk, hk ▸ hl⟩
              case neg =>
                refine .inr <| .inr ⟨fun hc => hk hc.1, ?_⟩
                rw [track] at h
                split at h
                case isTrue  => cases h
                case isFalse =>
                  have hs := congrArg Prod.snd h
                  simp only at hs
                  rw [←hs, lookup_insert (mem_of_lookup model_addModel), if_neg (Ne.symm hk),
                    lookup_addModel]

end Updates

section Steps

variable {config : ExpertResidencyConfig φ} {world world' : World φ} {operation : Operation φ}
variable {result : Result φ} {key : ExpertKey} {h : List (Operation φ × Result φ)}
variable {expert : TrackedExpert φ} {action : ExpertPolicyAction}

theorem system_deterministic : (system config).Deterministic := by
  intro world operation result result' world' world'' hs hs'
  exact (congrArg Prod.snd hs.2).symm.trans (congrArg Prod.snd hs'.2)

-- What a step can do to an expert.
inductive Turn (key : ExpertKey) (world : World φ) (operation : Operation φ) (result : Result φ)
    (world' : World φ) : Prop
  | restored : Restores key world operation result world' → Turn key world operation result world'
  | evicted  : Changes key world operation result world' → world'.state.lookup key = none →
    Turn key world operation result world'
  | revised  : Changes key world operation result world' →
    Revised world.state world'.state key → Turn key world operation result world'
  | kept     : ¬Changes key world operation result world' →
    world'.state.lookup key = world.state.lookup key → Turn key world operation result world'

omit [Score φ] in
theorem commit_turn {permit now} (hc : world.Consistent config) (hm : permit ∈ world.permits)
    (hr : result.toOption.isSome) :
    Turn key world (.commitPermit permit now) result (world.commit permit now) := by
  cases result
  case error => cases hr
  case ok output =>
    by_cases hk : key ∈ keysOf permit.actions
    case neg => exact .kept hk <| lookup_removeEmptyModels.trans <|
      lookup_applyActions_of_notMem hk
    case pos =>
      have ⟨action, ha, he⟩ := mem_keysOf.mp hk
      have ⟨expert, hb⟩ := hc.backed _ hm action ha
      have hl : (world.commit permit now).state.lookup key = action.effect now expert := by
        refine lookup_removeEmptyModels.trans ?_
        rw [←he, lookup_applyActions_of_mem (hc.distinct _ hm) ha, hb.lookup]
        rfl
      cases action
      case evict => exact .evicted hk hl
      case move  => exact .revised hk ⟨expert, _, he ▸ hb.lookup, hl, rfl⟩

variable (key) in
theorem step_turn (hv : config.validate = .ok ()) (hc : world.Consistent config)
    (hs : (system config).Step world operation result world') :
    Turn key world operation result world' := by
  obtain ⟨hh, ha⟩ := hs
  cases operation
  case observe observation now =>
    have observed {summary s} (ho : observe config observation now world.state = (.ok summary, s)) :
        Turn key world (.observe observation now) result world' := by
      cases (World.apply_observe ho).symm.trans ha
      obtain hr | ⟨hc, hr⟩ | ⟨hc, hl⟩ := lookup_observe key ho
      · exact .restored hr
      · exact .revised hc hr
      · exact .kept hc hl
    obtain ⟨_, he⟩ | ⟨_, _, _, he⟩ | ⟨_, _, _, _, _, he⟩ :=
      observe_cases (s := world.state) rfl (ExpertResidencyConfig.bounds_of_validate hv).1
    · cases (World.apply_observe he).symm.trans ha
      exact .kept id rfl
    · exact observed he
    · exact observed he
  case recordAccesses modelId accesses nowMono nowUnix =>
    obtain ⟨_, he⟩ | ⟨_, _, _, he⟩ := recordAccesses_cases (s := world.state)
    · cases (World.apply_recordAccesses he).symm.trans ha
      exact .kept id rfl
    · cases (World.apply_recordAccesses he).symm.trans ha
      obtain ⟨hc, hr⟩ | ⟨hc, hl⟩ := lookup_recordAccesses key he
      · exact .revised hc hr
      · exact .kept hc hl
  case setPinned modelId expertIds pinned dryRun now =>
    obtain ⟨_, he⟩ | ⟨_, _, _, he⟩ := setPinned_cases (s := world.state)
    · cases (World.apply_setPinned he).symm.trans ha
      exact .kept id rfl
    · cases (World.apply_setPinned he).symm.trans ha
      obtain ⟨hc, hr⟩ | ⟨hc, hl⟩ := lookup_setPinned key he
      · exact .revised hc hr
      · exact .kept hc hl
  case prefetchCandidates => cases ha; exact .kept id rfl
  case planPressure       => cases ha; exact .kept id rfl
  case explicitAction     => cases ha; exact .kept id rfl
  case beginActions actions =>
    cases beginActions_cases (s := world.state)
    case inl he =>
      cases (World.apply_beginActions_error he.choose_spec).symm.trans ha
      exact .kept id rfl
    case inr he =>
      cases (World.apply_beginActions he.2.2).symm.trans ha
      exact .kept id rfl
  case commitPermit permit now =>
    cases (World.apply_commitPermit (hc.commit_ok hh now)).symm.trans ha
    exact commit_turn hc hh rfl
  case dropPermit permit => cases ha; exact .kept id rfl

section Paths

variable (hr : (system config).Reachable world) (p : (system config).Path world h world')

include hr p

-- An expert that is not changed stays as it is.
theorem passes_or_lookup (hl : world.state.lookup key = some expert) :
    (system config).Passes (Changes key) world h world' ∨
      world'.state.lookup key = some expert := by
  induction p
  case refl => exact .inr hl
  case step p hs hi =>
    have ⟨hv, hc⟩ := (consistent config).reachable (p.reachable hr)
    obtain hi | hi := hi
    case inl => exact .inl <| .later hi hs
    case inr =>
      cases step_turn key hv hc hs
      case restored ht =>
        unfold Restores at ht
        split at ht
        · exact absurd (hi.symm.trans ht.2) nofun
        · cases ht
      case evicted hg _ => exact .inl <| .here p hs hg
      case revised hg _ => exact .inl <| .here p hs hg
      case kept _ he    => exact .inr <| he.trans hi

omit p in
theorem changes_of_blurs (hl : world.state.lookup key = some expert)
    (hb : (system config).Passes (Blurs key) world h world') :
    (system config).Passes (Changes key) world h world' := by
  refine hb.mono fun h world₁ i o world₂ p hs hg => ?_
  cases hg
  case inr hg => exact .here p hs hg.1
  case inl hg =>
    cases passes_or_lookup hr p hl
    case inl hp => exact hp.later hs
    case inr he =>
      unfold Restores at hg
      split at hg
      · exact absurd (he.symm.trans hg.2) nofun
      · cases hg

-- Without interruptions of the revision, every change of an expert raises it.
theorem revision_lt (hl : world.state.lookup key = some expert)
    (hb : ¬(system config).Passes (Blurs key) world h world') :
    world'.state.lookup key = none ∨ ∃ expert', world'.state.lookup key = some expert' ∧
      expert.revision ≤ expert'.revision ∧
      ((system config).Passes (Changes key) world h world' → expert.revision < expert'.revision) := by
  induction p
  case refl => exact .inr ⟨expert, hl, le_rfl, fun hp => by cases hp⟩
  case step p hs hi =>
    have ⟨hv, hc⟩ := (consistent config).reachable (p.reachable hr)
    rw [System.passes_cons system_deterministic p hs, not_or] at hb
    have ⟨hp, hb⟩ := hb
    rw [System.passes_cons system_deterministic p hs]
    cases step_turn key hv hc hs
    case restored hg  => exact absurd (.inl hg) hb
    case evicted _ he => exact .inl he
    case revised hg he =>
      have ⟨old, new, ho, hn, hrev⟩ := he
      have hlt : old.revision < u64Max := Nat.not_le.mp fun hle => hb <| .inr ⟨hg, old, ho, hle⟩
      have hnew : new.revision = old.revision + 1 := by rw [hrev, add_eq (by omega)]
      obtain hi | ⟨expert', he, hle, _⟩ := hi hp
      case inl => exact absurd (hi.symm.trans ho) nofun
      case inr =>
        cases he.symm.trans ho
        exact .inr ⟨new, hn, by omega, fun _ => by omega⟩
    case kept hg he =>
      rw [he]
      obtain hi | ⟨expert', hl', hle, hlt⟩ := hi hp
      case inl => exact .inl hi
      case inr => exact .inr ⟨expert', hl', hle, fun hp => hlt <| hp.resolve_right hg⟩

end Paths
end Steps

section Planning

variable {config : ExpertResidencyConfig φ} {world world' : World φ} {action : ExpertPolicyAction}
variable {s : ExpertState φ} {now : Nat} {expert : TrackedExpert φ}
variable {h : List (Operation φ × Result φ)}

-- An action that leads from one kind of memory to the other, or out of one.
def ExpertPolicyAction.Sensible : ExpertPolicyAction → Prop
  | .move _ source target .. => validateMemoryTransition source target = .ok ()
  | .evict _ source ..       => source ≠ .external

structure Drafted (s : ExpertState φ) (action : ExpertPolicyAction) : Prop where
  current  : ∃ expert, s.lookup action.key = some expert ∧ isStale expert action = false
  sensible : action.Sensible

omit [Score φ] in
theorem drafted_move {key : ExpertKey} {target : ExpertTier} (hl : s.lookup key = some expert)
    (ht : validateMemoryTransition expert.tier target = .ok ()) :
    Drafted s (.move key expert.tier target expert.bytes expert.revision) :=
  ⟨⟨expert, hl, by simp [isStale, ExpertPolicyAction.revision, ExpertPolicyAction.sourceTier,
    ExpertPolicyAction.bytes]⟩, ht⟩

omit [Score φ] in
theorem drafted_evict {key : ExpertKey} (hl : s.lookup key = some expert)
    (ht : expert.tier ≠ .external) :
    Drafted s (.evict key expert.tier expert.bytes expert.revision) :=
  ⟨⟨expert, hl, by simp [isStale, ExpertPolicyAction.revision, ExpertPolicyAction.sourceTier,
    ExpertPolicyAction.bytes]⟩, ht⟩

theorem validate_oppositeMemoryTier {source target : ExpertTier}
    (h : oppositeMemoryTier target = .ok source) :
    validateMemoryTransition source target = .ok () := by
  cases target <;> cases h <;> rfl

theorem drafted_prefetchCandidates {modelId target limit plan}
    (h : prefetchCandidates config modelId target limit now s = .ok plan)
    (ha : action ∈ plan.actions) : Drafted s action := by
  obtain ⟨_, h⟩ := seq_eq_ok.mp h
  obtain ⟨_, h⟩ := seq_eq_ok.mp h
  obtain ⟨source, hs, h⟩ := bind_eq_ok.mp h
  split at h
  case isTrue => cases h
  case isFalse =>
    cases h
    obtain ⟨row, hm, hr⟩ := List.mem_map.mp ha
    have hm := List.mem_of_mem_take hm
    rw [sortMovementCandidates, sort, (List.mergeSort_perm ..).mem_iff, List.mem_filter,
      List.mem_filter, decide_eq_true_iff, decide_eq_true_iff] at hm
    obtain ⟨⟨hm, _⟩, hv⟩ := hm
    have ht : row.expert.tier = source := by
      by_contra ht
      rw [movementVerdict, if_pos ht] at hv
      cases hv
    rw [←hr, ←ht]
    exact drafted_move (mem_rows.mp hm).1 (ht ▸ validate_oppositeMemoryTier hs)

theorem drafted_planPressure {request plan} (h : planPressure config request now s = .ok plan)
    (ha : action ∈ plan.actions) : Drafted s action := by
  obtain ⟨demoted, evicted, d⟩ := planPressure_drawn h
  have rows {row} (hm : row ∈ coldCandidates config s request now) :
      s.lookup row.key = some row.expert ∧ row.expert.tier = request.sourceTier := by
    obtain ⟨hm, hv⟩ := mem_coldCandidates_rows.mp hm
    refine ⟨(mem_rows.mp hm).1, ?_⟩
    by_contra ht
    rw [pressureVerdict, if_pos ht] at hv
    cases hv
  obtain ⟨row, hm, rfl⟩ | ⟨row, hm, rfl⟩ := d.mem_actions.mp ha
  case inl =>
    obtain ⟨hl, ht⟩ := rows (d.sublist.subset hm)
    have hv : row.expert.tier = .vram := ht.trans <| d.tier <| List.ne_nil_of_mem hm
    exact hv ▸ drafted_move hl (hv ▸ rfl)
  case inr =>
    obtain ⟨hl, ht⟩ := rows (List.mem_of_mem_filter <| d.coldest.subset hm)
    exact ht ▸ drafted_evict hl (ht ▸ d.source)

omit [Score φ] in
theorem drafted_explicitAction {key target} (h : explicitAction key target s = .ok action) :
    Drafted s action := by
  have ⟨_, h⟩ := seq_eq_ok.mp h
  have ⟨_, h⟩ := seq_eq_ok.mp h
  have ⟨expert, hl, h⟩ := bind_eq_ok.mp h
  have hl := lookupExpert_ok hl
  split at h
  case isTrue  => cases h
  case isFalse =>
    split at h
    case h_1 target =>
      have ⟨ht, h⟩ := seq_eq_ok.mp h
      cases h
      exact drafted_move hl ht
    case h_2 =>
      have ⟨hv, h⟩ := seq_eq_ok.mp h
      cases h
      refine drafted_evict hl fun ht => ?_
      rw [validateEviction, if_pos ht] at hv
      cases hv

theorem Planned.drafted (h : Planned config world action) : Drafted world.state action := by
  obtain ⟨operation, output, ⟨_, ha⟩, hm⟩ := h
  have ha := congrArg Prod.fst ha
  cases operation
  case prefetchCandidates =>
    obtain ⟨plan, hp, rfl⟩ := map_eq_ok.mp ha
    exact drafted_prefetchCandidates hp hm
  case planPressure =>
    obtain ⟨plan, hp, rfl⟩ := map_eq_ok.mp ha
    exact drafted_planPressure hp hm
  case explicitAction =>
    obtain ⟨planned, hp, rfl⟩ := map_eq_ok.mp ha
    exact List.mem_singleton.mp hm ▸ drafted_explicitAction hp
  case beginActions actions =>
    cases beginActions_cases (s := world.state)
    case inl he =>
      cases (congrArg Prod.fst (World.apply_beginActions_error he.choose_spec)).symm.trans ha
    case inr he =>
      cases (congrArg Prod.fst (World.apply_beginActions he.2.2)).symm.trans ha
      cases hm
  case dropPermit => cases ha; cases hm
  all_goals
    obtain ⟨_, _, rfl⟩ := map_eq_ok.mp ha
    cases hm

omit [Score φ] in
theorem isStale_eq_false : isStale expert action = false ↔ expert.revision = action.revision ∧
    expert.tier = action.sourceTier ∧ expert.bytes = action.bytes := by
  simp [isStale, and_assoc]

omit [Score φ] in
theorem validatePlannedAction_of_backed (hf : action.key ∉ s.pending) (hb : Backed s action expert)
    (hs : action.Sensible) : validatePlannedAction s action = .ok () := by
  rw [validatePlannedAction, if_neg hf, lookupExpert_of_lookup hb.lookup]
  simp only [hb.current]
  cases action
  case move  => exact hs
  case evict =>
    have ht := (isStale_eq_false.mp hb.current).2.1
    exact validateEviction_of (ht.trans_ne hs) (hb.unpinned rfl)

theorem maxActions_pos (h : config.validate = .ok ()) : 0 < config.maxActions := by
  have ⟨_, h⟩ := seq_eq_ok.mp h
  have ⟨_, h⟩ := seq_eq_ok.mp h
  have ⟨_, h⟩ := seq_eq_ok.mp h
  have ⟨_, h⟩ := seq_eq_ok.mp h
  have ⟨_, h⟩ := seq_eq_ok.mp h
  have ⟨h, _⟩ := seq_eq_ok.mp h
  exact (validateBound_ok h).1

-- A stale action is refused, unless the revision of its expert has started again, and it has come
-- to the same tier, size and revision.
theorem stale_actions (hr : (system config).Reachable world) (hp : Planned config world action)
    (p : (system config).Path world h world') :
    (∀ actions result world'', action ∈ actions →
      (system config).Step world' (.beginActions actions) result world'' →
      (system config).Passes (Changes action.key) world h world' →
      (∃ error, result = .error error) ∧ world'' = world') ↔
    ((system config).Passes (Blurs action.key) world h world' →
      ¬(action.key ∉ world'.state.pending ∧ ∃ expert, Backed world'.state action expert)) := by
  have ⟨⟨expert, hl, hs⟩, hsensible⟩ := hp.drafted
  have ⟨hv, hc⟩ := (consistent config).reachable (p.reachable hr)
  constructor
  case mp =>
    intro hrefused hb ⟨hf, expert', hbacked⟩
    have hvalid := validatePlannedAction_of_backed hf hbacked hsensible
    have hbegin : beginActions config [action] world'.state = _ :=
      beginActions_of_valid (by simp) ⟨Nat.one_pos, maxActions_pos hv⟩
        (List.forall_mem_singleton.mpr hvalid)
    have ⟨⟨_, he⟩, _⟩ := hrefused [action] _ _ (List.mem_singleton_self _)
      ⟨trivial, World.apply_beginActions hbegin⟩ (changes_of_blurs hr hl hb)
    cases he
  case mpr =>
    intro hn actions result world'' ha ⟨_, hst⟩ hchanged
    cases beginActions_cases (s := world'.state)
    case inl he =>
      cases (World.apply_beginActions_error he.choose_spec).symm.trans hst
      exact ⟨⟨_, rfl⟩, rfl⟩
    case inr he =>
      have ⟨hf, expert', hb⟩ := he.2.1 action ha
      have hblurs : ¬(system config).Passes (Blurs action.key) world h world' := fun hblurs =>
        hn hblurs ⟨hf, expert', hb⟩
      obtain hnone | ⟨other, ho, _, hlt⟩ := revision_lt hr p hl hblurs
      case inl => exact absurd (hb.lookup.symm.trans hnone) nofun
      case inr =>
        cases ho.symm.trans hb.lookup
        have hlt := hlt hchanged
        have hplanned := (isStale_eq_false.mp hs).1
        have hcurrent := (isStale_eq_false.mp hb.current).1
        omega

end Planning

section Examples

def smallObserve : Operation ℚ :=
  .observe ⟨"model", "expert", .vram, some 10⟩ 0

def smallExplicit : Operation ℚ :=
  .explicitAction ⟨"model", "expert"⟩ none

theorem reachable_observedWorld : (system smallConfig).Reachable observedWorld := by
  have hi : (system smallConfig).Reachable World.new := .init ⟨by decide +kernel, rfl⟩
  exact hi.step (i := smallObserve) ⟨trivial, rfl⟩

theorem planned_smallEviction : Planned smallConfig observedWorld smallEviction :=
  ⟨smallExplicit, .action smallEviction, ⟨trivial, by rfl⟩, List.mem_singleton_self _⟩

def smallAccess : Operation ℚ :=
  .recordAccesses "model" [⟨"expert", 1⟩] 0 0

def accessedWorld : World ℚ :=
  (observedWorld.apply smallConfig smallAccess).2

-- An access makes the eviction stale.
theorem stale_actions_small : ∃ error, (system smallConfig).Step accessedWorld
    (.beginActions [smallEviction]) (.error error) accessedWorld := by
  have ha : (system smallConfig).Step observedWorld smallAccess _ accessedWorld := ⟨trivial, rfl⟩
  have ho : (observedWorld.apply smallConfig smallAccess).1.isOk := by decide +kernel
  have hstale : (accessedWorld.state.lookup smallEviction.key).all (isStale · smallEviction) := by
    decide +kernel
  have hc : Changes smallEviction.key observedWorld smallAccess
      (observedWorld.apply smallConfig smallAccess).1 accessedWorld := by
    generalize (observedWorld.apply smallConfig smallAccess).1 = result at ho
    cases result
    case error => cases ho
    case ok    => exact ⟨rfl, List.mem_singleton_self _⟩
  have hs : (system smallConfig).Step accessedWorld (.beginActions [smallEviction]) _ _ :=
    ⟨trivial, rfl⟩
  have ⟨⟨error, he⟩, hw⟩ := (stale_actions reachable_observedWorld planned_smallEviction
    (.step .refl ha)).mpr (fun _ ⟨_, expert, hb⟩ => by
      rw [hb.lookup] at hstale
      exact absurd (hb.current.symm.trans hstale) Bool.false_ne_true)
    _ _ _ (List.mem_singleton_self _) hs (.here .refl ha hc)
  exact ⟨error, trivial, Prod.ext he hw⟩

def evictedWorld : World ℚ :=
  (claimedWorld.apply smallConfig <| .commitPermit ⟨[smallEviction]⟩ 0).2

def revivedWorld : World ℚ :=
  (evictedWorld.apply smallConfig smallObserve).2

-- The expert was evicted and observed again, but the eviction that was planned before is begun.
theorem revived_eviction : ∃ (world world' world'' : World ℚ)
    (h : List (Operation ℚ × Result ℚ)) (permit : ExpertActionPermit),
    (system smallConfig).Reachable world ∧ Planned smallConfig world smallEviction ∧
      (system smallConfig).Path world h world' ∧
      (system smallConfig).Passes (Changes smallEviction.key) world h world' ∧
      (system smallConfig).Step world' (.beginActions [smallEviction]) (.ok <| .permit permit)
        world'' := by
  have hb : (system smallConfig).Step observedWorld (.beginActions [smallEviction]) _ claimedWorld :=
    ⟨trivial, rfl⟩
  have hm : (⟨[smallEviction]⟩ : ExpertActionPermit) ∈ claimedWorld.permits := by decide +kernel
  have hc : (system smallConfig).Step claimedWorld (.commitPermit ⟨[smallEviction]⟩ 0) _
      evictedWorld := ⟨hm, rfl⟩
  have ho : (system smallConfig).Step evictedWorld smallObserve _ revivedWorld := ⟨trivial, rfl⟩
  have hok : (claimedWorld.apply smallConfig <| .commitPermit ⟨[smallEviction]⟩ 0).1.isOk := by
    decide +kernel
  have hchanged : Changes smallEviction.key claimedWorld (.commitPermit ⟨[smallEviction]⟩ 0)
      (claimedWorld.apply smallConfig <| .commitPermit ⟨[smallEviction]⟩ 0).1 evictedWorld := by
    generalize (claimedWorld.apply smallConfig <| .commitPermit ⟨[smallEviction]⟩ 0).1 = result
      at hok
    cases result
    case error => cases hok
    case ok    => exact mem_keysOf.mpr ⟨_, List.mem_singleton_self _, rfl⟩
  have hvalid : validatePlannedAction revivedWorld.state smallEviction = .ok () := by
    decide +kernel
  have hbegin : beginActions smallConfig [smallEviction] revivedWorld.state = _ :=
    beginActions_of_valid (by simp) ⟨Nat.one_pos, Nat.one_pos⟩
      (List.forall_mem_singleton.mpr hvalid)
  refine ⟨observedWorld, revivedWorld, _, _, _, reachable_observedWorld, planned_smallEviction,
    .step (.step (.step .refl hb) hc) ho, .later (.here (.step .refl hb) hc hchanged) ho,
    trivial, World.apply_beginActions hbegin⟩

end Examples
end RuntimeControl.Experts
