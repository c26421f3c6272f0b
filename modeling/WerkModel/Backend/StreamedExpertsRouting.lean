import WerkModel.Backend.StreamedExpertsDense

-- The output of streamed experts is that of the direct evaluation of the routes.
open Checks

namespace Backend.StreamedExperts

section Unique

variable {routes : List (List Nat)} {expert : Nat}

theorem unique_perm : (unique routes).Perm routes.flatten.dedup :=
  List.perm_insertionSort ..

theorem nodup_unique : (unique routes).Nodup :=
  unique_perm.nodup_iff.mpr (List.nodup_dedup _)

theorem mem_unique : expert ∈ unique routes ↔ ∃ route ∈ routes, expert ∈ route := by
  rw [unique_perm.mem_iff, List.mem_dedup, List.mem_flatten]

end Unique

-- The groups of a call partition the experts of its routes.
structure Access.Partitions (access : Access) (routes : List (List Nat)) : Prop where
  nonempty : ∀ group ∈ access.groups, group.experts ≠ []
  experts  : (access.groups.flatMap Group.experts).Perm (unique routes)

section Runs

variable {V σ : Type} {inputs : Inputs σ} {access : Access} {f : Nat → Nat → V}
variable {groups : List Group} {done : List Nat}

def Inputs.step (inputs : Inputs σ) (access : Access) (f : Nat → Nat → V) (s : Call V)
    (group : Group) : Except String (Call V) :=
  if inputs.routes.length = 1 then
    s.singleRow f inputs.routes access group
  else
    s.multiRow f inputs.routes inputs.topK (inputs.chunkSize access group) group

theorem chunk_size_pos {group : Group} : 0 < inputs.chunkSize access group :=
  Nat.lt_of_lt_of_le Nat.one_pos (le_max_left ..)

theorem step_sound (access : Access) {s : Call V} {group : Group} (h : s.Sound inputs.routes [] done)
    (ha : s.Adds f inputs.routes inputs.topK done) (hn : group.experts.Nodup)
    (hd : done.Disjoint group.experts) (hne : group.experts ≠ []) :
    ∃ s', inputs.step access f s group = .ok s' ∧
      s'.Sound inputs.routes [] (done ++ group.experts) ∧
      s'.Adds f inputs.routes inputs.topK (done ++ group.experts) := by
  rw [Inputs.step]
  split
  case isTrue hr  => exact Call.single_row_sound h ha hr hn hd hne
  case isFalse hr => exact Call.multi_row_sound h ha hr chunk_size_pos hn hd hne

theorem groups_sound (access : Access) {s : Call V} (h : s.Sound inputs.routes [] done)
    (ha : s.Adds f inputs.routes inputs.topK done) (hne : ∀ group ∈ groups, group.experts ≠ [])
    (hn : (done ++ groups.flatMap Group.experts).Nodup) :
    ∃ s', groups.foldlM (inputs.step access f) s = .ok s' ∧
      s'.Sound inputs.routes [] (done ++ groups.flatMap Group.experts) ∧
      s'.Adds f inputs.routes inputs.topK (done ++ groups.flatMap Group.experts) := by
  induction groups generalizing s done
  case nil =>
    rw [List.flatMap_nil, List.append_nil]
    exact ⟨s, rfl, h, ha⟩
  case cons group groups hi =>
    rw [List.flatMap_cons, ←List.append_assoc] at hn ⊢
    obtain ⟨hne, hnes⟩ := List.forall_mem_cons.mp hne
    have hg := hn.of_append_left
    obtain ⟨s', hs, h', ha'⟩ := step_sound access h ha hg.of_append_right
      (List.disjoint_of_nodup_append hg) hne
    obtain ⟨s'', hs', h'', ha''⟩ := hi h' ha' hnes hn
    exact ⟨s'', bind_eq_ok.mpr ⟨s', hs, hs'⟩, h'', ha''⟩

end Runs

section Decoding

variable {V : Type} {routes : List (List Nat)} {access : Access} {f : Nat → Nat → V}
variable {groups : List Group} {group : Group} {s : DecodeCall V} {held done experts : List Nat}

-- The decoder has the outputs of the experts which it has evaluated.
structure DecodeCall.Sound (f : Nat → Nat → V) (routes : List (List Nat)) (held done : List Nat)
    (s : DecodeCall V) : Prop where
  call    : s.toCall.Sound routes held done
  outputs : ∀ expert, s.outputs expert = if expert ∈ done then some (f expert 0) else none

namespace DecodeCall

theorem evaluate_sound (h : s.Sound f routes held done) (hr : routes.length = 1)
    (hn : experts.Nodup) (hd : done.Disjoint experts) :
    (s.evaluate f experts).Sound f routes (held ++ experts) (done ++ experts) := by
  constructor
  case call =>
    rw [evaluate]
    split
    case isTrue he =>
      subst he
      refine h.call.row hr hn hd ?_ ?_ rfl
      case refine_1 => simp [h.call.pending]
      case refine_2 => simp [Call.enter]
    case isFalse =>
      refine h.call.row hr hn hd rfl ?_ rfl
      simp [Call.eval, Call.enter, h.call.pending]
  case outputs =>
    intro expert
    by_cases he : expert ∈ experts
    case pos => simp [evaluate, he]
    case neg => simp [evaluate, he, h.outputs]

-- The experts of a group that have no output yet.
theorem missing_outputs (experts : List Nat) (h : s.Sound f routes held (done ++ experts))
    (hd : done.Disjoint group.experts) :
    (group.experts.filter fun expert => (s.outputs expert).isNone) =
      group.experts.filter (· ∉ experts) := by
  refine List.filter_congr fun expert he => ?_
  have hne := List.disjoint_right.mp hd he
  by_cases hm : expert ∈ experts
  case pos => simp [h.outputs, hm]
  case neg => simp [h.outputs, hm, hne]

theorem Sound.exit (h : s.Sound f routes held done) (hp : done.Perm experts) :
    DecodeCall.Sound f routes [] experts { s with toCall := s.toCall.exit held } where
  call           := h.call.exit.perm hp
  outputs expert := by simpa only [hp.mem_iff] using h.outputs expert

theorem group_sound (h : s.Sound f routes [] done) (hr : routes.length = 1)
    (hn : group.experts.Nodup) (hd : done.Disjoint group.experts) :
    (DecodeCall.group f access s group).Sound f routes [] (done ++ group.experts) := by
  rw [DecodeCall.group]
  cases hp : access.prefetchReady group
  case none =>
    have ha := missing_outputs [] (by rwa [List.append_nil]) hd
    simp only [List.not_mem_nil, not_false_eq_true, decide_true, List.filter_true] at ha
    simp only [Option.elim_none, Option.getD_none, ha, List.nil_append]
    exact (evaluate_sound h hr hn hd).exit (.refl _)
  case some cached =>
    obtain ⟨_, _, hperm⟩ := prefetch_ready_eq_some hp
    have hn' := hperm.nodup_iff.mpr hn
    have hd' := List.disjoint_of_subset_right hperm.subset hd
    obtain ⟨hcached, hmissing⟩ := List.disjoint_append_right.mp hd'
    have h' := evaluate_sound h hr hn'.of_append_left hcached
    have h'' := evaluate_sound h' hr hn'.of_append_right
      (List.disjoint_append_left.mpr ⟨hmissing, List.disjoint_of_nodup_append hn'⟩)
    simp only [Option.elim_some, Option.getD_some, missing_outputs cached h' hd]
    refine h''.exit ?_
    rw [List.append_assoc]
    exact hperm.append_left done

theorem groups_sound (access : Access) (h : s.Sound f routes [] done) (hr : routes.length = 1)
    (hn : (done ++ groups.flatMap Group.experts).Nodup) :
    (groups.foldl (DecodeCall.group f access) s).Sound f routes []
      (done ++ groups.flatMap Group.experts) := by
  induction groups generalizing s done
  case nil => rwa [List.flatMap_nil, List.append_nil]
  case cons group groups hi =>
    rw [List.flatMap_cons, ←List.append_assoc] at hn ⊢
    have hg := hn.of_append_left
    exact hi (group_sound h hr hg.of_append_right (List.disjoint_of_nodup_append hg)) hn

end DecodeCall

end Decoding

section Routing

variable {V σ : Type} {inputs : Inputs σ} {access : Access} {f : Nat → Nat → V}
variable {weigh : List V → List σ → V} {s : Call V} {rows : List (List V)}

namespace Inputs

-- The output of the experts that each row of the routes names.
def rowOutputs (inputs : Inputs σ) (f : Nat → Nat → V) : List (List V) :=
  inputs.routes.mapIdx fun row route => route.map fun expert => f expert row

def direct (inputs : Inputs σ) (f : Nat → Nat → V) (weigh : List V → List σ → V) :
    Except String (Output V) :=
  inputs.finish weigh (inputs.rowOutputs f)

-- What the checks of a call ask for.
structure Admitted (inputs : Inputs σ) (access : Access) : Prop where
  matrix    : ∀ route ∈ inputs.routes, route.length = inputs.topK
  slots     : inputs.topK ≠ 0
  columns   : inputs.width ≠ 0
  rows      : inputs.routes.length = inputs.rows
  inRange   : inputs.inRange access
  workspace : inputs.size * inputs.width * inputs.itemsize ≤ inputs.workspaceBytes / 2
  scores    : inputs.weightedSum → ∃ scores, inputs.scores = some scores ∧ inputs.shaped scores

-- Each position of the output has got one value, that of its expert for its row.
def Contributed (inputs : Inputs σ) (f : Nat → Nat → V) (s : Call V) : Prop :=
  ∀ row slot route expert, inputs.routes[row]? = some route → route[slot]? = some expert →
    s.output (row * inputs.topK + slot) = [f expert row]

end Inputs

theorem contributed {experts : List Nat}
    (hk : ∀ route ∈ inputs.routes, route.length = inputs.topK)
    (ha : s.Adds f inputs.routes inputs.topK experts) (hp : experts.Perm (unique inputs.routes)) :
    inputs.Contributed f s := by
  intro row slot route expert hr hs
  obtain ⟨added, hperm, ho⟩ := ha
  have hn := nodup_additions (f := f) (hp.nodup_iff.mpr nodup_unique) hk
  have he : expert ∈ experts := by
    rw [hp.mem_iff, mem_unique]
    exact ⟨route, List.mem_of_getElem? hr, List.mem_of_getElem? hs⟩
  rw [ho]
  exact Scatter.add_of_nodup ((hperm.map Prod.fst).nodup_iff.mpr hn)
    (hperm.mem_iff.mpr (mem_additions hr hs he))

theorem reshape_contributed [AddZeroClass V]
    (hk : ∀ route ∈ inputs.routes, route.length = inputs.topK) (hc : inputs.Contributed f s) :
    inputs.reshape (fun position => (s.output position).foldl (· + ·) 0) = inputs.rowOutputs f := by
  refine List.ext_getElem (by simp [Inputs.reshape, Inputs.rowOutputs]) fun row hr hr' => ?_
  have hr' : row < inputs.routes.length := by simpa [Inputs.reshape] using hr
  have hl := hk _ (List.getElem_mem hr')
  refine List.ext_getElem (by simp [Inputs.reshape, Inputs.rowOutputs, hl]) fun slot hs hs' => ?_
  have hs' : slot < inputs.routes[row].length := by simpa [Inputs.rowOutputs] using hs'
  have hv := hc row slot _ _ (List.getElem?_eq_getElem hr') (List.getElem?_eq_getElem hs')
  simp [Inputs.reshape, Inputs.rowOutputs, hv]

theorem weighted_scores_ok (h : inputs.Admitted access) (hw : inputs.weightedSum) :
    ∃ scores, inputs.weightedScores = .ok scores := by
  obtain ⟨scores, hs, hshaped⟩ := h.scores hw
  rw [Inputs.weightedScores, hs]
  exact ⟨scores, ensure_bind_eq_ok.mpr ⟨hshaped, rfl⟩⟩

theorem finish_ok (weigh : List V → List σ → V) (rows : List (List V))
    (h : inputs.Admitted access) : ∃ output, inputs.finish weigh rows = .ok output := by
  rw [Inputs.finish]
  split
  case isFalse => exact ⟨_, rfl⟩
  case isTrue hw =>
    obtain ⟨scores, hs⟩ := weighted_scores_ok h hw
    exact ⟨_, bind_eq_ok.mpr ⟨scores, hs, rfl⟩⟩

theorem streamed_experts_ok [AddZeroClass V] {output : Output V} (h : inputs.Admitted access)
    (hp : access.Partitions inputs.routes) (ho : inputs.direct f weigh = .ok output) :
    ∃ s, inputs.streamedExperts access f weigh = .ok (output, s) ∧
      s.Sound inputs.routes [] (unique inputs.routes) ∧ inputs.Contributed f s := by
  have hn : ([] ++ access.groups.flatMap Group.experts).Nodup := hp.experts.nodup_iff.mpr nodup_unique
  obtain ⟨s, hs, hsound, hadds⟩ := groups_sound access .empty .empty hp.nonempty hn
  have hc := contributed h.matrix hadds hp.experts
  refine ⟨s, ?_, hsound.perm hp.experts, hc⟩
  rw [Inputs.streamedExperts]
  simp only [ensure_bind_eq_ok]
  refine ⟨h.slots, h.columns, ⟨h.rows, h.inRange⟩, h.workspace, ?_⟩
  refine bind_eq_ok.mpr ⟨s, hs, bind_eq_ok.mpr ⟨output, ?_, rfl⟩⟩
  rwa [reshape_contributed h.matrix hc]

theorem gather_ok {outputs : Nat → Option V} {route : List Nat} (hr : inputs.routes = [route])
    (ho : ∀ expert ∈ route, outputs expert = some (f expert 0)) :
    inputs.gather outputs = .ok (route.map (f · 0)) := by
  rw [Inputs.gather, hr, List.headD_cons]
  clear hr
  induction route
  case nil => rfl
  case cons expert route hi =>
    obtain ⟨he, ho⟩ := List.forall_mem_cons.mp ho
    rw [List.mapM_cons, hi ho, he]
    rfl

theorem decode_experts_ok [AddZeroClass V] {output : Output V} (h : inputs.Admitted access)
    (hp : access.Partitions inputs.routes) (ho : inputs.direct f weigh = .ok output) :
    ∃ s, inputs.decodeExperts access f weigh = .ok (output, s) ∧
      s.Sound inputs.routes [] (unique inputs.routes) := by
  rw [Inputs.decodeExperts]
  split
  case isTrue =>
    obtain ⟨s, hs, hsound, _⟩ := streamed_experts_ok h hp ho
    exact ⟨s, hs, hsound⟩
  case isFalse hw =>
    have hrows : inputs.rows = 1 :=
      Nat.eq_of_mul_eq_mul_right (Nat.pos_of_ne_zero h.columns) (by omega)
    have hlen : inputs.routes.length = 1 := h.rows.trans hrows
    obtain ⟨route, hr⟩ := List.length_eq_one_iff.mp hlen
    have hn : ([] ++ access.groups.flatMap Group.experts).Nodup :=
      hp.experts.nodup_iff.mpr nodup_unique
    have hs := DecodeCall.groups_sound (f := f) access
      (s := { toCall := Call.empty, outputs := fun _ => none }) ⟨.empty, fun _ => rfl⟩ hlen hn
    refine ⟨_, ?_, hs.call.perm hp.experts⟩
    simp only [ensure_bind_eq_ok]
    refine ⟨h.slots, ⟨hlen, h.inRange⟩, h.workspace, ?_, ?_⟩
    case refine_1 =>
      refine or_iff_not_imp_left.mpr fun hw => ?_
      obtain ⟨scores, hscores⟩ := weighted_scores_ok h (of_not_not hw)
      rw [hscores]
      rfl
    case refine_2 =>
      refine bind_eq_ok.mpr ⟨route.map (f · 0), gather_ok hr fun expert he => ?_, ?_⟩
      case refine_1 =>
        have hm : expert ∈ access.groups.flatMap Group.experts := by
          rw [hp.experts.mem_iff, mem_unique, hr]
          exact ⟨route, List.mem_singleton_self _, he⟩
        rw [hs.outputs, List.nil_append, if_pos hm]
      case refine_2 =>
        have hrow : inputs.rowOutputs f = [route.map (f · 0)] := by
          rw [Inputs.rowOutputs, hr]
          rfl
        rw [Inputs.direct, hrow] at ho
        exact bind_eq_ok.mpr ⟨output, ho, rfl⟩

-- Both paths evaluate each expert once for its rows, under its lease, and return the output of the
-- direct evaluation.
theorem streamed_experts_direct [AddZeroClass V] (f : Nat → Nat → V) (weigh : List V → List σ → V)
    (h : inputs.Admitted access) (hp : access.Partitions inputs.routes) :
    ∃ output, inputs.direct f weigh = .ok output ∧
      (∃ s, inputs.streamedExperts access f weigh = .ok (output, s) ∧
        s.Sound inputs.routes [] (unique inputs.routes) ∧ inputs.Contributed f s) ∧
      ∃ s, inputs.decodeExperts access f weigh = .ok (output, s) ∧
        s.Sound inputs.routes [] (unique inputs.routes) := by
  obtain ⟨output, ho⟩ := finish_ok weigh (inputs.rowOutputs f) h
  exact ⟨output, ho, streamed_experts_ok h hp ho, decode_experts_ok h hp ho⟩

def sampleInputs : Inputs Nat where
  routes         := [[2, 0, 2]]
  topK           := 3
  rows           := 1
  width          := 1
  itemsize       := 4
  scores         := some [[1, 2, 3]]
  weightedSum    := true
  workspaceBytes := 64

-- The third expert is evaluated while the first one is read.
def sampleAccess : Access where
  experts      := 4
  hidden       := 1
  intermediate := 1
  groups       := [{ experts := [0, 2], resident := [2], reads := true }]
  readsAhead   := true

theorem sample_admitted : sampleInputs.Admitted sampleAccess where
  matrix    := by decide
  slots     := by decide
  columns   := by decide
  rows      := rfl
  inRange   := by decide
  workspace := by decide
  scores _  := ⟨[[1, 2, 3]], rfl, rfl⟩

theorem sample_partitions : sampleAccess.Partitions sampleInputs.routes where
  nonempty := by decide
  experts  := by decide

theorem streamed_experts_direct_sample :
    ∃ output, sampleInputs.direct (fun expert row => 10 * expert + row)
        (fun values scores => (List.zipWith (· * ·) values scores).sum) = .ok output ∧
      (∃ s, sampleInputs.streamedExperts sampleAccess (fun expert row => 10 * expert + row)
          (fun values scores => (List.zipWith (· * ·) values scores).sum) = .ok (output, s) ∧
        s.Sound sampleInputs.routes [] (unique sampleInputs.routes) ∧
        sampleInputs.Contributed (fun expert row => 10 * expert + row) s) ∧
      ∃ s, sampleInputs.decodeExperts sampleAccess (fun expert row => 10 * expert + row)
          (fun values scores => (List.zipWith (· * ·) values scores).sum) = .ok (output, s) ∧
        s.Sound sampleInputs.routes [] (unique sampleInputs.routes) :=
  streamed_experts_direct _ _ sample_admitted sample_partitions

end Routing

end Backend.StreamedExperts
