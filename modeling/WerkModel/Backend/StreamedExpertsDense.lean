import WerkModel.Backend.StreamedExperts

-- What a call of the streamed experts does for one group of experts.
open Checks

namespace Backend.StreamedExperts

section Positions

variable {V : Type} {routes : List (List Nat)} {expert row slot topK : Nat} {experts route : List Nat}
variable {f : Nat → Nat → V}

theorem mem_nonzero : (row, slot) ∈ nonzero routes expert ↔
    ∃ route, routes[row]? = some route ∧ route[slot]? = some expert := by
  simp only [nonzero, List.mem_flatMap, Prod.exists, List.mem_zipIdx_iff_getElem?, List.mem_map,
    List.mem_filter, decide_eq_true_eq, Prod.mk.injEq]
  constructor
  case mp =>
    rintro ⟨route, _, hr, _, _, ⟨hs, rfl⟩, rfl, rfl⟩
    exact ⟨route, hr, hs⟩
  case mpr =>
    rintro ⟨route, hr, hs⟩
    exact ⟨route, row, hr, expert, slot, ⟨hs, rfl⟩, rfl, rfl⟩

theorem nodup_nonzero : (nonzero routes expert).Nodup := by
  have indices {α : Type} (l : List α) : (l.zipIdx.map Prod.snd).Nodup := by
    rw [List.zipIdx_map_snd]
    exact List.nodup_range'
  rw [nonzero, List.nodup_flatMap]
  constructor
  case left =>
    intro (route, row) _
    have hs : (route.zipIdx.filter (·.1 = expert)).Sublist route.zipIdx := List.filter_sublist
    have hf := (indices route).sublist (hs.map Prod.snd)
    have hm := hf.map (f := Prod.mk row) fun _ _ h => (Prod.mk.inj h).right
    rwa [List.map_map] at hm
  case right =>
    refine (List.pairwise_map.mp (indices routes)).imp fun {a b} hne => ?_
    intro position ha hb
    obtain ⟨_, _, rfl⟩ := List.mem_map.mp ha
    obtain ⟨_, _, hb⟩ := List.mem_map.mp hb
    exact hne (Prod.mk.inj hb).left.symm

-- What the experts add to the output.
def additions (f : Nat → Nat → V) (routes : List (List Nat)) (topK : Nat) (experts : List Nat) :
    List (Nat × V) :=
  experts.flatMap fun expert => (nonzero routes expert).map fun (row, slot) =>
    (row * topK + slot, f expert row)

theorem mem_additions (hr : routes[row]? = some route) (hs : route[slot]? = some expert)
    (he : expert ∈ experts) :
    (row * topK + slot, f expert row) ∈ additions f routes topK experts :=
  List.mem_flatMap.mpr ⟨expert, he, List.mem_map.mpr
    ⟨(row, slot), mem_nonzero.mpr ⟨route, hr, hs⟩, rfl⟩⟩

theorem positions_injective {row' slot' : Nat} (hs : slot < topK) (hs' : slot' < topK)
    (h : row * topK + slot = row' * topK + slot') : row = row' ∧ slot = slot' := by
  have division {row slot : Nat} (hs : slot < topK) : (row * topK + slot) / topK = row := by
    rw [Nat.add_comm, Nat.add_mul_div_right _ _ (Nat.zero_lt_of_lt hs), Nat.div_eq_of_lt hs,
      Nat.zero_add]
  obtain rfl : row = row' := (division hs).symm.trans (h ▸ division hs')
  exact ⟨rfl, Nat.add_left_cancel h⟩

theorem nodup_additions (hn : experts.Nodup) (hk : ∀ route ∈ routes, route.length = topK) :
    ((additions f routes topK experts).map Prod.fst).Nodup := by
  have slots {expert row slot} (h : (row, slot) ∈ nonzero routes expert) : slot < topK := by
    obtain ⟨route, hr, hs⟩ := mem_nonzero.mp h
    rw [←hk route (List.mem_of_getElem? hr)]
    exact (List.getElem?_eq_some_iff.mp hs).choose
  rw [additions, List.map_flatMap, List.nodup_flatMap]
  simp only [List.map_map]
  constructor
  case left =>
    intro expert _
    refine nodup_nonzero.map_on ?_
    rintro ⟨row, slot⟩ hp ⟨row', slot'⟩ hp' h
    obtain ⟨rfl, rfl⟩ := positions_injective (slots hp) (slots hp') h
    rfl
  case right =>
    refine hn.imp fun {a b} hne => ?_
    intro position ha hb
    obtain ⟨⟨row, slot⟩, hp, rfl⟩ := List.mem_map.mp ha
    obtain ⟨⟨row', slot'⟩, hp', h⟩ := List.mem_map.mp hb
    obtain ⟨rfl, rfl⟩ := positions_injective (slots hp') (slots hp) h
    obtain ⟨_, hr, hs⟩ := mem_nonzero.mp hp
    obtain ⟨_, hr', hs'⟩ := mem_nonzero.mp hp'
    obtain rfl := Option.some.inj (hr.symm.trans hr')
    exact hne (Option.some.inj (hs.symm.trans hs'))

end Positions

section Evaluations

variable {routes : List (List Nat)} {expert : Nat} {experts done rows : List Nat}
variable {evaluated more : List (Nat × List Nat)}

-- The sets of rows for which an expert has been evaluated.
def rowSets (expert : Nat) (evaluated : List (Nat × List Nat)) : List (List Nat) :=
  (evaluated.filter (·.1 = expert)).map Prod.snd

-- An expert is evaluated once for the only row, and otherwise once for each part of its rows.
def Evaluated (routes : List (List Nat)) (expert : Nat) (sets : List (List Nat)) : Prop :=
  if routes.length = 1 then
    sets = [[0]]
  else
    [] ∉ sets ∧ sets.flatten = (nonzero routes expert).map Prod.fst

def Evaluations (routes : List (List Nat)) (experts : List Nat)
    (evaluated : List (Nat × List Nat)) : Prop :=
  ∀ expert, if expert ∈ experts then Evaluated routes expert (rowSets expert evaluated)
    else rowSets expert evaluated = []

theorem rowSets_append :
    rowSets expert (evaluated ++ more) = rowSets expert evaluated ++ rowSets expert more := by
  rw [rowSets, List.filter_append, List.map_append]
  rfl

theorem rowSets_flatMap {ι : Type} {l : List ι} {g : ι → List (Nat × List Nat)} :
    rowSets expert (l.flatMap g) = l.flatMap fun i => rowSets expert (g i) := by
  rw [rowSets, List.filter_flatMap, List.map_flatMap]
  rfl

theorem rowSets_experts (sets : Nat → List (List Nat)) (hn : experts.Nodup) :
    rowSets expert (experts.flatMap fun other => (sets other).map (Prod.mk other)) =
      if expert ∈ experts then sets expert else [] := by
  have own : rowSets expert ((sets expert).map (Prod.mk expert)) = sets expert := by
    simp [rowSets, List.filter_map, Function.comp_def]
  have others {other} (h : other ≠ expert) :
      rowSets expert ((sets other).map (Prod.mk other)) = [] := by
    simp [rowSets, List.filter_map, Function.comp_def, h]
  induction experts
  case nil => rfl
  case cons other experts hi =>
    obtain ⟨hne, hn⟩ := List.nodup_cons.mp hn
    rw [List.flatMap_cons, rowSets_append, hi hn]
    by_cases h : other = expert
    case pos =>
      subst h
      simp [own, hne]
    case neg => simp [others h, Ne.symm h]

theorem Evaluations.append (h : Evaluations routes done evaluated)
    (hm : Evaluations routes experts more) (hd : done.Disjoint experts) :
    Evaluations routes (done ++ experts) (evaluated ++ more) := by
  intro expert
  have h := h expert
  have hm := hm expert
  rw [rowSets_append]
  by_cases hdone : expert ∈ done
  case pos =>
    have hne := hd hdone
    simp_all
  case neg => simp_all

theorem Evaluations.perm (h : Evaluations routes done evaluated) (hp : done.Perm experts) :
    Evaluations routes experts evaluated := by
  intro expert
  simpa only [hp.mem_iff] using h expert

theorem Evaluations.row (hr : routes.length = 1) (hn : experts.Nodup) :
    Evaluations routes experts (experts.map fun expert => (expert, [0])) := by
  intro expert
  have hf : (experts.map fun expert => (expert, [0])) =
      experts.flatMap fun expert => [[0]].map (Prod.mk expert) :=
    List.map_eq_flatMap ..
  rw [hf, rowSets_experts (fun _ => [[0]]) hn]
  by_cases h : expert ∈ experts
  case pos => simp [h, Evaluated, hr]
  case neg => simp [h]

end Evaluations

section Calls

variable {V : Type} {routes : List (List Nat)} {f : Nat → Nat → V} {topK : Nat} {s s' : Call V}
variable {held done experts : List Nat}

-- What holds of a call that has evaluated some experts, and still holds leases on some of them.
structure Call.Sound (routes : List (List Nat)) (held done : List Nat) (s : Call V) : Prop where
  pending   : s.pending = []
  safe      : Leases.Safe [] s.leases
  opened    : Leases.after [] s.leases = held.reverse
  evaluated : Evaluations routes done s.evaluated

def Call.Adds (f : Nat → Nat → V) (routes : List (List Nat)) (topK : Nat) (done : List Nat)
    (s : Call V) : Prop :=
  ∃ added : List (Nat × V), added.Perm (additions f routes topK done) ∧
    s.output = Scatter.add (fun _ => []) added

namespace Call

theorem Sound.empty : (empty : Call V).Sound routes [] [] where
  pending     := rfl
  safe        := trivial
  opened      := rfl
  evaluated _ := rfl

theorem Sound.perm (h : s.Sound routes held done) (hp : done.Perm experts) :
    s.Sound routes held experts :=
  { h with evaluated := h.evaluated.perm hp }

theorem Sound.exit (h : s.Sound routes held done) : (s.exit held).Sound routes [] done where
  pending   := h.pending
  evaluated := h.evaluated
  safe      := Leases.safe_append.mpr ⟨h.safe, Leases.safe_closed⟩
  opened    := by
    rw [Call.exit, Leases.after_append, h.opened]
    simpa using @Leases.after_closed _ _ [] held.reverse

-- Experts are evaluated for the only row.
theorem Sound.row (h : s.Sound routes held done) (hr : routes.length = 1) (hn : experts.Nodup)
    (hd : done.Disjoint experts) (hp : s'.pending = [])
    (hl : s'.leases = s.leases ++ experts.map .opened ++ experts.map .used)
    (he : s'.evaluated = s.evaluated ++ experts.map fun expert => (expert, [0])) :
    s'.Sound routes (held ++ experts) (done ++ experts) where
  pending   := hp
  safe      := by
    rw [hl, Leases.safe_append, Leases.safe_append, Leases.safe_used, Leases.after_append,
      Leases.after_opened]
    refine ⟨⟨h.safe, Leases.safe_opened⟩, fun expert hm => ?_⟩
    exact List.mem_append_left _ (List.mem_reverse.mpr hm)
  opened    := by
    rw [hl, Leases.after_append, Leases.after_append, Leases.after_used, Leases.after_opened,
      h.opened, List.reverse_append]
  evaluated := he ▸ h.evaluated.append (.row hr hn) hd

theorem Adds.empty : (empty : Call V).Adds f routes topK [] :=
  ⟨[], .nil, rfl⟩

theorem Adds.append {added : List (Nat × V)} (h : s.Adds f routes topK done)
    (ho : s'.output = Scatter.add s.output added)
    (hp : added.Perm (additions f routes topK experts)) :
    s'.Adds f routes topK (done ++ experts) := by
  obtain ⟨before, hb, he⟩ := h
  refine ⟨before ++ added, ?_, ?_⟩
  case refine_1 =>
    rw [additions, List.flatMap_append]
    exact hb.append hp
  case refine_2 => rw [ho, he, Scatter.add_append]

theorem Adds.perm (h : s.Adds f routes topK done) (hp : done.Perm experts) :
    s.Adds f routes topK experts := by
  obtain ⟨added, ha, he⟩ := h
  exact ⟨added, ha.trans (hp.flatMap_right _), he⟩

theorem additions_row (hr : routes.length = 1) :
    (experts.flatMap fun expert => (nonzero routes expert).map fun (_, slot) => (slot, f expert 0)) =
      additions f routes topK experts := by
  refine List.flatMap_congr fun expert _ => List.map_congr_left ?_
  rintro ⟨row, slot⟩ hm
  obtain ⟨_, hr', _⟩ := mem_nonzero.mp hm
  obtain rfl : row = 0 := by
    have := (List.getElem?_eq_some_iff.mp hr').choose
    omega
  simp

theorem ready_sound (h : s.Sound routes held done) (ha : s.Adds f routes topK done)
    (hr : routes.length = 1) (hn : experts.Nodup) (hd : done.Disjoint experts)
    (hne : experts ≠ []) :
    ∃ s', s.ready f routes experts = .ok s' ∧ s'.Sound routes (held ++ experts) (done ++ experts) ∧
      s'.Adds f routes topK (done ++ experts) := by
  have he : ensure (experts ≠ []) "[concatenate] No arrays provided for concatenation" = .ok ⟨⟩ :=
    ensure_eq_ok.mpr hne
  refine ⟨_, by rw [ready, decodeGroup, he]; rfl, ?_, ?_⟩
  case refine_1 =>
    refine h.row hr hn hd rfl ?_ rfl
    simp [eval, enter, h.pending]
  case refine_2 => exact ha.append rfl (.of_eq (additions_row hr))

end Call

variable {access : Access} {group : Group} {cached : List Nat}

-- Experts are only evaluated ahead while some others of their group are read.
theorem prefetch_ready_eq_some (h : access.prefetchReady group = some cached) :
    cached ≠ [] ∧ group.experts.filter (· ∉ cached) ≠ [] ∧
      (cached ++ group.experts.filter (· ∉ cached)).Perm group.experts := by
  rw [Access.prefetchReady, Group.prefetch] at h
  split at h
  case isFalse => cases h
  case isTrue =>
    split at h
    case isFalse => cases h
    case isTrue hc =>
      obtain ⟨_, hc, hm⟩ := hc
      cases h
      have hf : group.experts.filter (· ∉ group.experts.filter (· ∈ group.resident)) =
          group.experts.filter (· ∉ group.resident) :=
        List.filter_congr fun expert he => by simp [he]
      rw [hf]
      refine ⟨hc, hm, ?_⟩
      simpa using List.filter_append_perm (· ∈ group.resident) group.experts

namespace Call

theorem single_row_eq :
    s.singleRow f routes access group = (do
      let completed := (access.prefetchReady group).getD []
      let s ← (access.prefetchReady group).elim (.ok s) (s.ready f routes)
      let acquired := group.experts.filter (· ∉ completed)
      let s ← s.ready f routes acquired
      return s.exit (completed ++ acquired)) := by
  simp only [singleRow, ready, bind_assoc, pure_bind]

theorem single_row_sound (h : s.Sound routes [] done) (ha : s.Adds f routes topK done)
    (hr : routes.length = 1) (hn : group.experts.Nodup) (hd : done.Disjoint group.experts)
    (hne : group.experts ≠ []) :
    ∃ s', s.singleRow f routes access group = .ok s' ∧
      s'.Sound routes [] (done ++ group.experts) ∧
      s'.Adds f routes topK (done ++ group.experts) := by
  rw [single_row_eq]
  cases hp : access.prefetchReady group
  case none =>
    obtain ⟨s', hs, h', ha'⟩ := ready_sound h ha hr hn hd hne
    have hf : group.experts.filter (· ∉ ([] : List Nat)) = group.experts := by simp
    refine ⟨s'.exit group.experts, ?_, h'.exit, ha'⟩
    simp only [Option.elim_none, Option.getD_none, hf]
    exact bind_eq_ok.mpr ⟨s, rfl, bind_eq_ok.mpr ⟨s', hs, rfl⟩⟩
  case some cached =>
    obtain ⟨hc, hm, hperm⟩ := prefetch_ready_eq_some hp
    have hn' := hperm.nodup_iff.mpr hn
    have hd' := List.disjoint_of_subset_right hperm.subset hd
    obtain ⟨hcached, hmissing⟩ := List.disjoint_append_right.mp hd'
    obtain ⟨s', hs, h', ha'⟩ := ready_sound h ha hr hn'.of_append_left hcached hc
    obtain ⟨s'', hs', h'', ha''⟩ := ready_sound h' ha' hr hn'.of_append_right
      (List.disjoint_append_left.mpr ⟨hmissing, List.disjoint_of_nodup_append hn'⟩) hm
    have hdone := hperm.append_left done
    rw [←List.append_assoc] at hdone
    refine ⟨s''.exit (cached ++ group.experts.filter (· ∉ cached)), ?_, h''.exit.perm hdone,
      Adds.perm ha'' hdone⟩
    simp only [Option.elim_some, Option.getD_some]
    exact bind_eq_ok.mpr ⟨s', hs, bind_eq_ok.mpr ⟨s'', hs', rfl⟩⟩

end Call

end Calls

section Chunked

variable {V : Type} {routes : List (List Nat)} {f : Nat → Nat → V} {topK size : Nat}
variable {s s' : Call V} {done experts offsets : List Nat} {expert offset longest : Nat}

def chunkRows (routes : List (List Nat)) (size offset expert : Nat) : List (Nat × Nat) :=
  ((nonzero routes expert).drop offset).take size

def chunkSets (routes : List (List Nat)) (size offset expert : Nat) : List (List Nat) :=
  if chunkRows routes size offset expert = [] then []
  else [(chunkRows routes size offset expert).map Prod.fst]

def chunkAdditions (f : Nat → Nat → V) (routes : List (List Nat)) (topK size offset expert : Nat) :
    List (Nat × V) :=
  (chunkRows routes size offset expert).map fun (row, slot) => (row * topK + slot, f expert row)

-- The offsets up to the length of a list split it.
theorem flatMap_offsets {α : Type} {list : List α} (hs : 0 < size) (hl : list.length ≤ longest) :
    ((Call.offsets size longest).flatMap fun offset => (list.drop offset).take size) = list := by
  have steps (n : Nat) :
      ((List.range n).flatMap fun i => (list.drop (i * size)).take size) =
        list.take (n * size) := by
    induction n
    case zero => simp
    case succ n hi =>
      rw [List.range_succ, List.flatMap_append, hi, Nat.succ_mul, List.take_add]
      simp
  have hn : list.length ≤ (longest + size - 1) / size * size := by
    have := Nat.lt_div_mul_add hs (a := longest + size - 1)
    omega
  rw [Call.offsets, List.flatMap_map, steps, List.take_of_length_le hn]

theorem flatMap_comm_perm {α β γ : Type} (as : List α) (bs : List β) (g : α → β → List γ) :
    (as.flatMap fun a => bs.flatMap fun b => g a b).Perm
      (bs.flatMap fun b => as.flatMap fun a => g a b) := by
  have h := Multiset.bind_bind (as : Multiset α) (bs : Multiset β) (f := fun a b => (g a b : Multiset γ))
  simpa only [Multiset.coe_bind, Multiset.coe_eq_coe] using h

theorem additions_chunks (hs : 0 < size)
    (hl : ∀ expert ∈ experts, (nonzero routes expert).length ≤ longest) :
    ((Call.offsets size longest).flatMap fun offset =>
      experts.flatMap (chunkAdditions f routes topK size offset)).Perm
        (additions f routes topK experts) := by
  refine (flatMap_comm_perm ..).trans (.of_eq (List.flatMap_congr fun expert he => ?_))
  have hm := congrArg (List.map fun (row, slot) => (row * topK + slot, f expert row))
    (flatMap_offsets hs (hl expert he))
  rwa [List.map_flatMap] at hm

theorem evaluations_chunks (hr : routes.length ≠ 1) (hs : 0 < size) (hn : experts.Nodup)
    (hl : ∀ expert ∈ experts, (nonzero routes expert).length ≤ longest) :
    Evaluations routes experts ((Call.offsets size longest).flatMap fun offset =>
      experts.flatMap fun expert => (chunkSets routes size offset expert).map (Prod.mk expert)) := by
  intro expert
  simp only [rowSets_flatMap, rowSets_experts _ hn]
  split
  case isFalse => simp
  case isTrue he =>
    rw [Evaluated, if_neg hr]
    constructor
    case left =>
      simp only [List.mem_flatMap, not_exists, not_and, chunkSets]
      intro offset _ hm
      split at hm <;> simp_all
    case right =>
      have hm := congrArg (List.map Prod.fst) (flatMap_offsets hs (hl expert he))
      rw [List.map_flatMap] at hm
      rw [←hm, List.flatten_eq_flatMap, List.flatMap_assoc]
      refine List.flatMap_congr fun offset _ => ?_
      change _ = (chunkRows routes size offset expert).map Prod.fst
      by_cases hc : chunkRows routes size offset expert = []
      case pos => simp [chunkSets, hc]
      case neg => simp [chunkSets, hc]

-- What a call has done for some chunks of the experts.
structure Call.Chunks (f : Nat → Nat → V) (routes : List (List Nat)) (topK size : Nat)
    (experts offsets : List Nat) (s s' : Call V) : Prop where
  pending   : s'.pending = []
  safe      : Leases.Safe [] s'.leases
  opened    : Leases.after [] s'.leases = Leases.after [] s.leases
  evaluated : s'.evaluated = s.evaluated ++ offsets.flatMap fun offset => experts.flatMap
    fun expert => (chunkSets routes size offset expert).map (Prod.mk expert)
  output    : s'.output = Scatter.add s.output
    (offsets.flatMap fun offset => experts.flatMap (chunkAdditions f routes topK size offset))

namespace Call

theorem chunk_spec (f : Nat → Nat → V) (routes : List (List Nat)) (topK size offset : Nat)
    (s : Call V) (expert : Nat) :
    (∀ other ∈ (chunk f routes topK size offset s expert).pending,
      other ∈ s.pending ∨ other = expert) ∧
    (chunk f routes topK size offset s expert).leases = s.leases ∧
    (chunk f routes topK size offset s expert).evaluated =
      s.evaluated ++ (chunkSets routes size offset expert).map (Prod.mk expert) ∧
    (chunk f routes topK size offset s expert).output =
      Scatter.add s.output (chunkAdditions f routes topK size offset expert) := by
  rw [chunk, chunkSets, chunkAdditions, chunkRows]
  by_cases hc : ((nonzero routes expert).drop offset).take size = []
  case pos =>
    simp only [hc, if_true, List.map_nil, List.append_nil, Scatter.add_nil, and_self, and_true]
    exact fun _ => .inl
  case neg =>
    simp only [hc, if_false, List.map_cons, List.map_nil, and_self, and_true]
    intro other ho
    simpa using ho

theorem chunks_spec (f : Nat → Nat → V) (routes : List (List Nat)) (topK size offset : Nat)
    (s : Call V) (experts : List Nat) :
    (∀ other ∈ (experts.foldl (chunk f routes topK size offset) s).pending,
      other ∈ s.pending ∨ other ∈ experts) ∧
    (experts.foldl (chunk f routes topK size offset) s).leases = s.leases ∧
    (experts.foldl (chunk f routes topK size offset) s).evaluated = s.evaluated ++
      (experts.flatMap fun expert =>
        (chunkSets routes size offset expert).map (Prod.mk expert)) ∧
    (experts.foldl (chunk f routes topK size offset) s).output =
      Scatter.add s.output (experts.flatMap (chunkAdditions f routes topK size offset)) := by
  induction experts generalizing s
  case nil => exact ⟨fun _ => .inl, rfl, (List.append_nil _).symm, Scatter.add_nil.symm⟩
  case cons expert experts hi =>
    obtain ⟨hp, hl, he, ho⟩ := chunk_spec f routes topK size offset s expert
    obtain ⟨hp', hl', he', ho'⟩ := hi (chunk f routes topK size offset s expert)
    rw [List.foldl_cons, List.flatMap_cons, List.flatMap_cons, hl', he', ho', hl, he, ho,
      List.append_assoc, Scatter.add_append]
    refine ⟨fun other hm => ?_, rfl, rfl, rfl⟩
    obtain hm | hm := hp' other hm
    case inr => exact .inr (List.mem_cons_of_mem _ hm)
    case inl =>
      obtain hm | rfl := hp other hm
      case inl => exact .inl hm
      case inr => exact .inr (List.mem_cons_self ..)

theorem Chunks.step (h : s.Chunks f routes topK size experts offsets s')
    (ho : ∀ expert ∈ experts, expert ∈ Leases.after [] s.leases) :
    s.Chunks f routes topK size experts (offsets ++ [offset])
      (experts.foldl (chunk f routes topK size offset) s').eval := by
  obtain ⟨hp, hl, he, hout⟩ := chunks_spec f routes topK size offset s' experts
  constructor
  case pending => rfl
  case safe =>
    rw [eval, hl, Leases.safe_append, Leases.safe_used, h.opened]
    refine ⟨h.safe, fun expert hm => ?_⟩
    obtain hm | hm := hp expert hm
    case inl =>
      rw [h.pending] at hm
      cases hm
    case inr => exact ho expert hm
  case opened => rw [eval, hl, Leases.after_append, Leases.after_used, h.opened]
  case evaluated => simp [eval, he, h.evaluated]
  case output => simp [eval, hout, h.output, Scatter.add_append]

theorem chunks_offsets (f : Nat → Nat → V) (routes : List (List Nat)) (topK size : Nat)
    (offsets : List Nat) (hp : s.pending = []) (hs : Leases.Safe [] s.leases)
    (ho : ∀ expert ∈ experts, expert ∈ Leases.after [] s.leases) :
    s.Chunks f routes topK size experts offsets (offsets.foldl (fun s offset =>
      (experts.foldl (chunk f routes topK size offset) s).eval) s) := by
  induction offsets using List.reverseRecOn
  case nil => exact ⟨hp, hs, rfl, (List.append_nil _).symm, Scatter.add_nil.symm⟩
  case append_singleton offsets offset hi =>
    rw [List.foldl_append]
    exact hi.step ho

theorem multi_row_sound {group : Group} (h : s.Sound routes [] done)
    (ha : s.Adds f routes topK done) (hr : routes.length ≠ 1) (hs : 0 < size)
    (hn : group.experts.Nodup) (hd : done.Disjoint group.experts) (hne : group.experts ≠ []) :
    ∃ s', s.multiRow f routes topK size group = .ok s' ∧
      s'.Sound routes [] (done ++ group.experts) ∧
      s'.Adds f routes topK (done ++ group.experts) := by
  let lengths := group.experts.map fun expert => (nonzero routes expert).length
  have hl : ∀ expert ∈ group.experts, (nonzero routes expert).length ≤ lengths.foldl max 0 := by
    intro expert he
    have hm : (nonzero routes expert).length ∈ lengths := List.mem_map_of_mem he
    rw [List.foldl_max_eq_max (List.ne_nil_of_mem hm)]
    exact (List.le_max_of_mem hm).trans (le_max_right ..)
  have he : ensure (group.experts ≠ []) "max() arg is an empty sequence" = .ok ⟨⟩ :=
    ensure_eq_ok.mpr hne
  have hopened : Leases.after [] (s.enter group.experts).leases = group.experts.reverse := by
    rw [enter, Leases.after_append, Leases.after_opened, h.opened, List.reverse_nil,
      List.append_nil]
  have hchunks := chunks_offsets f routes topK size (offsets size (lengths.foldl max 0))
    (s := s.enter group.experts) h.pending (Leases.safe_append.mpr ⟨h.safe, Leases.safe_opened⟩)
    fun expert hm => by rwa [hopened, List.mem_reverse]
  refine ⟨_, by rw [multiRow, he]; rfl, ?_, ?_⟩
  case refine_1 =>
    refine Sound.exit ⟨hchunks.pending, hchunks.safe, hchunks.opened.trans hopened, ?_⟩
    rw [hchunks.evaluated]
    exact h.evaluated.append (evaluations_chunks hr hs hn hl) hd
  case refine_2 => exact ha.append hchunks.output (additions_chunks hs hl)

end Call

end Chunked

end Backend.StreamedExperts
