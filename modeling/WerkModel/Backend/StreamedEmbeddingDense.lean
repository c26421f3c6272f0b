import WerkModel.Backend.StreamedEmbedding

-- A lookup gathers the rows of the table, whatever is in the cache.
open Segments

namespace Backend.StreamedEmbedding

open PleTables NgramCache

variable {P V : Type} {source : Source} {tables : List (Nat × Table)} {numerics : Numerics P V}
variable {cp : TextCheckpoint.Checkpoint} {access access' : WeightAccess V} {table : Table}
variable {layer index : Nat} {spec : Spec} {fails : String → Nat → Option String}

-- The rows of all shards of a table.
def dense (numerics : Numerics P V) (table : Table) : List V :=
  contents Spec.start Spec.stop (fun spec row => numerics.dequantize spec.q
    (numerics.packed spec.stem .weight row) (numerics.packed spec.stem .scales row)
    (numerics.packed spec.stem .biases row)) table.specs

-- The entry of the cache is a row of its table.
def IsRow (source : Source) (tables : List (Nat × Table)) (numerics : Numerics P V)
    (item : (String × (Nat × Nat)) × (V × Nat)) : Prop :=
  ∃ table spec, tables.lookup item.1.2.1 = some table ∧ locate table item.1.2.2 = .ok spec ∧
    item.2 = (numerics.row spec item.1.2.2, source.rowBytes table.dims spec)

-- The cache is not in use, has room for each row, and holds rows only.
structure Stored (source : Source) (tables : List (Nat × Table)) (numerics : Numerics P V)
    (cp : TextCheckpoint.Checkpoint) (cache : SharedCache String (Nat × Nat) V) : Prop where
  idle    : cache.Idle
  limits  : cache.limits = .empty
  budget  : cp.inventory.largestNgramRowBytes ≤ cache.budget
  entries : ∀ item ∈ cache.entries.items, IsRow source tables numerics item

-- The tables are accepted, and their rows are those that the budgets have been chosen for.
structure Served (source : Source) (tables : List (Nat × Table))
    (cp : TextCheckpoint.Checkpoint) : Prop where
  sound   : ∀ entry ∈ tables, entry.2.Sound source
  rows    : cp.inventory.rows = source.rows tables
  streams : Streams cp

section Tables

theorem locate_of_lt (s : table.Sound source) (h : index < total Spec.stop table.specs) :
    ∃ spec ∈ table.specs, locate table index = .ok spec ∧ spec.start ≤ index ∧
      index < spec.stop := by
  obtain ⟨spec, hs, hm, hl, hu⟩ := s.chained.bisect h
  refine ⟨spec, hm, ?_, hl, hu⟩
  simp only [locate, hs]

theorem total_eq (s : table.Sound source) :
    total Spec.stop table.specs = (dense numerics table).length := by
  have h := @Chained.length_contents _ _ _ _ (fun spec row => numerics.dequantize spec.q
    (numerics.packed spec.stem .weight row) (numerics.packed spec.stem .scales row)
    (numerics.packed spec.stem .biases row)) _ _ s.chained
  rw [Nat.zero_add] at h
  exact h.symm

theorem dense_getElem? (s : table.Sound source) (hm : spec ∈ table.specs)
    (hl : spec.start ≤ index) (hu : index < spec.stop) :
    (dense numerics table)[index]? = some (numerics.row spec index) :=
  s.chained.getElem?_contents hm hl hu

theorem mem_of_lookup (h : tables.lookup layer = some table) : (layer, table) ∈ tables := by
  obtain ⟨before, rest, rfl, -⟩ := List.lookup_eq_some_iff.mp h
  exact List.mem_append_right _ List.mem_cons_self

theorem rowBytes_le (v : Served source tables cp) (h : tables.lookup layer = some table)
    (hm : spec ∈ table.specs) :
    (source.rowBytes table.dims spec : Int) ≤ cp.inventory.largestNgramRowBytes := by
  have hr : source.rowBytes table.dims spec ∈ cp.inventory.rows.map Prod.snd := by
    rw [v.rows]
    refine List.mem_map.mpr ⟨(spec.stop - spec.start, _), ?_, rfl⟩
    exact List.mem_flatMap.mpr ⟨_, mem_of_lookup h, List.mem_map_of_mem hm⟩
  rw [TextCheckpoint.Inventory.largestNgramRowBytes]
  cases hmax : (cp.inventory.rows.map Prod.snd).max?
  case none =>
    rw [List.max?_eq_none_iff.mp hmax] at hr
    cases hr
  case some size => exact Int.ofNat_le.mpr ((List.max?_eq_some_iff.mp hmax).2 _ hr)

theorem readTriplet_eq (s : table.Sound source) (hm : spec ∈ table.specs)
    (hl : spec.start ≤ index) (hu : index < spec.stop) :
    readTriplet source numerics fails spec.stem (index - spec.start) =
      match fails spec.stem (index - spec.start) with
      | some error => .error error
      | none       => .ok (numerics.packed spec.stem .weight (index - spec.start),
        numerics.packed spec.stem .scales (index - spec.start),
        numerics.packed spec.stem .biases (index - spec.start)) := by
  have hc : [Suffix.weight, .scales, .biases].forM
      (checkRow source spec.stem (index - spec.start)) = .ok ⟨⟩ := by
    refine Checks.forM_eq_ok.mpr fun suffix _ => ?_
    obtain ⟨tensor, ht, hr⟩ := s.rows spec hm suffix
    simp only [checkRow, ht]
    exact Checks.ensure_eq_ok.mpr (by omega)
  rw [readTriplet, hc]
  cases fails spec.stem (index - spec.start) <;> rfl

end Tables

section Rows

-- A row is given out, or its read fails.
theorem pleRow_spec (v : Served source tables cp)
    (h : Stored source tables numerics cp access.ngrams.cache)
    (ht : tables.lookup layer = some table) (hi : index < (dense numerics table).length) :
    (∃ error access' spec, access.pleRow source tables numerics fails layer index =
        (.error error, access') ∧ Stored source tables numerics cp access'.ngrams.cache ∧
        locate table index = .ok spec ∧ fails spec.stem (index - spec.start) = some error) ∨
    ∃ row access', access.pleRow source tables numerics fails layer index = (.ok row, access') ∧
      (dense numerics table)[index]? = some row ∧
      Stored source tables numerics cp (access'.release layer index).ngrams.cache := by
  have s : table.Sound source := v.sound _ (mem_of_lookup ht)
  rw [←total_eq s] at hi
  obtain ⟨spec, hm, hlocate, hl, hu⟩ := locate_of_lt s hi
  have hbytes := rowBytes_le v ht hm
  have hsize : source.rowBytes table.dims spec ≤ access.ngrams.cache.budget := by
    have := h.budget
    omega
  have hpos : 1 ≤ source.rowBytes table.dims spec := by
    have := s.dims_pos
    rw [Source.rowBytes]
    omega
  have hlimit : source.rowBytes table.dims spec ≤ access.ngrams.cache.limit "ple" := by
    rw [SharedCache.limit, h.limits]
    exact hsize
  have hrow : ∀ value old, access.ngrams.cache.entries.get? ("ple", (layer, index)) =
      some (value, old) →
      value = numerics.row spec index ∧ old = source.rowBytes table.dims spec := by
    intro value old hg
    obtain ⟨table', spec', ht', hlocate', he⟩ :=
      h.entries _ (OrderedDict.get?_eq_some.mp hg)
    obtain rfl := Option.some.inj (ht.symm.trans ht')
    obtain rfl := Except.ok.inj (hlocate.symm.trans hlocate')
    exact Prod.mk.inj he
  have hdense : (dense numerics table)[index]? = some (numerics.row spec index) :=
    dense_getElem? s hm hl hu
  have hn : ¬((index : Int) < 0 ∨ (total Spec.stop table.specs : Int) ≤ index) := by omega
  rw [WeightAccess.pleRow, ht]
  simp only [if_neg hn, Int.toNat_natCast, hlocate]
  obtain ⟨value, cache, ha, hg, hidle, hremains⟩ | ⟨cache, ha, ⟨hidle, hremains⟩, hstore⟩ :=
    @SharedCache.Idle.acquire _ _ _ _ _ _ ("ple", (layer, index)) _ h.idle hpos hsize hlimit
      fun value old hg => (hrow value old hg).2
  case inl =>
    simp only [ha]
    refine .inr ⟨value, _, rfl, (hrow value _ hg).1 ▸ hdense, hidle, ?_, ?_, ?_⟩
    · exact hremains.limits.trans h.limits
    · exact hremains.budget ▸ h.budget
    · exact fun item hm => h.entries item (hremains.items item hm)
  case inr =>
    simp only [ha, WeightAccess.load, readTriplet_eq s hm hl hu]
    cases hf : fails spec.stem (index - spec.start)
    case some error =>
      refine .inl ⟨error, _, spec, rfl, ⟨hidle, ?_, ?_, ?_⟩, rfl, hf⟩
      · exact hremains.limits.trans h.limits
      · exact hremains.budget ▸ h.budget
      · exact fun item hm => h.entries item (hremains.items item hm)
    case none =>
      obtain ⟨hidle, hbudget, hlimits, hitems⟩ := hstore (numerics.row spec index)
      refine .inr ⟨_, _, rfl, hdense, hidle, hlimits.trans h.limits, hbudget ▸ h.budget,
        fun item hm => ?_⟩
      obtain rfl | hm := hitems item hm
      case inl => exact ⟨table, spec, ht, hlocate, rfl⟩
      case inr => exact h.entries item hm

-- What has been added for some of the distinct indices: the row of its index at each position.
structure Adds (numerics : Numerics P V) (table : Table) (inverse : List Nat)
    (slots : List (Int × Nat)) (added : List (Nat × V)) : Prop where
  positions : added.map Prod.fst = slots.flatMap fun slot => flatnonzero inverse slot.2
  rows      : ∀ addition ∈ added, ∃ slot ∈ slots, addition.1 ∈ flatnonzero inverse slot.2 ∧
    ∃ row, (dense numerics table)[slot.1.toNat]? = some row ∧ addition.2 = numerics.scale row

theorem gather_spec (v : Served source tables cp) (ht : tables.lookup layer = some table)
    (inverse : List Nat) {slots : List (Int × Nat)} {result : Nat → List V}
    (hs : ∀ slot ∈ slots, 0 ≤ slot.1 ∧ slot.1 < (dense numerics table).length)
    (h : Stored source tables numerics cp access.ngrams.cache) :
    (∃ error access', access.gather source tables numerics fails layer inverse slots result =
        (.error error, access') ∧ Stored source tables numerics cp access'.ngrams.cache ∧
        ∃ slot ∈ slots, ∃ spec, locate table slot.1.toNat = .ok spec ∧
          fails spec.stem (slot.1.toNat - spec.start) = some error) ∨
    ∃ added access', access.gather source tables numerics fails layer inverse slots result =
        (.ok (Scatter.add result added), access') ∧ Adds numerics table inverse slots added ∧
        Stored source tables numerics cp access'.ngrams.cache := by
  induction slots generalizing access result
  case nil =>
    refine .inr ⟨[], access, ?_, ⟨rfl, fun _ h => by cases h⟩, h⟩
    rw [WeightAccess.gather, Scatter.add_nil]
  case cons slot slots hi =>
    obtain ⟨index, slot⟩ := slot
    obtain ⟨⟨hnonneg, hlt⟩, hrest⟩ := List.forall_mem_cons.mp hs
    obtain ⟨index, rfl⟩ := Int.eq_ofNat_of_zero_le hnonneg
    rw [WeightAccess.gather]
    obtain ⟨error, access', spec, hp, h', hlocate, hf⟩ | ⟨row, access', hp, hrow, h'⟩ :=
      @pleRow_spec _ _ _ _ _ _ access _ _ index fails v h ht (Int.ofNat_lt.mp hlt)
    case inl =>
      simp only [hp]
      exact .inl ⟨error, access', rfl, h', _, List.mem_cons_self, spec, hlocate, hf⟩
    case inr =>
      simp only [hp]
      obtain ⟨error, access'', hg, h'', slot', hm, hf⟩ | ⟨added, access'', hg, ha, h''⟩ :=
        hi hrest h'
      case inl => exact .inl ⟨error, access'', hg, h'', slot', List.mem_cons_of_mem _ hm, hf⟩
      case inr =>
        refine .inr ⟨_, access'', hg.trans (by rw [Scatter.add_append]), ⟨?_, ?_⟩, h''⟩
        case refine_1 => simp [ha.positions, Function.comp_def]
        case refine_2 =>
          intro addition hm
          obtain hm | hm := List.mem_append.mp hm
          case inl =>
            obtain ⟨position, hp, rfl⟩ := List.mem_map.mp hm
            exact ⟨_, List.mem_cons_self, hp, row, hrow, rfl⟩
          case inr =>
            obtain ⟨slot', hm, hr⟩ := ha.rows addition hm
            exact ⟨slot', List.mem_cons_of_mem _ hm, hr⟩

end Rows

section Positions

variable {values : List Int} {position slot : Nat} {value : Int}

theorem mem_unique : value ∈ unique values ↔ value ∈ values := by
  rw [unique, (List.perm_insertionSort _ _).mem_iff, List.mem_dedup]

theorem mem_flatnonzero {inverse : List Nat} :
    position ∈ flatnonzero inverse slot ↔ inverse[position]? = some slot := by
  rw [flatnonzero, List.mem_filter, List.mem_range, decide_eq_true_eq]
  exact and_iff_right_of_imp fun h => (List.getElem?_eq_some_iff.mp h).choose

-- The distinct index of a position is its own.
theorem slot_of_position (hv : values[position]? = some value) :
    (inverse values)[position]? = some ((unique values).idxOf value) ∧
      (unique values)[(unique values).idxOf value]? = some value := by
  refine ⟨by rw [inverse, List.getElem?_map, hv]; rfl, ?_⟩
  exact List.getElem?_idxOf (mem_unique.mpr (List.mem_of_getElem? hv))

theorem nodup_positions (inverse : List Nat) (values : List Int) :
    ((unique values).zipIdx.flatMap fun slot => flatnonzero inverse slot.2).Nodup := by
  refine List.nodup_flatMap.mpr ⟨fun slot _ => List.nodup_range.filter _, ?_⟩
  have hn : ((unique values).zipIdx.map Prod.snd).Nodup := by
    rw [List.zipIdx_map_snd]
    exact List.nodup_range'
  refine (List.pairwise_map.mp hn).imp fun {a b} hne position ha hb => ?_
  have he := (mem_flatnonzero.mp ha).symm.trans (mem_flatnonzero.mp hb)
  exact hne (Option.some.inj he)

-- Each position receives one row, that of its index.
theorem Adds.row {added : List (Nat × V)}
    (h : Adds numerics table (inverse values) (unique values).zipIdx added)
    (hv : values[position]? = some value) :
    ∃ row, (dense numerics table)[value.toNat]? = some row ∧
      Scatter.add (fun _ => []) added position = [numerics.scale row] := by
  obtain ⟨hinverse, hunique⟩ := slot_of_position hv
  have hp : position ∈ added.map Prod.fst := by
    rw [h.positions]
    exact List.mem_flatMap.mpr ⟨(value, _), List.mem_zipIdx_iff_getElem?.mpr hunique,
      mem_flatnonzero.mpr hinverse⟩
  obtain ⟨⟨position, v⟩, hm, rfl⟩ := List.mem_map.mp hp
  obtain ⟨⟨other, slot⟩, hs, hpos, row, hrow, rfl⟩ := h.rows _ hm
  have he := (mem_flatnonzero.mp hpos).symm.trans hinverse
  obtain rfl := Option.some.inj he
  obtain rfl : other = value :=
    Option.some.inj ((List.mem_zipIdx_iff_getElem?.mp hs).symm.trans hunique)
  refine ⟨row, hrow, Scatter.add_of_nodup ?_ hm⟩
  rw [h.positions]
  exact nodup_positions ..

end Positions

section Lookups

variable {indices : Indices}

-- The output of a dense lookup, to each position of which one row has been added.
structure Gathered (numerics : Numerics P V) (table : Table) (indices : Indices)
    (output : Output V) : Prop where
  shape  : output.shape = indices.shape ++ [table.dims]
  length : output.rows.length = indices.values.length
  rows   : ∀ (position : Nat) (index : Int), indices.values[position]? = some index →
    ∃ row, (dense numerics table)[index.toNat]? = some row ∧
      output.rows[position]? = some [numerics.scale row]

def InRange (numerics : Numerics P V) (table : Table) (indices : Indices) : Prop :=
  ∀ index ∈ indices.values, 0 ≤ index ∧ index < (dense numerics table).length

-- A lookup only fails if a read does.
inductive Looked (numerics : Numerics P V) (fails : String → Nat → Option String) (table : Table)
    (indices : Indices) : Except String (Output V) → Prop
  | failed {error index spec} :
    index ∈ indices.values → locate table index.toNat = .ok spec →
    fails spec.stem (index.toNat - spec.start) = some error →
    Looked numerics fails table indices (.error error)
  | gathered {output} :
    Gathered numerics table indices output → Looked numerics fails table indices (.ok output)

theorem streamedEmbedding_spec (v : Served source tables cp)
    (ht : tables.lookup layer = some table)
    (h : Stored source tables numerics cp access.ngrams.cache) (hk : indices.integral = true) :
    Stored source tables numerics cp
      (access.streamedEmbedding source tables numerics fails layer indices).2.ngrams.cache ∧
    (¬InRange numerics table indices →
      access.streamedEmbedding source tables numerics fails layer indices =
        (.error "PLE index out of range", access)) ∧
    (InRange numerics table indices →
      indices.values.length * table.dims * 2 ≤ maxOutputBytes →
      Looked numerics fails table indices
        (access.streamedEmbedding source tables numerics fails layer indices).1) := by
  have s : table.Sound source := v.sound _ (mem_of_lookup ht)
  have hr : (∃ index ∈ indices.values, index < 0 ∨ (total Spec.stop table.specs : Int) ≤ index) ↔
      ¬InRange numerics table indices := by
    have hd : total Spec.stop table.specs = (dense numerics table).length := total_eq s
    rw [hd, InRange]
    push Not
    refine exists_congr fun index => and_congr_right fun _ => ?_
    constructor
    case mp  => exact fun h hn => h.resolve_left (not_lt.mpr hn)
    case mpr => exact fun h => (lt_or_ge index 0).imp_right h
  rw [WeightAccess.streamedEmbedding, if_neg (not_not.mpr hk), ht]
  by_cases hin : InRange numerics table indices
  case neg =>
    simp only [if_pos (hr.mpr hin)]
    exact ⟨h, fun _ => trivial, fun h => absurd h hin⟩
  case pos =>
    simp only [if_neg (mt hr.mp (not_not.mpr hin))]
    by_cases hw : maxOutputBytes < indices.values.length * table.dims * 2
    case pos =>
      simp only [if_pos hw]
      exact ⟨h, fun hn => absurd hin hn, fun _ hle => absurd hle (not_le.mpr hw)⟩
    case neg =>
      simp only [if_neg hw]
      have hslots : ∀ slot ∈ (unique indices.values).zipIdx,
          0 ≤ slot.1 ∧ slot.1 < (dense numerics table).length := fun slot hm =>
        hin _ (mem_unique.mp (List.mem_of_getElem? (List.mem_zipIdx_iff_getElem?.mp hm)))
      obtain ⟨error, access', hg, h', slot, hm, spec, hl, hf⟩ | ⟨added, access', hg, ha, h'⟩ :=
        @gather_spec _ _ _ _ numerics _ { access with
          requestedRows := access.requestedRows + indices.values.length
          uniqueRows    := access.uniqueRows + (unique indices.values).length } _ _ fails v ht
          (inverse indices.values) _ (fun _ => []) hslots h
      case inl =>
        simp only [hg]
        refine ⟨h', fun hn => absurd hin hn, fun _ _ => .failed ?_ hl hf⟩
        exact mem_unique.mp (List.mem_of_getElem? (List.mem_zipIdx_iff_getElem?.mp hm))
      case inr =>
        simp only [hg]
        refine ⟨h', fun hn => absurd hin hn, fun _ _ => .gathered ⟨rfl, by simp, ?_⟩⟩
        intro position index hv
        obtain ⟨row, hrow, hadd⟩ := ha.row hv
        have hlt := (List.getElem?_eq_some_iff.mp hv).choose
        refine ⟨row, hrow, ?_⟩
        rw [List.getElem?_map, List.getElem?_range hlt, Option.map_some, hadd]

theorem resize_stored (s : Streams cp) {ngrams : Ngrams V} {expertMinimum available : Int}
    (h : Stored source tables numerics cp ngrams.cache) :
    Stored source tables numerics cp
      (ngrams.resizeAuxiliaryCache cp expertMinimum available).2.cache := by
  obtain ⟨limit, hl, hc⟩ := resizeAuxiliaryCache_cache s ngrams expertMinimum available
  have hpos : 1 ≤ limit.toNat := by
    have := s.row_pos
    omega
  obtain ⟨-, hidle, hbudget, hlimits, hitems⟩ := h.idle.resize hpos
  rw [hc]
  refine ⟨hidle, hlimits.trans h.limits, ?_, fun item hm => h.entries item (hitems item hm)⟩
  rw [hbudget]
  omega

theorem new_stored (s : Streams cp) {ngrams : Ngrams V} (h : NgramCache.new cp = .ok ngrams) :
    Stored source tables numerics cp ngrams.cache := by
  obtain ⟨cache, hc, h⟩ := Checks.bind_eq_ok.mp h
  obtain rfl := Except.ok.inj h
  have hidle := SharedCache.Idle.new hc
  obtain ⟨-, hc⟩ := Checks.seq_eq_ok.mp hc
  obtain rfl := Except.ok.inj hc
  refine ⟨hidle, rfl, ?_, fun item hm => by cases hm⟩
  have := s.initial
  simp only
  omega

theorem stored_of_reachable (v : Served source tables cp)
    (r : (lookups source tables numerics cp).Reachable access) :
    Stored source tables numerics cp access.ngrams.cache := by
  refine System.Invariant.reachable (I := fun access =>
    Stored source tables numerics cp access.ngrams.cache) ⟨fun _ h => new_stored v.streams h, ?_⟩ r
  intro access input _ access' h hs
  obtain rfl : step source tables numerics cp access input = access' := hs
  cases input
  case resize expertMinimum available => exact resize_stored v.streams h
  case embed fails layer indices =>
    cases ht : tables.lookup layer
    case none =>
      rw [step, WeightAccess.streamedEmbedding, ht]
      split
      case isTrue  => exact h
      case isFalse => exact h
    case some table =>
      by_cases hk : indices.integral = true
      case pos => exact (streamedEmbedding_spec v ht h hk).1
      case neg =>
        rw [step, WeightAccess.streamedEmbedding, if_pos hk]
        exact h

end Lookups

section Sample

theorem positive_pair {m n : Nat} : ∀ dimension ∈ [m + 1, n + 1], 0 < dimension := by simp

-- Two shards of two rows each.
def sampleSource : Source where
  architecture    := .qwen4Exp
  layers          := 1
  pleLayerIds     := some [1]
  headsPerNgram   := some 1
  ngramSize       := some 2
  pleEmbedDim     := some 32
  splitNgramParts := some 2
  names           := [⟨"shard_0", 0, 0, .weight⟩, ⟨"shard_1", 0, 1, .weight⟩]
  tensors         := fun _ suffix => match suffix with
    | .weight           => some ⟨32, [2, 4], .u32, positive_pair⟩
    | .scales | .biases => some ⟨4, [2, 1], .f16, positive_pair⟩
  quantization _  := .ok ⟨4, 32⟩

def sampleTable : Table where
  dims  := 32
  specs := [⟨0, 2, "shard_0", ⟨4, 32⟩⟩, ⟨2, 4, "shard_1", ⟨4, 32⟩⟩]

def samplePart : TextCheckpoint.Part where
  rows     := 2
  weight   := 32
  scales   := 4
  biases   := 4
  rows_pos := Nat.two_pos

def sampleCheckpoint : TextCheckpoint.Checkpoint where
  inventory              := {
    layerBytes  := [1]
    experts     := 1
    base        := []
    ple         := [40, 40]
    pleTables   := [⟨32, [samplePart, samplePart], Nat.succ_pos 31, List.cons_ne_nil _ _⟩]
    nonempty    := List.cons_ne_nil _ _
    experts_pos := Nat.one_pos
  }
  expertsEnabled         := false
  cacheBudgetMode        := .disabled
  cacheBytes             := 0
  ngramsEnabled          := true
  ngramBudgetMode        := .explicit
  ngramBudgetBytes       := 200
  ngramInitialCacheBytes := 200
  baseBytes              := 201
  residentEstimateBytes  := 201 + TextCheckpoint.workspaceBytes

def sampleNumerics : Numerics Nat Nat where
  packed _ _ row     := row
  dequantize _ w _ _ := w
  scale              := id

def sampleIndices : Indices where
  integral := true
  shape    := [3, 1]
  values   := [3, 0, 3]
  size_eq  := rfl

end Sample

end Backend.StreamedEmbedding
