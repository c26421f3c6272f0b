import WerkModel.Backend.ModelPrefetch

-- What the inventory of a file finds, and that none of its computations overflows.
open Checks

namespace Backend.ModelPrefetch

variable {candle : Candle} {placement : CpuMoePlacement} {α β : Type}

def Failure.IsMessage (failure : Failure) : Prop :=
  failure ≠ .overflow

theorem isMessage {text : String} : (Failure.message text).IsMessage :=
  nofun

-- A computation that does not overflow, and whose result has a property.
abbrev Yields (x : Fallible α) (Q : α → Prop) : Prop :=
  Meets Failure.IsMessage x Q

theorem Yields.check {p : Prop} [Decidable p] {text : String} {f : Unit → Fallible β}
    {R : β → Prop} (hf : p → Yields (f ⟨⟩) R) : Yields (check p text >>= f) R :=
  Meets.ensure_bind (fun _ => isMessage) hf

section Arithmetic

variable {allowed : Failure → Prop} {a b : Nat}

theorem add_meets (h : a + b ≤ u64Max) : Meets allowed (add a b) (· = a + b) := by
  rw [add, checkedAdd, if_pos h]
  exact Meets.ok rfl

theorem sub_meets (h : b ≤ a) : Meets allowed (sub a b) (· = a - b) := by
  rw [sub, if_pos h]
  exact Meets.ok rfl

theorem mul_meets (h : a * b ≤ u64Max) : Meets allowed (mul a b) (· = a * b) := by
  rw [mul, checkedMul, if_pos h]
  exact Meets.ok rfl

theorem div_meets (h : 0 < b) : Meets allowed (div a b) (· = a / b) := by
  rw [div, if_neg h.ne']
  exact Meets.ok rfl

theorem rem_meets (h : 0 < b) : Meets allowed (rem a b) (· = a % b) := by
  rw [rem, if_neg h.ne']
  exact Meets.ok rfl

end Arithmetic

section Reading

variable {reader : MetadataReader} {count : Nat}

-- The position in the file stays small, because every read uses up some of the limit.
def MetadataReader.Bounded (reader : MetadataReader) : Prop :=
  reader.position + reader.remaining ≤ maxMetadataBytes

-- A read yields something and a reader of what is left.
abbrev Reads (x : Fallible (α × MetadataReader)) : Prop :=
  Yields x (·.2.Bounded)

theorem readExact_reads (h : reader.Bounded) : Reads (reader.readExact count) := by
  refine Yields.check fun hr => Yields.check fun _ => ?_
  have hm : maxMetadataBytes ≤ u64Max := by decide
  rw [MetadataReader.Bounded] at h
  refine (add_meets (by omega)).bind fun position hp => ?_
  refine (sub_meets hr).bind fun remaining hr' => ?_
  refine Meets.ok (show position + remaining ≤ _ from ?_)
  omega

theorem readInteger_reads (h : reader.Bounded) : Reads (readInteger count reader) :=
  (readExact_reads h).bind fun _ hb => Meets.ok hb

theorem readDimensions_reads (h : reader.Bounded) : Reads (readDimensions count reader) := by
  induction count generalizing reader
  case zero          => exact Meets.ok h
  case succ count hi =>
    refine (readInteger_reads h).bind fun _ hb => ?_
    exact (hi hb).bind fun _ hb' => Meets.ok hb'

end Reading

-- The sizes of blocks are not zero, so that the division by them is defined.
theorem layout_yields (hl : candle.Lawful) (dtype : Nat) :
    Yields (candle.layout dtype) fun sizes => 0 < sizes.1 ∧ 0 < sizes.2 := by
  rw [Candle.layout]
  split
  case isTrue  => exact Meets.ok ⟨Nat.one_pos, Nat.succ_pos 3⟩
  case isFalse =>
    refine Meets.bind (Q := fun _ => True) ?_ fun known _ =>
      Meets.ok ⟨hl.blockSize known, hl.typeSize known⟩
    unfold knownDType
    split <;> first | exact trivial | exact isMessage

-- The dimensions are not zero, and the first fills whole blocks.
theorem blocks_pos {dimension blockSize : Nat} {dimensions : List Nat}
    (hd : ∀ d ∈ dimension :: dimensions, 0 < d) (hb : 0 < blockSize)
    (hm : dimension % blockSize = 0) : 0 < (dimension :: dimensions).prod / blockSize := by
  have hf : blockSize ≤ dimension :=
    Nat.le_of_dvd (hd _ (List.mem_cons_self ..)) (Nat.dvd_of_mod_eq_zero hm)
  have hp : 0 < dimensions.prod :=
    List.prod_pos fun d h => hd d (List.mem_cons_of_mem _ h)
  rw [List.prod_cons]
  exact Nat.div_pos (hf.trans (Nat.le_mul_of_pos_right _ hp)) hb

theorem tensorBytes_yields (hl : candle.Lawful) (dtype : Nat) (dimensions : List Nat) :
    Yields (tensorBytes candle dtype dimensions) (0 < ·) := by
  refine Yields.check fun ⟨hn, hd⟩ => ?_
  have he : Yields (dimensions.foldlM
      (checkedMul u64Max (.message "GGUF tensor dimension overflow")) 1) (· = dimensions.prod) := by
    refine (Meets.foldlM (I := fun passed product => product = passed.prod) rfl
      fun passed dimension product _ hp => ?_).mono fun _ => id
    refine (Meets.checkedMul fun _ => isMessage).mono fun _ ⟨he, _⟩ => ?_
    rw [he, hp, List.prod_append, List.prod_singleton]
  refine he.bind fun elements he => (layout_yields hl dtype).bind fun sizes ⟨hb, ht⟩ => ?_
  refine (rem_meets hb).bind fun unaligned hu => Yields.check fun hm => ?_
  rw [hu] at hm
  refine (div_meets hb).bind fun blocks hq => ?_
  refine (Meets.checkedMul fun _ => isMessage).mono fun _ ⟨hc, _⟩ => ?_
  obtain ⟨dimension, dimensions, rfl⟩ := List.exists_cons_of_length_pos hn.left
  rw [hc, hq, he]
  exact Nat.mul_pos (blocks_pos hd hb hm) ht

-- No tensor is empty.
theorem readTensor_yields (hl : candle.Lawful) {alignment : Nat} (ha : 0 < alignment)
    {names : List (List Char)} {reader : MetadataReader} (h : reader.Bounded) :
    Yields (readTensor candle placement alignment names reader) fun read =>
      0 < read.1.1.length ∧ read.2.2.Bounded := by
  refine (readInteger_reads h).bind fun _ h => Yields.check fun _ => ?_
  refine (readExact_reads h).bind fun _ h => ?_
  refine Meets.bind (Q := fun _ => True) ?_ fun _ _ => ?_
  · cases Utf8.decode _
    case none => exact isMessage
    case some => exact trivial
  refine Yields.check fun _ => (readInteger_reads h).bind fun _ h => Yields.check fun _ => ?_
  refine (readDimensions_reads h).bind fun _ h => (readInteger_reads h).bind fun _ h => ?_
  refine (tensorBytes_yields hl _ _).bind fun _ hp => (readInteger_reads h).bind fun _ h => ?_
  exact (rem_meets ha).bind fun _ _ => Yields.check fun _ => Meets.ok ⟨hp, h⟩

theorem readDirectory_yields (hl : candle.Lawful) {alignment : Nat} (ha : 0 < alignment)
    (tensors : Nat) {names : List (List Char)} {reader : MetadataReader} (h : reader.Bounded) :
    Yields (readDirectory candle placement alignment tensors names reader) fun read =>
      (∀ region ∈ read.1, 0 < region.1.length) ∧ read.2.Bounded := by
  induction tensors generalizing names reader
  case zero            => exact Meets.ok ⟨nofun, h⟩
  case succ tensors hi =>
    refine (readTensor_yields hl ha h).bind fun _ ⟨hp, hb⟩ => ?_
    refine (hi hb).bind fun _ ⟨hr, hb'⟩ => Meets.ok ⟨?_, hb'⟩
    exact List.forall_mem_cons.mpr ⟨hp, hr⟩

theorem alignedDataOffset_yields (position alignment : Nat) :
    Yields (alignedDataOffset position alignment) fun _ => True := by
  refine Yields.check fun ha => ?_
  have hp := Nat.pos_of_isPowerOfTwo ha
  refine (sub_meets hp).bind fun padding _ => ?_
  refine (Meets.checkedAdd fun _ => isMessage).bind fun value ⟨hv, hc⟩ => ?_
  refine (div_meets hp).bind fun blocks hb => ?_
  refine (mul_meets ?_).mono fun _ _ => trivial
  rw [hb, hv]
  exact (Nat.div_mul_le_self ..).trans hc

-- A tensor lies in the file, and is not empty.
def Region.Within (fileSize : Nat) (region : Region) : Prop :=
  0 < region.1.length ∧ region.1.stop ≤ fileSize ∧ region.1.stop ≤ u64Max

theorem place_yields {dataOffset fileSize : Nat} {region : Region} (h : 0 < region.1.length) :
    Yields (place dataOffset fileSize region) (Region.Within fileSize) := by
  refine (Meets.checkedAdd fun _ => isMessage).bind fun offset _ => ?_
  exact Yields.check fun ⟨hm, hs⟩ => Meets.ok ⟨h, hs, hm⟩

-- Tensors that follow each other without an overlap.
def Ordered (regions : List Region) : Prop :=
  regions.Pairwise fun a b => a.1.stop ≤ b.1.offset

theorem Ordered.cons {first second : Region} {regions : List Region}
    (h : first.1.stop ≤ second.1.offset) (ho : Ordered (second :: regions)) :
    Ordered (first :: second :: regions) := by
  refine List.Pairwise.cons (fun region hr => ?_) ho
  cases hr
  case head          => exact h
  case tail hr       =>
    have hs := (List.pairwise_cons.mp ho).left region hr
    exact h.trans ((Nat.le_add_right ..).trans hs)

-- It suffices to compare neighbors.
theorem checkOverlaps_yields {fileSize : Nat} (regions : List Region)
    (h : ∀ region ∈ regions, region.Within fileSize) :
    Yields (checkOverlaps regions) fun _ => Ordered regions := by
  fun_induction checkOverlaps regions
  case case1 first second regions hi =>
    have ⟨hf, hs⟩ := List.forall_mem_cons.mp h
    refine (add_meets hf.right.right).bind fun stop he => Yields.check fun hl => ?_
    refine (hi hs).mono fun _ ho => ho.cons ?_
    rwa [he] at hl
  case case2 regions hn =>
    refine Meets.ok ?_
    match regions with
    | []      => exact List.Pairwise.nil
    | [_]     => exact List.pairwise_singleton ..
    | a :: b :: l => exact absurd rfl (hn a b l)

theorem readMetadata_yields (hl : candle.Lawful) (bytes : List UInt8) (fileSize : Nat) :
    Yields (readMetadata candle bytes fileSize) (·.2.Bounded) := by
  rw [readMetadata]
  split
  case h_1 => exact isMessage
  case h_2 => exact isMessage
  case h_3 alignment count h =>
    have hc := hl.read _ _ _ h
    have hw : (withoutTensors (bytes.take (min maxMetadataBytes fileSize))).length ≤
        min maxMetadataBytes fileSize := by
      simp only [withoutTensors, List.length_append, List.length_mapIdx, List.length_take,
        List.length_drop]
      omega
    refine Meets.ok (show count + (min maxMetadataBytes fileSize - count) ≤ _ from ?_)
    omega

theorem alignmentOf_yields (alignment : Option Alignment) :
    Yields (alignmentOf alignment) fun _ => True := by
  unfold alignmentOf
  split <;> first | exact trivial | exact isMessage

-- The tensors of a file are in order, lie in the file and are not empty.
structure Tensors (fileSize : Nat) (regions : List Region) : Prop where
  within  : ∀ region ∈ regions, region.Within fileSize
  ordered : Ordered regions

theorem Tensors.nil {fileSize : Nat} : Tensors fileSize [] where
  within  := nofun
  ordered := List.Pairwise.nil

theorem shardTensors_yields (hl : candle.Lawful) (bytes : List UInt8) (fileSize : Nat) :
    Yields (shardTensors candle bytes fileSize placement) (Tensors fileSize) := by
  refine Yields.check fun _ => Yields.check fun _ => Yields.check fun _ => Yields.check fun _ => ?_
  refine Yields.check fun _ => Yields.check fun _ => ?_
  refine (readMetadata_yields hl bytes fileSize).bind fun _ hb => ?_
  refine (alignmentOf_yields _).bind fun alignment _ => Yields.check fun ha => ?_
  split
  case isTrue  => exact Meets.ok .nil
  case isFalse =>
    have hp := Nat.pos_of_isPowerOfTwo ha
    refine (readDirectory_yields hl hp _ hb).bind fun _ ⟨hr, _⟩ => ?_
    refine (alignedDataOffset_yields ..).bind fun dataOffset _ => Yields.check fun _ => ?_
    refine (Meets.mapM fun region h => place_yields (hr region h)).bind fun placed hw => ?_
    have hs : ∀ region ∈ sortByOffset placed, region.Within fileSize := by
      intro region h
      exact hw region ((List.perm_insertionSort ..).mem_iff.mp h)
    exact (checkOverlaps_yields _ hs).bind fun _ ho => Meets.ok ⟨hs, ho⟩

instance : Membership Nat Range where
  mem range byte := range.offset ≤ byte ∧ byte < range.stop

def Range.Apart (a b : Range) : Prop :=
  ∀ byte ∈ a, byte ∉ b

theorem Range.apart_of_le {a b : Range} (h : a.stop ≤ b.offset ∨ b.stop ≤ a.offset) : a.Apart b := by
  rintro byte ⟨_, _⟩ ⟨_, _⟩
  omega

-- The ranges that are selected among the tensors of a file.
structure Selection (fileSize : Nat) (tensors : List Region) (ranges : List Range) : Prop where
  sorted     : ranges.Pairwise fun a b => a.stop ≤ b.offset
  nonempty   : ∀ range ∈ ranges, 0 < range.length
  disjoint   : ranges.Pairwise Range.Apart
  inside     : ∀ range ∈ ranges, range.stop ≤ fileSize
  unselected : ∀ range ∈ ranges, ∀ tensor, (tensor, false) ∈ tensors → range.Apart tensor

theorem mem_selected {regions : List Region} {range : Range} :
    range ∈ selected regions ↔ (range, true) ∈ regions := by
  simp only [selected, List.mem_filterMap]
  constructor
  case mp =>
    rintro ⟨⟨_, _ | _⟩, hr, he⟩
    case false => cases he
    case true =>
      cases he
      exact hr
  case mpr => exact fun h => ⟨_, h, rfl⟩

theorem Tensors.selection {fileSize : Nat} {regions : List Region} (h : Tensors fileSize regions) :
    Selection fileSize regions (selected regions) := by
  have hs : (selected regions).Pairwise fun a b => a.stop ≤ b.offset := by
    refine List.Pairwise.filterMap _ ?_ h.ordered
    rintro ⟨a, _ | _⟩ ⟨b, _ | _⟩ hl a' ha b' hb <;> cases ha <;> cases hb
    exact hl
  exact {
    sorted     := hs
    nonempty   := fun range hr => (h.within _ (mem_selected.mp hr)).left
    disjoint   := hs.imp fun hl => Range.apart_of_le (.inl hl)
    inside     := fun range hr => (h.within _ (mem_selected.mp hr)).right.left
    unselected := by
      intro range hr tensor ht
      have : Std.Symm fun a b : Region => a.1.Apart b.1 :=
        ⟨fun _ _ ha byte hb hb' => ha byte hb' hb⟩
      have ha : regions.Pairwise fun a b => a.1.Apart b.1 :=
        h.ordered.imp fun hl => Range.apart_of_le (.inl hl)
      exact ha.forall (mem_selected.mp hr) ht nofun
  }

def Shard.file (shard : Shard) (tensors : List Region) : ModelFileRegions where
  path     := shard.path
  fileSize := shard.size
  ranges   := selected tensors

def ModelFileRegions.length (file : ModelFileRegions) : Nat :=
  (file.ranges.map Range.length).sum

-- A plan has a file for every shard in which something is selected.
structure Plan.Inventories (candle : Candle) (placement : CpuMoePlacement) (shards : List Shard)
    (plan : Plan) : Prop where
  total    : plan.totalBytes = (plan.files.map ModelFileRegions.length).sum
  bounded  : plan.totalBytes ≤ u64Max
  sound    : ∀ file ∈ plan.files, ∃ shard ∈ shards, ∃ tensors,
    shardTensors candle shard.bytes shard.size placement = .ok tensors ∧ file = shard.file tensors
  complete : ∀ shard ∈ shards, ∃ tensors,
    shardTensors candle shard.bytes shard.size placement = .ok tensors ∧
      (selected tensors = [] ∨ shard.file tensors ∈ plan.files)

theorem inventoryShard_yields (hl : candle.Lawful) (bytes : List UInt8) (fileSize : Nat) :
    Yields (inventoryShard candle bytes fileSize placement) fun ranges => ∃ tensors,
      shardTensors candle bytes fileSize placement = .ok tensors ∧ ranges = selected tensors := by
  have ht : Yields (shardTensors candle bytes fileSize placement) _ :=
    shardTensors_yields hl bytes fileSize
  rw [inventoryShard]
  cases he : shardTensors candle bytes fileSize placement
  case error => exact ht.failure he
  case ok tensors => exact Meets.ok ⟨tensors, rfl, rfl⟩

theorem inventory_yields (hl : candle.Lawful) {plan : Plan} {passed : List Shard} (shard : Shard)
    (h : plan.Inventories candle placement passed) :
    Yields (plan.inventory candle placement shard)
      (Plan.Inventories candle placement (passed ++ [shard])) := by
  refine Yields.check fun _ => ?_
  refine (inventoryShard_yields hl ..).bind fun ranges ⟨tensors, ht, hr⟩ => Yields.check fun _ => ?_
  refine (Meets.checkedSum h.bounded fun _ _ _ _ => isMessage).bind fun total ⟨he, hb⟩ => ?_
  have hm : ∀ file ∈ plan.files, file ∈ if ranges = [] then plan.files else
      plan.files ++ [shard.file tensors] := by
    intro file hf
    split
    case isTrue  => exact hf
    case isFalse => exact List.mem_append_left _ hf
  subst hr
  refine Meets.ok ⟨?_, hb, ?_, ?_⟩
  · rw [he, h.total]
    split
    case isTrue hn  => simp [hn]
    case isFalse hn => simp [ModelFileRegions.length]
  · have hs : ∀ file ∈ plan.files, ∃ s ∈ passed ++ [shard], ∃ tensors,
        shardTensors candle s.bytes s.size placement = .ok tensors ∧ file = s.file tensors := by
      intro file hf
      obtain ⟨s, hs, ht⟩ := h.sound file hf
      exact ⟨s, List.mem_append_left _ hs, ht⟩
    split
    case isTrue  => exact hs
    case isFalse =>
      intro file hf
      rcases List.mem_append.mp hf with hf | hf
      · exact hs file hf
      · exact ⟨shard, by simp, tensors, ht, List.mem_singleton.mp hf⟩
  · intro s hs
    rcases List.mem_append.mp hs with hs | hs
    · obtain ⟨tensors, ht, hf⟩ := h.complete s hs
      exact ⟨tensors, ht, hf.imp_right (hm _)⟩
    · rw [List.mem_singleton.mp hs]
      refine ⟨tensors, ht, ?_⟩
      split
      case isTrue hn => exact .inl hn
      case isFalse   => exact .inr (by simp [Shard.file])

theorem inventoryCpuExperts_yields (hl : candle.Lawful) (shards : List Shard) :
    Yields (inventoryCpuExperts candle placement shards)
      (Plan.Inventories candle placement shards) := by
  refine Yields.check fun _ => Meets.foldlM ?_ fun passed shard plan _ h => ?_
  · exact ⟨rfl, Nat.zero_le _, nofun, nofun⟩
  · exact inventory_yields hl shard h

end Backend.ModelPrefetch
