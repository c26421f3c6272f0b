import WerkModel.Lib.Paging
import WerkModel.Backend.ModelPrefetchInventory

-- The pages of the expert weights, in chunks that are mapped one by one.
open Checks Paging

namespace Backend.ModelPrefetch

def chunkBytes : Nat := 32 * 1024 * 1024

-- The largest offset that a mapping can have.
def offMax : Nat := 2 ^ 63 - 1

structure Chunk where
  source : Nat
  offset : Nat
  length : Nat
  deriving DecidableEq

def Chunk.range (chunk : Chunk) : Range where
  offset := chunk.offset
  length := chunk.length

-- The size of a chunk is not zero, which is checked before.
def pageChunks (source chunkSize offset stop : Nat) : Fallible (List Chunk) :=
  if _ : offset < stop ∧ 0 < chunkSize then do
    let rest ← sub stop offset
    let length := min rest chunkSize
    check (offset ≤ offMax) "CPU prefetch offset is too large"
    let _ ← add offset length
    let chunks ← pageChunks source chunkSize (offset + min (stop - offset) chunkSize) stop
    return { source, offset, length } :: chunks
  else
    return []
termination_by stop - offset

def alignedDown (value page : Nat) : Fallible Nat := do
  let pages ← div value page
  mul pages page

-- Pages at the boundary may hold bytes of other tensors.
def completePages (range : Range) (stop page : Nat) : Fallible (Nat × Nat) := do
  let padding ← sub page 1
  let first ← checkedAdd u64Max (.message "CPU prefetch alignment overflow") range.offset padding
  let first ← alignedDown first page
  let last ← alignedDown stop page
  return (first, last)

section

variable (page chunkSize totalBytes : Nat)

def fileChunks (source fileSize : Nat) (previousEnd total : Nat) :
    List Range → Fallible (List Chunk × Nat)
  | []              => return ([], total)
  | range :: ranges => do
    let stop ← checkedAdd u64Max (.message "CPU prefetch range overflow") range.offset range.length
    check (previousEnd ≤ range.offset ∧ stop ≤ fileSize)
      "CPU prefetch ranges overlap or exceed the shard"
    let total ← checkedAdd u64Max (.message "CPU prefetch size overflow") total range.length
    check (total ≤ totalBytes) "CPU prefetch inventory size changed"
    let (first, last) ← completePages range stop page
    let chunks ← pageChunks source chunkSize first last
    let (rest, total) ← fileChunks source fileSize stop total ranges
    return (chunks ++ rest, total)

def planChunks (source total : Nat) : List ModelFileRegions → Fallible (List Chunk × Nat)
  | []            => return ([], total)
  | file :: files => do
    let (chunks, total) ← fileChunks page chunkSize totalBytes source file.fileSize 0 total
      file.ranges
    let (rest, total) ← planChunks (source + 1) total files
    return (chunks ++ rest, total)

end

def chunks (plan : Plan) (page : Nat) : Fallible (List Chunk) := do
  let chunkSize ← alignedDown chunkBytes page
  check (0 < chunkSize) "system page exceeds CPU prefetch chunk size"
  let (chunks, total) ← planChunks page chunkSize plan.totalBytes 0 0 plan.files
  check (total = plan.totalBytes) "CPU prefetch inventory size changed"
  return chunks

-- The page of a byte lies in a range as a whole.
def Range.HasPage (page : Nat) (range : Range) (byte : Nat) : Prop :=
  range.offset ≤ alignDown byte page ∧ alignDown byte page + page ≤ range.stop

-- Chunks that do not overlap, and that cover certain bytes of certain files.
structure Tiling (page chunkSize : Nat) (covered : Nat → Nat → Prop) (chunks : List Chunk) :
    Prop where
  aligned  : ∀ chunk ∈ chunks, page ∣ chunk.offset ∧ page ∣ chunk.length
  bounded  : ∀ chunk ∈ chunks, 0 < chunk.length ∧ chunk.length ≤ chunkSize
  disjoint : chunks.Pairwise fun a b => a.source = b.source → ∀ byte ∈ a.range, byte ∉ b.range
  union    : ∀ source byte,
    (∃ chunk ∈ chunks, chunk.source = source ∧ byte ∈ chunk.range) ↔ covered source byte

namespace Tiling

variable {page chunkSize : Nat} {covered covered' : Nat → Nat → Prop} {chunks chunks' : List Chunk}

theorem nil : Tiling page chunkSize (fun _ _ => False) [] where
  aligned  := nofun
  bounded  := nofun
  disjoint := List.Pairwise.nil
  union    := by simp

theorem singleton {chunk : Chunk} (hp : page ∣ chunk.offset ∧ page ∣ chunk.length)
    (hb : 0 < chunk.length ∧ chunk.length ≤ chunkSize) :
    Tiling page chunkSize (fun source byte => chunk.source = source ∧ byte ∈ chunk.range)
      [chunk] where
  aligned  := by simpa using hp
  bounded  := by simpa using hb
  disjoint := List.pairwise_singleton ..
  union    := by simp

theorem append (h : Tiling page chunkSize covered chunks)
    (h' : Tiling page chunkSize covered' chunks')
    (hd : ∀ source byte, covered source byte → ¬covered' source byte) :
    Tiling page chunkSize (fun source byte => covered source byte ∨ covered' source byte)
      (chunks ++ chunks') where
  aligned chunk hc := (List.mem_append.mp hc).elim (h.aligned chunk) (h'.aligned chunk)
  bounded chunk hc := (List.mem_append.mp hc).elim (h.bounded chunk) (h'.bounded chunk)
  disjoint := by
    refine List.pairwise_append.mpr ⟨h.disjoint, h'.disjoint, ?_⟩
    intro a ha b hb hs byte hm hm'
    refine hd b.source byte ?_ ?_
    · exact (h.union ..).mp ⟨a, ha, hs, hm⟩
    · exact (h'.union ..).mp ⟨b, hb, rfl, hm'⟩
  union source byte := by
    rw [←h.union, ←h'.union]
    simp only [List.mem_append, or_and_right, exists_or]

theorem congr (h : Tiling page chunkSize covered chunks)
    (hc : ∀ source byte, covered source byte ↔ covered' source byte) :
    Tiling page chunkSize covered' chunks where
  aligned  := h.aligned
  bounded  := h.bounded
  disjoint := h.disjoint
  union source byte := (h.union source byte).trans (hc source byte)

end Tiling

-- The checks on the ranges of a file succeed.
def Mappable (fileSize totalBytes : Nat) : Nat → Nat → List Range → Prop
  | _, _, []                             => True
  | previousEnd, total, range :: ranges =>
    previousEnd ≤ range.offset ∧ range.stop ≤ fileSize ∧ total + range.length ≤ totalBytes ∧
      Mappable fileSize totalBytes range.stop (total + range.length) ranges

section

variable {allowed : Failure → Prop} {page chunkSize totalBytes source fileSize : Nat}

theorem pageChunks_meets (hp : page ∣ chunkSize) (hc : 0 < chunkSize) {offset stop : Nat}
    (ho : page ∣ offset) (hs : page ∣ stop) (hm : stop ≤ u64Max)
    (ha : ¬stop ≤ offMax → ∀ text, allowed (.message text)) :
    Meets allowed (pageChunks source chunkSize offset stop)
      (Tiling page chunkSize fun s byte => source = s ∧ offset ≤ byte ∧ byte < stop) := by
  fun_induction pageChunks source chunkSize offset stop
  case case1 offset h hi =>
    have hl : page ∣ min (stop - offset) chunkSize := by
      rcases min_choice (stop - offset) chunkSize with he | he
      · rw [he]
        exact Nat.dvd_sub hs ho
      · rw [he]
        exact hp
    refine (sub_meets h.left.le).bind fun rest hr => ?_
    refine Meets.ensure_bind (fun hn => ha (by omega) _) fun _ => ?_
    rw [hr]
    refine (add_meets (by omega)).bind fun _ _ => ?_
    refine (hi (Nat.dvd_add ho hl)).bind fun chunks ht => Meets.ok ?_
    refine ((Tiling.singleton ⟨ho, hl⟩ ?_).append ht ?_).congr ?_
    · exact ⟨show 0 < min _ _ by omega, Nat.min_le_right ..⟩
    · rintro s byte ⟨_, _, hb⟩ ⟨_, hb', _⟩
      exact absurd hb (Nat.not_lt.mpr hb')
    · intro s byte
      rw [←and_or_left]
      refine and_congr_right fun _ => ?_
      change (offset ≤ byte ∧ byte < offset + min (stop - offset) chunkSize) ∨ _ ↔ _
      omega
  case case2 offset h =>
    exact Meets.ok (Tiling.nil.congr fun s byte => ⟨False.elim, fun ⟨_, _, _⟩ => by omega⟩)

theorem alignedDown_meets (hp : 0 < page) {value : Nat} (h : value ≤ u64Max) :
    Meets allowed (alignedDown value page) (· = alignDown value page) := by
  refine (div_meets hp).bind fun pages he => ?_
  rw [he]
  exact mul_meets ((Nat.div_mul_le_self ..).trans h)

theorem completePages_meets (hp : 0 < page) {range : Range} {stop : Nat} (h : stop ≤ u64Max)
    (ha : ¬range.offset + (page - 1) ≤ u64Max → ∀ text, allowed (.message text)) :
    Meets allowed (completePages range stop page)
      (· = (alignUp range.offset page, alignDown stop page)) := by
  refine (sub_meets hp).bind fun padding he => ?_
  refine (Meets.checkedAdd fun hn => ha (he ▸ hn) _).bind fun first ⟨hf, hm⟩ => ?_
  refine (alignedDown_meets hp (hf ▸ hm)).bind fun _ hu => ?_
  refine (alignedDown_meets hp h).bind fun _ hd => Meets.ok ?_
  rw [hu, hd, hf, he, alignUp]

-- The ranges of a file are passed in their order, so that what follows begins later.
theorem fileChunks_meets (hd : page ∣ chunkSize) (hp : 0 < page) (hl : page ≤ chunkBytes)
    (hc : 0 < chunkSize) (hm : totalBytes ≤ u64Max) (ranges : List Range)
    {previousEnd total : Nat}
    (ha : ¬(fileSize ≤ offMax ∧ Mappable fileSize totalBytes previousEnd total ranges) →
      ∀ text, allowed (.message text)) :
    Meets allowed (fileChunks page chunkSize totalBytes source fileSize previousEnd total ranges)
      fun result => (∀ range ∈ ranges, previousEnd ≤ range.offset) ∧
        result.2 = total + (ranges.map Range.length).sum ∧
        Tiling page chunkSize
          (fun s byte => source = s ∧ ∃ range ∈ ranges, range.HasPage page byte) result.1 := by
  induction ranges generalizing previousEnd total
  case nil                => exact Meets.ok ⟨nofun, rfl, Tiling.nil.congr (by simp)⟩
  case cons range ranges hi =>
    have hu : offMax + chunkBytes ≤ u64Max := by decide
    simp only [Mappable, Range.stop] at ha
    refine (Meets.checkedAdd fun hn => ha (by omega) _).bind fun _ ⟨hs, hm'⟩ => ?_
    subst hs
    refine Meets.ensure_bind (fun hn => ha (by omega) _) fun ⟨ho, hf⟩ => ?_
    refine (Meets.checkedAdd fun hn => ha (by omega) _).bind fun _ ⟨ht, _⟩ => ?_
    subst ht
    refine Meets.ensure_bind (fun hn => ha (by omega) _) fun _ => ?_
    refine (completePages_meets hp hm' fun hn => ha (by omega)).bind fun _ he => ?_
    rw [he]
    refine (pageChunks_meets hd hc dvd_alignUp dvd_alignDown (alignDown_le.trans hm') fun hn =>
      ha fun hw => hn (alignDown_le.trans (by omega))).bind fun chunks hk => ?_
    refine (hi fun hn => ha fun hw => hn ⟨hw.left, hw.right.right.right.right⟩).bind
      fun rest ⟨hr, ht', hk'⟩ => Meets.ok ⟨?_, ?_, (hk.append hk' ?_).congr ?_⟩
    · refine List.forall_mem_cons.mpr ⟨ho, fun r h => ?_⟩
      exact ho.trans ((Nat.le_add_right ..).trans (hr r h))
    · rw [ht', List.map_cons, List.sum_cons]
      omega
    · -- Complete pages of this range end before the other ranges begin.
      rintro s byte ⟨_, _, hb⟩ ⟨_, r, h, hb', _⟩
      have h₁ : alignDown (range.offset + range.length) page ≤ _ := alignDown_le
      have h₂ : alignDown byte page ≤ byte := alignDown_le
      have h₃ := hr r h
      omega
    · intro s byte
      rw [between_iff hp, ←and_or_left, List.exists_mem_cons_iff]
      exact Iff.rfl

-- The checks on the files of a plan succeed.
def MappableFiles (totalBytes : Nat) : Nat → List ModelFileRegions → Prop
  | _, []                => True
  | total, file :: files =>
    file.fileSize ≤ offMax ∧ Mappable file.fileSize totalBytes 0 total file.ranges ∧
      MappableFiles totalBytes (total + file.length) files

theorem planChunks_meets (hd : page ∣ chunkSize) (hp : 0 < page) (hl : page ≤ chunkBytes)
    (hc : 0 < chunkSize) (hm : totalBytes ≤ u64Max) (files : List ModelFileRegions) {total : Nat}
    (ha : ¬MappableFiles totalBytes total files → ∀ text, allowed (.message text)) :
    Meets allowed (planChunks page chunkSize totalBytes source total files) fun result =>
      result.2 = total + (files.map ModelFileRegions.length).sum ∧
      Tiling page chunkSize (fun s byte => ∃ index file, s = source + index ∧
        files[index]? = some file ∧ ∃ range ∈ file.ranges, range.HasPage page byte) result.1 := by
  induction files generalizing source total
  case nil              => exact Meets.ok ⟨rfl, Tiling.nil.congr (by simp)⟩
  case cons file files hi =>
    refine (fileChunks_meets hd hp hl hc hm file.ranges fun hn =>
      ha fun hf => hn ⟨hf.left, hf.right.left⟩).bind fun _ ⟨_, hs, ht⟩ => ?_
    refine (hi fun hn => ha fun hf => hn (hs ▸ hf.right.right)).bind fun _ ⟨hs', ht'⟩ =>
      Meets.ok ⟨?_, (ht.append ht' ?_).congr ?_⟩
    · rw [hs', hs, List.map_cons, List.sum_cons]
      exact Nat.add_assoc ..
    · rintro s byte ⟨rfl, _⟩ ⟨index, _, hs, _⟩
      omega
    · intro s byte
      constructor
      case mp =>
        rintro (⟨rfl, h⟩ | ⟨index, file', rfl, hf, h⟩)
        case inl => exact ⟨0, file, rfl, rfl, h⟩
        case inr => exact ⟨index + 1, file', by omega, hf, h⟩
      case mpr =>
        rintro ⟨index, file', rfl, hf, h⟩
        cases index
        case zero       => exact .inl ⟨rfl, (Option.some.inj hf) ▸ h⟩
        case succ index => exact .inr ⟨index, file', by omega, hf, h⟩

end

-- The chunks of a plan cover the complete pages of its ranges.
abbrev Plan.Covered (plan : Plan) (page : Nat) : List Chunk → Prop :=
  Tiling page (alignDown chunkBytes page) fun source byte =>
    ∃ file, plan.files[source]? = some file ∧ ∃ range ∈ file.ranges, range.HasPage page byte

def Plan.IsMappable (plan : Plan) : Prop :=
  plan.totalBytes = (plan.files.map ModelFileRegions.length).sum ∧
    MappableFiles plan.totalBytes 0 plan.files

theorem chunks_meets {allowed : Failure → Prop} {plan : Plan} {page : Nat} (hp : 0 < page)
    (hl : page ≤ chunkBytes) (hm : plan.totalBytes ≤ u64Max)
    (ha : ¬plan.IsMappable → ∀ text, allowed (.message text)) :
    Meets allowed (chunks plan page) (plan.Covered page) := by
  have hc : 0 < alignDown chunkBytes page := Nat.mul_pos (Nat.div_pos hl hp) hp
  refine (alignedDown_meets hp (by decide)).bind fun _ he => ?_
  subst he
  refine Meets.ensure_bind (absurd hc) fun _ => ?_
  refine (planChunks_meets dvd_alignDown hp hl hc hm plan.files fun hn =>
    ha fun h => hn h.right).bind fun _ ⟨hs, ht⟩ => ?_
  refine Meets.ensure_bind (fun hn => ha (fun h => hn ?_) _) fun _ => Meets.ok (ht.congr ?_)
  · rw [hs, Nat.zero_add, h.left]
  · intro source byte
    simp

section

variable {candle : Candle} {placement : CpuMoePlacement} {shards : List Shard} {plan : Plan}

theorem mappable_of_sorted {fileSize totalBytes : Nat} {ranges : List Range}
    (hs : ranges.Pairwise fun a b => a.stop ≤ b.offset) (hi : ∀ range ∈ ranges, range.stop ≤ fileSize)
    {previousEnd total : Nat} (hp : ∀ range ∈ ranges, previousEnd ≤ range.offset)
    (ht : total + (ranges.map Range.length).sum ≤ totalBytes) :
    Mappable fileSize totalBytes previousEnd total ranges := by
  induction ranges generalizing previousEnd total
  case nil                  => trivial
  case cons range ranges hr =>
    have ⟨hp, _⟩ := List.forall_mem_cons.mp hp
    have ⟨hi, hi'⟩ := List.forall_mem_cons.mp hi
    have ⟨hs, hs'⟩ := List.pairwise_cons.mp hs
    rw [List.map_cons, List.sum_cons] at ht
    exact ⟨hp, hi, by omega, hr hs' hi' hs (by omega)⟩

theorem mappableFiles_of_sorted {totalBytes : Nat} {files : List ModelFileRegions}
    (h : ∀ file ∈ files, file.fileSize ≤ offMax ∧
      (file.ranges.Pairwise fun a b => a.stop ≤ b.offset) ∧
      ∀ range ∈ file.ranges, range.stop ≤ file.fileSize)
    {total : Nat} (ht : total + (files.map ModelFileRegions.length).sum ≤ totalBytes) :
    MappableFiles totalBytes total files := by
  induction files generalizing total
  case nil                => trivial
  case cons file files hi =>
    have ⟨⟨hf, hs, hr⟩, h⟩ := List.forall_mem_cons.mp h
    rw [List.map_cons, List.sum_cons] at ht
    refine ⟨hf, mappable_of_sorted hs hr (fun _ _ => Nat.zero_le _) ?_, hi h (by omega)⟩
    change total + file.length ≤ totalBytes
    omega

theorem Plan.Inventories.isMappable (hl : candle.Lawful)
    (h : plan.Inventories candle placement shards) (hs : ∀ shard ∈ shards, shard.size ≤ offMax) :
    plan.IsMappable := by
  refine ⟨h.total, mappableFiles_of_sorted ?_ (by rw [Nat.zero_add, h.total])⟩
  intro file hf
  obtain ⟨shard, hm, tensors, ht, rfl⟩ := h.sound file hf
  have hw := ((shardTensors_yields hl ..).result ht).selection
  exact ⟨hs shard hm, hw.sorted, hw.inside⟩

-- A page that holds a byte of another tensor is not in a range that is selected.
theorem Selection.page_apart {fileSize page byte byte' : Nat} {tensors : List Region}
    {ranges : List Range} {range tensor : Range} (hs : Selection fileSize tensors ranges)
    (hp : 0 < page) (hr : range ∈ ranges) (ht : (tensor, false) ∈ tensors) (hb : byte ∈ tensor)
    (hc : range.HasPage page byte') : alignDown byte' page ≠ alignDown byte page := by
  intro he
  refine hs.unselected range hr tensor ht byte ?_ hb
  have h₁ : alignDown byte page ≤ byte := alignDown_le
  have h₂ := lt_alignDown_add (n := byte) hp
  rw [Range.HasPage, he] at hc
  exact ⟨by omega, by omega⟩

-- A mapped chunk does not touch a page of a tensor that is not selected.
def Untouched (page : Nat) (chunk : Chunk) (tensors : List Region) : Prop :=
  ∀ tensor, (tensor, false) ∈ tensors → ∀ byte ∈ tensor, ∀ byte' ∈ chunk.range,
    alignDown byte' page ≠ alignDown byte page

theorem Plan.Inventories.untouched (hl : candle.Lawful)
    (h : plan.Inventories candle placement shards) {page : Nat} (hp : 0 < page)
    {mapped : List Chunk} (hc : plan.Covered page mapped) :
    ∀ chunk ∈ mapped, ∃ shard ∈ shards, ∃ tensors,
      shardTensors candle shard.bytes shard.size placement = .ok tensors ∧
        plan.files[chunk.source]? = some (shard.file tensors) ∧ Untouched page chunk tensors := by
  intro chunk hm
  have hb : chunk.offset ∈ chunk.range :=
    ⟨Nat.le_refl _, Nat.lt_add_of_pos_right (hc.bounded chunk hm).left⟩
  obtain ⟨file, hf, -⟩ := (hc.union chunk.source chunk.offset).mp ⟨chunk, hm, rfl, hb⟩
  obtain ⟨shard, hs, tensors, ht, rfl⟩ := h.sound file (List.mem_of_getElem? hf)
  refine ⟨shard, hs, tensors, ht, hf, fun tensor hu byte hb byte' hb' => ?_⟩
  obtain ⟨file, hf', range, hr, hp'⟩ := (hc.union chunk.source byte').mp ⟨chunk, hm, rfl, hb'⟩
  cases hf.symm.trans hf'
  exact ((shardTensors_yields hl ..).result ht).selection.page_apart hp hr hu hb hp'

end

-- The blocks of the quantized formats. The parser reads a header without metadata.
def ggml : Candle where
  read bytes := if 24 ≤ bytes.length then .ok (none, 24) else .error .invalid
  blockSize
    | .f32 | .f16 | .bf16                                             => 1
    | .q4_0 | .q4_1 | .q5_0 | .q5_1 | .q8_0 | .q8_1                   => 32
    | .q2K | .q3K | .q4K | .q5K | .q6K | .q8K                         => 256
  typeSize
    | .f32  => 4
    | .f16  => 2
    | .bf16 => 2
    | .q4_0 => 18
    | .q4_1 => 20
    | .q5_0 => 22
    | .q5_1 => 24
    | .q8_0 => 34
    | .q8_1 => 36
    | .q2K  => 84
    | .q3K  => 110
    | .q4K  => 144
    | .q5K  => 176
    | .q6K  => 210
    | .q8K  => 292

theorem ggml_lawful : ggml.Lawful where
  read bytes alignment count h := by
    simp only [ggml] at h
    split at h
    case isTrue hl =>
      cases h
      exact hl
    case isFalse => cases h
  blockSize dtype := by cases dtype <;> decide
  typeSize dtype := by cases dtype <;> decide

-- The experts take up 200 bytes from 128 on, and another tensor follows at 352.
def smallShard : Shard where
  path      := "model.gguf"
  bytes     := "GGUF".toUTF8.toList ++ [3, 0, 0, 0] ++ [2, 0, 0, 0, 0, 0, 0, 0] ++
    List.replicate 8 0 ++
    [12, 0, 0, 0, 0, 0, 0, 0] ++ ".ffn_up_exps".toUTF8.toList ++ [1, 0, 0, 0] ++
    [50, 0, 0, 0, 0, 0, 0, 0] ++ [0, 0, 0, 0] ++ List.replicate 8 0 ++
    [1, 0, 0, 0, 0, 0, 0, 0] ++ "x".toUTF8.toList ++ [1, 0, 0, 0] ++
    [8, 0, 0, 0, 0, 0, 0, 0] ++ [0, 0, 0, 0] ++ [224, 0, 0, 0, 0, 0, 0, 0] ++
    List.replicate 283 0
  size      := 384
  isFile    := true
  unchanged := true

def smallPlan : Plan where
  files      := [smallShard.file [({ offset := 128, length := 200 }, true)]]
  totalBytes := 200

theorem smallPlan_eq : inventoryCpuExperts ggml .all [smallShard] = .ok smallPlan := by
  decide +kernel

theorem smallPlan_chunks :
    chunks smallPlan 64 = .ok [{ source := 0, offset := 128, length := 192 }] := by
  decide +kernel

end Backend.ModelPrefetch
