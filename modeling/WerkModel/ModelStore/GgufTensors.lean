import WerkModel.ModelStore.GgufHeader

-- The descriptions of tensors in the headers of GGUF files.
open Formats

namespace ModelStore.Gguf

open GgufReader

section Shapes

variable {shape shape' : Shape} {dimensions : List Nat}

def Shape.next (shape : Shape) (dimension : Nat) : Shape where
  index    := shape.index + 1
  row      := if shape.index = 0 then dimension else shape.row
  elements := shape.elements * dimension

def Shape.Allows (shape : Shape) (dimension : Nat) : Prop :=
  (0 < dimension ∧ dimension < 2 ^ 64) ∧ shape.elements * dimension < 2 ^ 64

theorem reads_readDimension : Reads (readDimension shape) fun bytes shape' =>
    ∃ dimension, shape.Allows dimension ∧ bytes = toLe 8 dimension ∧
      shape' = shape.next dimension := by
  refine (reads_u64.bind fun dimension _ _ => reads_bail fun _ => reads_context.bind_silent
    fun elements _ => reads_pure).congr fun bytes shape' => ?_
  simp only [checked_eq_some]
  constructor
  case mp =>
    rintro ⟨_, _, dimension, rfl, ⟨rfl, hd⟩, hz, elements, ⟨rfl, he⟩, rfl, rfl⟩
    exact ⟨dimension, ⟨⟨Nat.pos_of_ne_zero hz, hd⟩, he⟩, List.append_nil _, rfl⟩
  case mpr =>
    rintro ⟨dimension, ⟨⟨hz, hd⟩, he⟩, rfl, rfl⟩
    exact ⟨_, [], dimension, (List.append_nil _).symm, ⟨rfl, hd⟩, Nat.ne_of_gt hz, _, ⟨rfl, he⟩,
      rfl, rfl⟩

-- No product on the way is greater than the last one.
theorem listed_dimensions (hz : 0 < shape.elements) (hs : shape.elements < 2 ^ 64) :
    Format.Listed Shape.Allows Shape.next shape dimensions shape' ↔
      (∀ dimension ∈ dimensions, 0 < dimension) ∧ shape.elements * dimensions.prod < 2 ^ 64 ∧
        shape' = dimensions.foldl Shape.next shape := by
  induction dimensions generalizing shape
  case nil =>
    constructor
    case mp =>
      intro h
      cases h
      exact ⟨by simp, by rwa [List.prod_nil, mul_one], rfl⟩
    case mpr =>
      rintro ⟨-, -, rfl⟩
      exact .nil
  case cons dimension dimensions hi =>
    rw [List.forall_mem_cons, List.prod_cons, List.foldl_cons, ← mul_assoc]
    constructor
    case mp =>
      intro h
      cases h
      case cons ha h =>
        obtain ⟨hall, hp, rfl⟩ :=
          (hi (by exact Nat.mul_pos hz ha.left.left) (by exact ha.right)).mp h
        exact ⟨⟨ha.left.left, hall⟩, hp, rfl⟩
    case mpr =>
      rintro ⟨⟨hd, hall⟩, hp, rfl⟩
      have hprod : 0 < dimensions.prod := List.prod_pos hall
      have hle : shape.elements * dimension ≤ shape.elements * dimension * dimensions.prod :=
        Nat.le_mul_of_pos_right _ hprod
      have hdim : dimension ≤ shape.elements * dimension := Nat.le_mul_of_pos_left _ hz
      have ha : shape.Allows dimension := ⟨⟨hd, by omega⟩, by omega⟩
      exact .cons ha ((hi (by exact Nat.mul_pos hz hd) (by exact ha.right)).mpr ⟨hall, hp, rfl⟩)

theorem foldl_next_elements :
    (dimensions.foldl Shape.next shape).elements = shape.elements * dimensions.prod := by
  induction dimensions generalizing shape
  case nil => simp
  case cons dimension dimensions hi =>
    rw [List.foldl_cons, hi, List.prod_cons, ← mul_assoc]
    rfl

theorem foldl_next_row (h : shape.index ≠ 0) :
    (dimensions.foldl Shape.next shape).row = shape.row := by
  induction dimensions generalizing shape
  case nil => rfl
  case cons dimension dimensions hi =>
    rw [List.foldl_cons, hi (Nat.succ_ne_zero _)]
    exact if_neg h

theorem foldl_next_start_row : (dimensions.foldl Shape.next {}).row = dimensions.headD 0 := by
  cases dimensions
  case nil => rfl
  case cons dimension dimensions =>
    rw [List.foldl_cons, foldl_next_row (by exact Nat.one_ne_zero)]
    rfl

theorem reads_dimensions {count : Nat} : Reads (iterate readDimension count {}) fun bytes shape =>
    ∃ dimensions : List Nat, dimensions.length = count ∧
      (∀ dimension ∈ dimensions, 0 < dimension) ∧ dimensions.prod < 2 ^ 64 ∧
      bytes = dimensions.flatMap (toLe 8) ∧ shape = dimensions.foldl Shape.next {} := by
  refine (Reads.listed (I := fun _ => True) (fun _ _ => reads_readDimension)
    (fun _ _ _ _ => trivial) trivial).congr fun bytes shape => ?_
  have hl {dimensions : List Nat} : Format.Listed Shape.Allows Shape.next {} dimensions shape ↔
      (∀ dimension ∈ dimensions, 0 < dimension) ∧ 1 * dimensions.prod < 2 ^ 64 ∧
        shape = dimensions.foldl Shape.next {} := listed_dimensions Nat.one_pos (by decide)
  simp only [hl, one_mul]
  grind

end Shapes

section Tensors

structure Tensor where
  name       : String
  dimensions : List Nat
  kind       : Nat
  offset     : Nat

namespace Tensor

def encode (tensor : Tensor) : List UInt8 :=
  encodeString tensor.name ++ toLe 4 tensor.dimensions.length ++
    tensor.dimensions.flatMap (toLe 8) ++ toLe 4 tensor.kind ++ toLe 8 tensor.offset

def elements (tensor : Tensor) : Nat :=
  tensor.dimensions.prod

-- The number of bytes of the payload.
def length (tensor : Tensor) : Nat :=
  (tensorBlockSize tensor.kind).elim 0 fun size => tensor.elements / size.1 * size.2

def next (tensor : Tensor) : Nat :=
  tensor.offset + tensor.length

structure Valid (alignment : Nat) (tensor : Tensor) : Prop where
  named    : tensor.name ≠ ""
  short    : (utf8 tensor.name).length ≤ stringLimit
  ranked   : tensor.dimensions ≠ []
  few      : tensor.dimensions.length ≤ 4
  positive : ∀ dimension ∈ tensor.dimensions, 0 < dimension
  elements : tensor.elements < 2 ^ 64
  blocks   : ∃ size, tensorBlockSize tensor.kind = some size ∧ size.1 ∣ tensor.dimensions.headD 0
  aligned  : alignment ∣ tensor.offset
  next     : tensor.next < 2 ^ 64

end Tensor

namespace Descriptors

def next (descriptors : Descriptors) (tensor : Tensor) : Descriptors where
  types     := insertType tensor.kind descriptors.types
  names     := tensor.name :: descriptors.names
  intervals := descriptors.intervals ++ [(tensor.offset, tensor.next)]

def Allows (alignment : Nat) (descriptors : Descriptors) (tensor : Tensor) : Prop :=
  tensor.Valid alignment ∧ tensor.name ∉ descriptors.names

end Descriptors

variable {descriptors descriptors' : Descriptors} {tensor : Tensor} {tensors : List Tensor}
variable {alignment a b : Nat}

theorem tensorBlockSize_pos {kind : Nat} {size : Nat × Nat} (h : tensorBlockSize kind = some size) :
    0 < size.1 ∧ 0 < size.2 ∧ kind < 2 ^ 32 := by
  rw [tensorBlockSize.eq_def] at h
  split at h <;> first | cases h; decide | cases h

theorem reads_rem (h : b ≠ 0) : Reads (rem a b) fun bytes c => bytes = [] ∧ c = a % b := by
  rw [rem, if_neg h]
  exact reads_pure

theorem reads_div (h : b ≠ 0) : Reads (div a b) fun bytes c => bytes = [] ∧ c = a / b := by
  rw [div, if_neg h]
  exact reads_pure

theorem reads_readTensor (ha : alignment ≠ 0) : Reads (readTensor alignment descriptors)
    fun bytes descriptors' => ∃ tensor, descriptors.Allows alignment tensor ∧
      bytes = tensor.encode ∧ descriptors' = descriptors.next tensor := by
  have hsize (kind : Nat) (size : Nat × Nat) (h : tensorBlockSize kind = some size) :
      size.1 ≠ 0 := Nat.ne_of_gt (tensorBlockSize_pos h).left
  refine (reads_string.bind fun name _ _ => reads_bail fun _ => reads_u32.bind fun count _ _ =>
    reads_bail fun _ => reads_dimensions.bind fun shape _ _ => reads_u32.bind fun kind _ _ =>
    reads_u64.bind fun offset _ _ => reads_context.bind_silent fun size hs =>
    (reads_rem (hsize kind size hs)).bind_silent fun partialRow _ => reads_bail fun _ =>
    (reads_rem ha).bind_silent fun shift _ => reads_bail fun _ =>
    (reads_div (hsize kind size hs)).bind_silent fun blocks _ =>
    reads_context.bind_silent fun length _ => reads_context.bind_silent fun next _ =>
    reads_pure).congr fun bytes descriptors' => ?_
  simp only [checked_eq_some]
  constructor
  case mp =>
    rintro ⟨_, _, name, rfl, ⟨rfl, hshort⟩, hname, _, _, count, rfl, ⟨rfl, hcount⟩, hfew, _, _,
      shape, rfl, ⟨dimensions, rfl, hpos, hprod, rfl, rfl⟩, _, _, kind, rfl, ⟨rfl, hkind⟩, _, _,
      offset, rfl, ⟨rfl, hoffset⟩, size, hs, _, rfl, hrow, _, rfl, hshift, _, rfl, length,
      ⟨rfl, hlength⟩, next, ⟨rfl, hnext⟩, rfl, rfl⟩
    rw [foldl_next_start_row, not_not] at hrow
    rw [not_not] at hshift
    rw [not_or] at hname hfew
    rw [foldl_next_elements, one_mul] at hnext ⊢
    let tensor : Tensor := ⟨name, dimensions, kind, offset⟩
    have hlen : tensor.length = dimensions.prod / size.1 * size.2 := by
      rw [Tensor.length, hs, Option.elim_some]
      rfl
    refine ⟨tensor, ⟨⟨hname.left, hshort, ?_, Nat.not_lt.mp hfew.right, hpos, hprod,
      ⟨size, hs, Nat.dvd_of_mod_eq_zero hrow⟩, Nat.dvd_of_mod_eq_zero hshift, ?_⟩, hname.right⟩,
      ?_, ?_⟩
    · rintro rfl
      exact hfew.left rfl
    · rwa [Tensor.next, hlen]
    · simp [Tensor.encode, tensor]
    · rw [Descriptors.next, Tensor.next, hlen]
  case mpr =>
    rintro ⟨tensor, ⟨hv, hfresh⟩, rfl, rfl⟩
    obtain ⟨size, hs, hrow⟩ := hv.blocks
    obtain ⟨-, hsize, hkind⟩ := tensorBlockSize_pos hs
    have hlen : tensor.length = tensor.elements / size.1 * size.2 := by
      rw [Tensor.length, hs, Option.elim_some]
    have hnext := hv.next
    rw [Tensor.next, hlen] at hnext
    have hcount : tensor.dimensions.length ≠ 0 := by
      rw [Ne, List.length_eq_zero_iff]
      exact hv.ranked
    have hfew := hv.few
    refine ⟨_, _, tensor.name, by rw [Tensor.encode, List.append_assoc, List.append_assoc,
      List.append_assoc], ⟨rfl, hv.short⟩, by simp [hv.named, hfresh], _, _,
      tensor.dimensions.length, rfl, ⟨rfl, by omega⟩, by omega, _, _, _, rfl, ⟨tensor.dimensions,
      rfl, hv.positive, hv.elements, rfl, rfl⟩, _, _, tensor.kind, rfl, ⟨rfl, hkind⟩, _, [],
      tensor.offset, (List.append_nil _).symm, ⟨rfl, by omega⟩, size, hs, _, rfl, ?_, _, rfl,
      ?_, _, rfl, _, ⟨rfl, ?_⟩, _, ⟨rfl, ?_⟩, rfl, ?_⟩
    · rw [foldl_next_start_row, not_not]
      exact Nat.mod_eq_zero_of_dvd hrow
    · rw [not_not]
      exact Nat.mod_eq_zero_of_dvd hv.aligned
    · rw [foldl_next_elements, one_mul]
      exact Nat.lt_of_le_of_lt (Nat.le_add_left ..) hnext
    · rw [foldl_next_elements, one_mul]
      exact hnext
    · rw [foldl_next_elements, one_mul, Descriptors.next, Tensor.next, hlen]
      rfl

end Tensors

section Headers

structure Header where
  version  : Nat
  metadata : List Entry
  tensors  : List Tensor

def magic : List UInt8 :=
  "GGUF".toList.map Char.toUInt8

namespace Header

def encode (header : Header) : List UInt8 :=
  magic ++ toLe 4 header.version ++ toLe 8 header.tensors.length ++
    toLe 8 header.metadata.length ++ header.metadata.flatMap Entry.encode ++
    header.tensors.flatMap Tensor.encode

-- Of several entries the last one counts.
def architecture (header : Header) : Option String :=
  (header.metadata.filterMap Entry.architecture?).getLast?

def alignment (header : Header) : Nat :=
  (header.metadata.filterMap Entry.alignment?).getLast?.getD 32

def descriptions (header : Header) : Descriptions where
  count       := header.tensors.length
  metadata    := { architecture := header.architecture, alignment := header.alignment }
  descriptors := header.tensors.foldl Descriptors.next {}

structure Described (header : Header) : Prop where
  version  : header.version = 2 ∨ header.version = 3
  nonempty : header.tensors ≠ []
  count    : header.tensors.length ≤ 1000000
  entries  : header.metadata.length ≤ 1000000
  keys     : ∀ entry ∈ header.metadata, entry.Valid
  tensors  : ∀ tensor ∈ header.tensors, tensor.Valid header.alignment
  names    : (header.tensors.map Tensor.name).Nodup

end Header

variable {metadata : Metadata} {entries : List Entry} {descriptors descriptors' : Descriptors}
variable {tensors : List Tensor} {alignment : Nat}

def Metadata.Sound (metadata : Metadata) : Prop :=
  0 < metadata.alignment ∧ metadata.alignment ≤ 1048576

theorem foldl_apply : entries.foldl Entry.apply metadata = {
      architecture := (entries.filterMap Entry.architecture?).getLast?.or metadata.architecture
      alignment    := (entries.filterMap Entry.alignment?).getLast?.getD metadata.alignment
    } := by
  induction entries generalizing metadata
  case nil => rfl
  case cons entry entries hi =>
    rw [List.foldl_cons, hi]
    cases entry
    case other key value => rfl
    case architecture name =>
      simp only [List.filterMap_cons, Entry.architecture?, Entry.alignment?, Entry.apply,
        List.getLast?_cons, Metadata.mk.injEq, and_true]
      cases (entries.filterMap Entry.architecture?).getLast? <;> rfl
    case alignment bytes =>
      simp only [List.filterMap_cons, Entry.architecture?, Entry.alignment?, Entry.apply,
        List.getLast?_cons, Metadata.mk.injEq, true_and]
      cases (entries.filterMap Entry.alignment?).getLast? <;> rfl

theorem Header.metadata_eq {header : Header} :
    header.metadata.foldl Entry.apply {} = header.descriptions.metadata := by
  rw [foldl_apply, Option.or_none]
  rfl

theorem sound_start : Metadata.Sound {} := by
  simp [Metadata.Sound]

theorem sound_apply {entry : Entry} (hm : metadata.Sound) (he : entry.Valid) :
    (entry.apply metadata).Sound := by
  cases entry
  case architecture name => exact hm
  case other key value   => exact hm
  case alignment bytes   =>
    refine ⟨?_, he.right⟩
    rw [Entry.apply, he.left]
    exact Nat.two_pow_pos _

theorem sound_foldl (hm : metadata.Sound) (he : ∀ entry ∈ entries, entry.Valid) :
    (entries.foldl Entry.apply metadata).Sound := by
  induction entries generalizing metadata
  case nil => exact hm
  case cons entry entries hi =>
    obtain ⟨hv, he⟩ := List.forall_mem_cons.mp he
    exact hi (sound_apply hm hv) he

theorem listed_tensors : Format.Listed (Descriptors.Allows alignment) Descriptors.next descriptors
    tensors descriptors' ↔ (∀ tensor ∈ tensors, tensor.Valid alignment) ∧
      ((tensors.map Tensor.name).Nodup ∧ ∀ tensor ∈ tensors, tensor.name ∉ descriptors.names) ∧
      descriptors' = tensors.foldl Descriptors.next descriptors := by
  induction tensors generalizing descriptors
  case nil =>
    constructor
    case mp =>
      intro h
      cases h
      exact ⟨by simp, ⟨.nil, by simp⟩, rfl⟩
    case mpr =>
      rintro ⟨-, -, rfl⟩
      exact .nil
  case cons tensor tensors hi =>
    rw [List.forall_mem_cons, List.forall_mem_cons, List.map_cons, List.nodup_cons, List.foldl_cons]
    have hnames : (∀ other ∈ tensors, other.name ∉ (descriptors.next tensor).names) ↔
        tensor.name ∉ tensors.map Tensor.name ∧
          ∀ other ∈ tensors, other.name ∉ descriptors.names := by
      simp only [Descriptors.next, List.mem_cons, not_or, List.mem_map, not_exists, not_and]
      grind
    constructor
    case mp =>
      intro h
      cases h
      case cons ha h =>
        obtain ⟨hv, ⟨hn, hd⟩, rfl⟩ := hi.mp h
        obtain ⟨ht, hd⟩ := hnames.mp hd
        exact ⟨⟨ha.left, hv⟩, ⟨⟨ht, hn⟩, ha.right, hd⟩, rfl⟩
    case mpr =>
      rintro ⟨⟨hv, hvs⟩, ⟨⟨ht, hn⟩, hf, hd⟩, rfl⟩
      exact .cons ⟨hv, hf⟩ (hi.mpr ⟨hvs, ⟨hn, hnames.mpr ⟨ht, hd⟩⟩, rfl⟩)

theorem reads_entries {count : Nat} : Reads (iterate readEntry count {}) fun bytes metadata =>
    ∃ entries : List Entry, entries.length = count ∧ (∀ entry ∈ entries, entry.Valid) ∧
      bytes = entries.flatMap Entry.encode ∧ metadata = entries.foldl Entry.apply {} := by
  refine (Reads.listed (I := fun _ => True) (fun _ _ => reads_readEntry) (fun _ _ _ _ => trivial)
    trivial).congr fun bytes metadata => ?_
  simp only [Format.mem_listed_iff]
  grind

theorem reads_tensors {count : Nat} (ha : alignment ≠ 0) :
    Reads (iterate (readTensor alignment) count {}) fun bytes descriptors =>
      ∃ tensors : List Tensor, tensors.length = count ∧
        (∀ tensor ∈ tensors, tensor.Valid alignment) ∧ (tensors.map Tensor.name).Nodup ∧
        bytes = tensors.flatMap Tensor.encode ∧
        descriptors = tensors.foldl Descriptors.next {} := by
  refine (Reads.listed (I := fun _ => True) (fun _ _ => reads_readTensor ha)
    (fun _ _ _ _ => trivial) trivial).congr fun bytes descriptors => ?_
  have hl {tensors : List Tensor} : Format.Listed (Descriptors.Allows alignment) Descriptors.next {}
      tensors descriptors ↔ (∀ tensor ∈ tensors, tensor.Valid alignment) ∧
        ((tensors.map Tensor.name).Nodup ∧ ∀ tensor ∈ tensors, tensor.name ∉ []) ∧
        descriptors = tensors.foldl Descriptors.next {} := listed_tensors
  simp only [hl]
  grind

theorem alignment_ne_zero {count : Nat} {bytes : List UInt8}
    (h : ∃ entries : List Entry, entries.length = count ∧ (∀ entry ∈ entries, entry.Valid) ∧
      bytes = entries.flatMap Entry.encode ∧ metadata = entries.foldl Entry.apply {}) :
    metadata.alignment ≠ 0 := by
  obtain ⟨entries, -, he, -, rfl⟩ := h
  exact Nat.ne_of_gt (sound_foldl sound_start he).left

theorem reads_readDescriptions : Reads readDescriptions fun bytes descriptions =>
    ∃ header : Header, header.Described ∧ bytes = header.encode ∧
      descriptions = header.descriptions := by
  refine (reads_bytes.bind fun start _ _ => reads_bail fun _ => reads_u32.bind fun version _ _ =>
    reads_bail fun _ => reads_u64.bind fun count _ _ => reads_u64.bind fun metadataCount _ _ =>
    reads_bail fun _ => reads_entries.bind fun metadata _ hm =>
    (reads_tensors (alignment_ne_zero hm)).bind fun descriptors _ _ =>
    reads_pure).congr fun bytes descriptions => ?_
  constructor
  case mp =>
    rintro ⟨_, _, start, rfl, ⟨-, rfl⟩, hmagic, _, _, version, rfl, ⟨rfl, -⟩, hversion, _, _, count,
      rfl, ⟨rfl, -⟩, _, _, metadataCount, rfl, ⟨rfl, -⟩, hcounts, _, _, metadata, rfl,
      ⟨entries, rfl, hentries, rfl, rfl⟩, _, _, descriptors, rfl, ⟨tensors, rfl, hv, hn, rfl, rfl⟩,
      rfl, rfl⟩
    obtain rfl := not_not.mp hmagic
    rw [not_or, not_or, Nat.not_lt, Nat.not_lt, List.length_eq_zero_iff] at hcounts
    have hversion : version = 2 ∨ version = 3 := by omega
    let header : Header := ⟨version, entries, tensors⟩
    have hm : entries.foldl Entry.apply {} = header.descriptions.metadata := header.metadata_eq
    rw [hm] at hv ⊢
    exact ⟨header,
      ⟨hversion, hcounts.left, hcounts.right.left, hcounts.right.right, hentries, hv, hn⟩,
      by simp [Header.encode, magic, header], rfl⟩
  case mpr =>
    rintro ⟨header, hd, rfl, rfl⟩
    have hversion := hd.version
    have hcount := hd.count
    have hentries := hd.entries
    refine ⟨magic, _, magic, by simp only [Header.encode, List.append_assoc], ⟨rfl, rfl⟩,
      not_not.mpr rfl, _, _, header.version, rfl, ⟨rfl, by omega⟩, by omega, _, _,
      header.tensors.length, rfl, ⟨rfl, by omega⟩, _, _, header.metadata.length, rfl,
      ⟨rfl, by omega⟩, ?_, _, _, header.descriptions.metadata, rfl,
      ⟨header.metadata, rfl, hd.keys, rfl, header.metadata_eq.symm⟩, _, [], _,
      (List.append_nil _).symm, ⟨header.tensors, rfl, hd.tensors, hd.names, rfl, rfl⟩, rfl, rfl⟩
    rw [not_or, not_or, Nat.not_lt, Nat.not_lt, List.length_eq_zero_iff]
    exact ⟨hd.nonempty, hcount, hentries⟩

end Headers

end ModelStore.Gguf
