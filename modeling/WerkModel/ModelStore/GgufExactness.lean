import WerkModel.ModelStore.GgufTensors

-- What is accepted is a header with its payloads apart and inside of the file.
open Formats

namespace ModelStore.Gguf

open GgufReader

variable {reader : GgufReader}

section Payloads

variable {start size last : Nat} {intervals : List (Nat × Nat)} {interval other : Nat × Nat}

-- The intervals follow each other, and end before the end of the file.
def Placed (start size : Nat) : List (Nat × Nat) → Nat → Prop
  | [], _                  => True
  | interval :: rest, last =>
    (last ≤ interval.1 ∧ start + interval.2 ≤ size) ∧ Placed start size rest interval.2

theorem bail_of_not {α : Type} {c : Prop} [Decidable c] {message : String} {q : Reader α}
    (h : ¬c) : (bail c message >>= fun _ => q) reader = q reader := by
  simp only [bail, check, if_pos h, bind, EStateM.bind, pure, EStateM.pure]

theorem bail_of {α : Type} {c : Prop} [Decidable c] {message : String} {q : Reader α} (h : c) :
    (bail c message >>= fun _ => q) reader = .error (.rejected message) reader := by
  simp only [bail, check, if_neg (not_not.mpr h), bind, EStateM.bind, throw, throwThe,
    MonadExceptOf.throw, EStateM.throw]

theorem checkPayloads_eq (reader : GgufReader) (hs : size < 2 ^ 64) :
    checkPayloads start size intervals last reader = .ok () reader ∧
      Placed start size intervals last ∨
    checkPayloads start size intervals last reader =
      .error (.rejected "overlapping or truncated GGUF tensor payload") reader ∧
      ¬Placed start size intervals last := by
  induction intervals generalizing last
  case nil => exact .inl ⟨rfl, trivial⟩
  case cons interval rest hi =>
    have hc : (interval.1 < last ∨ (checked (start + interval.2)).all (size < ·)) ↔
        ¬(last ≤ interval.1 ∧ start + interval.2 ≤ size) := by
      rw [checked]
      split
      case isTrue =>
        simp only [Option.all_some, decide_eq_true_eq]
        omega
      case isFalse =>
        simp only [Option.all_none, or_true, true_iff]
        omega
    rw [checkPayloads, Placed]
    by_cases hp : last ≤ interval.1 ∧ start + interval.2 ≤ size
    case pos =>
      rw [bail_of_not (fun h => hc.mp h hp), and_iff_right hp]
      exact hi
    case neg => exact .inr ⟨bail_of (hc.mpr hp), fun h => hp h.left⟩

def Apart (interval other : Nat × Nat) : Prop :=
  interval.2 ≤ other.1 ∨ other.2 ≤ interval.1

theorem placed_iff : Placed start size intervals last ↔
    (intervals.head?.all (last ≤ ·.1)) ∧
    intervals.IsChain (fun interval other => interval.2 ≤ other.1) ∧
    ∀ interval ∈ intervals, start + interval.2 ≤ size := by
  induction intervals generalizing last
  case nil => simp [Placed]
  case cons interval rest hi =>
    rw [Placed, hi, List.isChain_cons, List.forall_mem_cons]
    cases rest
    case nil  => simp
    case cons next rest =>
      simp only [List.head?_cons, Option.all_some, decide_eq_true_eq, Option.mem_def,
        Option.some.injEq, forall_eq']
      tauto

instance totalIsBefore : Std.Total isBefore where
  total interval other := by
    rw [isBefore, isBefore]
    omega

instance transIsBefore : IsTrans (Nat × Nat) isBefore where
  trans a b c h h' := by
    rw [isBefore] at *
    omega

-- In order, what lies before its neighbour lies before all that follow.
theorem isChain_iff_of_sorted (h : intervals.Pairwise isBefore) :
    intervals.IsChain (fun interval other => interval.2 ≤ other.1) ↔
      intervals.Pairwise fun interval other => interval.2 ≤ other.1 := by
  induction h
  case nil => simp
  case cons interval rest hb hs hi =>
    rw [List.isChain_cons, List.pairwise_cons, hi]
    refine and_congr_left fun _ => ?_
    constructor
    case mpr => exact fun h other hm => h other (List.mem_of_mem_head? hm)
    case mp =>
      intro h other hm
      obtain _ | ⟨next, rest⟩ := rest
      · cases hm
      · have hn := h next rfl
        obtain rfl | hm := List.mem_cons.mp hm
        · exact hn
        · have ho := (List.pairwise_cons.mp hs).left other hm
          rw [isBefore] at ho
          omega

theorem apart_iff_of_isBefore (hb : isBefore interval other) (ho : other.1 < other.2) :
    Apart interval other ↔ interval.2 ≤ other.1 := by
  rw [isBefore] at hb
  rw [Apart]
  omega

theorem placed_insertionSort_iff (hn : ∀ interval ∈ intervals, interval.1 < interval.2) :
    Placed start size (intervals.insertionSort isBefore) 0 ↔ intervals.Pairwise Apart ∧
      ∀ interval ∈ intervals, start + interval.2 ≤ size := by
  have hperm := List.perm_insertionSort isBefore intervals
  have hsorted := List.pairwise_insertionSort isBefore intervals
  have hhead : (intervals.insertionSort isBefore).head?.all (0 ≤ ·.1) := by
    cases (intervals.insertionSort isBefore).head? <;> simp
  have happart : (intervals.insertionSort isBefore).Pairwise
      (fun interval other => interval.2 ≤ other.1) ↔
        (intervals.insertionSort isBefore).Pairwise Apart := by
    constructor
    case mp => exact fun h => h.imp .inl
    case mpr =>
      intro h
      refine (hsorted.and h).imp_of_mem fun {interval other} _ hm hp => ?_
      exact (apart_iff_of_isBefore hp.left (hn other (hperm.mem_iff.mp hm))).mp hp.right
  have hsymm : ∀ {interval other}, Apart interval other → Apart other interval := Or.symm
  rw [placed_iff, and_iff_right hhead, isChain_iff_of_sorted hsorted, happart,
    hperm.pairwise_iff hsymm]
  simp only [hperm.mem_iff]

end Payloads

section Layout

variable {header : Header} {tensor : Tensor} {descriptions : Descriptions}
variable {result : GgufInspection}

theorem checked_of_lt {n : Nat} (h : n < 2 ^ 64) : checked n = some n :=
  checked_eq_some.mpr ⟨rfl, h⟩

def Descriptions.start (descriptions : Descriptions) (position : Nat) : Nat :=
  (position + (descriptions.metadata.alignment - 1)) / descriptions.metadata.alignment *
    descriptions.metadata.alignment

def Descriptions.inspection (descriptions : Descriptions) : GgufInspection where
  tensorTypes  := descriptions.descriptors.types
  tensorCount  := descriptions.count
  architecture := descriptions.metadata.architecture

-- Nothing overflows, as the position and the alignment are small.
theorem layout_eq (hm : descriptions.metadata.Sound) (hi : reader.Inside) :
    layout descriptions reader = (do
      checkPayloads (descriptions.start reader.position) reader.size
        (descriptions.descriptors.intervals.insertionSort isBefore) 0
      return descriptions.inspection : Reader GgufInspection) reader := by
  obtain ⟨hpos, hsmall⟩ := hm
  have hlimit : headerLimit + 1048576 < 2 ^ 64 := by decide
  have hposition := hi.right
  have hpadded : checked (reader.position + (descriptions.metadata.alignment - 1)) =
      some (reader.position + (descriptions.metadata.alignment - 1)) := checked_of_lt (by omega)
  have hstart : checked (descriptions.start reader.position) =
      some (descriptions.start reader.position) := by
    refine checked_of_lt (lt_of_le_of_lt (Nat.div_mul_le_self _ _) ?_)
    omega
  rw [Descriptions.start] at hstart
  simp only [layout, sub, div, mul, context, orThrow, if_pos (Nat.succ_le_of_lt hpos),
    if_neg (Nat.ne_of_gt hpos), hpadded, hstart, bind, EStateM.bind, get, getThe,
    MonadStateOf.get, EStateM.get, pure, EStateM.pure]
  rfl

theorem layout_cases (hm : descriptions.metadata.Sound) (hi : reader.Inside)
    (hs : reader.size < 2 ^ 64) :
    layout descriptions reader = .ok descriptions.inspection reader ∧
      Placed (descriptions.start reader.position) reader.size
        (descriptions.descriptors.intervals.insertionSort isBefore) 0 ∨
    layout descriptions reader =
      .error (.rejected "overlapping or truncated GGUF tensor payload") reader ∧
      ¬Placed (descriptions.start reader.position) reader.size
        (descriptions.descriptors.intervals.insertionSort isBefore) 0 := by
  rw [layout_eq hm hi]
  obtain ⟨hc, hp⟩ | ⟨hc, hp⟩ := checkPayloads_eq reader hs
  · exact .inl ⟨by simp only [bind, EStateM.bind, hc, pure, EStateM.pure], hp⟩
  · exact .inr ⟨by simp only [bind, EStateM.bind, hc], hp⟩

end Layout

section Headers

variable {header other : Header} {tensor : Tensor} {tensors : List Tensor} {alignment : Nat}
variable {descriptors : Descriptors} {kind kind' : Nat} {types : List Nat}

def Tensor.Apart (tensor other : Tensor) : Prop :=
  tensor.next ≤ other.offset ∨ other.next ≤ tensor.offset

namespace Header

def start (header : Header) : Nat :=
  (header.encode.length + (header.alignment - 1)) / header.alignment * header.alignment

structure WellFormed (header : Header) (size : Nat) : Prop where
  described : header.Described
  length    : header.encode.length ≤ headerLimit
  apart     : header.tensors.Pairwise Tensor.Apart
  inside    : ∀ tensor ∈ header.tensors, header.start + tensor.next ≤ size

-- The types are listed in order, and once each.
structure Describes (header : Header) (result : GgufInspection) : Prop where
  sorted       : result.tensorTypes.Pairwise (· < ·)
  types        : ∀ kind, kind ∈ result.tensorTypes ↔ ∃ tensor ∈ header.tensors, tensor.kind = kind
  count        : result.tensorCount = header.tensors.length
  architecture : result.architecture = header.architecture

end Header

theorem foldl_next_intervals : (tensors.foldl Descriptors.next descriptors).intervals =
    descriptors.intervals ++ tensors.map fun tensor => (tensor.offset, tensor.next) := by
  induction tensors generalizing descriptors
  case nil => simp
  case cons tensor tensors hi =>
    rw [List.foldl_cons, hi, List.map_cons]
    exact List.append_assoc ..

theorem mem_insertType : kind' ∈ insertType kind types ↔ kind' = kind ∨ kind' ∈ types := by
  induction types
  case nil => simp [insertType]
  case cons type types hi =>
    rw [insertType]
    split_ifs with hl he
    · simp
    · simp [he]
    · rw [List.mem_cons, hi, List.mem_cons]
      tauto

theorem sorted_insertType (h : types.Pairwise (· < ·)) :
    (insertType kind types).Pairwise (· < ·) := by
  induction h
  case nil => exact List.pairwise_singleton _ _
  case cons type types ht hs hi =>
    rw [insertType]
    split_ifs with hl he
    · refine .cons (fun kind' hm => ?_) (.cons ht hs)
      obtain rfl | hm := List.mem_cons.mp hm
      · exact hl
      · exact hl.trans (ht kind' hm)
    · exact .cons ht hs
    · refine .cons (fun kind' hm => ?_) hi
      obtain rfl | hm := mem_insertType.mp hm
      · omega
      · exact ht kind' hm

theorem foldl_next_types (h : descriptors.types.Pairwise (· < ·)) :
    (tensors.foldl Descriptors.next descriptors).types.Pairwise (· < ·) ∧
      ∀ kind, kind ∈ (tensors.foldl Descriptors.next descriptors).types ↔
        (∃ tensor ∈ tensors, tensor.kind = kind) ∨ kind ∈ descriptors.types := by
  induction tensors generalizing descriptors
  case nil => exact ⟨h, by simp⟩
  case cons tensor tensors hi =>
    rw [List.foldl_cons]
    obtain ⟨hs, hm⟩ := @hi (descriptors.next tensor) (sorted_insertType h)
    refine ⟨hs, fun kind => (hm kind).trans ?_⟩
    rw [Descriptors.next, mem_insertType]
    simp only [List.mem_cons, exists_eq_or_imp, eq_comm (a := kind)]
    rw [or_assoc]
    exact or_left_comm

theorem Header.describes_inspection : header.Describes header.descriptions.inspection := by
  have h : ([] : List Nat).Pairwise (· < ·) := .nil
  obtain ⟨hs, hm⟩ := @foldl_next_types header.tensors {} h
  exact {
    sorted       := hs
    types        := fun kind => (hm kind).trans (by simp)
    count        := rfl
    architecture := rfl
  }

-- Each block of a row takes some bytes.
theorem Tensor.Valid.offset_lt_next (h : tensor.Valid alignment) : tensor.offset < tensor.next := by
  obtain ⟨size, hs, hd⟩ := h.blocks
  obtain ⟨hblock, hbytes, -⟩ := tensorBlockSize_pos hs
  obtain ⟨name, dimensions, kind, offset⟩ := tensor
  obtain _ | ⟨row, rest⟩ := dimensions
  · exact absurd rfl h.ranked
  · have hpos : 0 < (row :: rest).prod := List.prod_pos h.positive
    have hdvd : size.1 ∣ (row :: rest).prod := by
      rw [List.prod_cons]
      exact Dvd.dvd.mul_right hd _
    have hlength : 0 < (row :: rest).prod / size.1 * size.2 :=
      Nat.mul_pos (Nat.div_pos (Nat.le_of_dvd hpos hdvd) hblock) hbytes
    simp only [Tensor.next, Tensor.length, hs, Option.elim_some]
    exact Nat.lt_add_of_pos_right hlength

theorem intervals_descriptions : header.descriptions.descriptors.intervals =
    header.tensors.map fun tensor => (tensor.offset, tensor.next) :=
  foldl_next_intervals.trans (List.nil_append _)

theorem Header.placed_iff {size : Nat} (h : header.Described) :
    Placed header.start size
        (header.descriptions.descriptors.intervals.insertionSort isBefore) 0 ↔
      header.tensors.Pairwise Tensor.Apart ∧
        ∀ tensor ∈ header.tensors, header.start + tensor.next ≤ size := by
  rw [intervals_descriptions, placed_insertionSort_iff, List.pairwise_map, List.forall_mem_map]
  · rfl
  · exact List.forall_mem_map.mpr fun tensor hm => (h.tensors tensor hm).offset_lt_next

theorem Header.sound (h : header.Described) : header.descriptions.metadata.Sound := by
  rw [← header.metadata_eq]
  exact sound_foldl sound_start h.keys

end Headers

section Files

variable {file : File} {header : Header} {result : GgufInspection} {n : Nat}

namespace File

def opened (file : File) : GgufReader where
  rest     := file.bytes
  size     := file.bytes.length
  position := 0

def take (file : File) (n : Nat) : File where
  bytes := file.bytes.take n
  bound := lt_of_le_of_lt (List.length_take_le' ..) file.bound

theorem inside_opened : file.opened.Inside :=
  ⟨Nat.add_zero _, Nat.zero_le _⟩

-- What is left after the first bytes of a file.
structure Left (file : File) (bytes : List UInt8) (reader : GgufReader) : Prop where
  rest     : file.bytes = bytes ++ reader.rest
  position : reader.position = bytes.length
  size     : reader.size = file.bytes.length

theorem moves_iff {bytes : List UInt8} :
    file.opened.Moves bytes reader ↔ bytes.length ≤ headerLimit ∧ file.Left bytes reader := by
  constructor
  case mp =>
    rintro ⟨hr, hp, hs, hl⟩
    rw [opened, Nat.zero_add] at hp
    exact ⟨hp ▸ hl, hr, hp, hs⟩
  case mpr =>
    rintro ⟨hl, hr, hp, hs⟩
    exact ⟨hr, by rw [opened, Nat.zero_add, hp], hs, hp.symm ▸ hl⟩

end File

-- What is read of a file are the descriptions of a header that it starts with.
theorem readDescriptions_eq_ok {descriptions : Descriptions} :
    readDescriptions file.opened = .ok descriptions reader ↔ ∃ header : Header,
      header.Described ∧ header.encode.length ≤ headerLimit ∧
      descriptions = header.descriptions ∧ file.Left header.encode reader := by
  refine (reads_readDescriptions.ok _ _ _ File.inside_opened).trans ?_
  constructor
  case mp =>
    rintro ⟨bytes, ⟨header, hd, rfl, rfl⟩, hm⟩
    obtain ⟨hl, hleft⟩ := File.moves_iff.mp hm
    exact ⟨header, hd, hl, rfl, hleft⟩
  case mpr =>
    rintro ⟨header, hd, hl, rfl, hleft⟩
    exact ⟨header.encode, ⟨header, hd, rfl, rfl⟩, File.moves_iff.mpr ⟨hl, hleft⟩⟩

theorem inspectGguf_of_ok {descriptions : Descriptions}
    (h : readDescriptions file.opened = .ok descriptions reader) :
    inspectGguf file = layout descriptions reader := by
  have hrun : inspectGguf file = (readDescriptions >>= layout) file.opened := rfl
  simp only [hrun, bind, EStateM.bind, h]

theorem inspectGguf_of_error {failure : Failure}
    (h : readDescriptions file.opened = .error failure reader) :
    inspectGguf file = .error failure reader := by
  have hrun : inspectGguf file = (readDescriptions >>= layout) file.opened := rfl
  simp only [hrun, bind, EStateM.bind, h]

-- Once a header has been read, it remains to check where its payloads are.
theorem layout_header_cases (hd : header.Described) (hl : header.encode.length ≤ headerLimit)
    (hleft : file.Left header.encode reader) :
    layout header.descriptions reader = .ok header.descriptions.inspection reader ∧
      header.WellFormed file.bytes.length ∨
    layout header.descriptions reader =
      .error (.rejected "overlapping or truncated GGUF tensor payload") reader ∧
      ¬header.WellFormed file.bytes.length := by
  have hi : Cursor.Inside Failure reader :=
    Cursor.inside_of_moves File.inside_opened (File.moves_iff.mpr ⟨hl, hleft⟩)
  have hs : reader.size < 2 ^ 64 := hleft.size ▸ file.bound
  have hp : Placed (header.descriptions.start reader.position) reader.size
      (header.descriptions.descriptors.intervals.insertionSort isBefore) 0 ↔
        header.WellFormed file.bytes.length := by
    rw [hleft.size, hleft.position]
    exact (Header.placed_iff hd).trans
      ⟨fun h => ⟨hd, hl, h.left, h.right⟩, fun h => ⟨h.apart, h.inside⟩⟩
  rw [← hp]
  exact layout_cases (Header.sound hd) hi hs

theorem inspectGguf_eq_ok : inspectGguf file = .ok result reader ↔ ∃ header : Header,
    header.WellFormed file.bytes.length ∧ result = header.descriptions.inspection ∧
      file.Left header.encode reader := by
  constructor
  case mp =>
    intro h
    cases hr : readDescriptions file.opened
    case error failure last => cases (inspectGguf_of_error hr).symm.trans h
    case ok descriptions last =>
      obtain ⟨header, hd, hl, rfl, hleft⟩ := readDescriptions_eq_ok.mp hr
      rw [inspectGguf_of_ok hr] at h
      obtain ⟨he, hw⟩ | ⟨he, -⟩ := layout_header_cases hd hl hleft
      · cases he.symm.trans h
        exact ⟨header, hw, rfl, hleft⟩
      · cases he.symm.trans h
  case mpr =>
    rintro ⟨header, hw, rfl, hleft⟩
    rw [inspectGguf_of_ok
      (readDescriptions_eq_ok.mpr ⟨header, hw.described, hw.length, rfl, hleft⟩)]
    obtain ⟨he, -⟩ | ⟨-, hn⟩ := layout_header_cases hw.described hw.length hleft
    · exact he
    · exact absurd hw hn

-- No more than a header may be long has been consumed, and nothing has overflown.
inductive Bounded (file : File) : EStateM.Result Failure GgufReader GgufInspection → Prop
  | ok {result : GgufInspection} {reader : GgufReader} {bytes : List UInt8} :
    file.bytes = bytes ++ reader.rest → bytes.length ≤ headerLimit →
    Bounded file (.ok result reader)
  | error {failure : Failure} {reader : GgufReader} {bytes : List UInt8} : failure ≠ .overflow →
    file.bytes = bytes ++ reader.rest → bytes.length ≤ headerLimit →
    Bounded file (.error failure reader)

theorem bounded_inspectGguf : Bounded file (inspectGguf file) := by
  cases hr : readDescriptions file.opened
  case error failure last =>
    obtain ⟨hf, bytes, hb, hl⟩ := reads_readDescriptions.error _ _ _ File.inside_opened hr
    rw [inspectGguf_of_error hr]
    exact .error hf hb (by rwa [File.opened, Nat.zero_add] at hl)
  case ok descriptions last =>
    obtain ⟨header, hd, hl, rfl, hleft⟩ := readDescriptions_eq_ok.mp hr
    rw [inspectGguf_of_ok hr]
    obtain ⟨he, -⟩ | ⟨he, -⟩ := layout_header_cases hd hl hleft
    · rw [he]
      exact .ok hleft.rest hl
    · rw [he]
      exact .error (by simp) hleft.rest hl

theorem exists_left {bytes : List UInt8} (h : bytes <+: file.bytes) :
    ∃ reader, file.Left bytes reader := by
  obtain ⟨rest, hr⟩ := h
  exact ⟨⟨rest, file.bytes.length, bytes.length⟩, hr.symm, rfl, rfl⟩

-- A file does not start with two headers.
theorem descriptions_unique {other : Header} (hd : header.Described) (ho : other.Described)
    (hl : header.encode.length ≤ headerLimit) (hl' : other.encode.length ≤ headerLimit)
    (hh : header.encode <+: file.bytes) (hh' : other.encode <+: file.bytes) :
    other.descriptions = header.descriptions ∧ other.encode.length = header.encode.length := by
  obtain ⟨reader, hleft⟩ := exists_left hh
  obtain ⟨reader', hleft'⟩ := exists_left hh'
  have hr := readDescriptions_eq_ok.mpr ⟨header, hd, hl, rfl, hleft⟩
  have hr' := readDescriptions_eq_ok.mpr ⟨other, ho, hl', rfl, hleft'⟩
  obtain ⟨he, rfl⟩ := EStateM.Result.ok.inj (hr.symm.trans hr')
  exact ⟨he.symm, hleft'.position.symm.trans hleft.position⟩

-- What is left of a file still starts with the same header, whose payloads do not fit any more.
theorem rejects_truncated (hw : header.WellFormed file.bytes.length)
    (hh : header.encode <+: file.bytes) {tensor : Tensor} (hm : tensor ∈ header.tensors)
    (hn : n < header.start + tensor.next) : inspectGguf (file.take n) ≠ .ok result reader := by
  intro h
  obtain ⟨other, hw', -, hleft⟩ := inspectGguf_eq_ok.mp h
  have htaken : other.encode <+: file.bytes.take n := ⟨reader.rest, hleft.rest.symm⟩
  obtain ⟨hd, hl⟩ := descriptions_unique hw.described hw'.described hw.length hw'.length hh
    (htaken.trans (List.take_prefix n file.bytes))
  have hi : (tensor.offset, tensor.next) ∈
      other.tensors.map fun tensor => (tensor.offset, tensor.next) := by
    rw [← intervals_descriptions, hd, intervals_descriptions]
    exact List.mem_map_of_mem hm
  obtain ⟨tensor', hm', he⟩ := List.mem_map.mp hi
  have hstart : other.start = header.start := by
    have ha : other.alignment = header.alignment :=
      congrArg (fun descriptions => descriptions.metadata.alignment) hd
    rw [Header.start, Header.start, hl, ha]
  have hinside := hw'.inside tensor' hm'
  rw [hstart, (Prod.mk.inj he).right] at hinside
  have hsize : (file.take n).bytes.length ≤ n := List.length_take_le ..
  omega

def repeated : Nat → String
  | 0     => "w"
  | k + 1 => repeated k ++ repeated k

theorem length_utf8_repeated (k : Nat) : (utf8 (repeated k)).length = 2 ^ k := by
  induction k
  case zero => rfl
  case succ k hi =>
    have happend : utf8 (repeated k ++ repeated k) = utf8 (repeated k) ++ utf8 (repeated k) := by
      simp [utf8]
    rw [repeated, happend, List.length_append, hi, pow_succ, Nat.mul_two]

def longTensor : Tensor where
  name       := repeated 25
  dimensions := [1]
  kind       := 24
  offset     := 0

def longHeader : Header where
  version  := 3
  metadata := []
  tensors  := [longTensor]

theorem length_longHeader : longHeader.encode.length = 2 ^ 25 + 56 := by
  simp only [Header.encode, longHeader, magic, List.length_append, length_toLe, List.flatMap_nil,
    List.flatMap_cons, List.append_nil, List.length_nil, Tensor.encode, longTensor, encodeString,
    length_utf8_repeated, List.length_map]
  decide

def longFile : File where
  bytes := longHeader.encode ++ List.replicate 64 0
  bound := by
    rw [List.length_append, length_longHeader, List.length_replicate]
    decide

end Files

end ModelStore.Gguf
