import WerkModel.Lib.Checks
import WerkModel.Lib.Segments
import WerkModel.Backend.TextCheckpoint

-- The tables of N-grams in a checkpoint. The rows of a table are stored in one or more shards.
open Checks Segments

namespace Backend.PleTables

inductive Architecture
  | qwen4Exp
  | glm5Next
  deriving DecidableEq

inductive Dtype
  | u32
  | f16
  | bf16
  | other
  deriving DecidableEq

inductive Suffix
  | weight
  | scales
  | biases
  deriving DecidableEq

-- The header of a tensor has no dimension of zero.
structure Tensor where
  size     : Nat
  shape    : List Nat
  dtype    : Dtype
  positive : ∀ dimension ∈ shape, 0 < dimension

def Tensor.rows (tensor : Tensor) : Nat :=
  tensor.shape.headD 0

-- The name of a tensor of a table without its suffix, and the numbers that it is matched with.
structure Name where
  stem   : String
  layer  : Nat
  shard  : Nat
  suffix : Suffix

structure Quantization where
  bits      : Nat
  groupSize : Nat

-- What has been read of a checkpoint. A value that is not an integer is missing, and so are IDs
-- that are not a list of integers. The quantization is looked up in the configuration.
structure Source where
  architecture    : Architecture
  layers          : Nat
  pleLayerIds     : Option (List Int)
  headsPerNgram   : Option Int
  ngramSize       : Option Int
  pleEmbedDim     : Option Int
  splitNgramParts : Option Int
  names           : List Name
  tensors         : String → Suffix → Option Tensor
  quantization    : String → Except String Quantization

structure Spec where
  start : Nat
  stop  : Nat
  stem  : String
  q     : Quantization

structure Table where
  dims  : Nat
  specs : List Spec

def integer (value : Option Int) (name : String) (minimum : Nat) : Except String Nat :=
  match value with
  | none       => .error (name ++ " must be an integer >= " ++ toString minimum)
  | some value =>
    if value < minimum then .error (name ++ " must be an integer >= " ++ toString minimum)
    else .ok value.toNat

namespace Source

variable (source : Source)

-- The weights of a layer, by their shards.
def select (layer : Nat) : Except String (List (Nat × String)) :=
  source.names.foldlM (fun selected name =>
    if name.layer = layer ∧ name.suffix = .weight then
      if name.shard ∈ selected.map Prod.fst then .error "duplicate PLE shard alias"
      else .ok (selected ++ [(name.shard, name.stem)])
    else
      .ok selected) []

def tensor (stem : String) (suffix : Suffix) : Except String Tensor :=
  match source.tensors stem suffix with
  | none        => .error "KeyError"
  | some tensor => .ok tensor

def checkGeometry (stem : String) (shape : List Nat) (suffix : Suffix) : Except String PUnit :=
  ensure ((source.tensors stem suffix).any fun tensor =>
    tensor.shape = shape ∧ tensor.dtype ∈ [Dtype.f16, .bf16]) "invalid PLE scale/bias geometry"

def addSpec (dims : Nat) (selected : List (Nat × String)) (specs : List Spec) (shard : Nat) :
    Except String (List Spec) := do
  let stem ← (selected.lookup shard).elim (.error "KeyError") .ok
  let q ← source.quantization stem
  ensure (dims % q.groupSize = 0 ∧ dims * q.bits % 32 = 0) "invalid PLE quantization geometry"
  let w ← source.tensor stem .weight
  ensure (w.dtype = .u32 ∧ w.shape = [w.rows, dims * q.bits / 32]) "invalid packed PLE weight"
  source.checkGeometry stem [w.rows, dims / q.groupSize] .scales
  source.checkGeometry stem [w.rows, dims / q.groupSize] .biases
  return specs ++ [⟨total Spec.stop specs, total Spec.stop specs + w.rows, stem, q⟩]

def addTable (dims shards : Nat) (tables : List (Nat × Table)) (number : Int) :
    Except String (List (Nat × Table)) := do
  let number ← integer (some number) "PLE layer" 1
  let layer := number - 1
  ensure (layer < source.layers) "PLE layer out of range"
  let selected ← source.select layer
  ensure ((∀ entry ∈ selected, entry.1 < shards) ∧
    ∀ shard ∈ List.range shards, shard ∈ selected.map Prod.fst) "incomplete PLE table"
  let specs ← (List.range shards).foldlM (source.addSpec dims selected) []
  return tables ++ [(layer, ⟨dims, specs⟩)]

def readTables (ids : List Int) : Except String (List (Nat × Table)) := do
  let heads ← integer source.headsPerNgram "PLE heads" 1
  let grams ← integer source.ngramSize "ngram size" 2
  let width ← integer source.pleEmbedDim "PLE width" 1
  ensure (width % (heads * (grams - 1)) = 0) "invalid PLE head width"
  let shards ← integer source.splitNgramParts "PLE shards" 1
  ids.foldlM (source.addTable (width / (heads * (grams - 1))) shards) []

def pleTables : Except String (List (Nat × Table)) := do
  ensure (source.architecture = .glm5Next → source.names.isEmpty) "GLM has no verified PLE layout"
  ensure (source.architecture = .qwen4Exp → source.pleLayerIds.any (·.Nodup))
    "invalid PLE layer IDs"
  let ids := source.pleLayerIds.getD []
  let tables ←
    (if source.architecture = .qwen4Exp ∧ ids ≠ [] then source.readTables ids else .ok [])
  ensure ((∀ name ∈ source.names, name.layer ∈ tables.map Prod.fst) ∧
    ∀ entry ∈ tables, entry.1 ∈ source.names.map Name.layer) "unexpected PLE layer"
  return tables

-- The stored bytes of a row.
def packed (stem : String) : Nat :=
  ([Suffix.weight, .scales, .biases].map fun suffix =>
    (source.tensors stem suffix).elim 0 fun tensor => tensor.size / tensor.rows).sum

-- A row is stored, staged for its conversion, and decoded.
def rowBytes (dims : Nat) (spec : Spec) : Nat :=
  2 * source.packed spec.stem + 4 * dims

-- The number of rows of each shard, and the size of one of them.
def rows (tables : List (Nat × Table)) : List (Nat × Nat) :=
  tables.flatMap fun entry => entry.2.specs.map fun spec =>
    (spec.stop - spec.start, source.rowBytes entry.2.dims spec)

end Source

-- What is checked of a table that is accepted.
structure Table.Sound (source : Source) (table : Table) : Prop where
  dims_pos : 0 < table.dims
  nonempty : table.specs ≠ []
  chained  : Chained Spec.start Spec.stop 0 table.specs
  rows     : ∀ spec ∈ table.specs, ∀ suffix, ∃ tensor,
    source.tensors spec.stem suffix = some tensor ∧ tensor.rows = spec.stop - spec.start

variable {source : Source} {dims shards : Nat} {specs specs' : List Spec}
variable {selected : List (Nat × String)} {tables tables' : List (Nat × Table)}

theorem integer_eq_ok {value : Option Int} {name : String} {minimum number : Nat}
    (h : integer value name minimum = .ok number) : minimum ≤ number := by
  cases value
  case none => cases h
  case some value =>
    simp only [integer] at h
    split at h
    case isTrue  => cases h
    case isFalse =>
      obtain rfl := Except.ok.inj h
      omega

theorem tensor_eq_ok {stem : String} {suffix : Suffix} {tensor : Tensor}
    (h : source.tensor stem suffix = .ok tensor) : source.tensors stem suffix = some tensor := by
  rw [Source.tensor] at h
  cases ht : source.tensors stem suffix
  case none   => rw [ht] at h; cases h
  case some t => rw [ht] at h; rw [Except.ok.inj h]

theorem checkGeometry_eq_ok {stem : String} {rows width : Nat} {suffix : Suffix}
    (h : source.checkGeometry stem [rows, width] suffix = .ok ⟨⟩) :
    ∃ tensor, source.tensors stem suffix = some tensor ∧ tensor.rows = rows := by
  rw [Source.checkGeometry, ensure_eq_ok] at h
  cases ht : source.tensors stem suffix
  case none        => simp [ht] at h
  case some tensor =>
    have hs : tensor.shape = [rows, width] := by
      simp only [ht, Option.any_some, decide_eq_true_eq] at h
      exact h.1
    exact ⟨tensor, rfl, by rw [Tensor.rows, hs]; rfl⟩

theorem addSpec_eq_ok {shard : Nat} (h : source.addSpec dims selected specs shard = .ok specs') :
    ∃ spec, specs' = specs ++ [spec] ∧ spec.start = total Spec.stop specs ∧
      spec.start < spec.stop ∧ ∀ suffix, ∃ tensor,
        source.tensors spec.stem suffix = some tensor ∧ tensor.rows = spec.stop - spec.start := by
  obtain ⟨stem, -, h⟩ := bind_eq_ok.mp h
  obtain ⟨q, -, h⟩ := bind_eq_ok.mp h
  obtain ⟨-, h⟩ := ensure_bind_eq_ok.mp h
  obtain ⟨w, hw, h⟩ := bind_eq_ok.mp h
  obtain ⟨⟨-, hshape⟩, h⟩ := ensure_bind_eq_ok.mp h
  obtain ⟨hscales, h⟩ := seq_eq_ok.mp h
  obtain ⟨hbiases, h⟩ := seq_eq_ok.mp h
  obtain rfl := Except.ok.inj h
  have hpos : 0 < w.rows := w.positive _ (by rw [hshape]; exact List.mem_cons_self)
  refine ⟨_, rfl, rfl, Nat.lt_add_of_pos_right hpos, fun suffix => ?_⟩
  rw [Nat.add_sub_cancel_left]
  cases suffix
  case weight => exact ⟨w, tensor_eq_ok hw, rfl⟩
  case scales => exact checkGeometry_eq_ok hscales
  case biases => exact checkGeometry_eq_ok hbiases

theorem addTable_eq_ok {number : Int} (hd : 0 < dims) (hs : 0 < shards)
    (h : source.addTable dims shards tables number = .ok tables') :
    ∃ entry : Nat × Table, tables' = tables ++ [entry] ∧ entry.2.Sound source := by
  obtain ⟨number, -, h⟩ := bind_eq_ok.mp h
  obtain ⟨-, h⟩ := ensure_bind_eq_ok.mp h
  obtain ⟨selected, -, h⟩ := bind_eq_ok.mp h
  obtain ⟨-, h⟩ := ensure_bind_eq_ok.mp h
  obtain ⟨specs, hf, h⟩ := bind_eq_ok.mp h
  obtain rfl := Except.ok.inj h
  -- The shards that have been added form a part of the table that is sound already.
  have hi := foldlM_invariant (I := fun passed specs => specs.length = passed.length ∧
      Chained Spec.start Spec.stop 0 specs ∧ ∀ spec ∈ specs, ∀ suffix, ∃ tensor,
        source.tensors spec.stem suffix = some tensor ∧ tensor.rows = spec.stop - spec.start)
    hf ⟨rfl, trivial, fun _ h => by cases h⟩ ?_
  case refine_1 =>
    intro passed shard specs specs' hs hadd
    obtain ⟨hl, hc, hr⟩ := hs
    obtain ⟨spec, rfl, hstart, hp, hrows⟩ := addSpec_eq_ok hadd
    refine ⟨by simp [hl], hc.append hstart hp, fun other ho => ?_⟩
    obtain ho | ho := List.mem_append.mp ho
    case inl => exact hr other ho
    case inr => exact List.mem_singleton.mp ho ▸ hrows
  obtain ⟨hl, hc, hr⟩ := hi
  refine ⟨_, rfl, hd, fun hn => ?_, hc, hr⟩
  obtain rfl : specs = [] := hn
  rw [List.length_range] at hl
  exact absurd hl hs.ne

theorem readTables_sound {ids : List Int} (h : source.readTables ids = .ok tables) :
    ∀ entry ∈ tables, entry.2.Sound source := by
  obtain ⟨heads, hheads, h⟩ := bind_eq_ok.mp h
  obtain ⟨grams, hgrams, h⟩ := bind_eq_ok.mp h
  obtain ⟨width, hwidth, h⟩ := bind_eq_ok.mp h
  obtain ⟨hmod, h⟩ := ensure_bind_eq_ok.mp h
  obtain ⟨shards, hshards, h⟩ := bind_eq_ok.mp h
  have hheads := integer_eq_ok hheads
  have hgrams := integer_eq_ok hgrams
  have hdims : 0 < width / (heads * (grams - 1)) := by
    refine Nat.div_pos (Nat.le_of_dvd (integer_eq_ok hwidth) (Nat.dvd_of_mod_eq_zero hmod)) ?_
    exact Nat.mul_pos hheads (by omega)
  refine foldlM_invariant (I := fun _ tables => ∀ entry ∈ tables, entry.2.Sound source) h
    (fun _ h => by cases h) fun _ number tables tables' hs hadd entry he => ?_
  obtain ⟨added, rfl, ha⟩ := addTable_eq_ok hdims (integer_eq_ok hshards) hadd
  obtain he | he := List.mem_append.mp he
  case inl => exact hs entry he
  case inr => exact List.mem_singleton.mp he ▸ ha

theorem pleTables_sound (h : source.pleTables = .ok tables) :
    ∀ entry ∈ tables, entry.2.Sound source := by
  obtain ⟨-, h⟩ := ensure_bind_eq_ok.mp h
  obtain ⟨-, h⟩ := ensure_bind_eq_ok.mp h
  obtain ⟨tables', ht, h⟩ := bind_eq_ok.mp h
  obtain ⟨-, h⟩ := ensure_bind_eq_ok.mp h
  obtain rfl := Except.ok.inj h
  split at ht
  case isTrue  => exact readTables_sound ht
  case isFalse =>
    obtain rfl := Except.ok.inj ht
    exact fun _ h => by cases h

end Backend.PleTables
