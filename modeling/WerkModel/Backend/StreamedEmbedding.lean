import WerkModel.Lib.Lists
import WerkModel.Backend.NgramCache

-- The lookup of N-grams whose rows are loaded on demand.
open Segments

namespace Backend.StreamedEmbedding

open PleTables NgramCache

-- The packed rows of the tensors, and what is computed of them.
structure Numerics (P V : Type) where
  packed     : String → Suffix → Nat → P
  dequantize : Quantization → P → P → P → V
  scale      : V → V

structure WeightAccess (V : Type) where
  ngrams        : Ngrams V
  requestedRows : Nat
  uniqueRows    : Nat
  -- The rows that have been read, or have failed to be.
  reads         : List (String × Nat)

structure Indices where
  integral : Bool
  shape    : List Nat
  values   : List Int
  size_eq  : values.length = shape.prod

def maxOutputBytes : Nat := 64 * 1024 ^ 2

-- The sorted distinct indices.
def unique (values : List Int) : List Int :=
  values.dedup.insertionSort (· ≤ ·)

def inverse (values : List Int) : List Nat :=
  values.map (unique values).idxOf

def flatnonzero (inverse : List Nat) (slot : Nat) : List Nat :=
  (List.range inverse.length).filter fun position => inverse[position]? = some slot

-- Each position of the output collects the values that are added to it.
structure Output (V : Type) where
  shape : List Nat
  rows  : List (List V)

variable {P V : Type} (source : Source) (tables : List (Nat × Table)) (numerics : Numerics P V)

-- The first part of a table whose rows stop behind the index.
def locate (table : Table) (index : Nat) : Except String Spec :=
  let stops := table.specs.map Spec.stop
  match table.specs[bisectRight stops index 0 stops.length]? with
  | none      => .error "IndexError"
  | some spec => .ok spec

def checkRow (stem : String) (row : Nat) (suffix : Suffix) : Except String PUnit :=
  match source.tensors stem suffix with
  | none        => .error "KeyError"
  | some tensor => Checks.ensure (row + 1 ≤ tensor.rows) "tensor row range out of bounds"

-- The reader may fail for a row.
def readTriplet (fails : String → Nat → Option String) (stem : String) (row : Nat) :
    Except String (P × P × P) := do
  [Suffix.weight, .scales, .biases].forM (checkRow source stem row)
  (fails stem row).elim (.ok ⟨⟩) .error
  return (numerics.packed stem .weight row, numerics.packed stem .scales row,
    numerics.packed stem .biases row)

def Numerics.row (spec : Spec) (index : Nat) : V :=
  let row := index - spec.start
  numerics.dequantize spec.q (numerics.packed spec.stem .weight row)
    (numerics.packed spec.stem .scales row) (numerics.packed spec.stem .biases row)

namespace WeightAccess

variable (access : WeightAccess V)

def withCache (cache : SharedCache String (Nat × Nat) V) : WeightAccess V :=
  { access with ngrams := { access.ngrams with cache } }

def release (layer index : Nat) : WeightAccess V :=
  access.withCache (access.ngrams.cache.release ("ple", (layer, index)))

-- The load of a row for which room has been made in the cache.
def load (fails : String → Nat → Option String) (layer index size : Nat) (spec : Spec) :
    Except String V × WeightAccess V :=
  let access := { access with reads := access.reads ++ [(spec.stem, index - spec.start)] }
  match readTriplet source numerics fails spec.stem (index - spec.start) with
  | .error error => (.error error,
    access.withCache (access.ngrams.cache.abandon ("ple", (layer, index)) size))
  | .ok (w, s, b) =>
    let value := numerics.dequantize spec.q w s b
    (.ok value, access.withCache (access.ngrams.cache.store ("ple", (layer, index)) size value))

-- The row is leased until it is released.
def pleRow (fails : String → Nat → Option String) (layer : Nat) (index : Int) :
    Except String V × WeightAccess V :=
  match tables.lookup layer with
  | none       => (.error "KeyError", access)
  | some table =>
    if index < 0 ∨ (total Spec.stop table.specs : Int) ≤ index then
      (.error "PLE index out of range", access)
    else match locate table index.toNat with
    | .error error => (.error error, access)
    | .ok spec     =>
      let size := source.rowBytes table.dims spec
      match access.ngrams.cache.acquire ("ple", (layer, index.toNat)) size with
      | (.error error, cache)     => (.error error, access.withCache cache)
      | (.ok (some value), cache) => (.ok value, access.withCache cache)
      | (.ok none, cache)         =>
        (access.withCache cache).load source numerics fails layer index.toNat size spec

-- The rows are added to the output one after the other.
def gather (fails : String → Nat → Option String) (layer : Nat) (inverse : List Nat) :
    List (Int × Nat) → (Nat → List V) → WeightAccess V →
      Except String (Nat → List V) × WeightAccess V
  | [], result, access                    => (.ok result, access)
  | (index, slot) :: rest, result, access =>
    match access.pleRow source tables numerics fails layer index with
    | (.error error, access) => (.error error, access)
    | (.ok row, access)      =>
      let additions := (flatnonzero inverse slot).map fun position => (position, numerics.scale row)
      gather fails layer inverse rest (Scatter.add result additions)
        (access.release layer index.toNat)

def streamedEmbedding (fails : String → Nat → Option String) (layer : Nat) (indices : Indices) :
    Except String (Output V) × WeightAccess V :=
  if ¬indices.integral then
    (.error "PLE indices must be integers", access)
  else match tables.lookup layer with
  | none       => (.error "KeyError", access)
  | some table =>
    if ∃ index ∈ indices.values, index < 0 ∨ (total Spec.stop table.specs : Int) ≤ index then
      (.error "PLE index out of range", access)
    else if maxOutputBytes < indices.values.length * table.dims * 2 then
      (.error "PLE output exceeds bounded workspace", access)
    else
      let access := { access with
        requestedRows := access.requestedRows + indices.values.length
        uniqueRows    := access.uniqueRows + (unique indices.values).length }
      match gather source tables numerics fails layer (inverse indices.values)
        (unique indices.values).zipIdx (fun _ => []) access with
      | (.error error, access) => (.error error, access)
      | (.ok result, access)   => (.ok {
          shape := indices.shape ++ [table.dims]
          rows  := (List.range indices.values.length).map result
        }, access)

end WeightAccess

-- The calls on the rows of a checkpoint: lookups, of which some reads may fail, and changes of the
-- budget.
inductive Input
  | embed (fails : String → Nat → Option String) (layer : Nat) (indices : Indices)
  | resize (expertMinimum available : Int)

def step (cp : TextCheckpoint.Checkpoint) (access : WeightAccess V) : Input → WeightAccess V
  | .embed fails layer indices      =>
    (access.streamedEmbedding source tables numerics fails layer indices).2
  | .resize expertMinimum available =>
    { access with ngrams :=
        (access.ngrams.resizeAuxiliaryCache cp expertMinimum available).2 }

def lookups (cp : TextCheckpoint.Checkpoint) : System (WeightAccess V) Input Unit where
  Init access := NgramCache.new cp = .ok access.ngrams
  Step access input _ access' := step source tables numerics cp access input = access'

end Backend.StreamedEmbedding
