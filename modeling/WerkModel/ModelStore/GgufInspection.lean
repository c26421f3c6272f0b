import WerkModel.Lib.Formats

-- The inspector of GGUF files, which reads a header and never the payloads of the tensors.
open Formats

namespace ModelStore.Gguf

inductive Failure
  | rejected (message : String)
  -- What arithmetic that is not checked comes to, if it overflows or divides by zero.
  | overflow
deriving DecidableEq

structure GgufReader where
  rest     : List UInt8
  size     : Nat
  position : Nat

abbrev Reader := EStateM Failure GgufReader

section Arithmetic

variable {α : Type}

def bail (c : Prop) [Decidable c] (message : String) : Reader Unit :=
  check (¬c) (.rejected message)

def context (o : Option α) (message : String) : Reader α :=
  orThrow o (.rejected message)

-- A result that has to fit into 64 bits.
def checked (n : Nat) : Option Nat :=
  if n < 2 ^ 64 then some n else none

def sub (a b : Nat) : Reader Nat :=
  orThrow (if b ≤ a then some (a - b) else none) .overflow

def mul (a b : Nat) : Reader Nat :=
  orThrow (checked (a * b)) .overflow

def div (a b : Nat) : Reader Nat :=
  orThrow (if b = 0 then none else some (a / b)) .overflow

def rem (a b : Nat) : Reader Nat :=
  orThrow (if b = 0 then none else some (a % b)) .overflow

end Arithmetic

namespace GgufReader

def headerLimit : Nat := 256 * 1024 * 1024

def advance (bytes : Nat) : Reader Unit := do
  let reader ← get
  let position ← context (checked (reader.position + bytes)) "GGUF header overflow"
  set { reader with position }
  bail (reader.size < position ∨ headerLimit < position) "truncated or oversized GGUF header"

def readExact (n : Nat) : Reader (List UInt8) := do
  let reader ← get
  bail (reader.rest.length < n) "failed to fill whole buffer"
  set { reader with rest := reader.rest.drop n }
  return reader.rest.take n

def bytes (n : Nat) : Reader (List UInt8) := do
  advance n
  readExact n

def u32 : Reader Nat :=
  fromLe <$> bytes 4

def u64 : Reader Nat :=
  fromLe <$> bytes 8

def skip (n : Nat) : Reader Unit := do
  advance n
  bail (2 ^ 63 ≤ n) "out of range integral type conversion attempted"
  modify fun reader => { reader with rest := reader.rest.drop n }

def stringLimit : Nat := 16 * 1024 * 1024

def string : Reader String := do
  let n ← u64
  bail (stringLimit < n) "oversized GGUF string"
  let bytes ← bytes n
  context (String.fromUTF8? ⟨bytes.toArray⟩) "invalid GGUF UTF-8 string"

def scalarWidth (kind : Nat) : Option Nat :=
  match kind with
  | 0 | 1 | 7    => some 1
  | 2 | 3        => some 2
  | 4 | 5 | 6    => some 4
  | 10 | 11 | 12 => some 8
  | _            => none

-- The value of an element of an array, or one that is no array.
def skipItem (kind : Nat) : Reader Unit :=
  match scalarWidth kind with
  | some width => skip width
  | none       => do
    bail (kind ≠ 8) ("invalid GGUF metadata type " ++ toString kind)
    let n ← u64
    skip n

def skipValue (kind : Nat) : Reader Unit :=
  if kind = 9 then do
    let kind ← u32
    let count ← u64
    bail (16000000 < count) "oversized GGUF metadata array"
    iterate (fun _ => skipItem kind) count ()
  else
    skipItem kind

end GgufReader

open GgufReader

structure GgufInspection where
  tensorTypes  : List Nat
  tensorCount  : Nat
  architecture : Option String
deriving DecidableEq

-- The sizes of a block in elements and in bytes.
def tensorBlockSize (kind : Nat) : Option (Nat × Nat) :=
  match kind with
  | 0            => some (1, 4)
  | 1 | 25 | 30  => some (1, 2)
  | 2 | 20       => some (32, 18)
  | 3            => some (32, 20)
  | 6            => some (32, 22)
  | 7            => some (32, 24)
  | 8            => some (32, 34)
  | 9            => some (32, 36)
  | 10           => some (256, 84)
  | 11           => some (256, 110)
  | 12           => some (256, 144)
  | 13           => some (256, 176)
  | 14           => some (256, 210)
  | 15           => some (256, 292)
  | 16           => some (256, 66)
  | 17           => some (256, 74)
  | 18           => some (256, 98)
  | 19           => some (256, 50)
  | 21           => some (256, 110)
  | 22           => some (256, 82)
  | 23           => some (256, 136)
  | 24           => some (1, 1)
  | 26           => some (1, 4)
  | 27 | 28      => some (1, 8)
  | 29           => some (256, 56)
  | 34           => some (256, 54)
  | 35           => some (256, 66)
  | 39           => some (32, 17)
  | 40           => some (64, 36)
  | 41           => some (128, 18)
  | 42           => some (64, 18)
  | _            => none

structure Metadata where
  architecture : Option String := none
  alignment    : Nat           := 32

def readEntry (metadata : Metadata) : Reader Metadata := do
  let key ← string
  let kind ← u32
  if key = "general.architecture" then do
    bail (kind ≠ 8) "invalid GGUF architecture metadata"
    let architecture ← string
    return { metadata with architecture := some architecture }
  else if key = "general.alignment" then do
    bail (kind ≠ 4) "invalid GGUF alignment metadata"
    let alignment ← u32
    bail (alignment ≠ 2 ^ alignment.log2 ∨ 1048576 < alignment) "invalid GGUF alignment"
    return { metadata with alignment }
  else do
    skipValue kind
    return metadata

-- What the dimensions of a tensor come to, the first of which is the length of its rows.
structure Shape where
  index    : Nat := 0
  row      : Nat := 0
  elements : Nat := 1

def readDimension (shape : Shape) : Reader Shape := do
  let dimension ← u64
  bail (dimension = 0) "zero-sized GGUF tensor"
  let elements ← context (checked (shape.elements * dimension)) "GGUF tensor size overflow"
  return {
    index := shape.index + 1
    row   := if shape.index = 0 then dimension else shape.row
    elements
  }

structure Descriptors where
  types     : List Nat         := []
  names     : List String      := []
  intervals : List (Nat × Nat) := []

-- The types are an ordered set.
def insertType (kind : Nat) : List Nat → List Nat
  | []           => [kind]
  | type :: types =>
    if kind < type then kind :: type :: types
    else if kind = type then type :: types
    else type :: insertType kind types

def readTensor (alignment : Nat) (descriptors : Descriptors) : Reader Descriptors := do
  let name ← string
  bail (name = "" ∨ name ∈ descriptors.names) "empty or duplicate GGUF tensor name"
  let dimensions ← u32
  bail (dimensions = 0 ∨ 4 < dimensions) "invalid GGUF tensor dimensions"
  let shape ← iterate readDimension dimensions {}
  let kind ← u32
  let offset ← u64
  let size ← context (tensorBlockSize kind) ("unsupported GGUF tensor type " ++ toString kind ++
    "; validation needs an updated type table")
  let partialRow ← rem shape.row size.1
  bail (partialRow ≠ 0) "misaligned GGUF tensor"
  let shift ← rem offset alignment
  bail (shift ≠ 0) "misaligned GGUF tensor"
  let blocks ← div shape.elements size.1
  let length ← context (checked (blocks * size.2)) "GGUF tensor byte size overflow"
  let next ← context (checked (offset + length)) "GGUF tensor offset overflow"
  return {
    types     := insertType kind descriptors.types
    names     := name :: descriptors.names
    intervals := descriptors.intervals ++ [(offset, next)]
  }

structure Descriptions where
  count       : Nat
  metadata    : Metadata
  descriptors : Descriptors

def readDescriptions : Reader Descriptions := do
  let magic ← bytes 4
  bail (magic ≠ "GGUF".toList.map Char.toUInt8) "invalid GGUF magic"
  let version ← u32
  bail (version ≠ 2 ∧ version ≠ 3) "unsupported GGUF version/endian order"
  let count ← u64
  let metadataCount ← u64
  bail (count = 0 ∨ 1000000 < count ∨ 1000000 < metadataCount) "invalid GGUF descriptor counts"
  let metadata ← iterate readEntry metadataCount {}
  let descriptors ← iterate (readTensor metadata.alignment) count {}
  return { count, metadata, descriptors }

def isBefore (interval other : Nat × Nat) : Prop :=
  interval.1 < other.1 ∨ interval.1 = other.1 ∧ interval.2 ≤ other.2

instance decidableIsBefore : DecidableRel isBefore :=
  fun interval other => inferInstanceAs (Decidable (interval.1 < other.1 ∨ _ ∧ _))

def checkPayloads (start size : Nat) : List (Nat × Nat) → Nat → Reader Unit
  | [], _               => pure ()
  | interval :: rest, last => do
    bail (interval.1 < last ∨ (checked (start + interval.2)).all (size < ·))
      "overlapping or truncated GGUF tensor payload"
    checkPayloads start size rest interval.2

-- The payloads start at the next multiple of the alignment.
def layout (descriptions : Descriptions) : Reader GgufInspection := do
  let reader ← get
  let alignment := descriptions.metadata.alignment
  let last ← sub alignment 1
  let padded ← context (checked (reader.position + last)) "GGUF data offset overflow"
  let units ← div padded alignment
  let start ← mul units alignment
  checkPayloads start reader.size (descriptions.descriptors.intervals.insertionSort isBefore) 0
  return {
    tensorTypes  := descriptions.descriptors.types
    tensorCount  := descriptions.count
    architecture := descriptions.metadata.architecture
  }

def inspect : Reader GgufInspection := do
  let descriptions ← readDescriptions
  layout descriptions

-- A regular file, the size of which is a number of 64 bits.
structure File where
  bytes : List UInt8
  bound : bytes.length < 2 ^ 64

def inspectGguf (file : File) : EStateM.Result Failure GgufReader GgufInspection :=
  inspect { rest := file.bytes, size := file.bytes.length, position := 0 }

end ModelStore.Gguf
