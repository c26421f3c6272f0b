import WerkModel.Lib.Checks
import WerkModel.Lib.Infix
import WerkModel.Lib.Utf8

-- The inventory of the expert weights in a model file, from the directory of its tensors.
open Checks

namespace Backend.ModelPrefetch

-- Arithmetic that the code does not check fails with an overflow.
inductive Failure
  | message (text : String)
  | overflow
  deriving DecidableEq

abbrev Fallible (α : Type) := Except Failure α

def u64Max : Nat := 2 ^ 64 - 1

def add (a b : Nat) : Fallible Nat :=
  checkedAdd u64Max .overflow a b

def sub (a b : Nat) : Fallible Nat :=
  if b ≤ a then .ok (a - b) else .error .overflow

def mul (a b : Nat) : Fallible Nat :=
  checkedMul u64Max .overflow a b

def div (a b : Nat) : Fallible Nat :=
  if b = 0 then .error .overflow else .ok (a / b)

def rem (a b : Nat) : Fallible Nat :=
  if b = 0 then .error .overflow else .ok (a % b)

def check (condition : Prop) [Decidable condition] (text : String) : Fallible Unit :=
  ensure condition (.message text)

def maxMetadataBytes : Nat := 64 * 1024 * 1024

def maxTensors : Nat := 100000

def maxMetadataValues : Nat := 16384

def maxShards : Nat := 256

def maxTensorNameBytes : Nat := 4096

inductive CpuMoePlacement
  | all
  | firstLayers (count : UInt32)

structure Range where
  offset : Nat
  length : Nat
  deriving DecidableEq

-- The first byte after a range.
def Range.stop (range : Range) : Nat :=
  range.offset + range.length

inductive GgmlDType
  | f32 | f16 | q4_0 | q4_1 | q5_0 | q5_1 | q8_0 | q8_1 | q2K | q3K | q4K | q5K | q6K | q8K | bf16
  deriving DecidableEq

inductive Alignment
  | u8 (value : UInt8)
  | u16 (value : UInt16)
  | u32 (value : UInt32)
  | u64 (value : UInt64)
  | other

inductive MetadataFailure
  | panic
  | invalid

-- The parser of the metadata, which consumes a number of bytes and may find an alignment, and the
-- sizes of the blocks of quantized tensors.
structure Candle where
  read      : List UInt8 → Except MetadataFailure (Option Alignment × Nat)
  blockSize : GgmlDType → Nat
  typeSize  : GgmlDType → Nat

structure Candle.Lawful (candle : Candle) : Prop where
  read      : ∀ bytes alignment count, candle.read bytes = .ok (alignment, count) →
    count ≤ bytes.length
  blockSize : ∀ dtype, 0 < candle.blockSize dtype
  typeSize  : ∀ dtype, 0 < candle.typeSize dtype

-- What is left of a file, and how much of it may still be read.
structure MetadataReader where
  rest      : List UInt8
  position  : Nat
  remaining : Nat

namespace MetadataReader

def readExact (reader : MetadataReader) (count : Nat) :
    Fallible (List UInt8 × MetadataReader) := do
  check (count ≤ reader.remaining) "GGUF metadata read limit exceeded"
  check (count ≤ reader.rest.length) "failed to fill whole buffer"
  let position ← add reader.position count
  let remaining ← sub reader.remaining count
  return (reader.rest.take count, { rest := reader.rest.drop count, position, remaining })

end MetadataReader

def fromLeBytes (bytes : List UInt8) : Nat :=
  bytes.foldr (fun byte value => byte.toNat + 256 * value) 0

def readInteger (size : Nat) (reader : MetadataReader) : Fallible (Nat × MetadataReader) := do
  let (bytes, reader) ← reader.readExact size
  return (fromLeBytes bytes, reader)

def readU32 (reader : MetadataReader) : Fallible (Nat × MetadataReader) :=
  readInteger 4 reader

def readU64 (reader : MetadataReader) : Fallible (Nat × MetadataReader) :=
  readInteger 8 reader

def readDimensions : Nat → MetadataReader → Fallible (List Nat × MetadataReader)
  | 0, reader         => return ([], reader)
  | count + 1, reader => do
    let (dimension, reader) ← readU64 reader
    let (dimensions, reader) ← readDimensions count reader
    return (dimension :: dimensions, reader)

def knownDType (dtype : Nat) : Fallible GgmlDType :=
  match dtype with
  | 0  => .ok .f32
  | 1  => .ok .f16
  | 2  => .ok .q4_0
  | 3  => .ok .q4_1
  | 6  => .ok .q5_0
  | 7  => .ok .q5_1
  | 8  => .ok .q8_0
  | 9  => .ok .q8_1
  | 10 => .ok .q2K
  | 11 => .ok .q3K
  | 12 => .ok .q4K
  | 13 => .ok .q5K
  | 14 => .ok .q6K
  | 15 => .ok .q8K
  | 30 => .ok .bf16
  | _  => .error <| .message <| "unsupported GGUF inventory tensor dtype " ++ toString dtype

-- Known scalar routing tables need only their storage width.
def Candle.layout (candle : Candle) (dtype : Nat) : Fallible (Nat × Nat) :=
  if dtype = 26 then
    return (1, 4)
  else do
    let known ← knownDType dtype
    return (candle.blockSize known, candle.typeSize known)

def tensorBytes (candle : Candle) (dtype : Nat) (dimensions : List Nat) : Fallible Nat := do
  check ((1 ≤ dimensions.length ∧ dimensions.length ≤ 4) ∧ ∀ dimension ∈ dimensions, 0 < dimension)
    "GGUF tensor dimensions are invalid"
  let elements ←
    dimensions.foldlM (checkedMul u64Max (.message "GGUF tensor dimension overflow")) 1
  let (blockSize, typeSize) ← candle.layout dtype
  let unaligned ← rem (dimensions.headD 0) blockSize
  check (unaligned = 0) "GGUF quantized tensor row is not block aligned"
  let blocks ← div elements blockSize
  checkedMul u64Max (.message "GGUF tensor byte length overflow") blocks typeSize

def expertPatterns : List (List Char) :=
  [".ffn_up_exps", ".ffn_up_chexps", ".ffn_down_exps", ".ffn_down_chexps", ".ffn_gate_exps",
    ".ffn_gate_chexps", ".ffn_gate_up_exps", ".ffn_gate_up_chexps"].map String.toList

-- What precedes the occurrences of a pattern.
def matchIndices (name pattern : List Char) : List (List Char) :=
  (List.range (name.length + 1)).filterMap fun start =>
    if pattern <+: name.drop start then some (name.take start) else none

-- What follows the last occurrence of a separator.
def afterLast (separator text : List Char) : Option (List Char) :=
  text.tails.reverse.findSome? fun tail =>
    if separator <+: tail then some (tail.drop separator.length) else none

def isLayerBelow (count : UInt32) (number : List Char) : Bool :=
  match (String.ofList number).toNat? with
  | none       => false
  | some layer => layer < count.toNat ∧ number = (toString layer).toList

def matchesExpert (name : List Char) (placement : CpuMoePlacement) : Bool :=
  expertPatterns.any fun pattern => (matchIndices name pattern).any fun before =>
    match placement with
    | .all               => true
    | .firstLayers count => (afterLast "blk.".toList before).any (isLayerBelow count)

-- A tensor, and whether it is selected.
abbrev Region := Range × Bool

def readTensor (candle : Candle) (placement : CpuMoePlacement) (alignment : Nat)
    (names : List (List Char)) (reader : MetadataReader) :
    Fallible (Region × List Char × MetadataReader) := do
  let (nameLength, reader) ← readU64 reader
  check (0 < nameLength ∧ nameLength ≤ maxTensorNameBytes ∧ nameLength ≤ reader.remaining)
    "GGUF tensor name exceeds inventory limit"
  let (nameBytes, reader) ← reader.readExact nameLength
  let name ← (Utf8.decode nameBytes).elim (.error (.message "invalid GGUF tensor name")) .ok
  check (¬names.contains name) "GGUF contains duplicate tensor names"
  let (dimensionCount, reader) ← readU32 reader
  check (1 ≤ dimensionCount ∧ dimensionCount ≤ 4) "GGUF tensor dimensions are invalid"
  let (dimensions, reader) ← readDimensions dimensionCount reader
  let (dtype, reader) ← readU32 reader
  let length ← tensorBytes candle dtype dimensions
  let (offset, reader) ← readU64 reader
  let unaligned ← rem offset alignment
  check (unaligned = 0) "GGUF tensor offset is not aligned"
  return (({ offset, length }, matchesExpert name placement), name, reader)

def readDirectory (candle : Candle) (placement : CpuMoePlacement) (alignment : Nat) :
    Nat → List (List Char) → MetadataReader → Fallible (List Region × MetadataReader)
  | 0, _, reader             => return ([], reader)
  | tensors + 1, names, reader => do
    let (region, name, reader) ← readTensor candle placement alignment names reader
    let (regions, reader) ← readDirectory candle placement alignment tensors (name :: names) reader
    return (region :: regions, reader)

instance decidableIsPowerOfTwo (n : Nat) : Decidable n.isPowerOfTwo :=
  decidable_of_iff _ Nat.ne_zero_and_sub_one_eq_zero_iff_isPowerOfTwo

def alignedDataOffset (position alignment : Nat) : Fallible Nat := do
  check alignment.isPowerOfTwo "GGUF alignment must be a nonzero power of two"
  let padding ← sub alignment 1
  let value ← checkedAdd u64Max (.message "GGUF data alignment overflow") position padding
  let blocks ← div value alignment
  mul blocks alignment

def place (dataOffset fileSize : Nat) (region : Region) : Fallible Region := do
  let offset ← checkedAdd u64Max (.message "GGUF tensor offset overflow") dataOffset region.1.offset
  check (offset + region.1.length ≤ u64Max ∧ offset + region.1.length ≤ fileSize)
    "GGUF tensor range is outside the shard"
  return ({ region.1 with offset }, region.2)

def checkOverlaps : List Region → Fallible Unit
  | first :: second :: regions => do
    let stop ← add first.1.offset first.1.length
    check (stop ≤ second.1.offset) "GGUF tensor ranges overlap"
    checkOverlaps (second :: regions)
  | _ => .ok ()

def sortByOffset (regions : List Region) : List Region :=
  regions.insertionSort fun a b => a.1.offset ≤ b.1.offset

def alignmentOf : Option Alignment → Fallible Nat
  | none              => .ok 32
  | some (.u8 value)  => .ok value.toNat
  | some (.u16 value) => .ok value.toNat
  | some (.u32 value) => .ok value.toNat
  | some (.u64 value) => .ok value.toNat
  | some .other       => .error <| .message "unsupported GGUF alignment metadata"

-- The header is read with a count of zero tensors.
def withoutTensors (bytes : List UInt8) : List UInt8 :=
  bytes.take 8 ++ (bytes.drop 8).mapIdx fun index byte => if index < 8 then 0 else byte

def readMetadata (candle : Candle) (bytes : List UInt8) (fileSize : Nat) :
    Fallible (Option Alignment × MetadataReader) :=
  let limit := min maxMetadataBytes fileSize
  match candle.read (withoutTensors (bytes.take limit)) with
  | .error .panic   => .error <| .message "GGUF metadata parser rejected invalid metadata"
  | .error .invalid =>
    .error <| .message "GGUF metadata is unsupported or invalid for expert inventory"
  | .ok (alignment, count) =>
    .ok (alignment, { rest := bytes.drop count, position := count, remaining := limit - count })

-- The tensors of a file in the order of their offsets.
def shardTensors (candle : Candle) (bytes : List UInt8) (fileSize : Nat)
    (placement : CpuMoePlacement) : Fallible (List Region) := do
  check (8 ≤ bytes.length) "failed to fill whole buffer"
  check (bytes.take 4 = "GGUF".toUTF8.toList) "unsupported GGUF magic"
  let version := fromLeBytes ((bytes.drop 4).take 4)
  check (version ∈ [2, 3]) "unsupported GGUF inventory version"
  check (24 ≤ bytes.length) "failed to fill whole buffer"
  let tensors := fromLeBytes ((bytes.drop 8).take 8)
  let metadataValues := fromLeBytes ((bytes.drop 16).take 8)
  check (tensors ≤ maxTensors) "GGUF tensor count exceeds inventory limit"
  check (metadataValues ≤ maxMetadataValues) "GGUF metadata count exceeds inventory limit"
  let (alignment, reader) ← readMetadata candle bytes fileSize
  let alignment ← alignmentOf alignment
  check alignment.isPowerOfTwo "GGUF alignment must be a nonzero power of two"
  if tensors = 0 then
    return []
  else do
    let (regions, reader) ← readDirectory candle placement alignment tensors [] reader
    let dataOffset ← alignedDataOffset reader.position alignment
    check (dataOffset ≤ fileSize) "GGUF data offset is outside the shard"
    let regions ← regions.mapM (place dataOffset fileSize)
    let regions := sortByOffset regions
    checkOverlaps regions
    return regions

def selected (regions : List Region) : List Range :=
  regions.filterMap fun region => if region.2 then some region.1 else none

def inventoryShard (candle : Candle) (bytes : List UInt8) (fileSize : Nat)
    (placement : CpuMoePlacement) : Fallible (List Range) := do
  let regions ← shardTensors candle bytes fileSize placement
  return selected regions

-- A file of the model as it is found when its metadata is read.
structure Shard where
  path      : String
  bytes     : List UInt8
  size      : Nat
  isFile    : Bool
  unchanged : Bool

structure ModelFileRegions where
  path     : String
  fileSize : Nat
  ranges   : List Range
  deriving DecidableEq

structure Plan where
  files      : List ModelFileRegions
  totalBytes : Nat
  deriving DecidableEq

def Plan.inventory (candle : Candle) (placement : CpuMoePlacement) (plan : Plan) (shard : Shard) :
    Fallible Plan := do
  check shard.isFile "GGUF shard is not a regular file"
  let ranges ← inventoryShard candle shard.bytes shard.size placement
  check shard.unchanged "GGUF shard changed during metadata inspection"
  let totalBytes ← checkedSum u64Max (.message "CPU expert inventory size overflow")
    plan.totalBytes (ranges.map Range.length)
  let file := { path := shard.path, fileSize := shard.size, ranges }
  return { files := if ranges = [] then plan.files else plan.files ++ [file], totalBytes }

def inventoryCpuExperts (candle : Candle) (placement : CpuMoePlacement) (shards : List Shard) :
    Fallible Plan := do
  check (shards.length ≤ maxShards) "too many GGUF shards to inventory"
  shards.foldlM (Plan.inventory candle placement) { files := [], totalBytes := 0 }

end Backend.ModelPrefetch
