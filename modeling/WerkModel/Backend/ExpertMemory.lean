import WerkModel.Lib.Paging
import WerkModel.Backend.ModelPrefetchLinux

-- The bytes of the expert weights that are resident, as the kernel tells without reading them.
open Checks Paging

namespace Backend.ExpertMemory

open ModelPrefetch

-- What the kernel tells while a chunk is sampled: whether the deadline is over, the numbers of
-- cached pages of the chunk, of its first and of its last page, and the status of each page. Any
-- of the calls may fail.
structure Sample where
  expired : Bool
  whole   : Option Nat
  first   : Option Nat
  last    : Option Nat
  pages   : Option (List UInt8)

-- The calls that concern a file, which may not be found, and the samples by the range and the place
-- of the chunk.
structure Shard where
  failure   : Option String
  same      : Bool
  owned     : Bool
  mapped    : Bool
  unchanged : Bool
  sample    : Nat → Nat → Nat → Sample

-- The bits of a number of eight bytes.
def countOnes (n : Nat) : Nat :=
  (List.range 64).countP n.testBit

-- Groups of eight pages are counted at once, by the lowest bits of their status.
def countMixed : List UInt8 → Nat
  | a :: b :: c :: d :: e :: f :: g :: h :: pages =>
    countOnes (fromLeBytes [a, b, c, d, e, f, g, h] &&& 0x0101010101010101) + countMixed pages
  | remainder => (remainder.map fun byte => (byte &&& 1).toNat).sum

def countPages (pages : List UInt8) : Nat :=
  if pages.length ≤ 8192 ∧ pages = List.replicate pages.length 1 then
    pages.length
  else if pages.length ≤ 8192 ∧ pages = List.replicate pages.length 0 then
    0
  else
    countMixed pages

-- Whether bytes of the page at a boundary belong to others, which is asked only if there are any.
def cutAt (outside : Prop) [Decidable outside] (cached : Option Nat) : Option Bool :=
  if outside then cached.map (0 < ·) else some false

section

-- The subtraction that does not go below zero.
variable (minus : Nat → Nat → Fallible Nat)

def withoutPadding (cut : Bool) (bytes : Nat) (padding : Fallible Nat) : Fallible Nat :=
  if cut then do
    let padding ← padding
    minus bytes padding
  else
    return bytes

def residentOverlap (pages : List UInt8) (offset page start stop : Nat) : Fallible Nat := do
  let bytes ← mul (countPages pages) page
  let bytes ← withoutPadding minus (start > offset ∧ pages.head?.any (· &&& 1 ≠ 0)) bytes
    ((min · page) <$> sub start offset)
  let mapped ← mul pages.length page
  let mappedEnd ← add offset mapped
  withoutPadding minus (stop < mappedEnd ∧ pages.getLast?.any (· &&& 1 ≠ 0)) bytes
    ((min · page) <$> sub mappedEnd stop)

-- Nothing is known if one of the calls that are needed fails.
def cachedOverlap (sample : Sample) (offset length page start stop : Nat) :
    Fallible (Option Nat) := do
  let some count := sample.whole | return none
  let pages ← div length page
  if count > pages then
    return none
  let bytes ← mul count page
  let some cut := cutAt (start > offset) sample.first | return none
  let bytes ← withoutPadding minus cut bytes (sub start offset)
  let high ← add offset length
  let some cut := cutAt (stop < high) sample.last | return none
  let bytes ← withoutPadding minus cut bytes (sub high stop)
  -- The boundary pages may change between the calls.
  let most ← minus (min stop high) (max start offset)
  return some (min bytes most)

def sampleChunk (sample : Sample) (offset length page start stop : Nat) : Fallible Nat := do
  check (¬sample.expired) "residency sample deadline"
  let overlap ← cachedOverlap minus sample offset length page start stop
  match overlap with
  | some bytes => return bytes
  | none       =>
    match sample.pages with
    | none       => throw (.message "residency query failed")
    | some pages => residentOverlap minus pages offset page start stop

variable (page chunk : Nat)

-- The size of a chunk is not zero, which is checked before.
def sampleRange (sample : Nat → Nat → Sample) (start stop alignedEnd offset resident : Nat) :
    Fallible Nat :=
  if _ : offset < alignedEnd ∧ 0 < chunk then do
    let length := min (alignedEnd - offset) chunk
    let bytes ← sampleChunk minus (sample offset length) offset length page start stop
    let resident ← add resident bytes
    let _ ← add offset length
    sampleRange sample start stop alignedEnd (offset + min (alignedEnd - offset) chunk) resident
  else
    return resident
termination_by alignedEnd - offset

variable (totalBytes : Nat)

def sampleRanges (sample : Nat → Nat → Nat → Sample) (fileSize : Nat) :
    Nat → Nat → Nat → Nat → List Range → Fallible (Nat × Nat)
  | _, _, total, resident, []                             => return (total, resident)
  | index, previousEnd, total, resident, range :: ranges => do
    let stop ← checkedAdd u64Max (.message "range overflow") range.offset range.length
    check (range.offset ≥ previousEnd ∧ stop ≤ fileSize) "invalid expert range"
    let total ← checkedAdd u64Max (.message "inventory overflow") total range.length
    check (total ≤ totalBytes) "inventory changed"
    if range.length = 0 then
      sampleRanges sample fileSize (index + 1) stop total resident ranges
    else
      let padding ← sub page 1
      let padded ← checkedAdd u64Max (.message "alignment overflow") stop padding
      let alignedEnd ← alignedDown padded page
      let offset ← alignedDown range.offset page
      let resident ← sampleRange minus page chunk (sample index) range.offset stop alignedEnd offset
        resident
      sampleRanges sample fileSize (index + 1) stop total resident ranges

def sampleShards (kernel : Nat → Shard) :
    Nat → Nat → Nat → List ModelFileRegions → Fallible (Nat × Nat)
  | _, total, resident, []                    => return (total, resident)
  | index, total, resident, regions :: files => do
    let shard := kernel index
    if let some text := shard.failure then
      throw (.message text)
    check shard.same "expert shard changed"
    check shard.owned "residency requires file ownership"
    check (regions.fileSize > 0) "empty expert shard"
    check shard.mapped "residency mmap failed"
    let (total, resident) ← sampleRanges minus page chunk totalBytes shard.sample regions.fileSize 0
      0 total resident regions.ranges
    check shard.unchanged "expert shard changed during sample"
    sampleShards kernel (index + 1) total resident files

end

def maxChunk : Nat := 32 * 1024 * 1024

-- The kernel tells the size of a page, or a negative number.
def residentBytesWith (minus : Nat → Nat → Fallible Nat) (sysconf : Int) (kernel : Nat → Shard)
    (plan : Plan) : Fallible Nat := do
  check (sysconf > 0 ∧ sysconf.toNat.isPowerOfTwo) "invalid page size"
  let page := sysconf.toNat
  let chunk ← alignedDown maxChunk page
  check (chunk > 0) "page too large"
  let (total, resident) ← sampleShards minus page chunk plan.totalBytes kernel 0 0 0
    plan.files
  check (total = plan.totalBytes) "inventory changed"
  return resident

def residentBytes : Int → (Nat → Shard) → Plan → Fallible Nat :=
  residentBytesWith fun a b => return a - b

end Backend.ExpertMemory
