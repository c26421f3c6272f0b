import WerkModel.Lib.Checks

-- The memory of a streamed text checkpoint: the budgets of its caches for experts and for rows of
-- N-grams, which are chosen for the memory of the device unless they are given.
open Checks

namespace Backend.TextCheckpoint

def mib : Int := 1024 ^ 2

def gib : Int := 1024 ^ 3

def workspaceBytes : Int := 1024 * 1024 * 1024

def allocatorCacheBytes : Int := 64 * 1024 * 1024

-- A part of a table of N-grams: its rows, and the sizes of its weight, its scales and its biases,
-- which have that many rows each. A tensor has no dimension of zero.
structure Part where
  rows     : Nat
  weight   : Nat
  scales   : Nat
  biases   : Nat
  rows_pos : 0 < rows

-- A table has at least one part.
structure Table where
  dims     : Nat
  parts    : List Part
  dims_pos : 0 < dims
  nonempty : parts ≠ []

-- What was read of the headers of a checkpoint, which has a layer with experts.
structure Inventory where
  layerBytes  : List Nat
  experts     : Nat
  base        : List Nat
  ple         : List Nat
  pleTables   : List Table
  nonempty    : layerBytes ≠ []
  experts_pos : 0 < experts

-- A row is stored, staged for its conversion, and decoded.
def Part.rowBytes (part : Part) (dims : Nat) : Nat :=
  2 * (part.weight / part.rows + part.scales / part.rows + part.biases / part.rows) + 4 * dims

namespace Inventory

variable (inv : Inventory)

-- The number of rows of each part, and the size of one of them.
def rows : List (Nat × Nat) :=
  inv.pleTables.flatMap fun table =>
    table.parts.map fun part => (part.rows, part.rowBytes table.dims)

def totalExpertBytes : Int :=
  ↑(inv.layerBytes.sum * inv.experts)

def largestExpertBytes : Int :=
  ↑(inv.layerBytes.max?.getD 0)

def ngramStorageBytes : Int :=
  ↑inv.ple.sum

def largestNgramRowBytes : Int :=
  ↑((inv.rows.map Prod.snd).max?.getD 0)

def maximumNgramCacheBytes : Int :=
  ((inv.rows.map fun row => row.1 * row.2).sum : Nat)

def denseBytes : Int :=
  ↑inv.base.sum

end Inventory

inductive Mode
  | disabled
  | auto
  | explicit
  deriving DecidableEq

structure Checkpoint where
  inventory              : Inventory
  expertsEnabled         : Bool
  cacheBudgetMode        : Mode
  cacheBytes             : Int
  ngramsEnabled          : Bool
  ngramBudgetMode        : Mode
  ngramBudgetBytes       : Int
  ngramInitialCacheBytes : Int
  baseBytes              : Int
  residentEstimateBytes  : Int

-- Zero stands for the other value.
def orElse (bytes other : Int) : Int :=
  if bytes = 0 then other else bytes

def residentEstimate (inv : Inventory) (baseBytes cacheBytes : Int) : Int :=
  baseBytes + min cacheBytes inv.totalExpertBytes + workspaceBytes

def init (inv : Inventory) (expertBytes ngramBytes : Option Int) : Except String Checkpoint := do
  ensure (expertBytes.all (0 ≤ ·))
    "expert cache requires nonnegative bytes; zero means Auto internally"
  let expertsEnabled := expertBytes.isSome
  let cacheBudgetMode : Mode :=
    if expertBytes = none then .disabled else if expertBytes = some 0 then .auto else .explicit
  let cacheBytes := expertBytes.elim 0 (orElse · inv.totalExpertBytes)
  ensure (expertsEnabled → inv.largestExpertBytes ≤ cacheBytes)
    "expert cache must fit one complete routed expert"
  ensure (ngramBytes.all (0 ≤ ·)) "N-gram cache budget must be nonnegative bytes"
  ensure (ngramBytes.getD 0 ≠ 0 → ¬inv.pleTables.isEmpty)
    "this checkpoint has no supported N-gram tables"
  let ngramsEnabled := !inv.pleTables.isEmpty && decide (ngramBytes ≠ some 0)
  let ngramBudgetMode : Mode :=
    if ¬ngramsEnabled then .disabled else if ngramBytes = none then .auto else .explicit
  let ngramBudgetBytes :=
    if ngramsEnabled then
      min (orElse (ngramBytes.getD 0) inv.maximumNgramCacheBytes) inv.maximumNgramCacheBytes
    else
      0
  ensure (ngramsEnabled → inv.largestNgramRowBytes ≤ ngramBudgetBytes)
    "N-gram cache must fit one complete row including dequantization"
  let ngramInitialCacheBytes :=
    if ngramBudgetMode = .auto then
      min ngramBudgetBytes (max (64 * mib) inv.largestNgramRowBytes)
    else
      ngramBudgetBytes
  let baseBytes := inv.denseBytes + ngramInitialCacheBytes +
    (if ngramsEnabled then 0 else inv.ngramStorageBytes) +
    (if expertsEnabled then 0 else inv.totalExpertBytes)
  return {
    inventory              := inv
    expertsEnabled         := expertsEnabled
    cacheBudgetMode        := cacheBudgetMode
    cacheBytes             := cacheBytes
    ngramsEnabled          := ngramsEnabled
    ngramBudgetMode        := ngramBudgetMode
    ngramBudgetBytes       := ngramBudgetBytes
    ngramInitialCacheBytes := ngramInitialCacheBytes
    baseBytes              := baseBytes
    residentEstimateBytes  := residentEstimate inv baseBytes cacheBytes
  }

-- Nine tenths of the limit, rounded down, as long as the system keeps two gibibytes.
def usable (metalLimit availableMemory : Int) : Int :=
  min (metalLimit * 9 / 10) (max 0 (availableMemory - 2 * gib))

def integer (value : Int) (name : String) : Except String PUnit :=
  ensure (0 ≤ value) (name ++ " must be an integer >= 0")

def positiveInt (value : Int) (label : String) : Except String PUnit :=
  ensure (0 < value) (label ++ " must be a positive integer")

def automaticNgramBudget (metalLimit availableMemory baseBytes expertMinimum minimumRowBytes
    maximumRowCacheBytes : Int) : Except String Int := do
  integer metalLimit "metal_limit"
  integer availableMemory "available_memory"
  integer baseBytes "base_bytes"
  integer expertMinimum "expert_minimum"
  integer minimumRowBytes "minimum_row_bytes"
  integer maximumRowCacheBytes "maximum_row_cache_bytes"
  ensure (metalLimit ≠ 0 ∧ availableMemory ≠ 0 ∧ minimumRowBytes ≠ 0 ∧
      minimumRowBytes ≤ maximumRowCacheBytes)
    "N-gram Auto requires valid memory telemetry and row geometry"
  let room := usable metalLimit availableMemory -
    (baseBytes + workspaceBytes + allocatorCacheBytes)
  ensure (expertMinimum + minimumRowBytes ≤ room)
    "not enough memory for base weights, workspace, one N-gram row and one expert"
  let share := if expertMinimum ≠ 0 then max minimumRowBytes (room / 8) else room
  return min (min maximumRowCacheBytes (room - expertMinimum)) share

namespace Checkpoint

variable (c : Checkpoint) (metalLimit availableMemory : Int)

def automaticCacheBudget : Except String Int := do
  positiveInt metalLimit "Metal working-set limit"
  positiveInt availableMemory "available system memory"
  let reserve := workspaceBytes + allocatorCacheBytes
  let room := usable metalLimit availableMemory
  let budget := min c.inventory.totalExpertBytes (room - c.baseBytes - reserve)
  ensure (c.inventory.largestExpertBytes ≤ budget)
    "not enough available memory for base weights, workspace and one routed expert"
  return budget

-- Experts that fit are loaded with the base weights, and the tables of N-grams as well if they
-- still fit then.
def selectResidentExperts : Checkpoint :=
  let room := usable metalLimit availableMemory - (workspaceBytes + allocatorCacheBytes)
  let resident := c.baseBytes + c.inventory.totalExpertBytes
  if c.cacheBudgetMode ≠ .auto ∨ ¬c.expertsEnabled ∨ resident > room then
    c
  else
    let native := { c with expertsEnabled := false, cacheBytes := 0, baseBytes := resident }
    if c.ngramBudgetMode = .auto ∧
        resident - c.ngramInitialCacheBytes + c.inventory.ngramStorageBytes ≤ room then
      { native with
        baseBytes :=
          native.baseBytes + (c.inventory.ngramStorageBytes - c.ngramInitialCacheBytes)
        ngramsEnabled          := false
        ngramBudgetMode        := .disabled
        ngramBudgetBytes       := 0
        ngramInitialCacheBytes := 0 }
    else
      native

def configureNgrams : Except String Checkpoint :=
  if c.ngramBudgetMode = .auto then do
    let budget ← automaticNgramBudget metalLimit availableMemory
      (c.baseBytes - c.ngramInitialCacheBytes)
      (if c.expertsEnabled then c.inventory.largestExpertBytes else 0)
      c.inventory.largestNgramRowBytes c.inventory.maximumNgramCacheBytes
    let initial := min c.ngramInitialCacheBytes budget
    return { c with
      ngramBudgetBytes       := budget
      baseBytes              := c.baseBytes + (initial - c.ngramInitialCacheBytes)
      ngramInitialCacheBytes := initial }
  else
    .ok c

def configureExperts : Except String Checkpoint :=
  if c.cacheBudgetMode = .auto ∧ c.expertsEnabled then do
    let budget ← c.automaticCacheBudget metalLimit availableMemory
    return { c with cacheBytes := budget }
  else
    .ok c

-- The memory is read only for a budget that is chosen.
def configureAuto : Except String Checkpoint := do
  let c ←
    if c.cacheBudgetMode = .auto ∨ c.ngramBudgetMode = .auto then
      (c.selectResidentExperts metalLimit availableMemory).configureNgrams metalLimit
        availableMemory
    else
      .ok c
  let c ← c.configureExperts metalLimit availableMemory
  return { c with
    residentEstimateBytes := residentEstimate c.inventory c.baseBytes c.cacheBytes }

end Checkpoint

end Backend.TextCheckpoint
