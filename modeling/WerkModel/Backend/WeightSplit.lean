import WerkModel.Backend.ExpertManagerBudget
import WerkModel.Backend.NgramCache

-- The memory that is left for streamed weights is divided between the cache of experts and the
-- cache of rows of N-grams, each of which has a minimum of its own.
namespace Backend
namespace WeightSplit

open TextCheckpoint NgramCache ExpertManager

def admissionHeadroomBytes : Int := 64 * 1024 * 1024

-- The layers of a checkpoint that have experts.
structure Layout (cp : Checkpoint) where
  layers    : List Nat
  nodup     : layers.Nodup
  length_eq : layers.length = cp.inventory.layerBytes.length

variable {cp : Checkpoint}

def Layout.geometry (layout : Layout cp) : Geometry where
  expertBytes := {
    items := layout.layers.zip cp.inventory.layerBytes
    nodup := by
      rw [List.map_fst_zip layout.length_eq.le]
      exact layout.nodup
  }
  experts     := cp.inventory.experts
  cacheBytes  := cp.cacheBytes.toNat

-- The rows that are in use are leased.
structure TextManager (V W : Type) where
  experts : Manager V
  ngrams  : Ngrams W
  opens   : List (String × (Nat × Nat))

-- What is read of the scheduler for an admission.
structure Sample where
  current : Int
  peak    : Int
  caps    : List Int

def nonExpert (current : Int) (resident : Nat) : Int :=
  max 0 (current - resident)

-- A limit that is not positive is not known.
def Sample.cap (sample : Sample) : Option Int :=
  (sample.caps.filter (0 < ·)).min?

def Sample.available (sample : Sample) (resident : Nat) : Option Int :=
  sample.cap.map fun cap =>
    cap - nonExpert sample.current resident - sample.peak - workspaceBytes -
      admissionHeadroomBytes

namespace TextManager

variable {V W : Type} (layout : Layout cp) (m : TextManager V W)

def rows : SharedCache.World String (Nat × Nat) W :=
  ⟨m.ngrams.cache, [], m.opens⟩

-- The use and the budget of the cache for rows.
def auxiliaryCacheUsage (cp : Checkpoint) : Nat × Nat :=
  if cp.ngramBudgetBytes = 0 then (0, 0) else (m.ngrams.cache.used, m.ngrams.cache.budget)

def cacheTotals (cp : Checkpoint) : Nat × Nat :=
  (m.experts.resident + (m.auxiliaryCacheUsage cp).1,
    m.experts.effective + (m.auxiliaryCacheUsage cp).2)

-- The weights in the caches are a part of the usage. The room that is left in them is added.
def current (cp : Checkpoint) (usage : Int) : Int :=
  if m.experts.active then
    usage + max 0 ((m.cacheTotals cp).2 - (m.cacheTotals cp).1) + workspaceBytes
  else
    usage

def expertMinimum : Int :=
  if cp.expertsEnabled then
    ↑(layout.geometry.bytes m.experts.inUse + layout.geometry.largest)
  else
    0

def resizeCache (budget : Int) : Except Failure Unit × Manager V :=
  if cp.expertsEnabled then m.experts.resizeCache layout.geometry budget else (.ok (), m.experts)

def split (available : Int) : Except String Unit × TextManager V W :=
  match m.ngrams.resizeAuxiliaryCache cp (m.expertMinimum layout) available with
  | (.error error, ngrams) => (.error error, { m with ngrams })
  | (.ok taken, ngrams)    =>
    let (result, experts) := m.resizeCache layout (available - taken)
    (result.mapError Failure.text, { m with experts, ngrams })

def prepare (sample : Sample) : Except String Unit × TextManager V W :=
  if m.experts.active then
    match sample.available (m.cacheTotals cp).1 with
    | none           => (.ok (), m)
    | some available => m.split layout available
  else
    (.ok (), m)

def deactivate : TextManager V W :=
  { m with
    experts := m.experts.deactivate
    ngrams  := { m.ngrams with
      cache := { m.ngrams.cache with entries := .empty, used := 0, stats := .empty } } }

end TextManager

-- What happens to the experts between two admissions: the experts that are pinned or leased
-- change, an expert is acquired, or it is evicted by the operator.
inductive ExpertEvent (V : Type)
  | load
  | pin     (keys : Finset (Nat × Nat))
  | lease   (keys : Finset (Nat × Nat))
  | acquire (key : Nat × Nat) (loaded : Except String V) (now : Option Nat)
  | evict   (key : Nat × Nat)

def stepExperts {V : Type} (g : Geometry) (m : Manager V) : ExpertEvent V → Option (Manager V)
  | .load                   => some { m with active := true }
  | .pin keys               =>
    if ∀ key ∈ keys, g.Known key then some { m with pinned := keys } else none
  | .lease keys             =>
    if ∀ key ∈ keys, g.Known key then some { m with leased := keys } else none
  | .acquire key loaded now =>
    if g.Known key then some (m.acquire g key loaded now).2 else none
  | .evict key              =>
    if key ∈ m.cache ∧ key ∉ m.pinned then some (m.pop g key) else none

inductive Event (V W : Type)
  | expert (event : ExpertEvent V)
  | acquireRow (key : Nat × Nat) (size : Nat) (loaded : Except String W)
  | releaseRow (key : Nat × Nat)
  | prepare (sample : Sample)
  | deactivate

section Rows

variable {W : Type}

-- A row is loaded under the lock of the cache.
def acquireRow (cache : SharedCache String (Nat × Nat) W) (key : Nat × Nat) (size : Nat)
    (loaded : Except String W) : Option W × SharedCache String (Nat × Nat) W :=
  match cache.acquire ("ple", key) size with
  | (.error _, cache)         => (none, cache)
  | (.ok (some value), cache) => (some value, cache)
  | (.ok none, cache)         =>
    match loaded with
    | .error _  => (none, cache.abandon ("ple", key) size)
    | .ok value => (some value, cache.store ("ple", key) size value)

end Rows

variable {V W : Type}

-- Experts and rows are used only if they are streamed. The model is given up while no row is used.
def step (layout : Layout cp) (m : TextManager V W) : Event V W → Option (TextManager V W)
  | .expert event               =>
    if cp.expertsEnabled then
      (stepExperts layout.geometry m.experts event).map fun experts => { m with experts }
    else
      none
  | .acquireRow key size loaded =>
    if cp.ngramsEnabled ∧ (size : Int) ≤ cp.inventory.largestNgramRowBytes then
      match acquireRow m.ngrams.cache key size loaded with
      | (none, cache)   => some { m with ngrams := { m.ngrams with cache } }
      | (some _, cache) => some { m with
          ngrams := { m.ngrams with cache }
          opens  := ("ple", key) :: m.opens }
    else
      none
  | .releaseRow key             =>
    (m.rows.step (.release ("ple", key))).map fun result => { m with
      ngrams := { m.ngrams with cache := result.1.cache }
      opens  := result.1.opens }
  | .prepare sample             => some (m.prepare layout sample).2
  | .deactivate                 => if m.opens = [] then some m.deactivate else none

def system (layout : Layout cp) : System (TextManager V W) (Event V W) Unit where
  Init m := ∃ grouped segmented ngrams,
    NgramCache.new cp = .ok ngrams ∧ m = ⟨new layout.geometry grouped segmented, ngrams, []⟩
  Step m event _ next := step layout m event = some next

end WeightSplit
end Backend
