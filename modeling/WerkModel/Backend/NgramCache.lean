import WerkModel.Backend.PleTables
import WerkModel.Backend.SharedCacheSingle
import WerkModel.Backend.TextCheckpointBudgets

-- The cache for rows of N-grams, whose budget follows the memory that is left by the experts.
namespace Backend.NgramCache

open TextCheckpoint

-- Rows are found under their layer and their index in the table.
structure Ngrams (V : Type) where
  cache         : SharedCache String (Nat × Nat) V
  autoTarget    : Int
  lastEvictions : Nat

variable {V : Type}

-- The cache of a checkpoint whose budgets have been chosen.
def new (cp : Checkpoint) : Except String (Ngrams V) := do
  let cache ← SharedCache.new (max 1 cp.ngramInitialCacheBytes.toNat) .empty
  return { cache, autoTarget := cp.ngramInitialCacheBytes, lastEvictions := 0 }

namespace Ngrams

variable (ngrams : Ngrams V) (cp : Checkpoint)

def evictions : Nat :=
  (ngrams.cache.stat "ple").evictions

-- The target grows while rows are evicted from a cache that is almost full.
def grow : Ngrams V :=
  if cp.ngramBudgetMode = .auto then
    { ngrams with
      autoTarget :=
        if ngrams.lastEvictions < ngrams.evictions ∧
            ngrams.cache.budget * 3 ≤ ngrams.cache.used * 4 then
          min cp.ngramBudgetBytes (2 * ngrams.autoTarget)
        else
          ngrams.autoTarget
      lastEvictions := ngrams.evictions }
  else
    ngrams

def target : Int :=
  if cp.ngramBudgetMode = .auto then ngrams.autoTarget else cp.ngramBudgetBytes

def limit (expertMinimum available : Int) : Int :=
  max cp.inventory.largestNgramRowBytes (min (ngrams.target cp) (available - expertMinimum))

-- Evictions for a smaller budget are no demand.
def settle : Ngrams V :=
  if cp.ngramBudgetMode = .auto then { ngrams with lastEvictions := ngrams.evictions } else ngrams

-- The experts keep at least `expertMinimum` bytes.
def resizeAuxiliaryCache (expertMinimum available : Int) : Except String Int × Ngrams V :=
  if cp.ngramBudgetBytes = 0 then
    (.ok 0, ngrams)
  else
    let ngrams := ngrams.grow cp
    let limit := ngrams.limit cp expertMinimum available
    match ngrams.cache.resize limit.toNat with
    | (.error error, cache) => (.error error, { ngrams with cache })
    | (.ok (), cache)       => (.ok limit, { ngrams with cache }.settle cp)

end Ngrams

-- A checkpoint whose budgets have been accepted, and chosen for the memory of a device if needed.
inductive Built : Checkpoint → Prop
  | init {inv expertBytes ngramBytes cp} :
    init inv expertBytes ngramBytes = .ok cp → Built cp
  | auto {cp cp' metalLimit availableMemory} :
    Built cp → cp.configureAuto metalLimit availableMemory = .ok cp' → Built cp'

-- A row of N-grams fits into the initial budget, which is a part of the whole budget.
structure Streams (cp : Checkpoint) : Prop where
  row_pos : 0 < cp.inventory.largestNgramRowBytes
  initial : cp.inventory.largestNgramRowBytes ≤ cp.ngramInitialCacheBytes
  budget  : cp.ngramInitialCacheBytes ≤ cp.ngramBudgetBytes

-- The N-grams are streamed with a mode, or they have no budget.
structure Fitting (cp : Checkpoint) : Prop where
  streams  : cp.ngramsEnabled = true → Streams cp
  disabled : cp.ngramsEnabled = false → cp.ngramBudgetBytes = 0
  auto     : cp.ngramBudgetMode = .auto → cp.ngramsEnabled = true
  expert   : cp.expertsEnabled = true → cp.inventory.largestExpertBytes ≤ cp.cacheBytes

-- The limit is one row, or it leaves room for the experts.
theorem resizeAuxiliaryCache_cases (cp : Checkpoint) (ngrams : Ngrams V)
    (expertMinimum available : Int) :
    cp.ngramBudgetBytes = 0 ∧
        ngrams.resizeAuxiliaryCache cp expertMinimum available = (.ok 0, ngrams) ∨
      cp.ngramBudgetBytes ≠ 0 ∧ ∃ limit : Int, cp.inventory.largestNgramRowBytes ≤ limit ∧
        (limit = cp.inventory.largestNgramRowBytes ∨ limit ≤ available - expertMinimum) ∧
        (ngrams.resizeAuxiliaryCache cp expertMinimum available).1 =
          (ngrams.cache.resize limit.toNat).1.map (fun _ => limit) ∧
        (ngrams.resizeAuxiliaryCache cp expertMinimum available).2.cache =
          (ngrams.cache.resize limit.toNat).2 := by
  by_cases hn : cp.ngramBudgetBytes = 0
  case pos => exact .inl ⟨hn, if_pos hn⟩
  case neg =>
    have hg : (ngrams.grow cp).cache = ngrams.cache := by
      rw [Ngrams.grow]
      split <;> rfl
    refine .inr ⟨hn, (ngrams.grow cp).limit cp expertMinimum available, le_max_left .., ?_, ?_⟩
    case refine_1 =>
      obtain he | he := max_choice cp.inventory.largestNgramRowBytes
        (min ((ngrams.grow cp).target cp) (available - expertMinimum))
      case inl => exact .inl he
      case inr => exact .inr (he.trans_le (min_le_right ..))
    case refine_2 =>
      rw [Ngrams.resizeAuxiliaryCache, if_neg hn, ←hg]
      dsimp only
      rcases (ngrams.grow cp).cache.resize _ with ⟨_ | _, cache⟩
      case error => exact ⟨rfl, rfl⟩
      case ok =>
        simp only [Ngrams.settle]
        split <;> exact ⟨rfl, rfl⟩

-- One row fits after each change of the budget.
theorem resizeAuxiliaryCache_cache {cp : Checkpoint} (s : Streams cp) (ngrams : Ngrams V)
    (expertMinimum available : Int) :
    ∃ limit : Int, cp.inventory.largestNgramRowBytes ≤ limit ∧
      (ngrams.resizeAuxiliaryCache cp expertMinimum available).2.cache =
        (ngrams.cache.resize limit.toNat).2 := by
  obtain ⟨hz, -⟩ | ⟨-, limit, hrow, -, -, hc⟩ :=
    resizeAuxiliaryCache_cases cp ngrams expertMinimum available
  case inl =>
    have := s.row_pos
    have := s.initial
    have := s.budget
    omega
  case inr => exact ⟨limit, hrow, hc⟩

section Built

variable {inv : Inventory} {expertBytes ngramBytes : Option Int} {cp cp' : Checkpoint}
variable {metalLimit availableMemory : Int}

theorem init_fitting (h : init inv expertBytes ngramBytes = .ok cp) : Fitting cp := by
  rw [init] at h
  obtain ⟨-, h⟩ := Checks.ensure_bind_eq_ok.mp h
  obtain ⟨hexpert, h⟩ := Checks.ensure_bind_eq_ok.mp h
  obtain ⟨-, h⟩ := Checks.ensure_bind_eq_ok.mp h
  obtain ⟨-, h⟩ := Checks.ensure_bind_eq_ok.mp h
  obtain ⟨hrow, h⟩ := Checks.ensure_bind_eq_ok.mp h
  obtain rfl := Except.ok.inj h
  refine ⟨fun hn => ?_, fun hn => ?_, fun ha => ?_, hexpert⟩
  case refine_1 =>
    have he : inv.pleTables.isEmpty = false :=
      (Bool.not_eq_true' _).mp (Bool.and_eq_true_iff.mp hn).1
    obtain ⟨hpos, -⟩ := Inventory.largestNgramRowBytes_le he
    have hon : (!inv.pleTables.isEmpty && decide (ngramBytes ≠ some 0)) = true := hn
    simp only [hon, forall_const, if_true] at hrow
    refine ⟨hpos, ?_, ?_⟩
    · simp only [hon, not_true_eq_false, if_false, if_true]
      split
      case isTrue  => exact le_min hrow (le_max_right ..)
      case isFalse => exact hrow
    · simp only [hon, not_true_eq_false, if_false, if_true]
      split
      case isTrue  => exact min_le_left ..
      case isFalse => exact le_refl _
  case refine_2 => exact if_neg (Bool.eq_false_iff.mp hn)
  case refine_3 =>
    simp only at ha ⊢
    split at ha
    case isTrue  => cases ha
    case isFalse h => exact not_not.mp h

theorem selectResidentExperts_fitting (f : Fitting cp) :
    Fitting (cp.selectResidentExperts metalLimit availableMemory) := by
  rw [Checkpoint.selectResidentExperts]
  split
  case isTrue => exact f
  case isFalse =>
    dsimp only
    split
    case isTrue =>
      exact ⟨fun h => (by cases h), fun _ => rfl, fun h => (by cases h), fun h => (by cases h)⟩
    case isFalse =>
      exact ⟨fun h => ⟨(f.streams h).1, (f.streams h).2, (f.streams h).3⟩, f.disabled, f.auto,
        fun h => (by cases h)⟩

theorem configureNgrams_fitting (f : Fitting cp)
    (h : cp.configureNgrams metalLimit availableMemory = .ok cp') : Fitting cp' := by
  obtain ⟨-, rfl⟩ | ⟨ha, budget, hb, rfl⟩ := Checkpoint.configureNgrams_cases h
  case inl => exact f
  case inr =>
    have hs := f.streams (f.auto ha)
    have hrow := hs.initial
    obtain ⟨-, ⟨-, -, -, hmax⟩, hroom, hb⟩ := automaticNgramBudget_eq_ok.mp hb
    have hbudget : cp.inventory.largestNgramRowBytes ≤ budget := by
      generalize (if cp.expertsEnabled = true then cp.inventory.largestExpertBytes else 0) =
        expertMinimum at hroom hb
      rw [hb]
      refine le_min (le_min hmax (by omega)) ?_
      split
      case isTrue    => exact le_max_left ..
      case isFalse h => rw [not_not] at h; omega
    refine ⟨fun _ => ⟨hs.row_pos, le_min hrow hbudget, min_le_right ..⟩, fun h => ?_,
      fun _ => f.auto ha, f.expert⟩
    exact absurd (f.auto ha) (Bool.eq_false_iff.mp h)

theorem configureAuto_fitting (f : Fitting cp)
    (h : cp.configureAuto metalLimit availableMemory = .ok cp') : Fitting cp' := by
  rw [Checkpoint.configureAuto_eq] at h
  obtain ⟨cp₁, h₁, h⟩ := Checks.bind_eq_ok.mp h
  obtain ⟨cp₂, h₂, h⟩ := Checks.bind_eq_ok.mp h
  obtain rfl := Except.ok.inj h
  have f₁ := configureNgrams_fitting (selectResidentExperts_fitting f) h₁
  obtain ⟨-, rfl⟩ | ⟨-, budget, hb, rfl⟩ := Checkpoint.configureExperts_cases h₂
  case inl =>
    exact ⟨fun h => ⟨(f₁.streams h).1, (f₁.streams h).2, (f₁.streams h).3⟩, f₁.disabled, f₁.auto,
      f₁.expert⟩
  case inr =>
    obtain ⟨-, -, hl, -⟩ := Checkpoint.automaticCacheBudget_eq_ok.mp hb
    exact ⟨fun h => ⟨(f₁.streams h).1, (f₁.streams h).2, (f₁.streams h).3⟩, f₁.disabled, f₁.auto,
      fun _ => hl⟩

theorem Built.fitting (b : Built cp) : Fitting cp := by
  induction b
  case init h      => exact init_fitting h
  case auto h hi   => exact configureAuto_fitting hi h

-- Experts that are not streamed need no cache.
theorem init_cacheBytes (h : init inv expertBytes ngramBytes = .ok cp)
    (hd : cp.expertsEnabled = false) : cp.cacheBytes = 0 := by
  rw [init] at h
  obtain ⟨-, h⟩ := Checks.ensure_bind_eq_ok.mp h
  obtain ⟨-, h⟩ := Checks.ensure_bind_eq_ok.mp h
  obtain ⟨-, h⟩ := Checks.ensure_bind_eq_ok.mp h
  obtain ⟨-, h⟩ := Checks.ensure_bind_eq_ok.mp h
  obtain ⟨-, h⟩ := Checks.ensure_bind_eq_ok.mp h
  obtain rfl := Except.ok.inj h
  cases expertBytes
  case none => rfl
  case some => cases hd

theorem configureAuto_cacheBytes (hi : cp.expertsEnabled = false → cp.cacheBytes = 0)
    (h : cp.configureAuto metalLimit availableMemory = .ok cp')
    (hd : cp'.expertsEnabled = false) : cp'.cacheBytes = 0 := by
  rw [Checkpoint.configureAuto_eq] at h
  obtain ⟨cp₁, h₁, h⟩ := Checks.bind_eq_ok.mp h
  obtain ⟨cp₂, h₂, h⟩ := Checks.bind_eq_ok.mp h
  obtain rfl := Except.ok.inj h
  have hs : (cp.selectResidentExperts metalLimit availableMemory).expertsEnabled = false →
      (cp.selectResidentExperts metalLimit availableMemory).cacheBytes = 0 := by
    rw [Checkpoint.selectResidentExperts]
    split
    case isTrue => exact hi
    case isFalse =>
      dsimp only
      split
      case isTrue  => exact fun _ => rfl
      case isFalse => exact fun _ => rfl
  have hn : cp₁.expertsEnabled = false → cp₁.cacheBytes = 0 := by
    obtain ⟨-, rfl⟩ | ⟨-, budget, -, rfl⟩ := Checkpoint.configureNgrams_cases h₁
    case inl => exact hs
    case inr => exact hs
  obtain ⟨-, rfl⟩ | ⟨he, budget, -, rfl⟩ := Checkpoint.configureExperts_cases h₂
  case inl => exact hn hd
  case inr => exact absurd he.2 (Bool.eq_false_iff.mp hd)

theorem Built.cacheBytes_eq_zero (b : Built cp) (hd : cp.expertsEnabled = false) :
    cp.cacheBytes = 0 := by
  induction b
  case init h    => exact init_cacheBytes h hd
  case auto h hi => exact configureAuto_cacheBytes hi h hd

end Built

end Backend.NgramCache
