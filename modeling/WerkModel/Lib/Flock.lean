import Mathlib

-- Advisory locks on files as they are held by open file descriptions.
namespace Flock

inductive Mode
  | shared
  | exclusive
  deriving DecidableEq

structure Lock (δ κ : Type*) where
  holder : δ
  file   : κ
  mode   : Mode
  deriving DecidableEq

variable {δ κ : Type*}

def Compatible (left right : Mode) : Prop :=
  left = .shared ∧ right = .shared

instance decidableCompatible : DecidableRel Compatible :=
  fun _ _ => inferInstanceAs <| Decidable (_ ∧ _)

-- The locks of other descriptions allow `lock`.
def Grants (locks : List (Lock δ κ)) (lock : Lock δ κ) : Prop :=
  ∀ other ∈ locks, other.holder ≠ lock.holder → other.file = lock.file →
    Compatible other.mode lock.mode

instance decidableGrants [DecidableEq δ] [DecidableEq κ] (locks : List (Lock δ κ))
    (lock : Lock δ κ) : Decidable (Grants locks lock) :=
  inferInstanceAs <| Decidable (∀ other ∈ locks, _)

-- The locks of all descriptions that satisfy `p` are given up.
def release (p : δ → Prop) [DecidablePred p] (locks : List (Lock δ κ)) : List (Lock δ κ) :=
  locks.filter (¬p ·.holder)

-- A description holds at most one lock, which is converted when it locks again.
def acquire [DecidableEq δ] (lock : Lock δ κ) (locks : List (Lock δ κ)) : List (Lock δ κ) :=
  lock :: release (· = lock.holder) locks

-- Two descriptions that have locked one file share it.
def Sound (locks : List (Lock δ κ)) : Prop :=
  ∀ lock ∈ locks, Grants locks lock

variable {p : δ → Prop} [DecidablePred p] {locks : List (Lock δ κ)} {lock other : Lock δ κ}

@[simp]
theorem mem_release : lock ∈ release p locks ↔ lock ∈ locks ∧ ¬p lock.holder := by
  simp [release]

@[simp]
theorem mem_acquire [DecidableEq δ] :
    other ∈ acquire lock locks ↔ other = lock ∨ other ∈ locks ∧ other.holder ≠ lock.holder := by
  simp [acquire]

theorem Compatible.symm {left right : Mode} (h : Compatible left right) : Compatible right left :=
  ⟨h.2, h.1⟩

theorem sound_nil : Sound ([] : List (Lock δ κ)) :=
  fun _ hl => absurd hl (List.not_mem_nil)

theorem Sound.release (h : Sound locks) : Sound (Flock.release p locks) :=
  fun lock hl other ho => h lock (mem_release.mp hl).1 other (mem_release.mp ho).1

theorem Sound.acquire [DecidableEq δ] (h : Sound locks) (hg : Grants locks lock) :
    Sound (Flock.acquire lock locks) := by
  intro first hf second hs hne he
  cases mem_acquire.mp hf
  case inl hl =>
    subst hl
    cases mem_acquire.mp hs
    case inl hl => exact absurd (hl ▸ rfl) hne
    case inr hl => exact hg second hl.1 hne he
  case inr hl =>
    cases mem_acquire.mp hs
    case inl ho =>
      subst ho
      exact (hg first hl.1 hne.symm he.symm).symm
    case inr ho => exact h first hl.1 second ho.1 hne he

-- No other description has locked the file of an exclusive lock.
theorem Sound.exclusive (h : Sound locks) (hl : lock ∈ locks) (he : lock.mode = .exclusive)
    (ho : other ∈ locks) (hf : other.file = lock.file) : other.holder = lock.holder := by
  by_contra hne
  exact absurd ((h lock hl other ho hne hf).2.symm.trans he) (by decide)

end Flock
