import Mathlib

-- Saturating arithmetic on natural numbers below a bound `cap`. Saturating subtraction is the
-- truncated subtraction of `Nat`, so only addition is defined here.
namespace Saturating

def u64Max : Nat := 2 ^ 64 - 1

-- On the 64-bit targets of the program.
def usizeMax : Nat := 2 ^ 64 - 1

def u32Max : Nat := 2 ^ 32 - 1

def u16Max : Nat := 2 ^ 16 - 1

def add (cap a b : Nat) : Nat :=
  min (a + b) cap

variable {cap a b c x : Nat}

theorem add_eq (h : a + b ≤ cap) : add cap a b = a + b :=
  Nat.min_eq_left h

theorem add_le_cap : add cap a b ≤ cap :=
  Nat.min_le_right ..

theorem add_le : add cap a b ≤ a + b :=
  Nat.min_le_left ..

theorem zero_add : add cap 0 a = min a cap := by
  simp [add]

theorem add_min : add cap a (min b cap) = add cap a b := by
  simp only [add]; omega

-- A saturating sum that stays below its bound is the true sum.
theorem add_eq_of_lt (h : add cap a b < cap) : add cap a b = a + b := by
  simp only [add] at *
  omega

theorem add_le_iff : add cap a b ≤ x ↔ a + b ≤ x ∨ cap ≤ x := by
  simp only [add]; omega

-- The order in which a fold adds its summands does not matter: it saturates exactly when the true
-- sum does.
theorem foldl_add {l : List Nat} (h : a ≤ cap) :
    l.foldl (add cap) a = min (a + l.sum) cap := by
  induction l generalizing a
  case nil => simp [h]
  case cons hd tl hi =>
    rw [List.foldl_cons, hi add_le_cap, List.sum_cons]
    simp only [add]
    omega

theorem foldl_add_zero (l : List Nat) : l.foldl (add cap) 0 = min l.sum cap := by
  simp [foldl_add]

end Saturating
