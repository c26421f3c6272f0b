import Mathlib

-- Spans of bytes. Sorted spans do not overlap if no span overlaps with the next one.

@[ext]
structure Span where
  start  : Nat
  length : Nat
  deriving DecidableEq

namespace Span

variable {a b c : Span} {spans : List Span} {byte n k i j : Nat}

def stop (span : Span) : Nat :=
  span.start + span.length

instance instMembership : Membership Nat Span where
  mem span byte := span.start ≤ byte ∧ byte < span.stop

theorem mem_def : byte ∈ a ↔ a.start ≤ byte ∧ byte < a.stop :=
  Iff.rfl

def Apart (a b : Span) : Prop :=
  ∀ byte ∈ a, byte ∉ b

-- An empty span between the bytes of another one.
def Splits (a b : Span) : Prop :=
  a.length = 0 ∧ b.start < a.start ∧ a.start < b.stop

def Before (a b : Span) : Prop :=
  a.stop ≤ b.start

def Clear (a b : Span) : Prop :=
  Before a b ∨ Before b a

theorem Clear.symm (h : Clear a b) : Clear b a :=
  Or.symm h

instance instTransBefore : Trans Before Before Before where
  trans {a b c} hab hbc := by
    simp only [Before, stop] at *
    omega

theorem clear_iff : Clear a b ↔ Apart a b ∧ ¬Splits a b ∧ ¬Splits b a := by
  constructor
  case mp =>
    intro h
    simp only [Clear, Before, Splits, stop] at *
    refine ⟨fun byte ha hb => ?_, by omega, by omega⟩
    simp only [mem_def, stop] at ha hb
    omega
  case mpr =>
    intro ⟨h, hs, hs'⟩
    by_contra hc
    simp only [Clear, Before, Splits, stop] at *
    -- The first byte of the span that starts last is in both.
    have hm := h (max a.start b.start)
    simp only [mem_def, stop] at hm
    omega

section Order

-- The order of the pairs of start and end.
def Le (a b : Span) : Prop :=
  a.start < b.start ∨ a.start = b.start ∧ a.stop ≤ b.stop

instance instDecidableLe : DecidableRel Le :=
  fun _ _ => inferInstanceAs <| Decidable (_ ∨ _)

instance instTotalLe : Std.Total Le where
  total a b := by
    simp only [Le]
    omega

instance instTransLe : IsTrans Span Le where
  trans a b c hab hbc := by
    simp only [Le] at *
    omega

theorem Clear.before (h : Clear a b) (hl : Le a b) : Before a b := by
  simp only [Clear, Before, Le, stop] at *
  omega

def sort (spans : List Span) : List Span :=
  spans.insertionSort Le

-- Whether some span ends behind the start of the next one.
def overlaps (spans : List Span) : Bool :=
  (spans.zip spans.tail).any fun (a, b) => b.start < a.stop

theorem overlaps_eq_false : overlaps spans = false ↔ spans.IsChain Before := by
  induction spans
  case nil => simp [overlaps]
  case cons a spans hi =>
    cases spans
    case nil => simp [overlaps]
    case cons b spans =>
      rw [List.isChain_cons_cons, ←hi]
      simp [overlaps, Before]

-- Comparing neighbours decides about all pairs.
theorem overlaps_sort_eq_false : overlaps (sort spans) = false ↔ spans.Pairwise Clear := by
  rw [overlaps_eq_false, List.isChain_iff_pairwise,
    ←(List.perm_insertionSort Le spans).pairwise_iff Clear.symm]
  constructor
  case mp  => exact fun h => h.imp .inl
  case mpr => exact fun h => h.imp₂ (fun _ _ hc hl => hc.before hl) (List.pairwise_insertionSort ..)

end Order

section Rows

-- One of the rows that a span consists of.
def row (span : Span) (size i : Nat) : Span where
  start  := span.start + i * size
  length := size

theorem mem_row : byte ∈ a.row k i ↔ a.start ≤ byte ∧ 0 < k ∧ (byte - a.start) / k = i := by
  change a.start + i * k ≤ byte ∧ byte < a.start + i * k + k ↔ _
  by_cases hk : 0 < k
  case pos =>
    rw [Nat.div_eq_iff hk]
    omega
  case neg => omega

theorem row_apart (h : i ≠ j) : Apart (a.row k i) (a.row k j) :=
  fun _ hi hj => h <| (mem_row.mp hi).2.2.symm.trans (mem_row.mp hj).2.2

-- The rows tile the span.
theorem mem_iff_exists_row (h : a.length = n * k) : byte ∈ a ↔ ∃ i < n, byte ∈ a.row k i := by
  simp only [mem_row]
  rw [mem_def, stop, h]
  constructor
  case mp =>
    intro ⟨hs, he⟩
    have hk : 0 < k := Nat.pos_of_ne_zero fun hk => by simp [hk] at he; omega
    exact ⟨_, Nat.div_lt_of_lt_mul (by rw [Nat.mul_comm]; omega), hs, hk, rfl⟩
  case mpr =>
    intro ⟨i, hi, hs, hk, he⟩
    have hl := (Nat.div_lt_iff_lt_mul hk).mp (he ▸ hi)
    omega

end Rows

end Span
