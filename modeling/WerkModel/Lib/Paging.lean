import Mathlib

-- Pages of a size, and the intervals that they cut out of a file.
namespace Paging

def alignDown (n page : Nat) : Nat :=
  n / page * page

def alignUp (n page : Nat) : Nat :=
  alignDown (n + (page - 1)) page

variable {page n m b : Nat}

theorem dvd_alignDown : page ∣ alignDown n page :=
  Nat.dvd_mul_left ..

theorem dvd_alignUp : page ∣ alignUp n page :=
  dvd_alignDown

theorem alignDown_le : alignDown n page ≤ n :=
  Nat.div_mul_le_self ..

theorem lt_alignDown_add (h : 0 < page) : n < alignDown n page + page := by
  have := Nat.lt_div_mul_add (a := n) h
  rwa [alignDown]

theorem le_alignUp (h : 0 < page) : n ≤ alignUp n page := by
  have := lt_alignDown_add (n := n + (page - 1)) h
  rw [alignUp]
  omega

-- The next page begins a page later.
theorem add_le_of_lt (hn : page ∣ n) (hm : page ∣ m) (h : n < m) : n + page ≤ m := by
  obtain ⟨k, rfl⟩ := hn
  obtain ⟨l, rfl⟩ := hm
  have hk : k < l := Nat.lt_of_mul_lt_mul_left h
  calc page * k + page = page * (k + 1) := (Nat.mul_succ ..).symm
    _ ≤ page * l := Nat.mul_le_mul_left _ hk

theorem le_alignDown_iff (h : 0 < page) (hm : page ∣ m) : m ≤ alignDown n page ↔ m ≤ n := by
  obtain ⟨k, rfl⟩ := hm
  rw [alignDown, Nat.mul_comm page, Nat.mul_le_mul_right_iff h, Nat.le_div_iff_mul_le h]

theorem alignUp_le_iff (h : 0 < page) (hm : page ∣ m) : alignUp n page ≤ m ↔ n ≤ m := by
  constructor
  case mp => exact (le_alignUp h).trans
  case mpr =>
    intro hn
    by_contra hc
    have hp : m + page ≤ alignUp n page := add_le_of_lt hm dvd_alignUp (Nat.lt_of_not_le hc)
    have hl : alignDown (n + (page - 1)) page ≤ n + (page - 1) := alignDown_le
    rw [alignUp] at hp
    omega

-- The bytes between the aligned ends of an interval are those on pages that lie in the interval.
theorem between_iff (h : 0 < page) :
    (alignUp n page ≤ b ∧ b < alignDown m page) ↔
      n ≤ alignDown b page ∧ alignDown b page + page ≤ m := by
  have hd : page ∣ alignDown b page := dvd_alignDown
  have hd' : page ∣ alignDown b page + page := (Nat.dvd_add_self_right).mpr hd
  rw [←alignUp_le_iff h hd, le_alignDown_iff h dvd_alignUp, ←le_alignDown_iff h hd']
  refine and_congr_right fun _ => ?_
  have hb := lt_alignDown_add (n := b) h
  have hl : alignDown b page ≤ b := alignDown_le
  constructor
  case mp => exact fun hm => add_le_of_lt hd dvd_alignDown (hl.trans_lt hm)
  case mpr => omega

section Counting

variable {resident : Nat → Bool} {k r : Nat}

-- The bytes in front of a position that lie on pages of a set.
def bytesBefore (resident : Nat → Bool) (page n : Nat) : Nat :=
  Nat.count (fun b => resident (b / page)) n

theorem bytesBefore_mono (h : n ≤ m) : bytesBefore resident page n ≤ bytesBefore resident page m :=
  Nat.count_monotone _ h

theorem bytesBefore_le_add (h : n ≤ m) :
    bytesBefore resident page m ≤ bytesBefore resident page n + (m - n) := by
  obtain ⟨d, rfl⟩ := Nat.exists_eq_add_of_le h
  rw [bytesBefore, Nat.count_add, Nat.add_sub_cancel_left]
  exact Nat.add_le_add_left (Nat.count_le _) _

-- Of one page, all bytes count or none.
theorem bytesBefore_add (h : 0 < page) (hr : r ≤ page) :
    bytesBefore resident page (page * k + r) =
      bytesBefore resident page (page * k) + if resident k then r else 0 := by
  induction r
  case zero => simp
  case succ r hi =>
    have hd : (page * k + r) / page = k := by
      rw [Nat.mul_add_div h, Nat.div_eq_of_lt hr, Nat.add_zero]
    rw [bytesBefore, ←Nat.add_assoc, Nat.count_succ, ←bytesBefore, hi (by omega), hd]
    split <;> omega

theorem bytesBefore_mul_add (h : 0 < page) :
    bytesBefore resident page (page * (k + n)) =
      bytesBefore resident page (page * k) + page * Nat.count (fun i => resident (k + i)) n := by
  induction n
  case zero => simp
  case succ n hi =>
    rw [←Nat.add_assoc, Nat.mul_succ, bytesBefore_add h (Nat.le_refl _), hi, Nat.count_succ]
    split
    · rw [Nat.mul_add, Nat.mul_one, Nat.add_assoc]
    · rw [Nat.add_zero, Nat.add_zero]

end Counting

end Paging
