import WerkModel.Lib.Tokens
import WerkModel.RuntimeControl.Handoff.World

-- The registry counts what its callers hold, and its bounds are kept by every update of it.
open Std ExtTreeMap Tokens

namespace RuntimeControl.Handoff

variable {σ : Type*}

namespace HandoffEntries

variable {s s' : HandoffEntries σ} {principalId p digest : String} {record : HandoffRecord σ}
variable {now : Nat}

theorem live_eq_valueSum : s.live p =
    s.entries.valueSum fun existing => if existing.principalId = p then 1 else 0 := by
  rw [live, count_eq_valueSum]
  simp

@[simp]
theorem reservedTokens_takeExpired : (s.takeExpired now).reservedTokens = s.reservedTokens :=
  rfl

@[simp]
theorem reserved_takeExpired : (s.takeExpired now).reserved p = s.reserved p :=
  rfl

theorem mem_takeExpired (h : digest ∈ (s.takeExpired now).entries) : digest ∈ s.entries := by
  have ⟨_, h⟩ := exists_lookup h
  exact mem_of_lookup (lookup_takeExpired.mp h).1

theorem size_takeExpired_le : (s.takeExpired now).entries.size ≤ s.entries.size :=
  size_filter_le_size

theorem live_takeExpired_le : (s.takeExpired now).live p ≤ s.live p := by
  rw [live_eq_valueSum, live_eq_valueSum]
  exact valueSum_filter_le

theorem size_remove (h : s.entries[digest]? = some record) :
    (s.remove digest).entries.size + 1 = s.entries.size := by
  rw [size_eq_valueSum, size_eq_valueSum, valueSum_erase s.entries digest, h, Nat.add_comm]
  rfl

theorem live_remove (h : s.entries[digest]? = some record) :
    (s.remove digest).live p + (if record.principalId = p then 1 else 0) = s.live p := by
  rw [live_eq_valueSum, live_eq_valueSum, valueSum_erase s.entries digest, h, Nat.add_comm]
  rfl

theorem size_insert_entry (h : digest ∉ s.entries) :
    (s.entries.insert digest record).size = s.entries.size + 1 := by
  rw [ExtTreeMap.size_insert, if_neg (by simpa using h)]

theorem live_insert_entry (h : digest ∉ s.entries) :
    ({ s with entries := s.entries.insert digest record } : HandoffEntries σ).live p =
      s.live p + if record.principalId = p then 1 else 0 := by
  rw [live_eq_valueSum, live_eq_valueSum, valueSum_insert_of_none (getElem?_eq_none h),
    Nat.add_comm]

theorem reserved_hold :
    (s.hold principalId digest).reserved p =
      s.reserved p + if principalId = p then 1 else 0 := by
  simp only [reserved, hold, getElem?_insert, LawfulEqCmp.compare_eq_iff_eq]
  split
  case isTrue h  => rw [h]; rfl
  case isFalse h => rfl

theorem summed_hold :
    (s.hold principalId digest).reservedByPrincipal.valueSum id =
      s.reservedByPrincipal.valueSum id + 1 := by
  rw [hold, valueSum_insert, valueSum_erase s.reservedByPrincipal principalId, reserved]
  cases s.reservedByPrincipal[principalId]? <;> simp <;> omega

-- A counter that is not zero is decremented, and removed once it is zero.
theorem decrement_ok (h : 0 < s.reserved principalId) :
    ∃ counters, s.decrementPrincipalReservation principalId =
        (.ok (), { s with reservedByPrincipal := counters }) ∧
      (∀ p : String, counters[p]?.getD 0 + (if principalId = p then 1 else 0) = s.reserved p) ∧
      ((∀ p : String, s.reservedByPrincipal[p]? ≠ some 0) → ∀ p : String, counters[p]? ≠ some 0) ∧
      counters.valueSum id + 1 = s.reservedByPrincipal.valueSum id := by
  have hs := valueSum_erase s.reservedByPrincipal principalId id
  simp only [reserved] at h ⊢
  cases hc : s.reservedByPrincipal[principalId]?
  case none => simp [hc] at h
  case some count =>
    rw [hc] at hs h
    obtain _ | _ | count := count
    case zero => exact absurd h (Nat.lt_irrefl 0)
    case succ.zero =>
      refine ⟨_, decrement_of_one hc, ?_, ?_, ?_⟩
      · intro p
        simp only [getElem?_erase, LawfulEqCmp.compare_eq_iff_eq]
        split
        case isTrue hp  => rw [←hp, hc]; rfl
        case isFalse hp => rfl
      · intro hz p
        simp only [getElem?_erase, LawfulEqCmp.compare_eq_iff_eq]
        split
        case isTrue  => simp
        case isFalse => exact hz p
      · rw [hs, Nat.add_comm]
        rfl
    case succ.succ =>
      refine ⟨_, decrement_of_succ hc, ?_, ?_, ?_⟩
      · intro p
        simp only [getElem?_insert, LawfulEqCmp.compare_eq_iff_eq]
        split
        case isTrue hp  => rw [←hp, hc]; rfl
        case isFalse hp => rfl
      · intro hz p
        simp only [getElem?_insert, LawfulEqCmp.compare_eq_iff_eq]
        split
        case isTrue  => simp
        case isFalse => exact hz p
      · rw [hs, valueSum_insert]
        simp only [Option.elim_some, id]
        omega

end HandoffEntries

open HandoffEntries

namespace World

variable {world : World σ} {registry : HandoffEntries σ} {reservation : HandoffReservation}
variable {record : HandoffRecord σ} {digest : String}

structure Consistent (world : World σ) : Prop where
  held      : Hold (fun r => {r.digest}) world.reservations world.registry.reservedTokens
  counted   : ∀ p, world.registry.reserved p =
    world.reservations.countP fun r => r.principalId = p
  positive  : ∀ p : String, world.registry.reservedByPrincipal[p]? ≠ some 0
  summed    : world.registry.reservedByPrincipal.valueSum id = world.registry.reservedTokens.card
  disjoint  : ∀ digest ∈ world.registry.reservedTokens, digest ∉ world.registry.entries
  shared    : world.registry.entries.size + world.registry.reservedTokens.card ≤ maxHandoffs
  principal : ∀ p, world.registry.live p + world.registry.reserved p ≤ maxHandoffsPerPrincipal

namespace Consistent

theorem new : (World.new : World σ).Consistent where
  held        := Hold.zero
  counted _   := rfl
  positive p  := by simp [World.new, HandoffEntries.new]
  summed      := valueSum_empty
  disjoint    := fun _ h => absurd h (Finset.notMem_empty _)
  shared      := by simp [World.new, HandoffEntries.new]
  principal p := by
    rw [live_eq_valueSum]
    simp [World.new, HandoffEntries.new, valueSum_empty, reserved]

theorem takeExpired (h : world.Consistent) (now : Nat) :
    (world.takeExpired now).Consistent where
  held         := h.held
  counted      := h.counted
  positive     := h.positive
  summed       := h.summed
  disjoint d hd := fun he => h.disjoint d hd <| mem_takeExpired he
  shared       := Nat.le_trans (Nat.add_le_add_right size_takeExpired_le _) h.shared
  principal p  := Nat.le_trans (Nat.add_le_add_right live_takeExpired_le _) <| h.principal p

theorem remove (h : world.Consistent) (hd : world.registry.entries[digest]? = some record) :
    (world.remove digest).Consistent where
  held          := h.held
  counted       := h.counted
  positive      := h.positive
  summed        := h.summed
  disjoint d hr := fun he => h.disjoint d hr <| (mem_erase.mp he).2
  shared        := by
    have := h.shared
    have := size_remove hd
    simp only [World.remove, HandoffEntries.remove] at *
    omega
  principal p   := by
    have hl := live_remove (p := p) hd
    exact Nat.le_trans (Nat.add_le_add_right (hl ▸ Nat.le_add_right ..) _) <| h.principal p

theorem space_remove (h : world.Consistent)
    (hd : world.registry.entries[digest]? = some record) :
    Space (world.registry.remove digest) record.principalId where
  shared    := by
    have := h.shared
    have := size_remove hd
    simp only [HandoffEntries.remove] at *
    omega
  principal := by
    have hl := live_remove (p := record.principalId) hd
    have hp := h.principal record.principalId
    rw [if_pos rfl] at hl
    simp only [HandoffEntries.remove, reserved] at *
    omega

theorem hold (h : world.Consistent) (hp : Space world.registry reservation.principalId)
    (he : reservation.digest ∉ world.registry.entries)
    (hr : reservation.digest ∉ world.registry.reservedTokens) :
    (world.hold reservation).Consistent where
  held          := h.held.add_singleton rfl hr
  counted p     := by
    simp only [World.hold, addReservation, reserved_hold, h.counted, Multiset.countP_cons]
  positive p    := by
    simp only [World.hold, addReservation, HandoffEntries.hold, getElem?_insert,
      LawfulEqCmp.compare_eq_iff_eq]
    split
    case isTrue  => simp
    case isFalse => exact h.positive p
  summed        := by
    rw [World.hold, addReservation, summed_hold, h.summed, HandoffEntries.hold,
      Finset.card_insert_of_notMem hr]
  disjoint d hd := by
    cases Finset.mem_insert.mp hd
    case inl hd => exact hd ▸ he
    case inr hd => exact h.disjoint d hd
  shared        := by
    have := hp.shared
    simp only [World.hold, addReservation, HandoffEntries.hold, Finset.card_insert_of_notMem hr]
    omega
  principal p   := by
    simp only [World.hold, addReservation, reserved_hold]
    have := h.principal p
    split
    case isTrue hr  => have := hr ▸ hp.principal; simp only [live, HandoffEntries.hold] at *; omega
    case isFalse hr => exact this

-- An outstanding reservation is counted, so that it is released without an error.
theorem release (h : world.Consistent) (hm : reservation ∈ world.reservations) :
    ∃ registry, (world.registry.removeReserved reservation.digest).decrementPrincipalReservation
        reservation.principalId = (.ok (), registry) ∧
      registry.entries = world.registry.entries ∧
      registry.reservedTokens = world.registry.reservedTokens.erase reservation.digest ∧
      Space registry reservation.principalId ∧
      (removeReservation reservation { world with registry }).Consistent := by
  have hi : reservation.digest ∈ world.registry.reservedTokens :=
    h.held.subset hm <| Finset.mem_singleton_self _
  have hc := h.counted reservation.principalId
  rw [←Multiset.cons_erase hm, Multiset.countP_cons, if_pos rfl] at hc
  have hl : 0 < (world.registry.removeReserved reservation.digest).reserved
      reservation.principalId := Nat.lt_of_lt_of_eq (Nat.succ_pos _) hc.symm
  have ⟨counters, hd, hr, hz, hs⟩ := decrement_ok hl
  have hk : (world.registry.reservedTokens.erase reservation.digest).card + 1 =
      world.registry.reservedTokens.card := Finset.card_erase_add_one hi
  have hp := h.principal reservation.principalId
  have hr' := hr reservation.principalId
  rw [if_pos rfl] at hr'
  refine ⟨_, hd, rfl, rfl, ⟨?_, ?_⟩, ?_⟩
  · have := h.shared
    simp only [removeReserved]
    omega
  · simp only [reserved, removeReserved, live] at *
    omega
  exact {
    held          := h.held.remove_singleton hm rfl
    counted p     := by
      have hr := hr p
      have hc : world.registry.reserved p = _ := h.counted p
      rw [←Multiset.cons_erase hm, Multiset.countP_cons] at hc
      simp only [removeReservation, reserved, removeReserved] at *
      omega
    positive      := hz h.positive
    summed        := by
      have := h.summed
      simp only [removeReservation, removeReserved] at *
      omega
    disjoint d hd := h.disjoint d <| Finset.mem_of_mem_erase hd
    shared        := by
      have := h.shared
      simp only [removeReservation, removeReserved]
      omega
    principal p   := by
      have := h.principal p
      have := hr p
      simp only [removeReservation, reserved, removeReserved, live] at *
      omega }

theorem insert (h : world.Consistent) (hp : Space world.registry record.principalId)
    (he : digest ∉ world.registry.entries) (hr : digest ∉ world.registry.reservedTokens) :
    (world.insert digest record).Consistent where
  held          := h.held
  counted       := h.counted
  positive      := h.positive
  summed        := h.summed
  disjoint d hd := by
    intro hn
    cases mem_insert.mp hn
    case inl hn => exact hr <| LawfulEqCmp.compare_eq_iff_eq.mp hn ▸ hd
    case inr hn => exact h.disjoint d hd hn
  shared        := by
    have := hp.shared
    rw [World.insert, size_insert_entry he]
    exact Nat.succ_add .. ▸ this
  principal p   := by
    rw [World.insert, live_insert_entry he]
    have := h.principal p
    split
    case isTrue hr  => have := hr ▸ hp.principal; simp only [reserved] at *; omega
    case isFalse hr => exact this

end Consistent
end World
end RuntimeControl.Handoff
