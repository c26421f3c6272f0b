import Mathlib

-- The first occurrence of a pattern in a list.
namespace Infix

variable {α : Type*} [DecidableEq α] {pattern l a b : List α} {x : α} {i : Nat}

def position (pattern : List α) : List α → Option Nat
  | []     => none
  | x :: l => if pattern <+: x :: l then some 0 else (position pattern l).map (· + 1)

theorem position_cons_of_prefix (h : pattern <+: x :: l) : position pattern (x :: l) = some 0 :=
  if_pos h

theorem position_cons_of_not (h : ¬pattern <+: x :: l) :
    position pattern (x :: l) = (position pattern l).map (· + 1) :=
  if_neg h

-- A found pattern cuts the list.
theorem of_position (h : position pattern l = some i) :
    ∃ b, l = l.take i ++ (pattern ++ b) ∧ i < l.length := by
  induction l generalizing i
  case nil => simp [position] at h
  case cons x l hi =>
    rw [position] at h
    split at h
    case isTrue hp =>
      cases h
      have ⟨b, hb⟩ := hp
      exact ⟨b, by simp [hb], by simp⟩
    case isFalse =>
      have ⟨j, hj, he⟩ := Option.map_eq_some_iff.mp h
      have ⟨b, hb, hl⟩ := hi hj
      rw [←he]
      exact ⟨b, by rw [List.take_succ_cons, List.cons_append, ←hb], by simpa using hl⟩

theorem position_eq_none (hp : pattern ≠ []) : position pattern l = none ↔ ¬pattern <:+: l := by
  induction l
  case nil => simp [position, hp]
  case cons x l hi =>
    rw [List.infix_cons_iff, position]
    split
    case isTrue h  => simp [h]
    case isFalse h => simp [h, hi]

-- The position is the first at which the pattern begins.
theorem position_eq_some_iff (hp : pattern ≠ []) : position pattern l = some i ↔
    pattern <+: l.drop i ∧ ∀ j < i, ¬pattern <+: l.drop j := by
  induction l generalizing i
  case nil => simp [position, hp]
  case cons x l hi =>
    rw [position]
    split
    case isTrue h =>
      constructor
      case mp =>
        intro hs
        cases hs
        exact ⟨h, by simp⟩
      case mpr =>
        rintro ⟨_, hn⟩
        obtain _ | i := i
        · rfl
        · exact absurd h (hn 0 (by omega))
    case isFalse h =>
      obtain _ | i := i
      case zero => simp [h]
      case succ i =>
        simp only [Option.map_eq_some_iff, Nat.add_right_cancel_iff, exists_eq_right, hi,
          List.drop_succ_cons]
        refine and_congr_right fun _ => ?_
        constructor
        case mp =>
          intro hn j hj
          obtain _ | j := j
          · exact h
          · exact hn j (by omega)
        case mpr => exact fun hn j hj => hn (j + 1) (by omega)

omit [DecidableEq α] in
theorem infix_iff_exists_drop : pattern <:+: l ↔ ∃ i, pattern <+: l.drop i := by
  constructor
  case mp =>
    rintro ⟨a, b, rfl⟩
    exact ⟨a.length, b, by simp⟩
  case mpr =>
    rintro ⟨i, h⟩
    exact h.isInfix.trans (List.drop_suffix i l).isInfix

-- A pattern whose first element occurs only once in it is not found across a border.
theorem position_append {c : α} {tl : List α} (hc : c ∉ tl) (h : ¬c :: tl <:+: a) :
    position (c :: tl) (a ++ (c :: tl ++ b)) = some a.length := by
  induction a
  case nil => exact position_cons_of_prefix (List.prefix_append ..)
  case cons x a hi =>
    rw [List.infix_cons_iff, not_or] at h
    rw [List.cons_append, position_cons_of_not, hi h.2]
    · rfl
    · intro hp
      by_cases hl : (c :: tl).length ≤ (x :: a).length
      case pos =>
        exact h.1 (List.prefix_of_prefix_length_le hp (List.prefix_append (x :: a) _) hl)
      case neg =>
        rw [List.cons_prefix_cons] at hp
        simp only [List.length_cons, not_le] at hl
        have hg := hp.2.getElem (i := a.length) (by omega)
        rw [List.getElem_append_right (Nat.le_refl _)] at hg
        simp only [Nat.sub_self, List.cons_append, List.getElem_cons_zero] at hg
        exact hc (hg ▸ List.getElem_mem _)

-- A pattern that begins in the first of some texts and ends in the texts behind them.
def Cut (pattern : List α) (texts : List (List α)) : Prop :=
  ∃ before after, texts = before ++ after ∧ ∃ front back, front ≠ [] ∧ back ≠ [] ∧
    pattern = front ++ back ∧ front <:+ before.flatten ∧ back <+: after.flatten

section Cut

omit [DecidableEq α]

variable {texts : List (List α)} {text : List α}

theorem Cut.cons (h : Cut pattern texts) : Cut pattern (text :: texts) := by
  have ⟨before, after, ht, front, back, hf, hb, hp, hs, ha⟩ := h
  refine ⟨text :: before, after, by rw [ht, List.cons_append], front, back, hf, hb, hp, ?_, ha⟩
  exact hs.trans <| List.suffix_append ..

-- A pattern in joined texts is in one of them, or cut by a border.
theorem infix_flatten_iff (hp : pattern ≠ []) :
    pattern <:+: texts.flatten ↔ (∃ text ∈ texts, pattern <:+: text) ∨ Cut pattern texts := by
  constructor
  case mp =>
    intro h
    induction texts
    case nil => exact absurd (List.infix_nil.mp h) hp
    case cons text texts hi =>
      rw [List.flatten_cons, List.infix_append_iff_ne_nil] at h
      rcases h with h | h | ⟨front, back, hf, hb, he, hs, ha⟩
      · exact .inl ⟨text, List.mem_cons_self, h⟩
      · refine (hi h).imp (fun ⟨text', hm, ht⟩ => ⟨text', List.mem_cons_of_mem _ hm, ht⟩) .cons
      · exact .inr ⟨[text], texts, rfl, front, back, hf, hb, he, by simpa using hs, ha⟩
  case mpr =>
    intro h
    cases h
    case inl h =>
      have ⟨text, hm, ht⟩ := h
      exact ht.trans <| List.infix_of_mem_flatten hm
    case inr h =>
      have ⟨before, after, ht, front, back, hf, hb, he, hs, ha⟩ := h
      rw [ht, List.flatten_append]
      exact List.infix_append_iff_ne_nil.mpr <| .inr <| .inr ⟨front, back, hf, hb, he, hs, ha⟩

end Cut

end Infix
