import Mathlib

-- Latches with two thresholds. An input that reaches the entry closes the latch, and it stays closed
-- until an input falls below the exit.
namespace Latch

variable {α : Type*} [LE α] (entry exit : α)

def next (held : Prop) (input : α) : Prop :=
  entry ≤ input ∨ held ∧ exit ≤ input

-- The inputs that have closed a latch which was open at first.
def Held (inputs : List α) : Prop :=
  ∃ before input after, inputs = before ++ input :: after ∧ entry ≤ input ∧
    ∀ later ∈ after, exit ≤ later

variable {entry exit} {inputs : List α} {input : α}

theorem not_held_nil : ¬Held entry exit [] :=
  fun ⟨before, _, _, h, _⟩ => by simp at h

-- What one more input does.
theorem held_concat :
    Held entry exit (inputs ++ [input]) ↔ next entry exit (Held entry exit inputs) input := by
  constructor
  case mp =>
    rintro ⟨before, u, after, he, hu, ha⟩
    rcases after.eq_nil_or_concat with rfl | ⟨after, last, rfl⟩
    case inl =>
      have ⟨_, hl⟩ := List.append_inj' he rfl
      exact .inl <| List.singleton_inj.mp hl ▸ hu
    case inr =>
      rw [List.concat_eq_append, ←List.cons_append, ←List.append_assoc] at he
      have ⟨hi, hl⟩ := List.append_inj' he rfl
      cases List.singleton_inj.mp hl
      refine .inr ⟨⟨before, u, after, hi, hu, fun v hv => ha v ?_⟩, ha _ ?_⟩
      · simp [hv]
      · simp
  case mpr =>
    rintro (hu | ⟨⟨before, u, after, rfl, hu, ha⟩, hl⟩)
    case inl => exact ⟨inputs, input, [], rfl, hu, List.forall_mem_nil _⟩
    case inr =>
      refine ⟨before, u, after ++ [input], by simp, hu, fun v hv => ?_⟩
      rcases List.mem_append.mp hv with hv | hv
      case inl => exact ha v hv
      case inr => exact List.mem_singleton.mp hv ▸ hl

-- A property of the state of a machine that each of its steps changes like a latch.
theorem held_foldl {σ : Type*} {step : σ → α → σ} {P : σ → Prop} {s : σ} (hs : ¬P s)
    (h : ∀ s input, P (step s input) ↔ next entry exit (P s) input) (inputs : List α) :
    P (inputs.foldl step s) ↔ Held entry exit inputs := by
  induction inputs using List.reverseRecOn
  case nil => exact iff_of_false hs not_held_nil
  case append_singleton inputs input hi =>
    rw [List.foldl_concat, h, held_concat, next, next, hi]

end Latch
