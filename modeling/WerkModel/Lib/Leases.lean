import Mathlib

-- Resources that may only be used between the opening and the closing of a lease on them.
namespace Leases

variable {ρ : Type*} [DecidableEq ρ]

inductive Event (ρ : Type*)
  | opened (resource : ρ)
  | used (resource : ρ)
  | closed (resource : ρ)

-- The leases that are open after some events.
def after (leases : List ρ) : List (Event ρ) → List ρ
  | []                       => leases
  | .opened resource :: rest => after (resource :: leases) rest
  | .used _ :: rest          => after leases rest
  | .closed resource :: rest => after (leases.erase resource) rest

def Safe (leases : List ρ) : List (Event ρ) → Prop
  | []                       => True
  | .opened resource :: rest => Safe (resource :: leases) rest
  | .used resource :: rest   => resource ∈ leases ∧ Safe leases rest
  | .closed resource :: rest => Safe (leases.erase resource) rest

variable {leases resources : List ρ} {events rest : List (Event ρ)}

theorem after_append : after leases (events ++ rest) = after (after leases events) rest := by
  induction events generalizing leases
  case nil => rfl
  case cons event events hi => cases event <;> exact hi

theorem safe_append :
    Safe leases (events ++ rest) ↔ Safe leases events ∧ Safe (after leases events) rest := by
  induction events generalizing leases
  case nil => simp [Safe, after]
  case cons event events hi =>
    cases event
    case used => rw [List.cons_append, Safe, Safe, after, hi, and_assoc]
    all_goals exact hi

@[simp]
theorem after_opened : after leases (resources.map .opened) = resources.reverse ++ leases := by
  induction resources generalizing leases
  case nil => rfl
  case cons resource resources hi => simp [after, hi]

@[simp]
theorem safe_opened : Safe leases (resources.map .opened) := by
  induction resources generalizing leases
  case nil => trivial
  case cons resource resources hi => exact hi

@[simp]
theorem after_used : after leases (resources.map .used) = leases := by
  induction resources
  case nil => rfl
  case cons resource resources hi => exact hi

@[simp]
theorem safe_used : Safe leases (resources.map .used) ↔ ∀ resource ∈ resources, resource ∈ leases := by
  induction resources
  case nil => simp [Safe]
  case cons resource resources hi => simp [Safe, hi]

@[simp]
theorem safe_closed : Safe leases (resources.map .closed) := by
  induction resources generalizing leases
  case nil => trivial
  case cons resource resources hi => exact hi

-- All leases are closed in the reverse of the order in which they have been opened.
theorem after_closed : after (resources ++ leases) (resources.map .closed) = leases := by
  induction resources
  case nil => rfl
  case cons resource resources hi => simp [after, hi]

end Leases

-- Lists of parties of which each may hold one resource, no resource being held by two of them.
namespace Exclusion

variable {α β : Type*}

def Exclusive (held : α → Option β) (parties : List α) : Prop :=
  ∀ (i j : Nat) (x y : α) (resource : β), parties[i]? = some x → parties[j]? = some y →
    held x = some resource → held y = some resource → i = j

variable {held : α → Option β} {parties : List α} {i : Nat} {x y : α}

theorem exclusive_nil : Exclusive held [] :=
  fun _ _ _ _ _ h => by simp at h

-- A party keeps its resource, gives it up or takes one that nobody holds.
theorem Exclusive.set (h : Exclusive held parties) (hx : parties[i]? = some x)
    (hy : ∀ resource, held y = some resource →
      held x = some resource ∨ ∀ z ∈ parties, held z ≠ some resource) :
    Exclusive held (parties.set i y) := by
  have ht {j : Nat} {z : α} {resource : β} (hz : (parties.set i y)[j]? = some z)
      (hr : held z = some resource) :
      (i ≠ j ∧ parties[j]? = some z) ∨ (i = j ∧ held y = some resource) := by
    rw [List.getElem?_set] at hz
    split at hz
    case isFalse hn => exact .inl ⟨hn, hz⟩
    case isTrue he =>
      split at hz
      case isFalse => cases hz
      case isTrue  => exact .inr ⟨he, Option.some.inj hz ▸ hr⟩
  have hi {j : Nat} {z : α} {resource : β} (hz : parties[j]? = some z)
      (hr : held z = some resource) (hr' : held y = some resource) : i = j := by
    obtain hb | hb := hy resource hr'
    case inl => exact h i j x z resource hx hz hb hr
    case inr => exact absurd hr (hb z (List.mem_of_getElem? hz))
  intro j k z z' resource hj hk hr hr'
  obtain ⟨-, hz⟩ | ⟨rfl, hz⟩ := ht hj hr
  case inl =>
    obtain ⟨-, hz'⟩ | ⟨rfl, hz'⟩ := ht hk hr'
    case inl => exact h j k z z' resource hz hz' hr hr'
    case inr => exact (hi hz hr hz').symm
  case inr =>
    obtain ⟨-, hz'⟩ | ⟨rfl, -⟩ := ht hk hr'
    case inl => exact hi hz' hr' hz
    case inr => rfl

theorem Exclusive.append (h : Exclusive held parties)
    (hy : ∀ resource, held y = some resource → ∀ z ∈ parties, held z ≠ some resource) :
    Exclusive held (parties ++ [y]) := by
  have ht {j : Nat} {z : α} (hz : (parties ++ [y])[j]? = some z) :
      parties[j]? = some z ∨ j = parties.length ∧ z = y := by
    rw [List.getElem?_append] at hz
    split at hz
    case isTrue    => exact .inl hz
    case isFalse hl =>
      obtain ⟨hj, hz⟩ := List.getElem?_eq_some_iff.mp hz
      rw [List.length_singleton] at hj
      exact .inr ⟨by omega, by simpa using hz.symm⟩
  intro j k z z' resource hj hk hr hr'
  obtain hz | ⟨rfl, rfl⟩ := ht hj
  case inl =>
    obtain hz' | ⟨rfl, rfl⟩ := ht hk
    case inl => exact h j k z z' resource hz hz' hr hr'
    case inr => exact absurd hr (hy resource hr' z (List.mem_of_getElem? hz))
  case inr =>
    obtain hz' | ⟨rfl, rfl⟩ := ht hk
    case inl => exact absurd hr' (hy resource hr z' (List.mem_of_getElem? hz'))
    case inr => rfl

end Exclusion
