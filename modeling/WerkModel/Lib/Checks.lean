import Mathlib

-- Computations that may fail, as sequences of checks. A sequence succeeds if all of its parts do.
namespace Checks

universe u

variable {ε : Type*} {α β : Type u} {x : Except ε α} {f : α → Except ε β} {b : β} {p : Prop}
variable [Decidable p] {error : ε}

def ensure (condition : Prop) [Decidable condition] (error : ε) : Except ε PUnit :=
  if condition then .ok ⟨⟩ else .error error

theorem ensure_eq_ok : ensure p error = .ok ⟨⟩ ↔ p := by
  by_cases h : p
  case pos => simp [ensure, h]
  case neg => simp [ensure, h]

theorem bind_eq_ok : (x >>= f) = .ok b ↔ ∃ a, x = .ok a ∧ f a = .ok b := by
  cases x
  case error => simp [bind, Except.bind]
  case ok    => simp [bind, Except.bind]

theorem map_eq_ok {f : α → β} : x.map f = .ok b ↔ ∃ a, x = .ok a ∧ f a = b := by
  cases x
  case error => simp [Except.map]
  case ok    => simp [Except.map]

-- A part without a result only has to succeed.
theorem seq_eq_ok {x : Except ε PUnit} {f : PUnit → Except ε β} :
    (x >>= f) = .ok b ↔ x = .ok ⟨⟩ ∧ f ⟨⟩ = .ok b := by
  cases x
  case error => simp [bind, Except.bind]
  case ok    => simp [bind, Except.bind]

theorem ensure_bind_eq_ok {f : PUnit → Except ε β} :
    (ensure p error >>= f) = .ok b ↔ p ∧ f ⟨⟩ = .ok b := by
  by_cases h : p
  case pos => simp [ensure, h, bind, Except.bind]
  case neg => simp [ensure, h, bind, Except.bind]

theorem forM_eq_ok {γ : Type*} {l : List γ} {f : γ → Except ε PUnit} :
    l.forM f = .ok ⟨⟩ ↔ ∀ c ∈ l, f c = .ok ⟨⟩ := by
  induction l
  case nil          => simp [List.forM, pure, Except.pure]
  case cons c l hi =>
    change (f c >>= fun _ => l.forM f) = .ok ⟨⟩ ↔ _
    rw [bind_eq_ok, List.forall_mem_cons, ←hi]
    exact ⟨fun ⟨_, h⟩ => h, fun h => ⟨⟨⟩, h⟩⟩

theorem mapM_eq_ok {γ : Type*} {l : List γ} {f : γ → Except ε α} {as : List α} :
    l.mapM f = .ok as ↔ List.Forall₂ (fun c a => f c = .ok a) l as := by
  induction l generalizing as
  case nil =>
    rw [List.mapM_nil, List.forall₂_nil_left_iff]
    exact ⟨fun h => (Except.ok.inj h).symm, fun h => congrArg _ h.symm⟩
  case cons c l hi =>
    rw [List.mapM_cons, bind_eq_ok, List.forall₂_cons_left_iff]
    simp only [bind_eq_ok, hi, pure, Except.pure, Except.ok.injEq]
    constructor
    case mp  => exact fun ⟨a, ha, as', hs, he⟩ => ⟨a, as', ha, hs, he.symm⟩
    case mpr => exact fun ⟨a, as', ha, hs, he⟩ => ⟨a, ha, as', hs, he.symm⟩

-- What a loop that may fail has established about the elements which it has passed.
theorem foldlM_invariant {γ : Type*} {step : α → γ → Except ε α} {I : List γ → α → Prop}
    {l : List γ} {a b : α} (h : l.foldlM step a = .ok b) (init : I [] a)
    (preserved : ∀ passed c a a', I passed a → step a c = .ok a' → I (passed ++ [c]) a') :
    I l b := by
  suffices hs : ∀ passed, I passed a → I (passed ++ l) b from hs [] init
  clear init
  induction l generalizing a
  case nil =>
    intro passed hp
    rw [List.foldlM_nil] at h
    cases h
    rwa [List.append_nil]
  case cons c l hi =>
    intro passed hp
    rw [List.foldlM_cons, bind_eq_ok] at h
    have ⟨a', hs, h⟩ := h
    rw [List.append_cons]
    exact hi h (passed ++ [c]) (preserved passed c a a' hp hs)

-- A checked sum stays below a bound.
def checkedAdd (cap : Nat) (error : ε) (a b : Nat) : Except ε Nat :=
  if a + b ≤ cap then .ok (a + b) else .error error

def checkedSum (cap : Nat) (error : ε) (a : Nat) (summands : List Nat) : Except ε Nat :=
  summands.foldlM (checkedAdd cap error) a

def checkedMul (cap : Nat) (error : ε) (a b : Nat) : Except ε Nat :=
  if a * b ≤ cap then .ok (a * b) else .error error

theorem checkedAdd_eq_ok {cap a b c : Nat} :
    checkedAdd cap error a b = .ok c ↔ c = a + b ∧ a + b ≤ cap := by
  rw [checkedAdd]
  split
  case isTrue h  => simp [h, eq_comm]
  case isFalse h => simp [h]

theorem checkedSum_eq_ok {cap a c : Nat} {summands : List Nat} (ha : a ≤ cap) :
    checkedSum cap error a summands = .ok c ↔ c = a + summands.sum ∧ c ≤ cap := by
  induction summands generalizing a
  case nil =>
    rw [checkedSum, List.foldlM_nil, List.sum_nil]
    simp only [pure, Except.pure, Except.ok.injEq]
    omega
  case cons b summands hi =>
    rw [checkedSum, List.foldlM_cons, bind_eq_ok]
    simp only [checkedAdd_eq_ok, List.sum_cons]
    constructor
    case mp =>
      intro ⟨_, ⟨he, hb⟩, h⟩
      rw [he] at h
      have := (hi hb).mp h
      omega
    case mpr =>
      intro h
      have hb : a + b ≤ cap := by omega
      exact ⟨_, ⟨rfl, hb⟩, (hi hb).mpr (by omega)⟩

-- A computation that only fails in an allowed way, and whose result has a property.
def Meets (allowed : ε → Prop) (x : Except ε α) (Q : α → Prop) : Prop :=
  match x with
  | .ok a          => Q a
  | .error failure => allowed failure

namespace Meets

variable {allowed : ε → Prop} {cap a b : Nat} {P Q : α → Prop} {R : β → Prop}

theorem result {a : α} (h : Meets allowed x Q) (ha : x = .ok a) : Q a := by
  rwa [ha] at h

theorem failure (h : Meets allowed x Q) (he : x = .error error) : allowed error := by
  rwa [he] at h

theorem ok {a : α} (h : Q a) : Meets allowed (.ok a) Q :=
  h

theorem mono (h : Meets allowed x P) (hi : ∀ a, P a → Q a) : Meets allowed x Q := by
  cases x
  case error => exact h
  case ok a  => exact hi a h

theorem bind (hx : Meets allowed x Q) (hf : ∀ a, Q a → Meets allowed (f a) R) :
    Meets allowed (x >>= f) R := by
  cases x
  case error => exact hx
  case ok a  => exact hf a hx

-- What follows a check may rely on it.
theorem ensure_bind {f : PUnit → Except ε β} (h : ¬p → allowed error)
    (hf : p → Meets allowed (f ⟨⟩) R) : Meets allowed (ensure p error >>= f) R := by
  by_cases hp : p
  case pos =>
    rw [ensure, if_pos hp]
    exact hf hp
  case neg =>
    rw [ensure, if_neg hp]
    exact h hp

theorem checkedAdd (h : ¬a + b ≤ cap → allowed error) :
    Meets allowed (checkedAdd cap error a b) fun c => c = a + b ∧ a + b ≤ cap := by
  rw [Checks.checkedAdd]
  split
  case isTrue hc  => exact ⟨rfl, hc⟩
  case isFalse hc => exact h hc

theorem checkedMul (h : ¬a * b ≤ cap → allowed error) :
    Meets allowed (checkedMul cap error a b) fun c => c = a * b ∧ a * b ≤ cap := by
  rw [Checks.checkedMul]
  split
  case isTrue hc  => exact ⟨rfl, hc⟩
  case isFalse hc => exact h hc

-- A loop keeps an invariant that may refer to the elements which it has passed.
theorem foldlM {γ : Type*} {step : α → γ → Except ε α} {I : List γ → α → Prop} {l : List γ} {a : α}
    (init : I [] a)
    (preserved : ∀ passed c a, c ∈ l → I passed a →
      Meets allowed (step a c) (I (passed ++ [c]))) :
    Meets allowed (l.foldlM step a) (I l) := by
  induction l generalizing a I
  case nil          => exact init
  case cons c l hi =>
    rw [List.foldlM_cons]
    refine (preserved [] c a (List.mem_cons_self ..) init).bind fun a' ha => ?_
    refine hi (I := fun passed => I (c :: passed)) ha fun passed d a'' hd => ?_
    exact preserved (c :: passed) d a'' (List.mem_cons_of_mem _ hd)

theorem checkedSum {summands : List Nat} (ha : a ≤ cap)
    (h : ∀ passed : List Nat, ∀ c ∈ summands, ¬a + passed.sum + c ≤ cap → allowed error) :
    Meets allowed (checkedSum cap error a summands) fun c => c = a + summands.sum ∧ c ≤ cap := by
  refine foldlM (I := fun passed c => c = a + passed.sum ∧ c ≤ cap) ⟨rfl, ha⟩ ?_
  intro passed c d hc ⟨hd, _⟩
  refine (checkedAdd fun hn => h passed c hc (hd ▸ hn)).mono fun e ⟨he, hb⟩ => ?_
  rw [List.sum_append, List.sum_singleton, he, hd]
  exact ⟨Nat.add_assoc .., hd ▸ hb⟩

theorem mapM {γ : Type*} {step : γ → Except ε α} {l : List γ}
    (h : ∀ c ∈ l, Meets allowed (step c) Q) :
    Meets allowed (l.mapM step) (∀ a ∈ ·, Q a) := by
  induction l
  case nil          => exact ok (List.forall_mem_nil _)
  case cons c l hi =>
    rw [List.mapM_cons]
    refine (h c (List.mem_cons_self ..)).bind fun a ha => ?_
    refine (hi fun d hd => h d (List.mem_cons_of_mem _ hd)).bind fun as has => ?_
    exact ok (List.forall_mem_cons.mpr ⟨ha, has⟩)

end Meets

end Checks
