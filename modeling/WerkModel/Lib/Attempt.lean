import Mathlib

-- Computations on a state that may fail. What they did before a failure stays done.
def Attempt (σ ε α : Type*) :=
  σ → Except ε α × σ

namespace Attempt

universe u

variable {σ ε : Type*} {α β : Type u}

def pure (a : α) : Attempt σ ε α :=
  fun s => (.ok a, s)

def bind (x : Attempt σ ε α) (f : α → Attempt σ ε β) : Attempt σ ε β := fun s =>
  match x s with
  | (.ok a, s)    => f a s
  | (.error e, s) => (.error e, s)

instance instMonad : Monad (Attempt σ ε) where
  pure := Attempt.pure
  bind := Attempt.bind

-- A computation that only looks at the state.
def read (f : σ → Except ε α) : Attempt σ ε α :=
  fun s => (f s, s)

def gets (f : σ → α) : Attempt σ ε α :=
  fun s => (.ok (f s), s)

def check (x : Except ε α) : Attempt σ ε α :=
  read fun _ => x

def modify (f : σ → σ) : Attempt σ ε PUnit :=
  fun s => (.ok ⟨⟩, f s)

-- A computation whose failure is ignored.
def ignore (x : Attempt σ ε α) : Attempt σ ε PUnit :=
  fun s => (.ok ⟨⟩, (x s).2)

variable {x : Attempt σ ε α} {f : α → Attempt σ ε β} {s s' : σ} {a : α} {b : β}

@[simp]
theorem pure_ok {c : α} : (Pure.pure a : Attempt σ ε α) s = (.ok c, s') ↔ c = a ∧ s' = s := by
  change (Except.ok a, s) = _ ↔ _
  simp [eq_comm]

theorem bind_ok : (x >>= f) s = (.ok b, s') ↔ ∃ a t, x s = (.ok a, t) ∧ f a t = (.ok b, s') := by
  change bind x f s = _ ↔ _
  rw [bind]
  split
  case h_1 a t h => simp [h]
  case h_2 e t h => simp [h]

theorem bind_of_ok {t : σ} (h : x s = (.ok a, t)) : (x >>= f) s = f a t := by
  change bind x f s = _
  rw [bind, h]

theorem bind_of_error {e : ε} {t : σ} (h : x s = (.error e, t)) :
    (x >>= f) s = (.error e, t) := by
  change bind x f s = _
  rw [bind, h]

@[simp]
theorem read_ok {f : σ → Except ε α} : read f s = (.ok a, s') ↔ f s = .ok a ∧ s' = s := by
  simp [read, eq_comm]

@[simp]
theorem check_ok {x : Except ε α} :
    (check x : Attempt σ ε α) s = (.ok a, s') ↔ x = .ok a ∧ s' = s :=
  read_ok

@[simp]
theorem modify_ok {f : σ → σ} {u : PUnit} :
    (modify f : Attempt σ ε PUnit) s = (.ok u, s') ↔ s' = f s := by
  simp [modify, eq_comm]

-- A read that succeeds may be left out.
theorem read_bind_ok {g : σ → Except ε α} :
    (read g >>= f) s = (.ok b, s') ↔ ∃ a, g s = .ok a ∧ f a s = (.ok b, s') := by
  rw [bind_ok]
  constructor
  case mp =>
    intro ⟨a, t, hr, hf⟩
    have ⟨hg, ht⟩ := read_ok.mp hr
    exact ⟨a, hg, ht ▸ hf⟩
  case mpr => exact fun ⟨a, hg, hf⟩ => ⟨a, s, read_ok.mpr ⟨hg, rfl⟩, hf⟩

theorem read_bind {g : σ → Except ε α} (h : g s = .ok a) : (read g >>= f) s = f a s :=
  bind_of_ok (Prod.ext h rfl)

theorem read_bind_error {g : σ → Except ε α} {e : ε} (h : g s = .error e) :
    (read g >>= f) s = (.error e, s) :=
  bind_of_error (Prod.ext h rfl)

theorem check_bind {x : Except ε α} (h : x = .ok a) : (check x >>= f) s = f a s :=
  read_bind h

theorem check_bind_error {x : Except ε α} {e : ε} (h : x = .error e) :
    (check x >>= f) s = (.error e, s) :=
  read_bind_error h

theorem check_bind_ok {x : Except ε α} :
    (check x >>= f) s = (.ok b, s') ↔ ∃ a, x = .ok a ∧ f a s = (.ok b, s') :=
  read_bind_ok

theorem gets_bind {g : σ → α} : (gets g >>= f) s = f (g s) s :=
  rfl

theorem modify_bind {g : σ → σ} {f : PUnit → Attempt σ ε β} :
    (modify g >>= f) s = f ⟨⟩ (g s) :=
  rfl

theorem modify_bind_ok {g : σ → σ} {f : PUnit → Attempt σ ε β} :
    (modify g >>= f) s = (.ok b, s') ↔ f ⟨⟩ (g s) = (.ok b, s') :=
  Iff.rfl

end Attempt
