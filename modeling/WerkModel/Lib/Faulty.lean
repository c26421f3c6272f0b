import Mathlib

-- Programs over a state that outlives them. Each of their steps may fail, which they can handle,
-- or may be cut off by a crash, which they cannot. In both cases a part of the step may have
-- happened.
inductive Fate
  | succeeds
  | fails (part : Nat)
  | crashes (part : Nat)
  deriving DecidableEq

inductive Exit (ε α : Type)
  | ok (value : α)
  | error (error : ε)
  | crashed
  deriving DecidableEq

-- The fates of the steps are given in advance, and all further steps succeed.
def Faulty (σ ε α : Type) :=
  σ → List Fate → Exit ε α × σ × List Fate

namespace Faulty

variable {σ ε α β : Type}

instance : Monad (Faulty σ ε) where
  pure a := fun s fates => (.ok a, s, fates)
  bind p f := fun s fates =>
    match p s fates with
    | (.ok a, s, fates)        => f a s fates
    | (.error error, s, fates) => (.error error, s, fates)
    | (.crashed, s, fates)     => (.crashed, s, fates)

def throw (error : ε) : Faulty σ ε α :=
  fun s fates => (.error error, s, fates)

-- What only concerns the program itself can neither fail nor be cut off.
def get : Faulty σ ε σ :=
  fun s fates => (.ok s, s, fates)

def modify (f : σ → σ) : Faulty σ ε Unit :=
  fun s fates => (.ok (), f s, fates)

def lift : Except ε α → Faulty σ ε α
  | .ok a        => fun s fates => (.ok a, s, fates)
  | .error error => fun s fates => (.error error, s, fates)

-- A step with its whole effect, and what may be left of it.
def step (failure : ε) (part : Nat → σ → σ) (whole : σ → Except ε (α × σ)) : Faulty σ ε α :=
  fun s fates =>
    match fates with
    | .fails n :: fates   => (.error failure, part n s, fates)
    | .crashes n :: fates => (.crashed, part n s, fates)
    | fates =>
      match whole s with
      | .ok (a, s')  => (.ok a, s', fates.tail)
      | .error error => (.error error, s, fates.tail)

-- Goes on after an error, but not after a crash.
def attempt (p : Faulty σ ε α) : Faulty σ ε (Except ε α) :=
  fun s fates =>
    match p s fates with
    | (.ok a, s, fates)        => (.ok (.ok a), s, fates)
    | (.error error, s, fates) => (.ok (.error error), s, fates)
    | (.crashed, s, fates)     => (.crashed, s, fates)

-- What a program establishes if it comes to its end, and otherwise.
def Meets (P : σ → Prop) (p : Faulty σ ε α) (Q : α → σ → Prop) (E : σ → Prop) : Prop :=
  ∀ s fates, P s →
    match p s fates with
    | (.ok a, s, _)    => Q a s
    | (.error _, s, _) => E s
    | (.crashed, s, _) => E s

section Rules

variable {P P' : σ → Prop} {Q Q' : α → σ → Prop} {R : β → σ → Prop} {E E' : σ → Prop}
variable {p : Faulty σ ε α} {f : α → Faulty σ ε β}

theorem Meets.pure {a : α} (h : ∀ s, P s → Q a s) :
    Meets P (Pure.pure a : Faulty σ ε α) Q E :=
  fun s _ => h s

theorem Meets.throw {error : ε} (h : ∀ s, P s → E s) :
    Meets P (throw error : Faulty σ ε α) Q E :=
  fun s _ => h s

theorem Meets.get {Q : σ → σ → Prop} (h : ∀ s, P s → Q s s) :
    Meets P (get : Faulty σ ε σ) Q E :=
  fun s _ => h s

theorem Meets.modify {g : σ → σ} {Q : Unit → σ → Prop} (h : ∀ s, P s → Q () (g s)) :
    Meets P (modify g : Faulty σ ε Unit) Q E :=
  fun s _ => h s

theorem Meets.lift {x : Except ε α} (ok : ∀ a s, x = .ok a → P s → Q a s)
    (error : ∀ s, P s → E s) : Meets P (lift x : Faulty σ ε α) Q E := by
  intro s fates hp
  cases x
  case ok a   => exact ok a s rfl hp
  case error => exact error s hp

theorem Meets.bind (hp : Meets P p Q E) (hf : ∀ a, Meets (Q a) (f a) R E) :
    Meets P (p >>= f) R E := by
  intro s fates hs
  have h := hp s fates hs
  simp only [Bind.bind]
  rcases hr : p s fates with ⟨a | error | _, s', fates'⟩ <;> rw [hr] at h
  case ok      => exact hf a s' fates' h
  case error   => exact h
  case crashed => exact h

theorem Meets.mono (h : Meets P' p Q' E') (hp : ∀ s, P s → P' s) (hq : ∀ a s, Q' a s → Q a s)
    (he : ∀ s, E' s → E s) : Meets P p Q E := by
  intro s fates hs
  have h := h s fates (hp s hs)
  rcases hr : p s fates with ⟨a | error | _, s', fates'⟩ <;> rw [hr] at h
  case ok      => exact hq a s' h
  case error   => exact he s' h
  case crashed => exact he s' h

-- A step that does not come to its end has failed, or has left a part of its effect.
theorem Meets.step {failure : ε} {part : Nat → σ → σ} {whole : σ → Except ε (α × σ)}
    (ok : ∀ s a s', P s → whole s = .ok (a, s') → Q a s') (refused : ∀ s, P s → E s)
    (cut : ∀ s n, P s → E (part n s)) : Meets P (step failure part whole) Q E := by
  intro s fates hs
  have hw : match (match whole s with
      | .ok (a, s')  => (.ok a, s', fates.tail)
      | .error error => (.error error, s, fates.tail) : Exit ε α × σ × List Fate) with
      | (.ok a, s, _)    => Q a s
      | (.error _, s, _) => E s
      | (.crashed, s, _) => E s := by
    cases h : whole s
    case ok r    => exact ok s r.1 r.2 hs h
    case error => exact refused s hs
  rcases fates with _ | ⟨_ | n | n, fates⟩
  · exact hw
  · exact hw
  · exact cut s n hs
  · exact cut s n hs

theorem Meets.attempt (h : Meets P p Q E) :
    Meets P p.attempt (fun r s => match r with | .ok a => Q a s | .error _ => E s) E := by
  intro s fates hs
  have h := h s fates hs
  simp only [Faulty.attempt]
  rcases hr : p s fates with ⟨a | error | _, s', fates'⟩ <;> rw [hr] at h <;> exact h

-- What does not depend on the state may be assumed throughout.
theorem Meets.of_pure {p' : Prop} (h : p' → Meets P p Q E) :
    Meets (fun s => p' ∧ P s) p Q E :=
  fun s fates hs => h hs.left s fates hs.right

theorem Meets.exists {γ : Type} {P : γ → σ → Prop} (h : ∀ c, Meets (P c) p Q E) :
    Meets (fun s => ∃ c, P c s) p Q E :=
  fun s fates hs => hs.elim fun c hc => h c s fates hc

end Rules

-- What a program establishes if all of its steps succeed.
def Succeeds (P : σ → Prop) (p : Faulty σ ε α) (Q : α → σ → Prop) : Prop :=
  ∀ s, P s → ∃ a s', p s [] = (.ok a, s', []) ∧ Q a s'

section Success

variable {P P' : σ → Prop} {Q Q' : α → σ → Prop} {R : β → σ → Prop}
variable {p : Faulty σ ε α} {f : α → Faulty σ ε β}

theorem Succeeds.pure {a : α} (h : ∀ s, P s → Q a s) :
    Succeeds P (Pure.pure a : Faulty σ ε α) Q :=
  fun s hs => ⟨a, s, rfl, h s hs⟩

theorem Succeeds.get {Q : σ → σ → Prop} (h : ∀ s, P s → Q s s) :
    Succeeds P (get : Faulty σ ε σ) Q :=
  fun s hs => ⟨s, s, rfl, h s hs⟩

theorem Succeeds.modify {g : σ → σ} {Q : Unit → σ → Prop} (h : ∀ s, P s → Q () (g s)) :
    Succeeds P (modify g : Faulty σ ε Unit) Q :=
  fun s hs => ⟨(), g s, rfl, h s hs⟩

theorem Succeeds.lift {x : Except ε α} {a : α} (hx : x = .ok a) :
    Succeeds P (lift x : Faulty σ ε α) fun b s => b = a ∧ P s :=
  fun s hs => ⟨a, s, by rw [hx]; rfl, rfl, hs⟩

theorem Succeeds.step {failure : ε} {part : Nat → σ → σ} {whole : σ → Except ε (α × σ)}
    (h : ∀ s, P s → ∃ a s', whole s = .ok (a, s') ∧ Q a s') :
    Succeeds P (step failure part whole) Q := by
  intro s hs
  obtain ⟨a, s', hw, hq⟩ := h s hs
  exact ⟨a, s', by simp [Faulty.step, hw], hq⟩

theorem Succeeds.bind (hp : Succeeds P p Q) (hf : ∀ a, Succeeds (Q a) (f a) R) :
    Succeeds P (p >>= f) R := by
  intro s hs
  obtain ⟨a, s', ha, hq⟩ := hp s hs
  obtain ⟨b, s'', hb, hr⟩ := hf a s' hq
  exact ⟨b, s'', by simp only [Bind.bind, ha, hb], hr⟩

theorem Succeeds.attempt (h : Succeeds P p Q) :
    Succeeds P p.attempt fun r s => ∃ a, r = .ok a ∧ Q a s := by
  intro s hs
  obtain ⟨a, s', ha, hq⟩ := h s hs
  exact ⟨.ok a, s', by simp only [Faulty.attempt, ha], a, rfl, hq⟩

theorem Succeeds.mono (h : Succeeds P' p Q') (hp : ∀ s, P s → P' s)
    (hq : ∀ a s, Q' a s → Q a s) : Succeeds P p Q := by
  intro s hs
  obtain ⟨a, s', ha, h⟩ := h s (hp s hs)
  exact ⟨a, s', ha, hq a s' h⟩

-- What does not depend on the state may be assumed throughout.
theorem Succeeds.of_pure {p' : Prop} (h : p' → Succeeds P p Q) :
    Succeeds (fun s => p' ∧ P s) p Q :=
  fun s hs => h hs.left s hs.right

end Success

-- What a program establishes if none of its steps fails, when it comes to its end, when it stops
-- with an error, and when it is cut off.
def Calm (fates : List Fate) : Prop :=
  ∀ part, .fails part ∉ fates

def Ensures (P : σ → Prop) (p : Faulty σ ε α) (Q : α → σ → Prop) (E C : σ → Prop) : Prop :=
  ∀ s fates, P s → Calm fates →
    match p s fates with
    | (.ok a, s, rest)    => Q a s ∧ rest ⊆ fates
    | (.error _, s, rest) => E s ∧ rest ⊆ fates
    | (.crashed, s, _)    => C s ∧ ∃ part, .crashes part ∈ fates

section Calmness

variable {P P' : σ → Prop} {Q Q' : α → σ → Prop} {R : β → σ → Prop} {E E' C C' : σ → Prop}
variable {p : Faulty σ ε α} {f : α → Faulty σ ε β} {s s' : σ} {fates rest : List Fate} {a : α}

theorem Ensures.pure {a : α} (h : ∀ s, P s → Q a s) :
    Ensures P (Pure.pure a : Faulty σ ε α) Q E C :=
  fun s _ hs _ => ⟨h s hs, List.Subset.refl _⟩

theorem Ensures.throw {error : ε} (h : ∀ s, P s → E s) :
    Ensures P (throw error : Faulty σ ε α) Q E C :=
  fun s _ hs _ => ⟨h s hs, List.Subset.refl _⟩

theorem Ensures.lift {x : Except ε α} (ok : ∀ a s, x = .ok a → P s → Q a s)
    (error : ∀ e s, x = .error e → P s → E s) : Ensures P (lift x : Faulty σ ε α) Q E C := by
  intro s fates hp _
  cases x
  case ok a    => exact ⟨ok a s rfl hp, List.Subset.refl _⟩
  case error e => exact ⟨error e s rfl hp, List.Subset.refl _⟩

-- A step of which a part may be left when it is cut off.
theorem Ensures.parted {failure : ε} {part : Nat → σ → σ} {whole : σ → Except ε (α × σ)}
    (ok : ∀ s a s', P s → whole s = .ok (a, s') → Q a s')
    (refused : ∀ s e, P s → whole s = .error e → E s) (cut : ∀ s n, P s → C (part n s)) :
    Ensures P (step failure part whole) Q E C := by
  intro s fates hs hc
  rcases fates with _ | ⟨_ | n | n, fates⟩
  case cons.fails   => exact absurd (List.mem_cons_self ..) (hc n)
  case cons.crashes => exact ⟨cut s n hs, n, List.mem_cons_self ..⟩
  case nil =>
    simp only [Faulty.step]
    cases h : whole s
    case ok r    => exact ⟨ok s r.1 r.2 hs h, List.Subset.refl _⟩
    case error e => exact ⟨refused s e hs h, List.Subset.refl _⟩
  case cons.succeeds =>
    simp only [Faulty.step]
    cases h : whole s
    case ok r    => exact ⟨ok s r.1 r.2 hs h, List.subset_cons_self ..⟩
    case error e => exact ⟨refused s e hs h, List.subset_cons_self ..⟩

-- A step that takes effect as a whole, or not at all.
theorem Ensures.step {failure : ε} {whole : σ → Except ε (α × σ)}
    (ok : ∀ s a s', P s → whole s = .ok (a, s') → Q a s')
    (refused : ∀ s e, P s → whole s = .error e → E s) (cut : ∀ s, P s → C s) :
    Ensures P (step failure (fun _ s => s) whole) Q E C :=
  .parted ok refused fun s _ => cut s

theorem Ensures.attempt (h : Ensures P p Q E C) :
    Ensures P p.attempt (fun r s => match r with | .ok a => Q a s | .error _ => E s) E' C := by
  intro s fates hs hc
  have h := h s fates hs hc
  simp only [Faulty.attempt]
  rcases hr : p s fates with ⟨a | error | _, s', fates'⟩ <;> rw [hr] at h <;> exact h

theorem Ensures.bind (hp : Ensures P p Q E C) (hf : ∀ a, Ensures (Q a) (f a) R E C) :
    Ensures P (p >>= f) R E C := by
  intro s fates hs hc
  have h := hp s fates hs hc
  simp only [Bind.bind]
  rcases hr : p s fates with ⟨a | error | _, s', fates'⟩ <;> rw [hr] at h
  case error   => exact h
  case crashed => exact h
  case ok =>
    obtain ⟨hq, hsub⟩ := h
    have h := hf a s' fates' hq fun part hm => hc part (hsub hm)
    dsimp only
    rcases hr' : f a s' fates' with ⟨b | error | _, s'', fates''⟩ <;> rw [hr'] at h
    case ok    => exact ⟨h.left, List.Subset.trans h.right hsub⟩
    case error => exact ⟨h.left, List.Subset.trans h.right hsub⟩
    case crashed =>
      obtain ⟨hs, part, hm⟩ := h
      exact ⟨hs, part, hsub hm⟩

theorem Ensures.mono (h : Ensures P' p Q' E' C') (hp : ∀ s, P s → P' s)
    (hq : ∀ a s, Q' a s → Q a s) (he : ∀ s, E' s → E s) (hc : ∀ s, C' s → C s) :
    Ensures P p Q E C := by
  intro s fates hs hcalm
  have h := h s fates (hp s hs) hcalm
  rcases hr : p s fates with ⟨a | error | _, s', fates'⟩ <;> rw [hr] at h
  case ok      => exact ⟨hq a s' h.left, h.right⟩
  case error   => exact ⟨he s' h.left, h.right⟩
  case crashed => exact ⟨hc s' h.left, h.right⟩

theorem Ensures.result (h : Ensures P p Q' E C) (hq : ∀ a s, Q' a s → Q a s) :
    Ensures P p Q E C :=
  h.mono (fun _ => id) hq (fun _ => id) fun _ => id

theorem Ensures.stops (h : Ensures P p Q E' C') (he : ∀ s, E' s → E s) (hc : ∀ s, C' s → C s) :
    Ensures P p Q E C :=
  h.mono (fun _ => id) (fun _ _ => id) he hc

theorem Ensures.requires (h : Ensures P' p Q E C) (hp : ∀ s, P s → P' s) : Ensures P p Q E C :=
  h.mono hp (fun _ _ => id) (fun _ => id) fun _ => id

-- What does not depend on the state may be assumed throughout.
theorem Ensures.of_pure {p' : Prop} (h : p' → Ensures P p Q E C) :
    Ensures (fun s => p' ∧ P s) p Q E C :=
  fun s fates hs => h hs.left s fates hs.right

theorem Ensures.exists {γ : Type} {P : γ → σ → Prop} (h : ∀ c, Ensures (P c) p Q E C) :
    Ensures (fun s => ∃ c, P c s) p Q E C :=
  fun s fates hs => hs.elim fun c hc => h c s fates hc

-- A loop keeps an invariant that may refer to the elements which it has passed.
theorem Ensures.foldlM {γ : Type} {g : β → γ → Faulty σ ε β} {I : List γ → β → σ → Prop}
    {l : List γ} {b : β} (h : ∀ passed c b, passed ++ [c] <+: l →
      Ensures (I passed b) (g b c) (I (passed ++ [c])) E C) :
    Ensures (I [] b) (l.foldlM g b) (I l) E C := by
  suffices hs : ∀ rest passed b, passed ++ rest = l →
      Ensures (I passed b) (rest.foldlM g b) (I l) E C from hs l [] b rfl
  intro rest
  induction rest
  case nil =>
    intro passed b hl
    rw [List.append_nil] at hl
    subst hl
    exact .pure fun _ => id
  case cons c rest hi =>
    intro passed b hl
    rw [List.append_cons] at hl
    rw [List.foldlM_cons]
    exact (h passed c b ⟨rest, hl⟩).bind fun b => hi _ _ hl

theorem Ensures.ok (h : Ensures P p Q E C) (hs : P s) (hc : Calm fates)
    (hr : p s fates = (.ok a, s', rest)) : Q a s' := by
  have h := h s fates hs hc
  rw [hr] at h
  exact h.left

theorem Ensures.error {error : ε} (h : Ensures P p Q E C) (hs : P s) (hc : Calm fates)
    (hr : p s fates = (.error error, s', rest)) : E s' := by
  have h := h s fates hs hc
  rw [hr] at h
  exact h.left

theorem Ensures.crashed (h : Ensures P p Q E C) (hs : P s) (hc : Calm fates)
    (hr : p s fates = (.crashed, s', rest)) : C s' ∧ ∃ part, .crashes part ∈ fates := by
  have h := h s fates hs hc
  rwa [hr] at h

end Calmness

end Faulty
