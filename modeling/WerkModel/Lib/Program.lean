import Mathlib
import WerkModel.Lib.System

-- Programs that act on what they share with others by calls. A call is one step, whose answer is up
-- to the environment. What a program relies on between its own steps, and what the others can rely
-- on, is stated by contracts.
inductive Program (ι : Type) (ο : ι → Type) (ε α : Type)
  | done (result : Except ε α)
  | call (i : ι) (next : Except ε (ο i) → Program ι ο ε α)

namespace Program

variable {ι : Type} {ο : ι → Type} {ε α β : Type} {σ τ : Type*}

def bind : Program ι ο ε α → (α → Program ι ο ε β) → Program ι ο ε β
  | done (.ok a), f        => f a
  | done (.error error), _ => done (.error error)
  | call i next, f         => call i fun answer => (next answer).bind f

instance : Monad (Program ι ο ε) where
  pure a := done (.ok a)
  bind   := bind

def throw (error : ε) : Program ι ο ε α :=
  done (.error error)

def perform (i : ι) : Program ι ο ε (ο i) :=
  call i done

-- The result as a value.
def attempt : Program ι ο ε α → Program ι ο ε (Except ε α)
  | done result => done (.ok result)
  | call i next => call i fun answer => (next answer).attempt

-- What has been acquired is released whatever the result is.
def within (acquire : Program ι ο ε Unit) (release : Program ι ο ε Unit)
    (body : Program ι ο ε α) : Program ι ο ε α := do
  acquire
  let result ← body.attempt
  release
  done result

-- The states between two steps satisfy the invariant, and they are related to the state after the
-- last step by what others may do in the meantime.
structure Contract (ι : Type) (ο : ι → Type) (ε : Type) (σ : Type*) where
  Invariant : σ → Prop
  Rely      : σ → σ → Prop
  Guarantee : σ → σ → Prop
  Answers   : σ → (i : ι) → Except ε (ο i) → σ → Prop
  refl      : ∀ s, Rely s s
  trans     : ∀ {s₁ s₂ s₃}, Rely s₁ s₂ → Rely s₂ s₃ → Rely s₁ s₃

-- Each step keeps to the contract, and `Q` holds of the result, as long as the others do.
def Meets (C : Contract ι ο ε σ) (Q : Except ε α → σ → Prop) : Program ι ο ε α → σ → Prop
  | done result, s => ∀ s', C.Rely s s' → C.Invariant s' → Q result s'
  | call i next, s => ∀ s', C.Rely s s' → C.Invariant s' → ∀ answer s'', C.Answers s' i answer s'' →
    C.Guarantee s' s'' ∧ C.Invariant s'' ∧ (next answer).Meets C Q s''

section Rules

variable {C : Contract ι ο ε σ} {p : Program ι ο ε α} {f : α → Program ι ο ε β} {s s' : σ}
variable {P Q : Except ε α → σ → Prop} {R : Except ε β → σ → Prop}

theorem Meets.stable (h : p.Meets C Q s) (hr : C.Rely s s') : p.Meets C Q s' := by
  cases p
  case done => exact fun s'' hs => h s'' (C.trans hr hs)
  case call => exact fun s'' hs => h s'' (C.trans hr hs)

theorem Meets.of_rely (h : ∀ s', C.Rely s s' → C.Invariant s' → p.Meets C Q s') :
    p.Meets C Q s := by
  cases p
  case done => exact fun s' hr hi => h s' hr hi s' (C.refl s') hi
  case call => exact fun s' hr hi => h s' hr hi s' (C.refl s') hi

theorem Meets.result {result : Except ε α} (h : (done result : Program ι ο ε α).Meets C Q s)
    (hi : C.Invariant s) : Q result s :=
  h s (C.refl s) hi

theorem Meets.mono (h : p.Meets C P s) (hq : ∀ result s, P result s → Q result s) :
    p.Meets C Q s := by
  induction p generalizing s
  case done => exact fun s' hr hi => hq _ s' (h s' hr hi)
  case call i next ih =>
    intro s' hr hi answer s'' ha
    obtain ⟨hg, hi, hn⟩ := h s' hr hi answer s'' ha
    exact ⟨hg, hi, ih answer hn⟩

theorem Meets.bind (h : p.Meets C P s)
    (ok : ∀ a s, C.Invariant s → P (.ok a) s → (f a).Meets C R s)
    (error : ∀ e s, C.Invariant s → P (.error e) s → R (.error e) s) :
    (p >>= f).Meets C R s := by
  induction p generalizing s
  case done result =>
    cases result
    case ok a    => exact .of_rely fun s' hr hi => ok a s' hi (h s' hr hi)
    case error e => exact fun s' hr hi => error e s' hi (h s' hr hi)
  case call i next ih =>
    intro s' hr hi answer s'' ha
    obtain ⟨hg, hi, hn⟩ := h s' hr hi answer s'' ha
    exact ⟨hg, hi, ih answer hn⟩

theorem Meets.attempt_bind {f : Except ε α → Program ι ο ε β} (h : p.Meets C P s)
    (hf : ∀ result s, C.Invariant s → P result s → (f result).Meets C R s) :
    (p.attempt >>= f).Meets C R s := by
  induction p generalizing s
  case done result => exact .of_rely fun s' hr hi => hf result s' hi (h s' hr hi)
  case call i next ih =>
    intro s' hr hi answer s'' ha
    obtain ⟨hg, hi, hn⟩ := h s' hr hi answer s'' ha
    exact ⟨hg, hi, ih answer hn⟩

theorem Meets.perform {i : ι} {Q : Except ε (ο i) → σ → Prop}
    (h : ∀ s', C.Rely s s' → C.Invariant s' → ∀ answer s'', C.Answers s' i answer s'' →
      C.Guarantee s' s'' ∧ C.Invariant s'' ∧ ∀ s₁, C.Rely s'' s₁ → C.Invariant s₁ → Q answer s₁) :
    (perform i : Program ι ο ε (ο i)).Meets C Q s :=
  h

end Rules

section Completion

variable {Effect : σ → (i : ι) → ο i → σ → Prop} {p : Program ι ο ε α} {s : σ}
variable {f : α → Program ι ο ε β} {P Q : Except ε α → σ → Prop} {R : Except ε β → σ → Prop}

-- Alone and without failures, the program comes to its end, where `Q` holds of the result.
def Completes (Effect : σ → (i : ι) → ο i → σ → Prop) (Q : Except ε α → σ → Prop) :
    Program ι ο ε α → σ → Prop
  | done result, s => Q result s
  | call i next, s => (∃ o s', Effect s i o s') ∧
    ∀ o s', Effect s i o s' → (next (.ok o)).Completes Effect Q s'

theorem Completes.bind (h : p.Completes Effect P s)
    (ok : ∀ a s, P (.ok a) s → (f a).Completes Effect R s)
    (error : ∀ e s, P (.error e) s → R (.error e) s) : (p >>= f).Completes Effect R s := by
  induction p generalizing s
  case done result =>
    cases result
    case ok a    => exact ok a s h
    case error e => exact error e s h
  case call i next ih => exact ⟨h.left, fun o s' he => ih (.ok o) (h.right o s' he)⟩

theorem Completes.attempt_bind {f : Except ε α → Program ι ο ε β} (h : p.Completes Effect P s)
    (hf : ∀ result s, P result s → (f result).Completes Effect R s) :
    (p.attempt >>= f).Completes Effect R s := by
  induction p generalizing s
  case done result    => exact hf result s h
  case call i next ih => exact ⟨h.left, fun o s' he => ih (.ok o) (h.right o s' he)⟩

theorem Completes.mono (h : p.Completes Effect P s) (hq : ∀ result s, P result s → Q result s) :
    p.Completes Effect Q s := by
  induction p generalizing s
  case done           => exact hq _ _ h
  case call i next ih => exact ⟨h.left, fun o s' he => ih (.ok o) (h.right o s' he)⟩

theorem Completes.perform {i : ι} {Q : Except ε (ο i) → σ → Prop} (he : ∃ o s', Effect s i o s')
    (hq : ∀ o s', Effect s i o s' → Q (.ok o) s') :
    (perform i : Program ι ο ε (ο i)).Completes Effect Q s :=
  ⟨he, hq⟩

theorem Completes.perform_bind {i : ι} {f : ο i → Program ι ο ε β}
    (he : ∃ o s', Effect s i o s')
    (hf : ∀ o s', Effect s i o s' → (f o).Completes Effect R s') :
    (Program.perform i >>= f).Completes Effect R s :=
  ⟨he, hf⟩

-- What a program establishes among others, it establishes alone.
theorem Completes.and_meets {C : Contract ι ο ε σ} (h : p.Completes Effect P s)
    (hm : p.Meets C Q s) (hi : C.Invariant s)
    (he : ∀ s i o s', Effect s i o s' → C.Answers s i (.ok o) s') :
    p.Completes Effect (fun result s => P result s ∧ Q result s ∧ C.Invariant s) s := by
  induction p generalizing s
  case done           => exact ⟨h, hm.result hi, hi⟩
  case call i next ih =>
    refine ⟨h.left, fun o s' hs => ?_⟩
    obtain ⟨-, hi, hn⟩ := hm s (C.refl s) hi (.ok o) s' (he s i o s' hs)
    exact ih (.ok o) (h.right o s' hs) hn hi

end Completion

section Progress

variable {C : Contract ι ο ε σ} {Ready : σ → Prop} {Effect : σ → (i : ι) → ο i → σ → Prop}
variable {p : Program ι ο ε α} {f : α → Program ι ο ε β} {s s' : σ}
variable {P Q : Except ε α → σ → Prop} {R : Except ε β → σ → Prop}

-- Wherever the program has come to among the others, it comes to its end if it is left alone in a
-- state that is ready.
def Progresses (C : Contract ι ο ε σ) (Ready : σ → Prop) (Effect : σ → (i : ι) → ο i → σ → Prop)
    (Q : Except ε α → σ → Prop) : Program ι ο ε α → σ → Prop
  | done result, s => ∀ s', C.Rely s s' → C.Invariant s' → Ready s' → Q result s'
  | call i next, s => ∀ s', C.Rely s s' → C.Invariant s' →
    (Ready s' → (call i next).Completes Effect Q s') ∧
      ∀ answer s'', C.Answers s' i answer s'' → (next answer).Progresses C Ready Effect Q s''

theorem Progresses.stable (h : p.Progresses C Ready Effect Q s) (hr : C.Rely s s') :
    p.Progresses C Ready Effect Q s' := by
  cases p
  case done => exact fun s'' hs => h s'' (C.trans hr hs)
  case call => exact fun s'' hs => h s'' (C.trans hr hs)

theorem Progresses.of_rely
    (h : ∀ s', C.Rely s s' → C.Invariant s' → p.Progresses C Ready Effect Q s') :
    p.Progresses C Ready Effect Q s := by
  cases p
  case done => exact fun s' hr hi => h s' hr hi s' (C.refl s') hi
  case call => exact fun s' hr hi => h s' hr hi s' (C.refl s') hi

theorem Progresses.completes (h : p.Progresses C Ready Effect Q s) (hi : C.Invariant s)
    (hr : Ready s) : p.Completes Effect Q s := by
  cases p
  case done => exact h s (C.refl s) hi hr
  case call => exact (h s (C.refl s) hi).left hr

-- The sequence is taken apart both where the others interfere and where they do not.
theorem Progresses.bind (hm : p.Meets C P s) (hp : p.Progresses C Ready Effect Q s)
    (ok : ∀ a s, C.Invariant s → P (.ok a) s → (f a).Progresses C Ready Effect R s)
    (error : ∀ e s, C.Invariant s → P (.error e) s → Ready s → R (.error e) s)
    (ok' : ∀ a s, Q (.ok a) s → (f a).Completes Effect R s)
    (error' : ∀ e s, Q (.error e) s → R (.error e) s) :
    (p >>= f).Progresses C Ready Effect R s := by
  induction p generalizing s
  case done result =>
    cases result
    case ok a    => exact .of_rely fun s' hr hi => ok a s' hi (hm s' hr hi)
    case error e => exact fun s' hr hi => error e s' hi (hm s' hr hi)
  case call i next ih =>
    intro s' hr hi
    obtain ⟨hc, hn⟩ := hp s' hr hi
    exact ⟨fun hr => (hc hr).bind ok' error', fun answer s'' ha =>
      ih answer (hm s' hr hi answer s'' ha).right.right (hn answer s'' ha)⟩

theorem Progresses.attempt_bind {f : Except ε α → Program ι ο ε β} (hm : p.Meets C P s)
    (hp : p.Progresses C Ready Effect Q s)
    (hf : ∀ result s, C.Invariant s → P result s → (f result).Progresses C Ready Effect R s)
    (hf' : ∀ result s, Q result s → (f result).Completes Effect R s) :
    (p.attempt >>= f).Progresses C Ready Effect R s := by
  induction p generalizing s
  case done result => exact .of_rely fun s' hr hi => hf result s' hi (hm s' hr hi)
  case call i next ih =>
    intro s' hr hi
    obtain ⟨hc, hn⟩ := hp s' hr hi
    exact ⟨fun hr => (hc hr).attempt_bind hf', fun answer s'' ha =>
      ih answer (hm s' hr hi answer s'' ha).right.right (hn answer s'' ha)⟩

-- The calls that a program makes, whatever the answers are.
def Calls (S : ι → Prop) : Program ι ο ε α → Prop
  | done _      => True
  | call i next => S i ∧ ∀ answer, (next answer).Calls S

theorem Calls.bind {S : ι → Prop} (h : p.Calls S) (hf : ∀ a, (f a).Calls S) :
    (p >>= f).Calls S := by
  induction p
  case done result =>
    cases result
    case ok a    => exact hf a
    case error e => trivial
  case call i next ih => exact ⟨h.left, fun answer => ih answer (h.right answer)⟩

theorem Calls.attempt_bind {S : ι → Prop} {f : Except ε α → Program ι ο ε β} (h : p.Calls S)
    (hf : ∀ result, (f result).Calls S) : (p.attempt >>= f).Calls S := by
  induction p
  case done result    => exact hf result
  case call i next ih => exact ⟨h.left, fun answer => ih answer (h.right answer)⟩

theorem Calls.perform_bind {S : ι → Prop} {i : ι} {f : ο i → Program ι ο ε β} (hi : S i)
    (hf : ∀ o, (f o).Calls S) : (Program.perform i >>= f).Calls S := by
  refine ⟨hi, fun answer => ?_⟩
  cases answer
  case error => trivial
  case ok o  => exact hf o

-- A program that never leaves the states where it is not ready.
theorem Progresses.of_calls {S : ι → Prop} {J : σ → Prop} (hc : p.Calls S) (hs : J s)
    (stable : ∀ s s', J s → C.Rely s s' → J s')
    (step : ∀ s i answer s', S i → J s → C.Answers s i answer s' → J s')
    (never : ∀ s, J s → ¬ Ready s) : p.Progresses C Ready Effect Q s := by
  induction p generalizing s
  case done => exact fun s' hr _ hready => absurd hready (never s' (stable s s' hs hr))
  case call i next ih =>
    intro s' hr _
    have hs := stable s s' hs hr
    exact ⟨fun hready => absurd hready (never s' hs), fun answer s'' ha =>
      ih answer (hc.right answer) (step s' i answer s'' hc.left hs ha)⟩

end Progress

end Program

open Program (Contract)

-- Threads that run programs over one state, and what is left of it when some of them crash.
structure Machine (τ ι : Type) (ο : ι → Type) (ε α : Type) (σ : Type*) where
  Initial : σ → Prop
  program : τ → Program ι ο ε α
  Answers : τ → σ → (i : ι) → Except ε (ο i) → σ → Prop
  Crash   : Set τ → σ → σ → Prop

namespace Machine

variable {τ ι : Type} {ο : ι → Type} {ε α : Type} {σ : Type*}

structure Pool (τ ι : Type) (ο : ι → Type) (ε α : Type) (σ : Type*) where
  threads : τ → Option (Program ι ο ε α)
  shared  : σ

inductive Event (τ ε α : Type)
  | started (thread : τ)
  | stepped (thread : τ)
  | finished (thread : τ) (result : Except ε α)
  | crashed (threads : Set τ)

section Steps

variable [DecidableEq τ] (M : Machine τ ι ο ε α σ)

inductive Step : Pool τ ι ο ε α σ → Event τ ε α → Unit → Pool τ ι ο ε α σ → Prop
  | start {c thread} :
    c.threads thread = none →
    Step c (.started thread) ()
      { c with threads := Function.update c.threads thread (some (M.program thread)) }
  | call {c thread i next answer s} :
    c.threads thread = some (.call i next) → M.Answers thread c.shared i answer s →
    Step c (.stepped thread) () ⟨Function.update c.threads thread (some (next answer)), s⟩
  | finish {c thread result} :
    c.threads thread = some (.done result) →
    Step c (.finished thread result) ()
      { c with threads := Function.update c.threads thread none }
  | crash {c c' dead} :
    M.Crash dead c.shared c'.shared → (∀ thread ∈ dead, c'.threads thread = none) →
    (∀ thread ∉ dead, c'.threads thread = c.threads thread) → Step c (.crashed dead) () c'

def system : System (Pool τ ι ο ε α σ) (Event τ ε α) Unit where
  Init c := M.Initial c.shared ∧ ∀ thread, c.threads thread = none
  Step   := M.Step

end Steps

-- A thread that is left alone takes its steps to the end.
theorem exists_run [DecidableEq τ] {M : Machine τ ι ο ε α σ} {t : τ} {p : Program ι ο ε α}
    {Effect : σ → (i : ι) → ο i → σ → Prop} {Q : Except ε α → σ → Prop}
    {h : List (Event τ ε α × Unit)} {c : Pool τ ι ο ε α σ}
    (he : ∀ s i o s', Effect s i o s' → M.Answers t s i (.ok o) s') (r : M.system.Run h c)
    (ht : c.threads t = some p) (hc : p.Completes Effect Q c.shared) :
    ∃ h' c' result, M.system.Run h' c' ∧ c'.threads t = some (.done result) ∧
      Q result c'.shared := by
  induction p generalizing h c
  case done result    => exact ⟨h, c, result, r, ht, hc⟩
  case call i next ih =>
    obtain ⟨⟨o, s', hs⟩, hn⟩ := hc
    exact ih _ (r.step (.call ht (he _ _ _ _ hs))) (Function.update_self ..) (hn o s' hs)

-- What holds between all steps, what every step keeps, what a thread relies on while the others
-- take steps or crash, and what is left of a thread that does not run.
structure Discipline (M : Machine τ ι ο ε α σ) where
  Invariant       : σ → Prop
  Steady          : σ → σ → Prop
  Rely            : τ → σ → σ → Prop
  Idle            : τ → σ → Prop
  steady_refl     : ∀ s, Steady s s
  steady_trans    : ∀ {s₁ s₂ s₃}, Steady s₁ s₂ → Steady s₂ s₃ → Steady s₁ s₃
  rely_refl       : ∀ t s, Rely t s s
  rely_trans      : ∀ {t s₁ s₂ s₃}, Rely t s₁ s₂ → Rely t s₂ s₃ → Rely t s₁ s₃
  rely_idle       : ∀ {t s s'}, Rely t s s' → Idle t s → Idle t s'
  initial         : ∀ {s}, M.Initial s → Invariant s ∧ ∀ t, Idle t s
  crash_invariant : ∀ {dead s s'}, M.Crash dead s s' → Invariant s → Invariant s'
  crash_steady    : ∀ {dead s s'}, M.Crash dead s s' → Steady s s'
  crash_rely      : ∀ {dead s s' t}, M.Crash dead s s' → t ∉ dead → Rely t s s'
  crash_idle      : ∀ {dead s s' t}, M.Crash dead s s' → t ∈ dead → Idle t s'

namespace Discipline

variable {M : Machine τ ι ο ε α σ} (D : M.Discipline) (t : τ)

def Guarantee (s s' : σ) : Prop :=
  D.Steady s s' ∧ ∀ other, other ≠ t → D.Rely other s s'

def contract : Contract ι ο ε σ where
  Invariant := D.Invariant
  Rely      := D.Rely t
  Guarantee := D.Guarantee t
  Answers   := M.Answers t
  refl      := D.rely_refl t
  trans     := D.rely_trans

theorem guarantee_refl (s : σ) : D.Guarantee t s s :=
  ⟨D.steady_refl s, fun other _ => D.rely_refl other s⟩

section Calls

variable {D : M.Discipline} {t : τ} {i : ι} {s : σ}
variable {Effect : τ → σ → (i : ι) → ο i → σ → Prop} {fallible : ι → Prop}

variable (M Effect fallible) in
-- A call has its effect, or it fails and changes nothing.
def Explained : Prop :=
  ∀ t s i answer s', M.Answers t s i answer s' →
    (∃ a, answer = .ok a ∧ Effect t s i a s') ∨ fallible i ∧ s' = s ∧ ∃ e, answer = .error e

theorem meets_perform (hm : Explained M Effect fallible) {Q : Except ε (ο i) → σ → Prop}
    (ok : ∀ s₁ a s₂, D.Rely t s s₁ → D.Invariant s₁ → Effect t s₁ i a s₂ →
      D.Guarantee t s₁ s₂ ∧ D.Invariant s₂ ∧ ∀ s₃, D.Rely t s₂ s₃ → Q (.ok a) s₃)
    (error : fallible i → ∀ e s₁, D.Rely t s s₁ → Q (.error e) s₁) :
    (Program.perform i).Meets (D.contract t) Q s := by
  refine .perform fun s₁ hr hi answer s₂ ha => ?_
  obtain ⟨a, rfl, he⟩ | ⟨hf, rfl, e, rfl⟩ := hm t s₁ i answer s₂ ha
  case inl =>
    obtain ⟨hg, hi, hq⟩ := ok s₁ a s₂ hr hi he
    exact ⟨hg, hi, fun s₃ hr' _ => hq s₃ hr'⟩
  case inr =>
    exact ⟨D.guarantee_refl t s₂, hi, fun s₃ hr' _ => error hf e s₃ (D.rely_trans hr hr')⟩

variable (D Effect) in
-- A call that changes nothing, with what it has seen.
structure Looks (t : τ) (i : ι) (s : σ) (result : Except ε (ο i)) (s' : σ) : Prop where
  rely : D.Rely t s s'
  seen : ∀ a, result = .ok a →
    ∃ s₁, D.Rely t s s₁ ∧ D.Invariant s₁ ∧ Effect t s₁ i a s₁ ∧ D.Rely t s₁ s'

theorem meets_look (hm : Explained M Effect fallible) (h : ∀ s a s', Effect t s i a s' → s' = s) :
    (Program.perform i).Meets (D.contract t) (D.Looks Effect t i s) s := by
  refine meets_perform hm (fun s₁ a s₂ hr hi he => ?_) fun _ e s₁ hr => ⟨hr, fun _ h => by cases h⟩
  obtain rfl := h s₁ a s₂ he
  refine ⟨D.guarantee_refl t s₂, hi, fun s₃ hr' => ⟨D.rely_trans hr hr', fun b hb => ?_⟩⟩
  obtain rfl := Except.ok.inj hb
  exact ⟨s₂, hr, hi, he, hr'⟩

end Calls

-- All programs keep to the discipline, and `Q` holds of their results.
structure Upheld (Q : τ → Except ε α → σ → Prop) : Prop where
  meets : ∀ t s, D.Invariant s → D.Idle t s → (M.program t).Meets (D.contract t) (Q t) s
  idle  : ∀ t result s, Q t result s → D.Idle t s

-- Where the threads are in their programs, they keep to the discipline.
structure Sound (Q : τ → Except ε α → σ → Prop) (c : Pool τ ι ο ε α σ) : Prop where
  invariant : D.Invariant c.shared
  meets     : ∀ t p, c.threads t = some p → p.Meets (D.contract t) (Q t) c.shared
  idle      : ∀ t, c.threads t = none → D.Idle t c.shared

variable [DecidableEq τ] {Q : τ → Except ε α → σ → Prop} {c c' : Pool τ ι ο ε α σ}
variable {e : Event τ ε α} {o : Unit} {h : List (Event τ ε α × Unit)}

theorem update_eq {threads : τ → Option (Program ι ο ε α)} {t t' : τ}
    {new old : Option (Program ι ο ε α)} (h : Function.update threads t' new t = old) :
    t = t' ∧ new = old ∨ t ≠ t' ∧ threads t = old := by
  rw [Function.update_apply] at h
  split at h
  case isTrue he  => exact .inl ⟨he, h⟩
  case isFalse he => exact .inr ⟨he, h⟩

variable {D} in
-- How a thread that runs has got where it is: it starts, it takes a step, or others do.
theorem Sound.thread {t : τ} {p : Program ι ο ε α} (hs : D.Sound Q c) (hc : M.Step c e o c')
    (ht : c'.threads t = some p) :
    (c.threads t = none ∧ p = M.program t ∧ c'.shared = c.shared) ∨
      (∃ i next answer, c.threads t = some (.call i next) ∧ p = next answer ∧
        M.Answers t c.shared i answer c'.shared) ∨
      (c.threads t = some p ∧ D.Rely t c.shared c'.shared) := by
  cases hc
  case start thread hn =>
    obtain ⟨rfl, he⟩ | ⟨-, ht⟩ := update_eq ht
    case inl => exact .inl ⟨hn, (Option.some.inj he).symm, rfl⟩
    case inr => exact .inr (.inr ⟨ht, D.rely_refl t _⟩)
  case call thread i next answer s hn ha =>
    obtain ⟨rfl, he⟩ | ⟨hne, ht⟩ := update_eq ht
    case inl => exact .inr (.inl ⟨i, next, answer, hn, (Option.some.inj he).symm, ha⟩)
    case inr =>
      have hm := hs.meets thread _ hn c.shared (D.rely_refl _ _) hs.invariant _ _ ha
      exact .inr (.inr ⟨ht, hm.left.right t hne⟩)
  case finish thread result hn =>
    obtain ⟨-, he⟩ | ⟨-, ht⟩ := update_eq ht
    case inl => cases he
    case inr => exact .inr (.inr ⟨ht, D.rely_refl t _⟩)
  case crash dead hc hd ha =>
    by_cases hm : t ∈ dead
    case pos => rw [hd t hm] at ht; cases ht
    case neg => exact .inr (.inr ⟨ha t hm ▸ ht, D.crash_rely hc hm⟩)

variable {D} in
theorem Sound.shared (hs : D.Sound Q c) (hc : M.Step c e o c') :
    D.Invariant c'.shared ∧ D.Steady c.shared c'.shared := by
  cases hc
  case start  => exact ⟨hs.invariant, D.steady_refl _⟩
  case finish => exact ⟨hs.invariant, D.steady_refl _⟩
  case call thread i next answer s hn ha =>
    have hm := hs.meets thread _ hn c.shared (D.rely_refl _ _) hs.invariant _ _ ha
    exact ⟨hm.right.left, hm.left.left⟩
  case crash hc _ _ => exact ⟨D.crash_invariant hc hs.invariant, D.crash_steady hc⟩

variable {D} in
theorem Sound.resting {t : τ} (hs : D.Sound Q c) (hu : D.Upheld Q) (hc : M.Step c e o c')
    (ht : c'.threads t = none) : D.Idle t c'.shared := by
  cases hc
  case start =>
    obtain ⟨-, he⟩ | ⟨-, ht⟩ := update_eq ht
    case inl => cases he
    case inr => exact hs.idle t ht
  case call thread i next answer s hn ha =>
    obtain ⟨-, he⟩ | ⟨hne, ht⟩ := update_eq ht
    case inl => cases he
    case inr =>
      have hm := hs.meets thread _ hn c.shared (D.rely_refl _ _) hs.invariant _ _ ha
      exact D.rely_idle (hm.left.right t hne) (hs.idle t ht)
  case finish thread result hn =>
    obtain ⟨rfl, -⟩ | ⟨-, ht⟩ := update_eq ht
    case inl => exact hu.idle t result _ ((hs.meets t _ hn).result hs.invariant)
    case inr => exact hs.idle t ht
  case crash dead hc hd ha =>
    by_cases hm : t ∈ dead
    case pos => exact D.crash_idle hc hm
    case neg => exact D.rely_idle (D.crash_rely hc hm) (hs.idle t (ha t hm ▸ ht))

variable {D} in
theorem Sound.step (hs : D.Sound Q c) (hu : D.Upheld Q) (hc : M.Step c e o c') :
    D.Sound Q c' where
  invariant := (hs.shared hc).left
  idle _    := hs.resting hu hc
  meets t p ht := by
    obtain ⟨hn, rfl, he⟩ | ⟨i, next, answer, hn, rfl, ha⟩ | ⟨hn, hr⟩ := hs.thread hc ht
    case inl => exact he ▸ hu.meets t c.shared hs.invariant (hs.idle t hn)
    case inr.inl =>
      exact (hs.meets t _ hn c.shared (D.rely_refl _ _) hs.invariant _ _ ha).right.right
    case inr.inr => exact (hs.meets t p hn).stable hr

variable {D} in
theorem Upheld.invariant (hu : D.Upheld Q) : M.system.Invariant (D.Sound Q) where
  init c hi := {
    invariant := (D.initial hi.left).left
    meets     := fun t p ht => by rw [hi.right t] at ht; cases ht
    idle      := fun t _ => (D.initial hi.left).right t
  }
  step _ _ _ _ hs hc := hs.step hu hc

variable {D} in
theorem Upheld.sound (hu : D.Upheld Q) (r : M.system.Reachable c) : D.Sound Q c :=
  hu.invariant.reachable r

variable {D} in
theorem Upheld.steady (hu : D.Upheld Q) (r : M.system.Reachable c) (p : M.system.Path c h c') :
    D.Steady c.shared c'.shared := by
  refine p.invariant (I := fun _ c' => D.Steady c.shared c'.shared) (D.steady_refl _) ?_
  intro h c' e o c'' p hs hc
  exact D.steady_trans hs ((hu.sound (p.reachable r)).shared hc).right

variable {D} in
-- What a thread returns satisfies what its program establishes.
theorem Sound.finished {t : τ} {result : Except ε α} (hs : D.Sound Q c)
    (hc : M.Step c (.finished t result) o c') : Q t result c'.shared := by
  cases hc
  case finish hn => exact (hs.meets t _ hn).result hs.invariant

variable {D} in
-- A thread comes to its end whenever it is left alone in a state that is ready for it.
theorem Upheld.progresses {Ready : τ → σ → Prop} {Effect : τ → σ → (i : ι) → ο i → σ → Prop}
    {R : τ → Except ε α → σ → Prop} (hu : D.Upheld Q)
    (hp : ∀ t s, D.Invariant s → D.Idle t s →
      (M.program t).Progresses (D.contract t) (Ready t) (Effect t) (R t) s)
    (r : M.system.Reachable c) {t : τ} {p : Program ι ο ε α} (ht : c.threads t = some p) :
    p.Progresses (D.contract t) (Ready t) (Effect t) (R t) c.shared := by
  have v := hu.invariant.strengthen (J := fun c => ∀ t p, c.threads t = some p →
    p.Progresses (D.contract t) (Ready t) (Effect t) (R t) c.shared) ?_ ?_
  case refine_1 =>
    intro c hi t p ht
    rw [hi.right t] at ht
    cases ht
  case refine_2 =>
    intro c e o c' hs hp' hc t p ht
    obtain ⟨hn, rfl, he⟩ | ⟨i, next, answer, hn, rfl, ha⟩ | ⟨hn, hr⟩ := hs.thread hc ht
    case inl => exact he ▸ hp t c.shared hs.invariant (hs.idle t hn)
    case inr.inl =>
      exact (hp' t _ hn c.shared (D.rely_refl _ _) hs.invariant).right _ _ ha
    case inr.inr => exact (hp' t p hn).stable hr
  exact (v.reachable r).right t p ht

end Discipline

end Machine
