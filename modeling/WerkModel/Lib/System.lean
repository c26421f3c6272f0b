import Mathlib

-- Labelled transition systems whose steps have an observable result, their runs from an initial
-- state, and the invariant rules over these runs.
structure System (σ ι ο : Type*) where
  Init : σ → Prop
  Step : σ → ι → ο → σ → Prop

namespace System

variable {σ ι ο : Type*}

-- A system given by a step function for the inputs that are enabled.
def ofPartial (init : σ) (step : σ → ι → Option (σ × ο)) : System σ ι ο where
  Init s := s = init
  Step s i o s' := step s i = some (s', o)

-- The state after some inputs, the first input first.
def replay (step : σ → ι → Option (σ × ο)) (s : σ) : List ι → Option σ
  | []        => some s
  | i :: rest => (step s i).bind fun (s, _) => replay step s rest

-- The runs of a system with the history of their steps, the latest step first.
inductive Run (M : System σ ι ο) : List (ι × ο) → σ → Prop
  | init {s} : M.Init s → Run M [] s
  | step {h s i o s'} : Run M h s → M.Step s i o s' → Run M ((i, o) :: h) s'

def Reachable (M : System σ ι ο) (s : σ) : Prop :=
  ∃ h, M.Run h s

-- The same system where only the steps that satisfy `G` are taken.
def restrict (M : System σ ι ο) (G : σ → ι → ο → σ → Prop) : System σ ι ο where
  Init := M.Init
  Step s i o s' := M.Step s i o s' ∧ G s i o s'

variable {M : System σ ι ο} {G : σ → ι → ο → σ → Prop} {h : List (ι × ο)} {s s' : σ}

-- An invariant may mention the history of the run.
theorem Run.invariant {I : List (ι × ο) → σ → Prop} (r : M.Run h s)
    (init : ∀ s, M.Init s → I [] s)
    (step : ∀ h s i o s', M.Run h s → I h s → M.Step s i o s' → I ((i, o) :: h) s') : I h s := by
  induction r
  case init hi       => exact init _ hi
  case step r hs hi  => exact step _ _ _ _ _ r hi hs

structure Invariant (M : System σ ι ο) (I : σ → Prop) : Prop where
  init : ∀ s, M.Init s → I s
  step : ∀ s i o s', I s → M.Step s i o s' → I s'

theorem Invariant.run {I : σ → Prop} (v : M.Invariant I) (r : M.Run h s) : I s :=
  r.invariant (I := fun _ => I) v.init (fun _ _ _ _ _ _ => v.step _ _ _ _)

theorem Invariant.reachable {I : σ → Prop} (v : M.Invariant I) (r : M.Reachable s) : I s :=
  v.run r.choose_spec

-- An established invariant may be assumed while another one is proved.
theorem Invariant.strengthen {I J : σ → Prop} (v : M.Invariant I) (init : ∀ s, M.Init s → J s)
    (step : ∀ s i o s', I s → J s → M.Step s i o s' → J s') :
    M.Invariant (fun s => I s ∧ J s) where
  init s hi            := ⟨v.init s hi, init s hi⟩
  step s i o s' hs hst := ⟨v.step s i o s' hs.1 hst, step s i o s' hs.1 hs.2 hst⟩

theorem Run.of_restrict (r : (M.restrict G).Run h s) : M.Run h s := by
  induction r
  case init hi      => exact .init hi
  case step _ hs hi => exact .step hi hs.1

theorem Reachable.of_restrict : (M.restrict G).Reachable s → M.Reachable s
  | ⟨h, r⟩ => ⟨h, r.of_restrict⟩

theorem Reachable.init (hi : M.Init s) : M.Reachable s :=
  ⟨[], .init hi⟩

theorem Reachable.step {i o} (r : M.Reachable s) (hs : M.Step s i o s') : M.Reachable s' :=
  ⟨_, r.choose_spec.step hs⟩

theorem reachable_replay {step : σ → ι → Option (σ × ο)} {init : σ} {inputs : List ι}
    (r : (ofPartial init step).Reachable s) (h : replay step s inputs = some s') :
    (ofPartial init step).Reachable s' := by
  induction inputs generalizing s
  case nil => exact Option.some.inj h ▸ r
  case cons i rest hi =>
    have ⟨(s'', o), hs, hr⟩ := Option.bind_eq_some_iff.mp h
    exact hi (r.step hs) hr

-- The steps from one state to another, the latest step first.
inductive Path (M : System σ ι ο) (s : σ) : List (ι × ο) → σ → Prop
  | refl : Path M s [] s
  | step {h s' i o s''} : Path M s h s' → M.Step s' i o s'' → Path M s ((i, o) :: h) s''

-- A path on which some step satisfies `G`.
inductive Passes (M : System σ ι ο) (G : σ → ι → ο → σ → Prop) (s : σ) :
    List (ι × ο) → σ → Prop
  | here {h s' i o s''} :
    M.Path s h s' → M.Step s' i o s'' → G s' i o s'' → Passes M G s ((i, o) :: h) s''
  | later {h s' i o s''} :
    Passes M G s h s' → M.Step s' i o s'' → Passes M G s ((i, o) :: h) s''

theorem Path.invariant {I : List (ι × ο) → σ → Prop} (p : M.Path s h s') (init : I [] s)
    (step : ∀ h s' i o s'', M.Path s h s' → I h s' → M.Step s' i o s'' → I ((i, o) :: h) s'') :
    I h s' := by
  induction p
  case refl         => exact init
  case step p hs hi => exact step _ _ _ _ _ p hi hs

theorem Passes.path (p : M.Passes G s h s') : M.Path s h s' := by
  induction p
  case here p hs _   => exact p.step hs
  case later _ hs hi => exact hi.step hs

theorem Passes.mono {G' : σ → ι → ο → σ → Prop} (p : M.Passes G s h s')
    (hg : ∀ h s' i o s'', M.Path s h s' → M.Step s' i o s'' → G s' i o s'' →
      M.Passes G' s ((i, o) :: h) s'') : M.Passes G' s h s' := by
  induction p
  case here p hs hi  => exact hg _ _ _ _ _ p hs hi
  case later _ hs hi => exact hi.later hs

-- The next state is a function of the state and the input.
def Deterministic (M : System σ ι ο) : Prop :=
  ∀ s i o o' s' s'', M.Step s i o s' → M.Step s i o' s'' → s' = s''

theorem Path.unique {s'' : σ} (hd : M.Deterministic) (p : M.Path s h s') (p' : M.Path s h s'') :
    s' = s'' := by
  induction p generalizing s''
  case refl => cases p'; rfl
  case step p hs hi =>
    cases p'
    case step p' hs' => exact hd _ _ _ _ _ _ hs (hi p' ▸ hs')

theorem passes_cons {i o s''} (hd : M.Deterministic) (p : M.Path s h s')
    (hs : M.Step s' i o s'') :
    M.Passes G s ((i, o) :: h) s'' ↔ M.Passes G s h s' ∨ G s' i o s'' := by
  constructor
  case mp =>
    intro r
    cases r
    case here p' _ hg => exact .inr (p.unique hd p' ▸ hg)
    case later r _    => exact .inl (p.unique hd r.path ▸ r)
  case mpr => exact fun hg => hg.elim (.later · hs) (.here p hs)

theorem Path.reachable (p : M.Path s h s') (r : M.Reachable s) : M.Reachable s' :=
  p.invariant (I := fun _ => M.Reachable) r fun _ _ _ _ _ _ r hs => r.step hs

end System
