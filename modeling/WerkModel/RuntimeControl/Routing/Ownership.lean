import WerkModel.Lib.System
import WerkModel.RuntimeControl.Routing.Routes

-- The operations that create and release states, in any interleaving, and how the routes count the
-- states of an instance.
open Saturating Tally

namespace RuntimeControl.Routing

-- With the adapter that has returned it.
structure BackendState (α : Type) where
  instanceId : String
  adapter    : α

-- A reservation, with the adapter that its operation calls.
structure Operation (α : Type) where
  kind    : StateRouteReservationKind α
  adapter : α

-- A release calls the adapter that the state was routed to.
structure Release (α : Type) where
  state   : BackendState α
  adapter : α

def StateRouteReservationKind.isNew {α : Type} : StateRouteReservationKind α → Bool
  | .existing .. => false
  | .new         => true

-- The instance that a place is counted for.
def StateRouteReservationKind.holder {α : Type} : StateRouteReservationKind α → Option (String × α)
  | .existing instanceId adapter => some (instanceId, adapter)
  | .new                         => none

def StateRouteReservationKind.holds {α : Type} (kind : StateRouteReservationKind α)
    (instanceId : String) : Bool :=
  kind.holder.any (·.1 = instanceId)

-- The states are those that are recorded and are not being released. An adapter confirms the
-- release of a state once, so that a state has one release at a time.
structure World (α : Type) where
  routes     : RouteCache α
  operations : List (Operation α)
  states     : List (BackendState α)
  releases   : List (Release α)

inductive Action (α : Type)
  | reserve (adapter : α) (expectedInstance : String)
  -- The backend has returned a state.
  | commit (i : Nat) (instanceId : String) (cleaned : Bool)
  -- The backend has failed or has returned no state.
  | drop (i : Nat)
  | route (instanceId : String)
  | startRelease (i : Nat)
  | finishRelease (i : Nat) (released : Bool)

namespace World

variable {α : Type} [DecidableEq α]

def new : World α where
  routes     := .new
  operations := []
  states     := []
  releases   := []

abbrev Result := Except ProtocolError Unit

-- Every access to the routes is a step of its own.
def step (w : World α) : Action α → Option (World α × Result)
  | .reserve adapter expectedInstance =>
    match w.routes.reserveStateRoute adapter expectedInstance with
    | (.error error, routes) => some ({ w with routes }, .error error)
    | (.ok kind, routes)     =>
      some ({ w with routes, operations := ⟨kind, adapter⟩ :: w.operations }, .ok ())
  | .commit i instanceId cleaned =>
    w.operations[i]?.map fun operation =>
      match w.routes.commitStateRoute operation.kind instanceId operation.adapter cleaned with
      | (.error error, routes) =>
        ({ w with routes, operations := w.operations.eraseIdx i }, .error error)
      | (.ok (), routes)       =>
        ({ w with
          routes
          operations := w.operations.eraseIdx i
          states     := ⟨instanceId, operation.adapter⟩ :: w.states }, .ok ())
  | .drop i =>
    w.operations[i]?.map fun operation =>
      ({ w with
        routes     := w.routes.drop operation.kind
        operations := w.operations.eraseIdx i }, .ok ())
  | .route instanceId =>
    match w.routes.adapterForState instanceId with
    | (.error error, routes) => some ({ w with routes }, .error error)
    | (.ok _, routes)        => some ({ w with routes }, .ok ())
  | .startRelease i =>
    w.states[i]?.map fun state =>
      match w.routes.adapterForState state.instanceId with
      | (.error error, routes) => ({ w with routes }, .error error)
      | (.ok adapter, routes)  =>
        ({ w with
          routes
          states   := w.states.eraseIdx i
          releases := ⟨state, adapter⟩ :: w.releases }, .ok ())
  | .finishRelease i released =>
    w.releases[i]?.map fun release =>
      if released then
        match w.routes.releaseInstanceLocked release.state.instanceId release.adapter with
        | (result, routes) =>
          ({ w with routes, releases := w.releases.eraseIdx i }, result)
      else
        ({ w with
          states   := release.state :: w.states
          releases := w.releases.eraseIdx i }, .ok ())

-- What backends, processes and descriptors answer is part of an action, so that any interleaving of
-- the operations is a run.
def system (α : Type) [DecidableEq α] : System (World α) (Action α) Result :=
  .ofPartial new step

-- The states that are recorded and whose release is not.
def unreleased (w : World α) : List (BackendState α) :=
  w.states ++ w.releases.map Release.state

-- The operations with a place that no instance has been found for.
def pending (w : World α) : Nat :=
  w.operations.countP (·.kind.isNew)

end World

-- The places are counted for every instance, and those that are not are within the capacity.
structure Sound {α : Type} [DecidableEq α] (w : World α) : Prop where
  unique   : (w.routes.instances.map Entry.key).Nodup
  counted  : ∀ route ∈ w.routes.instances, route.count =
    w.unreleased.countP (·.instanceId = route.key) + w.operations.countP (·.kind.holds route.key)
  positive : ∀ route ∈ w.routes.instances, 0 < route.count
  pending  : w.routes.pendingStateRoutes = w.pending
  capacity : w.routes.instances.length + w.routes.pendingStateRoutes ≤ maxInstanceRoutes
  admitted : ∀ operation ∈ w.operations, operation.kind = .new → ∀ instanceId,
    (w.routes.commit instanceId operation.adapter operation.kind).1.1 ≠ .error capacityError
  routed   : ∀ state ∈ w.unreleased, ∃ route ∈ w.routes.instances,
    route.key = state.instanceId ∧ route.owner = state.adapter

namespace World

variable {α : Type}

def holders (w : World α) : Multiset (String × α) :=
  ↑(w.operations.filterMap (·.kind.holder)) +
    ↑(w.unreleased.map fun state => (state.instanceId, state.adapter))

structure Owned (w : World α) : Prop where
  holds    : Holds w.routes.instances w.holders
  pending  : w.routes.pendingStateRoutes = w.pending
  capacity : w.routes.instances.length + w.routes.pendingStateRoutes ≤ maxInstanceRoutes
  calls    : ∀ operation ∈ w.operations, ∀ instanceId adapter,
    operation.kind = .existing instanceId adapter → adapter = operation.adapter
  agree    : ∀ release ∈ w.releases, release.adapter = release.state.adapter

variable {w w' : World α} {action : Action α} {result : Result}
variable {operation : Operation α} {i : Nat} {routes : RouteCache α}

theorem perm_of_getElem? {β : Type} {l : List β} {i : Nat} {b : β} (h : l[i]? = some b) :
    l.Perm (b :: l.eraseIdx i) := by
  obtain ⟨hi, rfl⟩ := List.getElem?_eq_some_iff.mp h
  exact (List.getElem_cons_eraseIdx_perm hi).symm

theorem owned_new : (new : World α).Owned where
  holds    := .empty
  pending  := rfl
  capacity := Nat.zero_le _
  calls    := by simp [new]
  agree    := by simp [new]

theorem holders_cons {operations : List (Operation α)} {states releases} :
    holders ⟨routes, operation :: operations, states, releases⟩ =
      (operation.kind.holder.elim 0 ({·})) + holders ⟨routes, operations, states, releases⟩ := by
  obtain ⟨kind, adapter⟩ := operation
  cases kind
  case existing => rfl
  case new      => exact (zero_add _).symm

-- An operation that has ended leaves its place.
theorem holders_eraseIdx (hi : w.operations[i]? = some operation) :
    w.holders = (operation.kind.holder.elim 0 ({·})) +
      holders { w with operations := w.operations.eraseIdx i } := by
  refine Eq.trans ?_ holders_cons
  rw [holders, holders]
  exact congrArg (· + _) (Multiset.coe_eq_coe.mpr ((perm_of_getElem? hi).filterMap _))

theorem pending_eraseIdx (hi : w.operations[i]? = some operation) :
    w.pending = (w.operations.eraseIdx i).countP (·.kind.isNew) +
      if operation.kind.isNew then 1 else 0 := by
  rw [pending, (perm_of_getElem? hi).countP_eq, List.countP_cons]

theorem holders_states {state : BackendState α} :
    holders { w with states := state :: w.states } =
      (state.instanceId, state.adapter) ::ₘ w.holders := by
  rw [holders, holders, unreleased, List.cons_append, List.map_cons, ←Multiset.cons_coe,
    Multiset.add_cons]
  rfl

-- The operation is over, and its place is free.
structure Freed (w : World α) (i : Nat) (routes : RouteCache α) : Prop where
  holds    : Holds routes.instances (holders { w with operations := w.operations.eraseIdx i })
  pending  : routes.pendingStateRoutes = (w.operations.eraseIdx i).countP (·.kind.isNew)
  capacity : routes.instances.length + routes.pendingStateRoutes ≤ maxInstanceRoutes

theorem Owned.freed_new (h : w.Owned) (hi : w.operations[i]? = some operation)
    (hk : operation.kind = .new) :
    w.Freed i { w.routes with pendingStateRoutes := w.routes.pendingStateRoutes - 1 } ∧
      w.routes.instances.length + (w.routes.pendingStateRoutes - 1) < maxInstanceRoutes := by
  have hh := h.holds
  rw [holders_eraseIdx hi, hk] at hh
  have hp := h.pending
  rw [pending_eraseIdx hi, hk] at hp
  have hp' : w.routes.pendingStateRoutes =
      (w.operations.eraseIdx i).countP (·.kind.isNew) + 1 := hp
  have hc := h.capacity
  refine ⟨⟨(zero_add (holders { w with operations := w.operations.eraseIdx i })) ▸ hh, ?_, ?_⟩, ?_⟩
  · simp only [hp', Nat.add_sub_cancel]
  · simp only
    omega
  · omega

theorem Owned.of_freed (h : w.Owned) (hf : w.Freed i routes) :
    Owned { w with routes, operations := w.operations.eraseIdx i } where
  holds                  := hf.holds
  pending                := hf.pending
  capacity               := hf.capacity
  calls operation ho     := h.calls operation (List.mem_of_mem_eraseIdx ho)
  agree                  := h.agree

theorem Owned.of_perm (h : w.Owned) (hp : w.routes.instances.Perm routes.instances)
    (hpending : routes.pendingStateRoutes = w.routes.pendingStateRoutes) :
    Owned { w with routes } where
  holds    := h.holds.perm hp
  pending  := hpending.trans h.pending
  capacity := by
    simp only [hpending, ←hp.length_eq]
    exact h.capacity
  calls    := h.calls
  agree    := h.agree

section Steps

variable [DecidableEq α]

-- A state that is committed where the place of another instance is reserved has a route already, or
-- there is one left for it besides the pending ones.
def Roomy (w : World α) : Action α → Prop
  | .commit i instanceId _ => ∀ operation ∈ w.operations[i]?, ∀ reserved adapter,
    operation.kind = .existing reserved adapter → instanceId ≠ reserved →
      let routes := (w.routes.releaseInstanceLocked reserved adapter).2
      locate instanceId routes.instances = none →
        routes.instances.length + routes.pendingStateRoutes < maxInstanceRoutes
  | _                      => True

theorem Owned.reserve (h : w.Owned) {adapter : α} {instanceId : String}
    (hs : w.step (.reserve adapter instanceId) = some (w', result)) : w'.Owned := by
  rw [step] at hs
  rcases @RouteCache.reserveStateRoute_cases α _ w.routes instanceId adapter w.holders with
    ⟨error, he⟩ | ⟨routes, he, hp, hl, ha⟩ | ⟨routes, he, hi, hp, hlt⟩
  case inl =>
    rw [he] at hs
    cases hs
    exact h
  case inr.inl =>
    rw [he] at hs
    cases hs
    refine ⟨holders_cons ▸ ha h.holds, ?_, ?_, ?_, h.agree⟩
    · rw [hp, h.pending]
      rfl
    · rw [hl, hp]
      exact h.capacity
    · refine List.forall_mem_cons.mpr ⟨fun _ _ heq => ?_, h.calls⟩
      cases heq
      rfl
  case inr.inr =>
    rw [he] at hs
    cases hs
    refine ⟨?_, ?_, ?_, ?_, h.agree⟩
    · rw [holders_cons, hi]
      exact (zero_add w.holders).symm ▸ h.holds
    · rw [hp, h.pending]
      exact (List.countP_cons_of_pos rfl).symm
    · rw [hi, hp]
      exact hlt
    · exact List.forall_mem_cons.mpr ⟨fun _ _ heq => (by cases heq), h.calls⟩

theorem Owned.freed_existing (h : w.Owned) (hi : w.operations[i]? = some operation)
    {instanceId : String} {adapter : α} (hk : operation.kind = .existing instanceId adapter) :
    ∃ routes, w.routes.releaseInstanceLocked instanceId adapter = (.ok (), routes) ∧
      w.Freed i routes := by
  have hh : Holds w.routes.instances ((instanceId, adapter) ::ₘ
      holders { w with operations := w.operations.eraseIdx i }) := by
    have hh := h.holds
    rw [holders_eraseIdx hi, hk] at hh
    exact hh
  obtain ⟨routes, he, hp, hr, hl⟩ := RouteCache.releaseInstanceLocked_of_holds hh
  refine ⟨routes, he, hr, ?_, ?_⟩
  · rw [hp, h.pending, pending_eraseIdx hi, hk]
    rfl
  · have := h.capacity
    omega

theorem Owned.drop (h : w.Owned) (hs : w.step (.drop i) = some (w', result)) : w'.Owned := by
  rw [step] at hs
  obtain ⟨operation, hi, he⟩ := Option.map_eq_some_iff.mp hs
  cases he
  refine h.of_freed ?_
  cases hk : operation.kind
  case existing instanceId adapter =>
    obtain ⟨routes, he, hf⟩ := h.freed_existing hi hk
    rw [RouteCache.drop, he]
    exact hf
  case new => exact (h.freed_new hi hk).1

-- A state is recorded if its instance has a route or there is one left.
theorem Owned.record (h : w.Owned) (hf : w.Freed i routes) (instanceId : String) (adapter : α)
    (hroom : locate instanceId routes.instances = none →
      routes.instances.length + routes.pendingStateRoutes < maxInstanceRoutes) :
    (∃ error, routes.recordInstanceLocked instanceId adapter = (.error error, routes) ∧
      error ≠ capacityError) ∨
    ∃ routes', routes.recordInstanceLocked instanceId adapter = (.ok (), routes') ∧
      Owned { w with
        routes     := routes'
        operations := w.operations.eraseIdx i
        states     := ⟨instanceId, adapter⟩ :: w.states } := by
  rcases @RouteCache.recordInstanceLocked_cases α _ routes instanceId adapter
    (holders { w with operations := w.operations.eraseIdx i }) with
    ⟨error, he, hc⟩ | ⟨routes', he, hp, ha, hl⟩
  case inl =>
    refine .inl ⟨error, he, fun hcap => ?_⟩
    obtain ⟨hfull, hnone⟩ := hc hcap
    have := hroom hnone
    omega
  case inr =>
    refine .inr ⟨routes', he, ?_, ?_, ?_, ?_, h.agree⟩
    · exact holders_states (w := { w with operations := w.operations.eraseIdx i }) ▸ ha hf.holds
    · rw [hp]
      exact hf.pending
    · have := hf.capacity
      rcases hl with hl | ⟨hnone, _, hl⟩
      · simp only
        omega
      · have := hroom hnone
        simp only
        omega
    · exact fun operation ho => h.calls operation (List.mem_of_mem_eraseIdx ho)

-- What a commit leaves the routes as, and whether the state is recorded.
theorem Owned.commitStateRoute (h : w.Owned) (hi : w.operations[i]? = some operation)
    {instanceId : String} {cleaned : Bool} (hr : w.Roomy (.commit i instanceId cleaned)) :
    (∃ error routes, w.routes.commitStateRoute operation.kind instanceId operation.adapter cleaned =
        (.error error, routes) ∧ Owned { w with routes, operations := w.operations.eraseIdx i }) ∨
    ∃ routes, w.routes.commitStateRoute operation.kind instanceId operation.adapter cleaned =
        (.ok (), routes) ∧ Owned { w with
          routes
          operations := w.operations.eraseIdx i
          states     := ⟨instanceId, operation.adapter⟩ :: w.states } := by
  have hm := List.mem_of_getElem? hi
  cases hk : operation.kind
  case existing reserved adapter =>
    have ha := h.calls operation hm reserved adapter hk
    by_cases hsame : instanceId = reserved
    case pos =>
      have he : w.routes.commit instanceId operation.adapter (.existing reserved adapter) =
          ((.ok (), w.routes), false) := if_pos ⟨hsame, ha⟩
      have hh : Holds w.routes.instances ((instanceId, operation.adapter) ::ₘ
          holders { w with operations := w.operations.eraseIdx i }) := by
        have hh := h.holds
        rw [holders_eraseIdx hi, hk, ←hsame, ha] at hh
        exact hh
      refine .inr ⟨w.routes, by rw [RouteCache.commitStateRoute, he], ?_, ?_, h.capacity, ?_,
        h.agree⟩
      · exact holders_states (w := { w with operations := w.operations.eraseIdx i }) ▸ hh
      · rw [h.pending, pending_eraseIdx hi, hk]
        rfl
      · exact fun operation ho => h.calls operation (List.mem_of_mem_eraseIdx ho)
    case neg =>
      obtain ⟨routes, he, hf⟩ := h.freed_existing hi hk
      have hroom := hr operation hi reserved adapter hk hsame
      rw [he] at hroom
      have hc : w.routes.commit instanceId operation.adapter (.existing reserved adapter) =
          (routes.recordInstanceLocked instanceId operation.adapter, false) := by
        rw [RouteCache.commit, if_neg fun hs => hsame hs.1, he]
      rw [RouteCache.commitStateRoute, hc]
      rcases h.record hf instanceId operation.adapter hroom with
        ⟨error, he, _⟩ | ⟨routes', he, ho⟩
      case inl => exact .inl ⟨_, routes, by rw [he]; rfl, h.of_freed hf⟩
      case inr => exact .inr ⟨routes', by rw [he], ho⟩
  case new =>
    obtain ⟨hf, hlt⟩ := h.freed_new hi hk
    rw [RouteCache.commitStateRoute, RouteCache.commit]
    rcases h.record hf instanceId operation.adapter fun _ => hlt with
      ⟨error, he, _⟩ | ⟨routes', he, ho⟩
    case inl => exact .inl ⟨_, _, by rw [he]; rfl, h.of_freed hf⟩
    case inr => exact .inr ⟨routes', by rw [he], ho⟩

theorem Owned.commit (h : w.Owned) {instanceId : String} {cleaned : Bool}
    (hr : w.Roomy (.commit i instanceId cleaned))
    (hs : w.step (.commit i instanceId cleaned) = some (w', result)) : w'.Owned := by
  rw [step] at hs
  obtain ⟨operation, hi, he⟩ := Option.map_eq_some_iff.mp hs
  rcases h.commitStateRoute hi hr with ⟨error, routes, hc, ho⟩ | ⟨routes, hc, ho⟩
  case inl =>
    rw [hc] at he
    cases he
    exact ho
  case inr =>
    rw [hc] at he
    cases he
    exact ho

theorem Owned.route (h : w.Owned) {instanceId : String}
    (hs : w.step (.route instanceId) = some (w', result)) : w'.Owned := by
  rw [step] at hs
  rcases @RouteCache.adapterForState_cases α w.routes instanceId with
    he | ⟨_, routes, he, hp, hm, _⟩
  case inl =>
    rw [he] at hs
    cases hs
    exact h
  case inr =>
    rw [he] at hs
    cases hs
    exact h.of_perm hm hp

-- A state is routed to the adapter that has returned it.
theorem Owned.startRelease (h : w.Owned)
    (hs : w.step (.startRelease i) = some (w', result)) : w'.Owned := by
  rw [step] at hs
  obtain ⟨state, hi, hw⟩ := Option.map_eq_some_iff.mp hs
  rcases @RouteCache.adapterForState_cases α w.routes state.instanceId with
    he | ⟨adapter, routes, he, hp, hm, route, hroute, hkey, howner⟩
  case inl =>
    rw [he] at hw
    cases hw
    exact h
  case inr =>
    rw [he] at hw
    cases hw
    have hl := perm_of_getElem? hi
    have hunreleased : w.unreleased.Perm
        (w.states.eraseIdx i ++ state :: w.releases.map Release.state) :=
      (hl.append_right _).trans List.perm_middle.symm
    have hheld : (state.instanceId, state.adapter) ∈ w.holders := by
      refine Multiset.mem_add.mpr (.inr (List.mem_map.mpr ⟨state, ?_, rfl⟩))
      exact List.mem_append_left _ (List.mem_of_getElem? hi)
    have hadapter : adapter = state.adapter := by
      obtain ⟨entry, hentry, hk, ho⟩ := h.holds.owned _ hheld
      have := List.inj_on_of_nodup_map h.holds.unique hentry hroute (hk.trans hkey.symm)
      rw [←howner, ←this, ho]
    have ho := h.of_perm hm hp
    refine ⟨?_, ho.pending, ho.capacity, ho.calls, ?_⟩
    · have heq : w.holders = holders ⟨routes, w.operations, w.states.eraseIdx i,
          ⟨state, adapter⟩ :: w.releases⟩ :=
        congrArg (_ + ·) (Multiset.coe_eq_coe.mpr (hunreleased.map _))
      exact heq ▸ ho.holds
    · exact List.forall_mem_cons.mpr ⟨hadapter, h.agree⟩

theorem Owned.finishRelease (h : w.Owned) {released : Bool}
    (hs : w.step (.finishRelease i released) = some (w', result)) : w'.Owned := by
  rw [step] at hs
  obtain ⟨release, hi, hw⟩ := Option.map_eq_some_iff.mp hs
  have ha := h.agree release (List.mem_of_getElem? hi)
  have hp := (perm_of_getElem? hi).map Release.state
  have hunreleased : w.unreleased.Perm
      (release.state :: (w.states ++ (w.releases.eraseIdx i).map Release.state)) :=
    (hp.append_left _).trans List.perm_middle
  have hagree : ∀ release ∈ w.releases.eraseIdx i, release.adapter = release.state.adapter :=
    fun release hm => h.agree release (List.mem_of_mem_eraseIdx hm)
  split at hw
  case isTrue =>
    have hh : w.holders = (release.state.instanceId, release.adapter) ::ₘ
        holders { w with releases := w.releases.eraseIdx i } := by
      rw [holders, Multiset.coe_eq_coe.mpr (hunreleased.map _), List.map_cons, ha,
        ←Multiset.cons_coe, Multiset.add_cons]
      rfl
    obtain ⟨routes, he, hp, hr, hl⟩ := RouteCache.releaseInstanceLocked_of_holds (hh ▸ h.holds)
    rw [he] at hw
    cases hw
    refine ⟨hr, hp.trans h.pending, ?_, h.calls, hagree⟩
    have := h.capacity
    simp only
    omega
  case isFalse =>
    cases hw
    refine ⟨?_, h.pending, h.capacity, h.calls, hagree⟩
    have heq : w.holders = holders ⟨w.routes, w.operations, release.state :: w.states,
        w.releases.eraseIdx i⟩ :=
      congrArg (_ + ·) (Multiset.coe_eq_coe.mpr (hunreleased.map _))
    exact heq ▸ h.holds

theorem Owned.step (h : w.Owned) (hr : w.Roomy action)
    (hs : w.step action = some (w', result)) : w'.Owned := by
  cases action
  case reserve       => exact h.reserve hs
  case commit        => exact h.commit hr hs
  case drop          => exact h.drop hs
  case route         => exact h.route hs
  case startRelease  => exact h.startRelease hs
  case finishRelease => exact h.finishRelease hs

theorem step_reserve {kind : StateRouteReservationKind α} {adapter : α} {instanceId : String}
    (h : w.routes.reserveStateRoute adapter instanceId = (.ok kind, routes)) :
    w.step (.reserve adapter instanceId) =
      some ({ w with routes, operations := ⟨kind, adapter⟩ :: w.operations }, .ok ()) := by
  rw [step, h]

theorem step_commit {instanceId : String} {cleaned : Bool}
    (hi : w.operations[i]? = some operation)
    (h : w.routes.commitStateRoute operation.kind instanceId operation.adapter cleaned =
      (.ok (), routes)) :
    w.step (.commit i instanceId cleaned) = some ({ w with
      routes
      operations := w.operations.eraseIdx i
      states     := ⟨instanceId, operation.adapter⟩ :: w.states }, .ok ()) := by
  rw [step, hi, Option.map_some, h]

theorem owned_of_reachable
    (h : ((system α).restrict fun w action _ _ => w.Roomy action).Reachable w) : w.Owned := by
  refine System.Invariant.reachable (I := Owned) ⟨?_, ?_⟩ h
  · rintro _ rfl
    exact owned_new
  · exact fun w action result w' ho hs => ho.step hs.2 hs.1

end Steps

theorem held_holders {instanceId : String} : held w.holders instanceId =
    w.unreleased.countP (·.instanceId = instanceId) +
      w.operations.countP (·.kind.holds instanceId) := by
  rw [held, holders, Multiset.countP_add, Multiset.coe_countP, Multiset.coe_countP,
    List.countP_filterMap, List.countP_map, Nat.add_comm]
  refine congrArg (_ + ·) (List.countP_congr fun operation _ => ?_)
  cases hk : operation.kind
  case existing => simp [StateRouteReservationKind.holder, StateRouteReservationKind.holds]
  case new      => simp [StateRouteReservationKind.holder, StateRouteReservationKind.holds]

end World

section Soundness

variable {α : Type} [DecidableEq α] {w : World α}

theorem World.Owned.sound (h : w.Owned) : Sound w where
  unique                := h.holds.unique
  counted route hm      := (h.holds.counted route hm).trans World.held_holders
  positive              := h.holds.positive
  pending               := h.pending
  capacity              := h.capacity
  admitted operation hm hk instanceId := by
    obtain ⟨i, hi⟩ := List.mem_iff_getElem?.mp hm
    obtain ⟨hf, hlt⟩ := h.freed_new hi hk
    rw [hk, RouteCache.commit]
    rcases h.record hf instanceId operation.adapter fun _ => hlt with
      ⟨error, he, hne⟩ | ⟨routes', he, _⟩
    case inl => exact he ▸ fun heq => hne (Except.error.inj heq)
    case inr => exact he ▸ fun heq => (by cases heq)
  routed state hm       := by
    have hh : (state.instanceId, state.adapter) ∈ w.holders :=
      Multiset.mem_add.mpr (.inr (List.mem_map.mpr ⟨state, hm, rfl⟩))
    exact h.holds.owned _ hh

-- In every interleaving whose commits leave the pending places free, the states are counted.
theorem sound_of_reachable
    (h : ((World.system α).restrict fun w action _ _ => w.Roomy action).Reachable w) : Sound w :=
  (World.owned_of_reachable h).sound

theorem sound_of_reachable_committed :
    Sound (⟨⟨[⟨"a", (), 1⟩], 0⟩, [], [⟨"a", ()⟩], []⟩ : World Unit) := by
  refine sound_of_reachable (System.Reachable.step (i := .commit 0 "a" true) (o := .ok ())
    (System.Reachable.step (i := .reserve () "a") (o := .ok ()) (.init rfl) ⟨rfl, trivial⟩)
    ⟨rfl, ?_⟩)
  intro operation ho reserved adapter hk
  cases ho
  cases hk

end Soundness

section Overfull

def name (k : Nat) : String :=
  String.ofList (List.replicate k 'a')

theorem name_inj {j k : Nat} (h : name j = name k) : j = k := by
  simpa [name] using congrArg (·.toList.length) h

-- Each of the first instances has a state.
def filled (n : Nat) : World Unit where
  routes     := ⟨(List.range n).map fun k => ⟨name k, (), 1⟩, 0⟩
  operations := []
  states     := ((List.range n).map fun k => ⟨name k, ()⟩).reverse
  releases   := []

theorem filled_succ {n : Nat} : filled (n + 1) =
    ⟨⟨⟨"", (), 1⟩ :: (List.range n).map fun k => ⟨name (k + 1), (), 1⟩, 0⟩, [],
      (filled (n + 1)).states, []⟩ := by
  rw [filled, List.range_succ_eq_map, List.map_cons, List.map_map]
  rfl

theorem locate_filled {n : Nat} : locate (name n) (filled n).routes.instances = none := by
  refine locate_eq_none.mpr fun entry he heq => ?_
  obtain ⟨k, hk, rfl⟩ := List.mem_map.mp he
  have := List.mem_range.mp hk
  have := name_inj heq
  omega

theorem reachable_filled {n : Nat} (h : n ≤ maxInstanceRoutes) :
    (World.system Unit).Reachable (filled n) := by
  induction n
  case zero => exact .init rfl
  case succ n hi =>
    have hlt : add usizeMax (filled n).routes.instances.length 0 < maxInstanceRoutes := by
      refine Nat.lt_of_le_of_lt add_le ?_
      simp only [filled, List.length_map, List.length_range]
      omega
    have hreserve : (filled n).routes.reserveStateRoute () (name n) =
        (.ok .new, ⟨(filled n).routes.instances, 1⟩) := by
      rw [RouteCache.reserveStateRoute, locate_filled]
      exact if_neg (Nat.not_le_of_lt hlt)
    have hrecord : RouteCache.recordInstanceLocked ⟨(filled n).routes.instances, 0⟩ (name n) () =
        (.ok (), (filled (n + 1)).routes) := by
      have hne : (filled n).routes.instances.length ≠ maxInstanceRoutes := by
        simp only [filled, List.length_map, List.length_range]
        omega
      rw [RouteCache.recordInstanceLocked, locate_filled]
      refine (if_neg hne).trans ?_
      simp only [filled, List.range_succ, List.map_append, List.map_singleton]
    have hcommit : RouteCache.commitStateRoute ⟨(filled n).routes.instances, 1⟩ .new (name n) ()
        true = (.ok (), (filled (n + 1)).routes) := by
      have hc : RouteCache.commit ⟨(filled n).routes.instances, 1⟩ (name n) () .new =
          ((.ok (), (filled (n + 1)).routes), false) := congrArg (·, false) hrecord
      rw [RouteCache.commitStateRoute, hc]
    have hr := (hi (by omega)).step (World.step_reserve hreserve)
    have hc := hr.step (World.step_commit (i := 0) rfl hcommit)
    have heq : filled (n + 1) =
        ⟨(filled (n + 1)).routes, [], ⟨name n, ()⟩ :: (filled n).states, []⟩ := by
      simp only [filled, List.range_succ, List.map_append, List.map_singleton, List.reverse_append,
        List.reverse_singleton, List.singleton_append]
    rw [heq]
    exact hc

-- A place is reserved with the first instance, whose route stays, and one for a new instance. Then
-- the first operation returns a state of another instance.
theorem exists_overfull {rest : List (InstanceRoute Unit)} {states : List (BackendState Unit)}
    (h : (World.system Unit).Reachable ⟨⟨⟨"", (), 1⟩ :: rest, 0⟩, [], states, []⟩)
    (hlen : rest.length = 1022) (hb : locate "b" rest = none) (hc : locate "c" rest = none) :
    ∃ w, (World.system Unit).Reachable w ∧ ¬Sound w := by
  have hexisting : RouteCache.reserveStateRoute ⟨⟨"", (), 1⟩ :: rest, 0⟩ () "" =
      (.ok (.existing "" ()), ⟨⟨"", (), 2⟩ :: rest, 0⟩) := rfl
  have hnew : RouteCache.reserveStateRoute ⟨⟨"", (), 2⟩ :: rest, 0⟩ () "b" =
      (.ok .new, ⟨⟨"", (), 2⟩ :: rest, 1⟩) := by
    have hl : locate "b" (⟨"", (), 2⟩ :: rest) = none := by
      rw [locate, hb]
      rfl
    rw [RouteCache.reserveStateRoute, hl]
    exact if_neg (by simp only [List.length_cons, hlen]; decide)
  have hcommit : RouteCache.commitStateRoute ⟨⟨"", (), 2⟩ :: rest, 1⟩ (.existing "" ()) "c" ()
      true = (.ok (), ⟨⟨"", (), 1⟩ :: rest ++ [⟨"c", (), 1⟩], 1⟩) := by
    have hl : locate "c" (⟨"", (), 1⟩ :: rest) = none := by
      rw [locate, hc]
      rfl
    have hr : RouteCache.recordInstanceLocked ⟨⟨"", (), 1⟩ :: rest, 1⟩ "c" () =
        (.ok (), ⟨⟨"", (), 1⟩ :: rest ++ [⟨"c", (), 1⟩], 1⟩) := by
      rw [RouteCache.recordInstanceLocked, hl]
      exact if_neg (by simp only [List.length_cons, hlen]; decide)
    have hm : RouteCache.commit ⟨⟨"", (), 2⟩ :: rest, 1⟩ "c" () (.existing "" ()) =
        ((.ok (), ⟨⟨"", (), 1⟩ :: rest ++ [⟨"c", (), 1⟩], 1⟩), false) := congrArg (·, false) hr
    rw [RouteCache.commitStateRoute, hm]
  refine ⟨_, ((h.step (World.step_reserve hexisting)).step (World.step_reserve hnew)).step
    (World.step_commit (i := 1) rfl hcommit), fun hs => ?_⟩
  have hcapacity := hs.capacity
  simp only [List.length_append, List.length_cons, hlen] at hcapacity
  exact absurd hcapacity (by decide)

theorem not_sound_overfull : ¬∀ w : World Unit, (World.system Unit).Reachable w → Sound w := by
  intro hsound
  have hnone {instanceId : String} (hi : ∀ k, name k ≠ instanceId) :
      locate instanceId (((List.range 1022).map fun k => ⟨name (k + 1), (), 1⟩) :
        List (InstanceRoute Unit)) = none := by
    refine locate_eq_none.mpr fun entry he heq => ?_
    obtain ⟨k, _, rfl⟩ := List.mem_map.mp he
    exact hi (k + 1) heq
  have hname {c : Char} (hc : c ≠ 'a') (k : Nat) : name k ≠ String.ofList [c] := by
    intro heq
    have hl : List.replicate k 'a' = [c] := by simpa [name] using congrArg String.toList heq
    exact hc (List.eq_of_mem_replicate (hl ▸ List.mem_singleton_self c))
  have hr := reachable_filled (n := 1022 + 1) (by decide)
  rw [filled_succ] at hr
  obtain ⟨w, hw, hn⟩ := exists_overfull hr (by rw [List.length_map, List.length_range])
    (hnone (hname (c := 'b') (by decide))) (hnone (hname (c := 'c') (by decide)))
  exact hn (hsound w hw)

end Overfull
end RuntimeControl.Routing
