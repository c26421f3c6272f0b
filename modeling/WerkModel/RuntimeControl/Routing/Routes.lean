import WerkModel.Lib.Saturating
import WerkModel.Lib.Tally
import WerkModel.RuntimeControl.Protocol

-- The routes from the instances of backends to the adapters that own their states.
open Saturating Tally

namespace RuntimeControl.Routing

def maxInstanceRoutes : Nat := 1024

-- The instance is the key of its route, its adapter the owner, and its live states are counted.
abbrev InstanceRoute (α : Type) := Entry String α

structure RouteCache (α : Type) where
  instances          : List (InstanceRoute α)
  pendingStateRoutes : Nat

inductive StateRouteReservationKind (α : Type)
  | existing (instanceId : String) (adapter : α)
  | new

def incompatibleRoute : ProtocolError :=
  .new .incompatibleState "no resolved runtime adapter owns this opaque state"

def notUniqueError : ProtocolError :=
  .new .internal "backend process identity is not unique across runtime adapters"

def countError : ProtocolError :=
  .new .resourceExhausted "runtime state ownership count is exhausted"

def capacityError : ProtocolError :=
  .new .resourceExhausted "runtime state process-route capacity is exhausted"

def cleanupError : ProtocolError :=
  .new .internal
    "backend state ownership could not be recorded and cleanup could not be confirmed"

namespace RouteCache

variable {α : Type} [DecidableEq α]

-- The outcome of an operation on the routes, and the routes after it.
abbrev Outcome (α ρ : Type) := Except ProtocolError ρ × RouteCache α

variable (routes : RouteCache α)

def new : RouteCache α where
  instances          := []
  pendingStateRoutes := 0

def recordInstanceLocked (instanceId : String) (adapter : α) : Outcome α Unit :=
  match locate instanceId routes.instances with
  | some (index, existing) =>
    if existing.owner ≠ adapter then
      (.error notUniqueError, routes)
    else if existing.count + 1 > usizeMax then
      (.error countError, routes)
    else
      (.ok (), { routes with
        instances := routes.instances.eraseIdx index ++
          [{ existing with count := existing.count + 1 }] })
  | none                   =>
    if routes.instances.length = maxInstanceRoutes then
      (.error capacityError, routes)
    else
      (.ok (), { routes with instances := routes.instances ++ [⟨instanceId, adapter, 1⟩] })

def releaseInstanceLocked (instanceId : String) (adapter : α) : Outcome α Unit :=
  match locate instanceId routes.instances with
  | none                => (.error incompatibleRoute, routes)
  | some (index, route) =>
    if route.owner ≠ adapter ∨ route.count = 0 then
      (.error incompatibleRoute, routes)
    else if route.count - 1 = 0 then
      (.ok (), { routes with instances := routes.instances.eraseIdx index })
    else
      (.ok (), { routes with
        instances := routes.instances.modify index ({ · with count := route.count - 1 }) })

-- The descriptor of the adapter tells which instance is expected.
def reserveStateRoute (adapter : α) (expectedInstance : String) :
    Outcome α (StateRouteReservationKind α) :=
  match locate expectedInstance routes.instances with
  | some (index, route) =>
    if route.owner ≠ adapter then
      (.error notUniqueError, routes)
    else if route.count + 1 > usizeMax then
      (.error countError, routes)
    else
      (.ok (.existing expectedInstance adapter), { routes with
        instances := routes.instances.modify index ({ · with count := route.count + 1 }) })
  | none                =>
    if add usizeMax routes.instances.length routes.pendingStateRoutes ≥ maxInstanceRoutes then
      (.error capacityError, routes)
    else
      (.ok .new, { routes with pendingStateRoutes := add usizeMax routes.pendingStateRoutes 1 })

-- The state of an instance that the backend has returned takes the place of the reservation. Tells
-- whether the reservation is still active.
def commit (instanceId : String) (committedAdapter : α) :
    StateRouteReservationKind α → Outcome α Unit × Bool
  | .existing reserved reservedAdapter =>
    if instanceId = reserved ∧ reservedAdapter = committedAdapter then
      ((.ok (), routes), false)
    else match routes.releaseInstanceLocked reserved reservedAdapter with
    | (.error error, routes) => ((.error error, routes), true)
    | (.ok (), routes)       => (routes.recordInstanceLocked instanceId committedAdapter, false)
  | .new =>
    ({ routes with pendingStateRoutes := routes.pendingStateRoutes - 1 }.recordInstanceLocked
      instanceId committedAdapter, false)

-- A reservation that has not become inactive.
def drop : StateRouteReservationKind α → RouteCache α
  | .existing instanceId adapter => (routes.releaseInstanceLocked instanceId adapter).2
  | .new                         =>
    { routes with pendingStateRoutes := routes.pendingStateRoutes - 1 }

-- The commit takes the reservation, which is dropped if it is active. The backend releases a state
-- that cannot be recorded, unless that fails.
def commitStateRoute (kind : StateRouteReservationKind α) (instanceId : String) (adapter : α)
    (cleaned : Bool) : Outcome α Unit :=
  match routes.commit instanceId adapter kind with
  | ((.ok (), routes), _)             => (.ok (), routes)
  | ((.error error, routes), active) =>
    (.error (if cleaned then error else cleanupError), if active then routes.drop kind else routes)

omit [DecidableEq α] in
-- The last route of the instance moves to the back.
def adapterForState (instanceId : String) : Outcome α α :=
  match locate instanceId routes.instances.reverse with
  | none                => (.error incompatibleRoute, routes)
  | some (index, route) =>
    (.ok route.owner, { routes with
      instances := (routes.instances.reverse.eraseIdx index).reverse ++ [route] })

variable {routes : RouteCache α} {instanceId : String} {adapter : α}
variable {holders : Multiset (String × α)}

theorem recordInstanceLocked_cases :
    (∃ error, routes.recordInstanceLocked instanceId adapter = (.error error, routes) ∧
      (error = capacityError → routes.instances.length = maxInstanceRoutes ∧
        locate instanceId routes.instances = none)) ∨
    ∃ routes', routes.recordInstanceLocked instanceId adapter = (.ok (), routes') ∧
      routes'.pendingStateRoutes = routes.pendingStateRoutes ∧
      (Holds routes.instances holders →
        Holds routes'.instances ((instanceId, adapter) ::ₘ holders)) ∧
      (routes'.instances.length = routes.instances.length ∨
        locate instanceId routes.instances = none ∧
          routes.instances.length ≠ maxInstanceRoutes ∧
          routes'.instances.length = routes.instances.length + 1) := by
  rw [recordInstanceLocked]
  cases hl : locate instanceId routes.instances
  case none =>
    simp only
    split
    case isTrue hm  => exact .inl ⟨_, rfl, fun _ => ⟨hm, trivial⟩⟩
    case isFalse hm =>
      refine .inr ⟨_, rfl, rfl, fun h => ?_, .inr ⟨trivial, hm, List.length_append⟩⟩
      exact (h.push (locate_eq_none.mp hl)).perm (List.perm_append_singleton ..).symm
  case some found =>
    obtain ⟨index, existing⟩ := found
    obtain ⟨hk, hp, _⟩ := locate_eq_some hl
    simp only
    split
    case isTrue => exact .inl ⟨_, rfl, fun h => absurd h (by decide)⟩
    case isFalse ho =>
    split
    case isTrue => exact .inl ⟨_, rfl, fun h => absurd h (by decide)⟩
    case isFalse hc =>
      refine .inr ⟨_, rfl, rfl, fun h => ?_, .inl ?_⟩
      · obtain rfl := hk
        obtain rfl := not_not.mp ho
        exact (h.perm hp).add.perm (List.perm_append_singleton ..).symm
      · exact (List.perm_append_singleton ..).length_eq.trans hp.length_eq.symm

theorem releaseInstanceLocked_of_holds
    (h : Holds routes.instances ((instanceId, adapter) ::ₘ holders)) :
    ∃ routes', routes.releaseInstanceLocked instanceId adapter = (.ok (), routes') ∧
      routes'.pendingStateRoutes = routes.pendingStateRoutes ∧ Holds routes'.instances holders ∧
      routes'.instances.length ≤ routes.instances.length := by
  rw [releaseInstanceLocked]
  cases hl : locate instanceId routes.instances
  case none =>
    have ⟨entry, he, hk, _⟩ := h.owned _ (Multiset.mem_cons_self ..)
    exact absurd hk (locate_eq_none.mp hl entry he)
  case some found =>
    obtain ⟨index, route⟩ := found
    obtain ⟨hk, hp, hm⟩ := locate_eq_some hl
    have hs := h.perm hp
    have ho : adapter = route.owner := hs.owner_eq (Multiset.mem_cons_self ..) hk.symm
    have hpos := hs.positive route List.mem_cons_self
    have hr : Holds (shrink route (routes.instances.eraseIdx index)) holders := by
      rw [←hk] at hs
      exact hs.remove
    have hlen := hp.length_eq
    rw [List.length_cons] at hlen
    simp only
    rw [if_neg (by simp [ho]; omega)]
    rw [shrink] at hr
    split
    case isTrue hz =>
      rw [if_pos hz] at hr
      exact ⟨_, rfl, rfl, hr, by simp only; omega⟩
    case isFalse hz =>
      rw [if_neg hz] at hr
      exact ⟨_, rfl, rfl, hr.perm (hm ({ · with count := route.count - 1 })).symm, by simp⟩

theorem reserveStateRoute_cases :
    (∃ error, routes.reserveStateRoute adapter instanceId = (.error error, routes)) ∨
    (∃ routes', routes.reserveStateRoute adapter instanceId =
        (.ok (.existing instanceId adapter), routes') ∧
      routes'.pendingStateRoutes = routes.pendingStateRoutes ∧
      routes'.instances.length = routes.instances.length ∧
      (Holds routes.instances holders →
        Holds routes'.instances ((instanceId, adapter) ::ₘ holders))) ∨
    ∃ routes', routes.reserveStateRoute adapter instanceId = (.ok .new, routes') ∧
      routes'.instances = routes.instances ∧
      routes'.pendingStateRoutes = routes.pendingStateRoutes + 1 ∧
      routes.instances.length + routes.pendingStateRoutes < maxInstanceRoutes := by
  rw [reserveStateRoute]
  cases hl : locate instanceId routes.instances
  case none =>
    simp only
    split
    case isTrue  => exact .inl ⟨_, rfl⟩
    case isFalse hm =>
      have hlt := Nat.lt_of_not_le hm
      have hcap : maxInstanceRoutes < usizeMax := by decide
      have hadd := add_eq_of_lt (hlt.trans hcap)
      refine .inr (.inr ⟨_, rfl, rfl, add_eq ?_, hadd ▸ hlt⟩)
      omega
  case some found =>
    obtain ⟨index, route⟩ := found
    obtain ⟨hk, hp, hm⟩ := locate_eq_some hl
    simp only
    split
    case isTrue => exact .inl ⟨_, rfl⟩
    case isFalse ho =>
    split
    case isTrue => exact .inl ⟨_, rfl⟩
    case isFalse hc =>
      refine .inr (.inl ⟨_, rfl, rfl, List.length_modify .., fun h => ?_⟩)
      obtain rfl := hk
      obtain rfl := not_not.mp ho
      exact (h.perm hp).add.perm (hm ({ · with count := route.count + 1 })).symm

omit [DecidableEq α] in
theorem adapterForState_cases :
    routes.adapterForState instanceId = (.error incompatibleRoute, routes) ∨
    ∃ owner routes', routes.adapterForState instanceId = (.ok owner, routes') ∧
      routes'.pendingStateRoutes = routes.pendingStateRoutes ∧
      routes.instances.Perm routes'.instances ∧
      ∃ route ∈ routes.instances, route.key = instanceId ∧ route.owner = owner := by
  rw [adapterForState]
  cases hl : locate instanceId routes.instances.reverse
  case none => exact .inl rfl
  case some found =>
    obtain ⟨index, route⟩ := found
    obtain ⟨hk, hp, _⟩ := locate_eq_some hl
    have hmem : route ∈ routes.instances := List.mem_reverse.mp (hp.mem_iff.mpr List.mem_cons_self)
    refine .inr ⟨_, _, rfl, rfl, ?_, route, hmem, hk, rfl⟩
    have hr := (List.reverse_perm (routes.instances.reverse.eraseIdx index)).symm
    exact ((List.reverse_perm _).symm.trans hp).trans
      ((hr.cons route).trans (List.perm_append_singleton ..).symm)

end RouteCache
end RuntimeControl.Routing
