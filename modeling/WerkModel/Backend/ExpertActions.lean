import WerkModel.Backend.ExpertManagerBudget
import WerkModel.Lib.Checks
import WerkModel.Lib.System

-- What uses the cache of experts: forward passes, which work on groups of experts, the actions of
-- the operator, and the changes of the budget.
open Checks

namespace Backend
namespace ExpertManager

variable {V : Type} (g : Geometry) (m : Manager V)

def expertGroupSize : Nat := 8

namespace Manager

def groupLimit : Nat :=
  if m.grouped then expertGroupSize else 1

-- Pinned experts are counted once.
def groupBytes (key : Nat × Nat) : Nat :=
  if key ∈ m.pinned then 0 else g.size key

-- The groups of a pass over some experts of a layer, and the failure that ends them. Neither the
-- pins nor the budget change in a pass.
def groups (limit layer : Nat) : List Nat → List (Nat × Nat) → Nat →
    List (List (Nat × Nat)) × Except Failure Unit
  | [], group, _                 => (if group = [] then [] else [group], .ok ())
  | expert :: experts, group, used =>
    let key := (layer, expert)
    let size := m.groupBytes g key
    let (yielded, group, used) :=
      if group ≠ [] ∧ (group.length = limit ∨ m.effective < used + size) then
        ([group], [], g.bytes m.pinned)
      else
        ([], group, used)
    if m.effective < used + size then
      (yielded, .error .full)
    else
      let (rest, result) := groups limit layer experts (group ++ [key]) (used + size)
      (yielded ++ rest, result)

-- One acquisition after the other, until one of them fails.
def acquireAll (loads : Nat × Nat → Except String V) (now : Nat × Nat → Option Nat) :
    List (Nat × Nat) → Manager V → Except Failure Unit × Manager V
  | [], m          => (.ok (), m)
  | key :: keys, m =>
    match m.acquire g key (loads key) (now key) with
    | (.error failure, m) => (.error failure, m)
    | (.ok _, m)          => acquireAll loads now keys m

end Manager

-- The outcomes of what a pass does besides the use of the cache: whether there are routes for each
-- row, the room for its output, the prefetch for a group, the reads for an expert, and the
-- evaluation of a group.
structure Pass (V : Type) where
  layer     : Nat
  routes    : List Nat
  shaped    : Bool
  workspace : Except String Unit
  prefetch  : List (Nat × Nat) → Except String Unit
  loads     : Nat × Nat → Except String V
  times     : Nat × Nat → Nat
  evaluate  : List (Nat × Nat) → Except String Unit

namespace Manager

def lease (group : List (Nat × Nat)) : Manager V :=
  { m with leased := m.leased ∪ group.toFinset }

def unlease (group : List (Nat × Nat)) : Manager V :=
  { m with leased := m.leased \ group.toFinset }

-- A group is leased until its output has been evaluated, or until something fails.
def runGroup (pass : Pass V) (group : List (Nat × Nat)) : Except Failure Unit × Manager V :=
  match pass.prefetch group with
  | .error error => (.error (.raised error), (m.lease group).unlease group)
  | .ok ()       =>
    match (m.lease group).acquireAll g pass.loads (fun key => some (pass.times key)) group with
    | (.error failure, m) => (.error failure, m.unlease group)
    | (.ok (), m)         => ((pass.evaluate group).mapError .raised, m.unlease group)

def runGroups (pass : Pass V) : List (List (Nat × Nat)) → Manager V →
    Except Failure Unit × Manager V
  | [], m              => (.ok (), m)
  | group :: groups, m =>
    match m.runGroup g pass group with
    | (.error failure, m) => (.error failure, m)
    | (.ok (), m)         => runGroups pass groups m

-- The groups of the routed experts, each of which is there once.
def passGroups (pass : Pass V) : List (List (Nat × Nat)) × Except Failure Unit :=
  m.groups g m.groupLimit pass.layer (pass.routes.dedup.insertionSort (· ≤ ·)) [] (g.bytes m.pinned)

def forward (pass : Pass V) : Except Failure Unit × Manager V :=
  if ¬pass.shaped ∨ ∃ route ∈ pass.routes, g.experts ≤ route then
    (.error (.raised "invalid expert routing shape or index"), m)
  else match pass.workspace with
  | .error error => (.error (.raised error), m)
  | .ok ()       =>
    match m.runGroups g pass (m.passGroups g pass).1 with
    | (.error failure, m') => (.error failure, m')
    | (.ok (), m')         => ((m.passGroups g pass).2, m')

end Manager

inductive ActionKind
  | prefetch
  | pin
  | unpin
  | evict
  deriving DecidableEq

-- The ids of a request, with the layers and the indices that they stand for.
structure Request where
  action     : ActionKind
  targetTier : Option String
  ids        : List (String × (Nat × Nat))
  dryRun     : Bool

def Request.keys (request : Request) : List (Nat × Nat) :=
  request.ids.map Prod.snd

structure Row where
  key      : Nat × Nat
  ram      : Bool
  bytes    : Nat
  hotness  : Nat
  pinned   : Bool
  lastUsed : Option Nat
  deriving DecidableEq

structure Reply where
  experts : List Row
  changed : Nat
  dryRun  : Bool

namespace Manager

def summary (key : Nat × Nat) : Row where
  key      := key
  ram      := key ∈ m.cache
  bytes    := g.size key
  hotness  := (m.usage.get? key).elim 0 Prod.fst
  pinned   := key ∈ m.pinned
  lastUsed := (m.usage.get? key).map Prod.snd

-- What an action has to meet, which changes nothing. Pins leave room for one more expert unless
-- all experts are pinned.
def check (request : Request) : Except String Unit := do
  ensure (request.action = .prefetch → request.targetTier = some "ram")
    "prefetch requires target_tier=ram on Apple unified memory"
  ensure (request.action ≠ .prefetch → request.targetTier = none)
    "target_tier is only valid for prefetch"
  ensure (1 ≤ request.ids.length ∧ request.ids.length ≤ 4096 ∧
      (request.ids.map Prod.fst).Nodup)
    "actions require 1..4096 unique expert ids"
  request.ids.forM fun id => ensure (g.Known id.2) ("unknown expert id: " ++ id.1)
  ensure m.active "streamed model is not loaded"
  ensure (request.action = .evict → ∀ key ∈ request.keys, key ∉ m.pinned)
    "cannot evict pinned experts; unpin them first"
  let required := m.pinned ∪ request.keys.toFinset
  ensure (request.action = .pin ∨ request.action = .prefetch → g.bytes required ≤ m.effective)
    "requested experts and pins exceed the expert cache budget"
  ensure (request.action = .pin → required.card < g.expertBytes.items.length * g.experts →
      g.bytes required + g.largest ≤ m.effective)
    "pins must leave room for at least one demand-loaded expert"

def pin (keys : List (Nat × Nat)) : Manager V :=
  { m with pinned := m.pinned ∪ keys.toFinset }

-- The experts are pinned while they are acquired. The pins are restored unless they shall stay.
def acquirePinned (keys : List (Nat × Nat)) (stay : Bool) (loads : Nat × Nat → Except String V) :
    Except Failure Unit × Manager V :=
  match (m.pin keys).acquireAll g loads (fun _ => none) keys with
  | (.error failure, m') => (.error failure, { m' with pinned := m.pinned })
  | (.ok (), m')         => (.ok (), if stay then m' else { m' with pinned := m.pinned })

def evictAll : List (Nat × Nat) → Manager V → Manager V
  | [], m          => m
  | key :: keys, m => evictAll keys (if key ∈ m.cache then m.pop g key else m)

def perform (request : Request) (loads : Nat × Nat → Except String V) :
    Except Failure Unit × Manager V :=
  match request.action with
  | .prefetch => m.acquirePinned g request.keys false loads
  | .pin      => m.acquirePinned g request.keys true loads
  | .unpin    => (.ok (), { m with pinned := m.pinned \ request.keys.toFinset })
  | .evict    => (.ok (), m.evictAll g request.keys)

def wouldChange (action : ActionKind) (row : Row) : Bool :=
  match action with
  | .prefetch => !row.ram
  | .pin      => !row.pinned
  | .unpin    => row.pinned
  | .evict    => row.ram

def action (request : Request) (loads : Nat × Nat → Except String V) :
    Except Failure Reply × Manager V :=
  match m.check g request with
  | .error error => (.error (.raised error), m)
  | .ok ()       =>
    let before := request.keys.map (m.summary g)
    if request.dryRun then
      (.ok ⟨before, before.countP (wouldChange request.action), true⟩, m)
    else
      match m.perform g request loads with
      | (.error failure, m) => (.error failure, m)
      | (.ok (), m)         =>
        let after := request.keys.map (m.summary g)
        (.ok ⟨after, (before.zip after).countP fun rows => rows.1 ≠ rows.2, false⟩, m)

end Manager

end ExpertManager
end Backend
