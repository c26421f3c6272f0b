import WerkModel.Lib.System

-- The ownership of worker processes and of the callbacks that clean up after them. Each step is a
-- section that is protected by a lock, except that a callback runs between two steps.
namespace Backend
namespace ProcessLifecycle

-- How far an owner is with dropping what it owns. Weak references are dead once it is released.
inductive Owner
  | holds
  | dropping
  | dropped
  | released
  deriving DecidableEq

structure Child where
  terminated : Bool  := false
  killed     : Bool  := false
  waited     : Bool  := false
  owner      : Owner := .holds
  deriving DecidableEq

inductive Caller
  | owner
  | shutdown
  deriving DecidableEq

structure Cleanup where
  callback  : Bool          := true
  -- The mutex is held while the callback runs.
  running   : Option Caller := none
  begun     : Nat           := 0
  completed : Nat           := 0
  owner     : Owner         := .holds
  deriving DecidableEq

-- Where `shutdown_children` is, and what it still has to stop, to reap and to clean up.
inductive Shutdown
  | idle
  | killing (todo active cleanups : List Nat)
  | waiting (todo cleanups : List Nat)
  | cleaning (todo : List Nat)
  | calling (cleanup : Nat) (todo : List Nat)
  | returned
  deriving DecidableEq

structure State where
  stopping   : Bool          := false
  children   : List Nat      := []
  cleanups   : List Nat      := []
  -- All children and callbacks that there have ever been.
  spawned    : Nat           := 0
  child      : Nat → Child   := fun _ => {}
  registered : Nat           := 0
  cleanup    : Nat → Cleanup := fun _ => {}
  shutdown   : Shutdown      := .idle

inductive Outcome
  | registered (cleanup : Nat)
  | spawned (child : Nat)
  -- Werk is shutting down.
  | interrupted
  -- The command did not start.
  | failed
  | began (cleanup : Nat) (caller : Caller)
  | done
  deriving DecidableEq

def Child.alive (child : Child) : Bool :=
  child.owner ≠ .released

def Child.killGroup (child : Child) : Child :=
  { child with killed := true }

def Child.wait (child : Child) : Child :=
  { child with waited := true }

def Child.terminate (child : Child) : Child :=
  if child.terminated then child
  else { child with terminated := true }.killGroup.wait

def Cleanup.alive (cleanup : Cleanup) : Bool :=
  cleanup.owner ≠ .released

def Cleanup.take (cleanup : Cleanup) (caller : Caller) : Cleanup :=
  { cleanup with callback := false, running := some caller, begun := cleanup.begun + 1 }

def Cleanup.finish (cleanup : Cleanup) : Cleanup :=
  { cleanup with running := none, completed := cleanup.completed + 1 }

namespace State

variable (s : State)

def setChild (id : Nat) (child : Child) : State :=
  { s with child := Function.update s.child id child }

def setCleanup (id : Nat) (cleanup : Cleanup) : State :=
  { s with cleanup := Function.update s.cleanup id cleanup }

def register : State × Outcome :=
  if s.stopping then
    (s, .interrupted)
  else
    let cleanups := s.cleanups.filter fun id => (s.cleanup id).alive
    let s := s.setCleanup s.registered {}
    ({ s with cleanups := cleanups ++ [s.registered], registered := s.registered + 1 },
      .registered s.registered)

-- Whether the command starts is up to the system.
def spawn (starts : Bool) : State × Outcome :=
  if s.stopping then
    (s, .interrupted)
  else if starts = false then
    (s, .failed)
  else
    let children := s.children.filter fun id => (s.child id).alive
    let s := s.setChild s.spawned {}
    ({ s with children := children ++ [s.spawned], spawned := s.spawned + 1 },
      .spawned s.spawned)

-- Takes the mutex of a callback, and runs the callback unless someone else has.
def runCleanup (id : Nat) (caller : Caller) (called passed : State → State) :
    Option (State × Outcome) :=
  if (s.cleanup id).running ≠ none then none
  else if (s.cleanup id).callback then
    some (called (s.setCleanup id ((s.cleanup id).take caller)), .began id caller)
  else
    some (passed s, .done)

def setOwner (id : Nat) (owner : Owner) : State :=
  s.setCleanup id { s.cleanup id with owner }

-- The steps of `shutdown_children` one after the other.
def shutdownChildren : Option (State × Outcome) :=
  match s.shutdown with
  | .idle =>
    let active := s.children.filter fun id => (s.child id).alive
    let cleanups := s.cleanups.filter fun id => (s.cleanup id).alive
    some ({ s with
      stopping := true
      children := []
      cleanups := []
      shutdown := .killing active active cleanups
    }, .done)
  | .killing (id :: todo) active cleanups =>
    let s := s.setChild id (s.child id).killGroup
    some ({ s with shutdown := .killing todo active cleanups }, .done)
  | .killing [] active cleanups =>
    some ({ s with shutdown := .waiting active cleanups }, .done)
  | .waiting (id :: todo) cleanups =>
    let s := s.setChild id (s.child id).wait
    some ({ s with shutdown := .waiting todo cleanups }, .done)
  | .waiting [] cleanups =>
    some ({ s with shutdown := .cleaning cleanups }, .done)
  | .cleaning (id :: todo) =>
    s.runCleanup id .shutdown (fun s => { s with shutdown := .calling id todo })
      fun s => { s with shutdown := .cleaning todo }
  | .cleaning [] =>
    some ({ s with shutdown := .returned }, .done)
  | .calling id todo =>
    let s := s.setCleanup id (s.cleanup id).finish
    some ({ s with shutdown := .cleaning todo }, .done)
  | .returned => none

end State

inductive Operation
  | register
  | spawn (starts : Bool)
  | terminate (child : Nat)
  | dropChild (child : Nat)
  | releaseChild (child : Nat)
  | dropCleanup (cleanup : Nat)
  -- The callback returns to the owner that drops it.
  | leaveCleanup (cleanup : Nat)
  | releaseCleanup (cleanup : Nat)
  | shutdown

-- What a step does, where it can be taken.
def State.step (s : State) : Operation → Option (State × Outcome)
  | .register            => some s.register
  | .spawn starts        => some (s.spawn starts)
  | .terminate id        =>
    if id < s.spawned ∧ (s.child id).owner = .holds then
      some (s.setChild id (s.child id).terminate, .done)
    else none
  | .dropChild id        =>
    if id < s.spawned ∧ (s.child id).owner = .holds then
      some (s.setChild id { (s.child id).terminate with owner := .dropped }, .done)
    else none
  | .releaseChild id     =>
    if (s.child id).owner = .dropped then
      some (s.setChild id { s.child id with owner := .released }, .done)
    else none
  | .dropCleanup id      =>
    if id < s.registered ∧ (s.cleanup id).owner = .holds then
      s.runCleanup id .owner (·.setOwner id .dropping) (·.setOwner id .dropped)
    else none
  | .leaveCleanup id     =>
    if (s.cleanup id).owner = .dropping then
      some (s.setCleanup id { (s.cleanup id).finish with owner := .dropped }, .done)
    else none
  | .releaseCleanup id   =>
    if (s.cleanup id).owner = .dropped then
      some (s.setOwner id .released, .done)
    else none
  | .shutdown            => s.shutdownChildren

def lifecycle : System State Operation Outcome where
  Init s                         := s = {}
  Step s operation outcome s' := s.step operation = some (s', outcome)

end ProcessLifecycle
end Backend
