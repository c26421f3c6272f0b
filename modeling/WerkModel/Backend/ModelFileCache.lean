import WerkModel.Backend.ProcessLifecycle
import WerkModel.Lib.Flock
import WerkModel.Lib.Saturating

-- The release of the file cache of models. Guards hold shared locks on the files of their models
-- while a worker uses them, and advise the kernel to drop the cached pages once it has ended.
open Flock Backend.ProcessLifecycle

namespace Backend
namespace ModelFileCache

def maxFiles : Nat := 4096

structure Inode where
  dev : Nat
  ino : Nat
  deriving DecidableEq

-- What can change about a file without making it another one.
structure Attributes where
  isFile    : Bool       := true
  len       : Nat        := 0
  modified  : Option Int := none
  mtime     : Int        := 0
  mtimeNsec : Int        := 0
  ctime     : Int        := 0
  ctimeNsec : Int        := 0
  -- The first four bytes are `GGUF`.
  gguf      : Bool       := true
  deriving DecidableEq

structure Metadata extends Inode, Attributes
  deriving DecidableEq

structure ModelFileIdentity where
  length   : Nat
  modified : Option Int
  unix     : Nat × Nat × Int × Int × Int × Int
  deriving DecidableEq

def ModelFileIdentity.fromMetadata (metadata : Metadata) : ModelFileIdentity where
  length   := metadata.len
  modified := metadata.modified
  unix     := (metadata.dev, metadata.ino, metadata.mtime, metadata.mtimeNsec, metadata.ctime,
    metadata.ctimeNsec)

def ModelFileIdentity.matches (identity : ModelFileIdentity) (metadata : Metadata) : Bool :=
  metadata.isFile && identity = .fromMetadata metadata

-- The description that a guard has opened for the path at this index.
structure FileLease where
  file     : Nat
  inode    : Inode
  identity : ModelFileIdentity
  bytes    : Nat
  deriving DecidableEq

structure ReleaseResult where
  requestedBytes : Nat := 0
  advisedFiles   : Nat := 0
  sharedFiles    : Nat := 0
  changedFiles   : Nat := 0
  failedFiles    : Nat := 0
  deriving DecidableEq

-- Where `open_leases` is with the next path.
inductive Opening
  | next
  | opened (inode : Inode)
  | identified (lease : FileLease)
  -- The file may be locked.
  | checked (lease : FileLease)
  | locked (lease : FileLease)
  deriving DecidableEq

-- Where a guard is. `with_preparation` and the callback of its cleanup exclude each other by the
-- preparation gate, which the callback has from `dropping` until it returns.
inductive Phase (Mapping : Type)
  | absent
  | opening (opening : Opening)
  | opened
  | registered
  -- The flag is set, the gate is awaited.
  | cancelling
  | dropping (retained : List (Nat × Mapping))
  | releasing (todo : List FileLease)
  | upgraded (lease : FileLease) (todo : List FileLease)
  | finished
  | abandoned

-- Where `with_retained_preparation` is while it has the gate.
inductive Preparation (Mapping : Type)
  | running (cancelledBefore : Bool)
  | prepared (cancelledBefore : Bool) (retained : Option Mapping)
  | keeping (retained : Mapping)
  | leaving

variable {Mapping : Type}

structure Guard (Mapping : Type) where
  process      : Nat                           := 0
  release      : Bool                          := false
  requireGguf  : Bool                          := false
  paths        : List String                   := []
  index        : Nat                           := 0
  seen         : List Inode                    := []
  leases       : List FileLease                := []
  phase        : Phase Mapping                 := .absent
  cleanup      : Option Cleanup                := none
  cancelled    : Bool                          := false
  -- The preparations are numbered.
  preparations : Nat                           := 0
  preparation  : Option (Preparation Mapping)  := none
  retained     : List (Nat × Mapping)          := []
  result       : ReleaseResult                 := {}

abbrev Locks := List (Lock (Nat × Nat) Inode)

structure State (Mapping : Type) where
  name       : String → Option Inode := fun _ => none
  attributes : Inode → Attributes    := fun _ => {}
  locks      : Locks                 := []
  stopping   : Nat → Bool            := fun _ => false
  guard      : Nat → Guard Mapping   := fun _ => {}

def State.metadata (s : State Mapping) (inode : Inode) : Metadata :=
  { inode, s.attributes inode with }

-- The steps of a guard. What it depends on outside of the state is a parameter of the step.
inductive Action (Mapping : Type)
  | prepare (process : Nat) (paths : List String) (requireGguf release : Bool)
  | openPath
  | identify
  | readMagic
  | lockShared (retry : Bool)
  | confirm
  | complete
  -- Any other error while the leases are opened.
  | fail
  | register
  | beginPreparation
  | finishPreparation (retained : Option Mapping)
  | checkCancelled
  | keep
  | leavePreparation
  | drop
  | runShutdown
  | enterGate
  | unmap
  | upgrade (error loses : Bool)
  | advise (readable succeeds : Bool)
  | closeLeases

inductive Outcome
  | done
  | advised (inode : Inode)
  deriving DecidableEq

section Actions

variable (s : State Mapping) (id : Nat)

def FileLease.lock (lease : FileLease) (mode : Mode) : Lock (Nat × Nat) Inode :=
  ⟨(id, lease.file), lease.inode, mode⟩

-- What a step leaves of a guard and of the locks.
abbrev Effect (Mapping : Type) := Guard Mapping × Locks × Outcome

def Guard.continue (guard : Guard Mapping) : Option (Effect Mapping) :=
  some (guard, s.locks, .done)

def ownedBy (holder : Nat × Nat) : Prop :=
  holder.1 = id

instance decidableOwnedBy : DecidablePred (ownedBy id) :=
  fun _ => inferInstanceAs <| Decidable (_ = _)

-- All descriptions are closed without a callback.
def Guard.abandon (guard : Guard Mapping) : Option (Effect Mapping) :=
  some ({ guard with phase := .abandoned, leases := [] }, Flock.release (ownedBy id) s.locks, .done)

def Guard.begin (guard : Guard Mapping) (cleanup : Cleanup) : Guard Mapping :=
  { guard with cleanup := some cleanup, phase := .cancelling, cancelled := true }

-- A guard is dropped by its owner, who has no preparation then. If the callback has been taken,
-- the owner waits for it.
def Guard.drop (guard : Guard Mapping) : Option (Effect Mapping) :=
  match guard.cleanup, guard.preparation with
  | some cleanup, none =>
    if cleanup.owner ≠ .holds ∨ cleanup.running ≠ none then none
    else if cleanup.callback then
      (guard.begin { cleanup.take .owner with owner := .dropping }).continue s
    else
      { guard with cleanup := some { cleanup with owner := .dropped } }.continue s
  | _, _ => none

def Guard.runShutdown (guard : Guard Mapping) : Option (Effect Mapping) :=
  match guard.cleanup with
  | some cleanup =>
    if s.stopping guard.process ∧ cleanup.running = none ∧ cleanup.callback then
      (guard.begin (cleanup.take .shutdown)).continue s
    else none
  | none => none

-- The callback returns to whoever runs it.
def leave (cleanup : Cleanup) : Cleanup :=
  { cleanup.finish with
    owner := if cleanup.owner = .dropping then .dropped else cleanup.owner }

def Guard.count (guard : Guard Mapping) (todo : List FileLease) (result : ReleaseResult) :
    Guard Mapping :=
  { guard with phase := .releasing todo, result }

-- A failed upgrade may lose the shared lock.
def Guard.upgrade (guard : Guard Mapping) (lease : FileLease) (todo : List FileLease)
    (error loses : Bool) : Option (Effect Mapping) :=
  let result := guard.result
  if ¬error ∧ Grants s.locks (lease.lock id .exclusive) then
    some ({ guard with phase := .upgraded lease todo }, acquire (lease.lock id .exclusive) s.locks,
      .done)
  else
    let result :=
      if error then { result with failedFiles := result.failedFiles + 1 }
      else { result with sharedFiles := result.sharedFiles + 1 }
    some (guard.count todo result,
      if loses then Flock.release (· = (id, lease.file)) s.locks else s.locks, .done)

def Guard.advise (guard : Guard Mapping) (lease : FileLease) (todo : List FileLease)
    (readable succeeds : Bool) : Option (Effect Mapping) :=
  let result := guard.result
  if readable ∧ lease.identity.matches (s.metadata lease.inode) then
    let result :=
      if succeeds then
        { result with
          advisedFiles   := result.advisedFiles + 1
          requestedBytes := Saturating.add Saturating.u64Max result.requestedBytes lease.bytes }
      else { result with failedFiles := result.failedFiles + 1 }
    some (guard.count todo result, s.locks, .advised lease.inode)
  else
    (guard.count todo { result with changedFiles := result.changedFiles + 1 }).continue s

def Guard.step (guard : Guard Mapping) : Action Mapping → Option (Effect Mapping)
  | .prepare process paths requireGguf release =>
    match guard.phase with
    | .absent =>
      if paths = [] ∨ maxFiles < paths.length then guard.abandon s id
      else
        { guard with
          process, paths, requireGguf, release
          index  := 0
          seen   := []
          leases := []
          phase  := .opening .next }.continue s
    | _ => none
  | .openPath =>
    match guard.phase, guard.paths with
    | .opening .next, path :: _ =>
      match s.name path with
      | none       => guard.abandon s id
      | some inode => { guard with phase := .opening (.opened inode) }.continue s
    | _, _ => none
  | .identify =>
    match guard.phase with
    | .opening (.opened inode) =>
      let metadata := s.metadata inode
      if metadata.isFile = false then guard.abandon s id
      else if inode ∈ guard.seen then
        { guard with
          phase := .opening .next
          paths := guard.paths.tail
          index := guard.index + 1 }.continue s
      else
        let lease := ⟨guard.index, inode, .fromMetadata metadata, metadata.len⟩
        { guard with
          phase := .opening (.identified lease)
          seen  := inode :: guard.seen }.continue s
    | _ => none
  | .readMagic =>
    match guard.phase with
    | .opening (.identified lease) =>
      if guard.requireGguf ∧ (s.attributes lease.inode).gguf = false then guard.abandon s id
      else { guard with phase := .opening (.checked lease) }.continue s
    | _ => none
  -- The lock is tried again until the deadline.
  | .lockShared retry =>
    match guard.phase with
    | .opening (.checked lease) =>
      if Grants s.locks (lease.lock id .shared) then
        some ({ guard with phase := .opening (.locked lease) },
          acquire (lease.lock id .shared) s.locks, .done)
      else if retry then guard.continue s
      else guard.abandon s id
    | _ => none
  | .confirm =>
    match guard.phase with
    | .opening (.locked lease) =>
      if lease.identity.matches (s.metadata lease.inode) then
        { guard with
          phase  := .opening .next
          paths  := guard.paths.tail
          index  := guard.index + 1
          leases := guard.leases ++ [lease] }.continue s
      else guard.abandon s id
    | _ => none
  | .complete =>
    match guard.phase, guard.paths with
    | .opening .next, [] => { guard with phase := .opened }.continue s
    | _, _               => none
  | .fail =>
    match guard.phase with
    | .opening _ => guard.abandon s id
    | _          => none
  | .register =>
    match guard.phase with
    | .opened =>
      if s.stopping guard.process then guard.abandon s id
      else { guard with phase := .registered, cleanup := some {} }.continue s
    | _ => none
  | .beginPreparation =>
    match guard.phase, guard.preparation, guard.cleanup with
    | .registered, none, some cleanup
    | .cancelling, none, some cleanup
    | .finished, none, some cleanup =>
      if cleanup.owner = .holds then
        { guard with
          preparation  := some (.running guard.cancelled)
          preparations := guard.preparations + 1 }.continue s
      else none
    | _, _, _ => none
  | .finishPreparation retained =>
    match guard.preparation with
    | some (.running cancelledBefore) =>
      { guard with preparation := some (.prepared cancelledBefore retained) }.continue s
    | _ => none
  | .checkCancelled =>
    match guard.preparation with
    | some (.prepared false (some retained)) =>
      if guard.cancelled then { guard with preparation := some .leaving }.continue s
      else { guard with preparation := some (.keeping retained) }.continue s
    | some (.prepared _ _) => { guard with preparation := some .leaving }.continue s
    | _ => none
  | .keep =>
    match guard.preparation with
    | some (.keeping retained) =>
      { guard with
        preparation := some .leaving
        retained    := guard.retained ++ [(guard.preparations, retained)] }.continue s
    | _ => none
  | .leavePreparation =>
    match guard.preparation with
    | some .leaving => { guard with preparation := none }.continue s
    | _             => none
  | .drop => guard.drop s
  | .runShutdown => guard.runShutdown s
  | .enterGate =>
    match guard.phase, guard.preparation with
    | .cancelling, none =>
      { guard with phase := .dropping guard.retained, retained := [] }.continue s
    | _, _ => none
  | .unmap =>
    match guard.phase with
    | .dropping (_ :: retained) => { guard with phase := .dropping retained }.continue s
    | .dropping []              =>
      { guard with phase := .releasing (if guard.release then guard.leases else []) }.continue s
    | _ => none
  | .upgrade error loses =>
    match guard.phase with
    | .releasing (lease :: todo) => guard.upgrade s id lease todo error loses
    | _                          => none
  | .advise readable succeeds =>
    match guard.phase with
    | .upgraded lease todo => guard.advise s lease todo readable succeeds
    | _                    => none
  | .closeLeases =>
    match guard.phase with
    | .releasing [] =>
      some ({ guard with phase := .finished, leases := [], cleanup := guard.cleanup.map leave },
        Flock.release (ownedBy id) s.locks, .done)
    | _ => none

end Actions

inductive Operation (Mapping : Type)
  -- A path is linked to another file, or to none.
  | link (path : String) (inode : Option Inode)
  | write (inode : Inode) (attributes : Attributes)
  | shutdown (process : Nat)
  | guard (id : Nat) (action : Action Mapping)

def State.step (s : State Mapping) : Operation Mapping → Option (State Mapping × Outcome)
  | .link path inode         => some ({ s with name := Function.update s.name path inode }, .done)
  | .write inode attributes  =>
    some ({ s with attributes := Function.update s.attributes inode attributes }, .done)
  | .shutdown process        =>
    some ({ s with stopping := Function.update s.stopping process true }, .done)
  | .guard id action         => do
    let (guard, locks, outcome) ← (s.guard id).step s id action
    return ({ s with guard := Function.update s.guard id guard, locks }, outcome)

variable (Mapping) in
def caches : System (State Mapping) (Operation Mapping) Outcome :=
  .ofPartial {} State.step

end ModelFileCache
end Backend
