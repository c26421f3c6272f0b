import WerkModel.Lib.System
import WerkModel.Lib.TreeMap

-- Media jobs: the store of their records, and the worker that runs a submitted job.
open Std ExtTreeMap

namespace InferenceService

inductive JobStatus
  | queued
  | loading
  | running
  | encoding
  | completed
  | failed
  | cancelled
  deriving DecidableEq

namespace JobStatus

def terminal : JobStatus → Bool
  | .completed | .failed | .cancelled => true
  | _                                 => false

def name : JobStatus → String
  | .queued    => "Queued"
  | .loading   => "Loading"
  | .running   => "Running"
  | .encoding  => "Encoding"
  | .completed => "Completed"
  | .failed    => "Failed"
  | .cancelled => "Cancelled"

end JobStatus

def validJobTransition : JobStatus → JobStatus → Bool
  | .queued,   .loading | .queued,   .running   | .queued,  .failed | .queued,  .cancelled => true
  | .loading,  .running | .loading,  .failed    | .loading, .cancelled                     => true
  | .running,  .encoding | .running, .completed | .running, .failed | .running, .cancelled => true
  | .encoding, .completed | .encoding, .failed  | .encoding, .cancelled                    => true
  | _, _                                                                                   => false

structure InferenceResult (Content : Type) where
  id      : String
  content : Content
  deriving DecidableEq

structure JobRecord (Request Content : Type) where
  id          : String
  status      : JobStatus
  request     : Request
  result      : Option (InferenceResult Content)
  error       : Option String
  createdUnix : Nat
  updatedUnix : Nat
  deriving DecidableEq

def JobRecord.change {Request Content : Type} (record : JobRecord Request Content)
    (status : JobStatus) (result : Option (InferenceResult Content)) (error : Option String)
    (now : Nat) : JobRecord Request Content :=
  { record with
    status
    result
    error
    updatedUnix := now }

def validateSafeName (value : String) : Except String Unit :=
  if value.isEmpty || value.utf8ByteSize > 128 ||
      value.toList.any (fun c => !(c.isAlphanum || c = '-' || c = '_' || c = '.')) ||
      value = "." || value = ".." then
    .error <| "unsafe storage identifier '" ++ value ++ "'"
  else
    .ok ()

variable {Request Content : Type}

-- Records are replaced atomically. The store also keeps what was persisted, the latest first.
structure JobStore (Request Content : Type) where
  records   : ExtTreeMap String (JobRecord Request Content)
  persisted : List (JobRecord Request Content)
  keyed     : ∀ (id : String) record, records[id]? = some record → record.id = id

namespace JobStore

variable (store : JobStore Request Content)

def put (record : JobRecord Request Content) : JobStore Request Content where
  records   := store.records.insert record.id record
  persisted := record :: store.persisted
  keyed id record' h := by
    rw [getElem?_insert] at h
    split at h
    case isTrue he => exact Option.some.inj h ▸ LawfulEqCmp.compare_eq_iff_eq.mp he
    case isFalse   => exact store.keyed _ _ h

def write (record : JobRecord Request Content) : Except String Unit × JobStore Request Content :=
  match validateSafeName record.id with
  | .error error => (.error error, store)
  | .ok _        => (.ok (), store.put record)

def create (id : String) (request : Request) (now : Nat) :
    Except String (JobRecord Request Content) × JobStore Request Content :=
  let record : JobRecord Request Content := {
    id
    status      := .queued
    request
    result      := none
    error       := none
    createdUnix := now
    updatedUnix := now }
  let (written, store) := store.write record
  (written.map fun _ => record, store)

def get (id : String) : Except String (JobRecord Request Content) :=
  match validateSafeName id with
  | .error error => .error error
  | .ok _        =>
    match store.records[id]? with
    | none        => .error <| "job '" ++ id ++ "' was not found"
    | some record => .ok record

def update (record : JobRecord Request Content) (status : JobStatus)
    (result : Option (InferenceResult Content)) (error : Option String) (now : Nat) :
    Except String (JobRecord Request Content) × JobStore Request Content :=
  let record := record.change status result error now
  let (written, store) := store.write record
  (written.map fun _ => record, store)

def invalidTransition (source target : JobStatus) : String :=
  "invalid job transition " ++ source.name ++ " -> " ++ target.name

def transition (id : String) (status : JobStatus) (result : Option (InferenceResult Content))
    (error : Option String) (now : Nat) :
    Except String (JobRecord Request Content) × JobStore Request Content :=
  match store.get id with
  | .error error => (.error error, store)
  | .ok record   =>
    if record.status.terminal then
      if record.status = status then
        (.ok record, store)
      else
        (.error ("job '" ++ record.id ++ "' is already in terminal state " ++ record.status.name),
          store)
    else if !validJobTransition record.status status then
      (.error (invalidTransition record.status status), store)
    else
      store.update record status result error now

def cancel (id : String) (now : Nat) :
    Except String (JobRecord Request Content) × JobStore Request Content :=
  match store.get id with
  | .error error => (.error error, store)
  | .ok record   =>
    if record.status.terminal then
      (.ok record, store)
    else if !validJobTransition record.status .cancelled then
      (.error (invalidTransition record.status .cancelled), store)
    else
      store.update record .cancelled none none now

variable {store} {id : String} {status : JobStatus} {record : JobRecord Request Content}
variable {result : Option (InferenceResult Content)} {error : Option String} {now : Nat}

theorem lookup_put : (store.put record).records[id]? =
    if record.id = id then some record else store.records[id]? := by
  simp [put, getElem?_insert, LawfulEqCmp.compare_eq_iff_eq]

theorem get_ok : store.get id = .ok record ↔
    validateSafeName id = .ok () ∧ store.records[id]? = some record := by
  rw [get]
  cases validateSafeName id
  case error => simp
  case ok    => cases store.records[id]? <;> simp

theorem create_ok {request : Request} {store' : JobStore Request Content}
    (h : store.create id request now = (.ok record, store')) :
    validateSafeName id = .ok () ∧ record.id = id ∧ record.status = .queued ∧
      store' = store.put record := by
  cases hs : validateSafeName id
  case error => simp [create, write, hs, Except.map] at h
  case ok    =>
    simp only [create, write, hs, Except.map, Prod.mk.injEq, Except.ok.injEq] at h
    exact ⟨rfl, h.1 ▸ rfl, h.1 ▸ rfl, h.1 ▸ h.2.symm⟩

theorem update_eq (hg : store.get id = .ok record) :
    store.update record status result error now =
      (.ok <| record.change status result error now,
        store.put <| record.change status result error now) := by
  have ⟨hs, hr⟩ := get_ok.mp hg
  have hs : validateSafeName (record.change status result error now).id = .ok () :=
    store.keyed _ _ hr ▸ hs
  simp only [update, write, hs]
  rfl

theorem not_terminal (h : validJobTransition record.status status) :
    record.status.terminal = false := by
  cases hs : record.status
  all_goals simp_all [validJobTransition, JobStatus.terminal]

theorem transition_of_valid (hg : store.get id = .ok record)
    (hv : validJobTransition record.status status) :
    store.transition id status result error now =
      (.ok <| record.change status result error now,
        store.put <| record.change status result error now) := by
  simp only [transition, hg, not_terminal hv, hv]
  exact update_eq hg

theorem transition_cases (id : String) (status : JobStatus) (result : Option (InferenceResult Content))
    (error : Option String) (now : Nat) :
    (∃ message, store.transition id status result error now = (.error message, store)) ∨
    (∃ record, store.get id = .ok record ∧ record.status.terminal ∧ record.status = status ∧
      store.transition id status result error now = (.ok record, store)) ∨
    ∃ record, store.get id = .ok record ∧ validJobTransition record.status status ∧
      store.transition id status result error now =
        (.ok <| record.change status result error now,
          store.put <| record.change status result error now) := by
  cases hg : store.get id
  case error message => exact .inl ⟨message, by simp [transition, hg]⟩
  case ok record     =>
    by_cases hv : validJobTransition record.status status
    case pos => exact .inr <| .inr ⟨record, rfl, hv, transition_of_valid hg hv⟩
    case neg =>
      by_cases ht : record.status.terminal
      case neg => exact .inl ⟨_, by simp only [transition, hg, ht, hv]; rfl⟩
      case pos =>
        by_cases he : record.status = status
        case pos => exact .inr <| .inl ⟨record, rfl, ht, he, by simp [transition, hg, ht, ←he]⟩
        case neg => exact .inl ⟨_, by simp only [transition, hg, ht, if_neg he]; rfl⟩

theorem cancel_of_terminal (hg : store.get id = .ok record) (ht : record.status.terminal) :
    store.cancel id now = (.ok record, store) := by
  simp [cancel, hg, ht]

theorem cancel_cases (id : String) (now : Nat) :
    (∃ message, store.cancel id now = (.error message, store)) ∨
    (∃ record, store.get id = .ok record ∧ record.status.terminal ∧
      store.cancel id now = (.ok record, store)) ∨
    ∃ record, store.get id = .ok record ∧ validJobTransition record.status .cancelled ∧
      store.cancel id now =
        (.ok <| record.change .cancelled none none now,
          store.put <| record.change .cancelled none none now) := by
  cases hg : store.get id
  case error message => exact .inl ⟨message, by simp [cancel, hg]⟩
  case ok record     =>
    by_cases ht : record.status.terminal
    case pos => exact .inr <| .inl ⟨record, rfl, ht, cancel_of_terminal hg ht⟩
    case neg =>
      by_cases hv : validJobTransition record.status .cancelled
      case neg => exact .inl ⟨_, by simp only [cancel, hg, ht, hv]; rfl⟩
      case pos =>
        refine .inr <| .inr ⟨record, rfl, hv, ?_⟩
        simp only [cancel, hg, ht, hv]
        exact update_eq hg

end JobStore

-- What the execution of a request ends in.
inductive Execution (Content : Type)
  | ok (result : InferenceResult Content)
  | failed (error : String)
  | panicked (error : String)

-- The worker of a job, by the step that it takes next. Each step is one access to a store.
inductive Worker (Request Content : Type)
  | begin
  | load
  | run
  | fetch
  | execute (request : Request)
  | check (execution : Execution Content)
  | discard (result : InferenceResult Content)
  | encode (result : InferenceResult Content)
  | complete (result : InferenceResult Content)
  | fail (error : String)
  -- A worker that has ended keeps the output that it has produced.
  | ended (produced : Option (InferenceResult Content))

structure World (Request Content : Type) where
  store   : JobStore Request Content
  outputs : Finset String
  worker  : Worker Request Content

inductive Operation (Content : Type)
  | work (now : Nat) (execution : Execution Content)
  | cancel (id : String) (now : Nat)
  | get (id : String)

abbrev Reply (Request Content : Type) := Option (Except String (JobRecord Request Content))

namespace World

variable (job : String) (world : World Request Content)

def isCancelled : Bool :=
  match world.store.get job with
  | .ok record => record.status = .cancelled
  | .error _   => false

-- A transition that ends the worker if it fails.
def advance (status : JobStatus) (now : Nat) (worker : Worker Request Content) :
    World Request Content :=
  match world.store.transition job status none none now with
  | (.ok _, store)    => { world with store, worker }
  | (.error _, store) => { world with store, worker := .ended none }

-- A transition whose failure is ignored.
def settle (status : JobStatus) (result : Option (InferenceResult Content))
    (error : Option String) (now : Nat) (worker : Worker Request Content) :
    World Request Content :=
  { world with
    store := (world.store.transition job status result error now).2
    worker }

def execute (execution : Execution Content) : World Request Content :=
  match execution with
  | .ok result => { world with
    outputs := insert result.id world.outputs
    worker  := .check execution }
  | _          => { world with worker := .check execution }

def check (execution : Execution Content) : Worker Request Content :=
  if world.isCancelled job then
    match execution with
    | .ok result => .discard result
    | _          => .ended none
  else
    match execution with
    | .ok result      => .encode result
    | .failed error   => .fail error
    | .panicked error => .fail <| "job worker failed: " ++ error

def work (now : Nat) (execution : Execution Content) : World Request Content :=
  match world.worker with
  | .begin           => { world with worker := if world.isCancelled job then .ended none else .load }
  | .load            => world.advance job .loading now .run
  | .run             => world.advance job .running now .fetch
  | .fetch           =>
    match world.store.get job with
    | .ok record => { world with worker := .execute record.request }
    | .error _   => { world with worker := .ended none }
  | .execute _       => world.execute execution
  | .check execution => { world with worker := world.check job execution }
  | .discard result  => { world with
    outputs := world.outputs.erase result.id
    worker  := .ended <| some result }
  | .encode result   => world.settle job .encoding none none now <| .complete result
  | .complete result => world.settle job .completed (some result) none now <| .ended <| some result
  | .fail error      => world.settle job .failed none (some error) now <| .ended none
  | .ended _         => world

def apply : Operation Content → Reply Request Content × World Request Content
  | .work now execution => (none, world.work job now execution)
  | .cancel id now      =>
    let (result, store) := world.store.cancel id now
    (some result, { world with store })
  | .get id             => (some <| world.store.get id, world)

end World

-- A run starts when the job was created and its worker was spawned.
def system (job : String) :
    System (World Request Content) (Operation Content) (Reply Request Content) where
  Init world := ∃ (store : JobStore Request Content) (request : Request) (now : Nat) (record : _),
    store.persisted = [] ∧ store.create job request now = (.ok record, world.store) ∧
    world.worker = .begin
  Step world operation reply world' := world.apply job operation = (reply, world')

end InferenceService
