import WerkModel.Backend.Text
import WerkModel.Lib.Json
import WerkModel.Lib.System

-- The resident worker of media companions. Requests that share a transport are sent to one process
-- after another, or to a process of their own where the companion has no resident mode.
namespace MediaCompanion

abbrev Line := List UInt8

def stderrTailChars : Nat := 8000

structure Libraries where
  fromSlice     : Line → Except String Json
  fromUtf8Lossy : Line → List Char

section Responses

variable (libraries : Libraries)

def tailChars (text : List Char) (maxChars : Nat) : List Char :=
  if text.length ≤ maxChars then text else "...".toList ++ text.drop (text.length - maxChars)

def outputDetail (label : String) (bytes : Line) : String :=
  if bytes = [] then
    ""
  else
    let text := tailChars (Backend.trim <| libraries.fromUtf8Lossy bytes) stderrTailChars
    if text = [] then "" else "; " ++ label ++ ": " ++ String.ofList text

inductive ResidentExchangeOutcome
  | response (value : Json)
  | legacyResponse (line : Line)

def isBoolean : Json → Bool
  | .bool _ => true
  | _       => false

def decodeEnvelope (value : Json) (requestId : Nat) : Except String ResidentExchangeOutcome :=
  match (value.get "transport_version").bind Json.asUnsigned with
  | none         => .error "resident response has no integer transport_version"
  | some version =>
    if version ≠ 1 then
      .error <| "resident response transport version mismatch: expected 1, got " ++ toString version
    else
      match (value.get "request_id").bind Json.asUnsigned with
      | none            => .error "resident response has no integer request_id"
      | some responseId =>
        if responseId ≠ requestId then
          .error <| "resident response request id mismatch: expected " ++ toString requestId ++
            ", got " ++ toString responseId
        else
          .ok <| .response <| (value.get "response").getD <|
            (value.remove "transport_version").remove "request_id"

def envelopeLike (value : Json) : Bool :=
  (value.get "transport_version").isSome || (value.get "request_id").isSome ||
    (value.get "response").isSome

def decodeResidentResponse (line : Line) (requestId : Nat) :
    Except String ResidentExchangeOutcome :=
  match libraries.fromSlice line with
  | .error error =>
    .error <| "resident worker returned invalid JSON: " ++ error ++
      outputDetail libraries "stdout" line
  | .ok value    =>
    if value.isObject = false then
      .error "resident worker response must be a JSON object"
    else if envelopeLike value then
      decodeEnvelope value requestId
    else if (value.get "ok").any isBoolean then
      .ok <| .legacyResponse line
    else
      .error <| "resident worker returned JSON outside both the resident and legacy response " ++
        "envelopes" ++ outputDetail libraries "stdout" line

-- The request that a line from a worker answers.
def carriedId (line : Line) : Option Nat :=
  match libraries.fromSlice line with
  | .ok value => (value.get "request_id").bind Json.asUnsigned
  | .error _  => none

inductive ResidentReaderEvent
  | line (line : Line)
  | eof
  | error (message : String)

-- What `recv_timeout` returns.
inductive Received
  | event (event : ResidentReaderEvent)
  | timeout
  | disconnected

def exchangeResult (received : Received) (requestId : Nat) :
    Except String ResidentExchangeOutcome :=
  match received with
  | .event (.line line)   => decodeResidentResponse libraries line requestId
  | .event .eof           => .error "closed stdout before returning a response"
  | .event (.error error) => .error <| "failed while reading stdout: " ++ error
  | .timeout              => .error "timed out"
  | .disconnected         => .error "closed its response channel"

inductive ResidentSupportNegotiation
  | confirmed
  | oneShotFallback
  deriving DecidableEq

def negotiationResult (received : Received) (requestId : Nat) :
    Except String ResidentSupportNegotiation :=
  match received with
  | .event (.line line)   =>
    match decodeResidentResponse libraries line requestId with
    | .ok (.response _)       => .ok .confirmed
    | .ok (.legacyResponse _) => .ok .oneShotFallback
    | .error error            => .error error
  | .event .eof           => .ok .oneShotFallback
  | .event (.error error) =>
    .error <| "failed while reading resident negotiation response: " ++ error
  | .timeout              => .error "media companion resident negotiation timed out"
  | .disconnected         =>
    .error "media companion resident negotiation response channel closed"

end Responses

structure Frame where
  transportVersion : Nat := 1
  requestId        : Nat
  operation        : String
  payload          : Json

structure Request where
  operation : String
  payload   : Json
  -- The timeout is greater than zero.
  timed     : Bool

def validOperationChar (c : Char) : Bool :=
  c.isLower || c.isDigit || c = '-'

def validateOperation (operation : String) : Except String Unit :=
  if operation = "" ∨ operation.toList.all validOperationChar = false then
    .error <| "invalid media companion operation: " ++ operation
  else
    .ok ⟨⟩

def Request.validate (request : Request) : Except String Unit := do
  validateOperation request.operation
  if request.payload.isObject = false then
    throw <| "media companion request for '" ++ request.operation ++ "' must be a JSON object"
  if request.timed = false then
    throw "media companion timeout must be greater than zero"

-- What is written to a worker, with the request it is written for. A handshake is for none.
inductive Input
  | handshake (frame : Frame)
  | frame (request : Nat) (frame : Frame)
  | payload (request : Nat) (payload : Json)

namespace Input

def requestId : Input → Option Nat
  | .handshake content => some content.requestId
  | .frame _ content   => some content.requestId
  | .payload _ _       => none

def request : Input → Option Nat
  | .handshake _       => none
  | .frame request _   => some request
  | .payload request _ => some request

end Input

structure Worker where
  -- All that a worker has received, and what it has not executed yet.
  received  : List Input               := []
  queue     : List Input               := []
  -- The lines that it has written, and what its reader has found and nobody has taken.
  emitted   : List Line                := []
  responses : List ResidentReaderEvent := []
  exited    : Bool                     := false
  killed    : Bool                     := false

namespace Worker

variable (worker : Worker)

def receive (inputs : List Input) : Worker :=
  { worker with received := worker.received ++ inputs, queue := worker.queue ++ inputs }

def terminate : Worker :=
  { worker with exited := true, killed := true }

def emit (line : Line) : Worker :=
  { worker with
    emitted   := worker.emitted ++ [line]
    responses := worker.responses ++ [.line line] }

-- The responses that remain once `received` has been taken.
inductive Takes (worker : Worker) : Received → List ResidentReaderEvent → Prop
  | event {event rest} : worker.responses = event :: rest → Takes worker (.event event) rest
  | timeout : Takes worker .timeout worker.responses
  | disconnected : worker.responses = [] → Takes worker .disconnected []

end Worker

inductive ResidentNegotiation
  | unknown
  | confirmed
  | oneShotFallback
  deriving DecidableEq

-- Where a request is. It has the transport lock from `unconfirmed` to `exchanging`.
inductive Phase
  | idle
  | waiting
  | unconfirmed
  | handshaking (worker requestId : Nat)
  | confirmed
  | ready
  | exchanging (requestId : Nat)
  | fallback
  | oneShot (worker : Nat)
  | responded (value : Json)
  | answered (value : Json)
  | failed (error : String)

structure Delivery where
  request   : Nat
  -- The identifier that the request has for a resident worker.
  requestId : Option Nat
  worker    : Nat
  deriving DecidableEq

structure State where
  negotiation   : ResidentNegotiation
  process       : Option Nat    := none
  nextRequestId : Nat           := 1
  lock          : Option Nat    := none
  spawned       : Nat           := 0
  worker        : Nat → Worker  := fun _ => {}
  phase         : Nat → Phase   := fun _ => .idle
  -- What has been written to workers, and what they have executed, the latest first.
  deliveries    : List Delivery := []
  executions    : List Nat      := []

namespace State

variable (s : State) (id : Nat)

def setPhase (phase : Phase) : State :=
  { s with phase := Function.update s.phase id phase }

def setWorker (worker : Nat) (new : Worker) : State :=
  { s with worker := Function.update s.worker worker new }

def unlock : State :=
  { s with lock := none }

def fail (error : String) : State :=
  (s.setPhase id (.failed error)).unlock

def fetchId : State :=
  { s with nextRequestId := s.nextRequestId + 1 }

def spawn (worker : Worker) : State :=
  { s.setWorker s.spawned worker with spawned := s.spawned + 1 }

def terminate (worker : Nat) : State :=
  s.setWorker worker (s.worker worker).terminate

-- The process is taken out of the state and terminated.
def takeProcess : State :=
  match s.process with
  | none        => s
  | some worker => { s.terminate worker with process := none }

-- A request is written to a worker.
def deliver (requestId : Option Nat) (worker : Nat) (input : Input) : State :=
  { s.setWorker worker ((s.worker worker).receive [input]) with
    deliveries := ⟨id, requestId, worker⟩ :: s.deliveries }

def resetResidentAfterError (operation error : String) : State :=
  s.takeProcess.fail id <| "media companion resident '" ++ operation ++ "' failed: " ++ error

def acquire : State :=
  match s.negotiation with
  | .oneShotFallback => s.setPhase id .fallback
  | .unknown         => { s.setPhase id .unconfirmed with lock := some id }
  | .confirmed       => { s.setPhase id .confirmed with lock := some id }

def fallBack : State :=
  { (s.setPhase id .fallback).unlock with negotiation := .oneShotFallback }

def finishNegotiation : Except String ResidentSupportNegotiation → State
  | .ok .confirmed       => { s.setPhase id .confirmed with negotiation := .confirmed }
  | .ok .oneShotFallback => s.fallBack id
  | .error error         => s.fail id error

def finishExchange (libraries : Libraries) (operation : String) :
    Except String ResidentExchangeOutcome → State
  | .ok (.response value)      => (s.setPhase id (.responded value)).unlock
  | .ok (.legacyResponse line) =>
    s.resetResidentAfterError id operation <|
      "returned a response outside the resident JSONL envelope" ++
        outputDetail libraries "stdout" line
  | .error error               => s.resetResidentAfterError id operation error

end State

inductive Actor
  | request (id : Nat)
  | worker (id : Nat)

section Steps

variable (libraries : Libraries) (requests : Nat → Request)

def State.handshake (s : State) : Input :=
  .handshake ⟨1, s.nextRequestId, "transport-handshake", .object []⟩

def State.residentRequestFrame (s : State) (id : Nat) : Input :=
  .frame id ⟨1, s.nextRequestId, (requests id).operation, (requests id).payload⟩

-- The steps of requests and workers. Deadlines may pass, processes may fail to start and writes may
-- fail at any time, where what has been written before may be received or not.
inductive Step (s : State) : Actor → State → Prop
  | start {id} : s.phase id = .idle → (requests id).validate = .ok ⟨⟩ →
    Step s (.request id) (s.setPhase id .waiting)
  | invalid {id error} : s.phase id = .idle → (requests id).validate = .error error →
    Step s (.request id) (s.setPhase id (.failed error))
  | giveUp {id} : s.phase id = .waiting → s.lock ≠ none →
    Step s (.request id) (s.setPhase id <| .failed "timed out waiting for the active worker")
  | acquire {id} : s.phase id = .waiting → s.lock = none → Step s (.request id) (s.acquire id)
  -- The deadline has passed, or the process does not start.
  | noHandshake {id error} : s.phase id = .unconfirmed →
    Step s (.request id) (s.fetchId.fail id error)
  | handshake {id} : s.phase id = .unconfirmed →
    Step s (.request id) ((s.fetchId.spawn (({} : Worker).receive [s.handshake])).setPhase id <|
      .handshaking s.spawned s.nextRequestId)
  | handshakeBroken {id inputs} : s.phase id = .unconfirmed → inputs ⊆ [s.handshake] →
    Step s (.request id) ((s.fetchId.spawn (({} : Worker).receive inputs).terminate).fallBack id)
  | handshakeNotWritten {id inputs error} : s.phase id = .unconfirmed → inputs ⊆ [s.handshake] →
    Step s (.request id) ((s.fetchId.spawn (({} : Worker).receive inputs).terminate).fail id error)
  | finishNegotiation {id worker requestId received rest} :
    s.phase id = .handshaking worker requestId → (s.worker worker).Takes received rest →
    Step s (.request id) ((s.terminate worker).finishNegotiation id <|
      negotiationResult libraries received requestId)
  | notInspected {id process error} : s.phase id = .confirmed → s.process = some process →
    Step s (.request id) (s.fail id error)
  | keepProcess {id process} : s.phase id = .confirmed → s.process = some process →
    (s.worker process).exited = false → Step s (.request id) (s.setPhase id .ready)
  | startProcess {id} : s.phase id = .confirmed →
    (∀ process, s.process = some process → (s.worker process).exited = true) →
    Step s (.request id)
      { (s.takeProcess.spawn {}).setPhase id .ready with process := some s.spawned }
  | noProcess {id error} : s.phase id = .confirmed →
    (∀ process, s.process = some process → (s.worker process).exited = true) →
    Step s (.request id) (s.takeProcess.fail id error)
  | tooLate {id} : s.phase id = .ready →
    Step s (.request id) (s.fail id "timed out before the request could be sent")
  | send {id process} : s.phase id = .ready → s.process = some process →
    Step s (.request id) ((s.fetchId.deliver id (some s.nextRequestId) process <|
      s.residentRequestFrame requests id).setPhase id <| .exchanging s.nextRequestId)
  | notSent {id process error} : s.phase id = .ready → s.process = some process →
    Step s (.request id) (s.fetchId.resetResidentAfterError id (requests id).operation error)
  -- The write fails, but the worker has received the request.
  | lost {id process error} : s.phase id = .ready → s.process = some process →
    Step s (.request id) ((s.fetchId.deliver id (some s.nextRequestId) process <|
      s.residentRequestFrame requests id).resetResidentAfterError id (requests id).operation error)
  | finishExchange {id requestId process received rest} : s.phase id = .exchanging requestId →
    s.process = some process → (s.worker process).Takes received rest →
    Step s (.request id) ((s.setWorker process
        { s.worker process with responses := rest }).finishExchange id libraries
      (requests id).operation <| exchangeResult libraries received requestId)
  | noOneShot {id error} : s.phase id = .fallback →
    Step s (.request id) (s.setPhase id (.failed error))
  | oneShot {id} : s.phase id = .fallback →
    Step s (.request id) (((s.spawn {}).deliver id none s.spawned <|
      .payload id (requests id).payload).setPhase id <| .oneShot s.spawned)
  | oneShotLost {id error} : s.phase id = .fallback →
    Step s (.request id) ((((s.spawn {}).deliver id none s.spawned <|
      .payload id (requests id).payload).terminate s.spawned).setPhase id <| .failed error)
  | answerOneShot {id worker value} : s.phase id = .oneShot worker →
    Step s (.request id) ((s.terminate worker).setPhase id <| .answered value)
  | failOneShot {id worker error} : s.phase id = .oneShot worker →
    Step s (.request id) ((s.terminate worker).setPhase id <| .failed error)
  | execute {worker input rest} : (s.worker worker).queue = input :: rest →
    (s.worker worker).exited = false →
    Step s (.worker worker) { s.setWorker worker { s.worker worker with queue := rest } with
      executions := input.request.toList ++ s.executions }
  -- A line that answers a request is written by a worker that has received it.
  | emit {worker line} : (∀ requestId, carriedId libraries line = some requestId →
      ∃ input ∈ (s.worker worker).received, input.requestId = some requestId) →
    Step s (.worker worker) (s.setWorker worker ((s.worker worker).emit line))
  | close {worker} : Step s (.worker worker) (s.setWorker worker
      { s.worker worker with responses := (s.worker worker).responses ++ [.eof] })
  | readError {worker error} : Step s (.worker worker) (s.setWorker worker
      { s.worker worker with responses := (s.worker worker).responses ++ [.error error] })
  | exit {worker} : Step s (.worker worker) (s.setWorker worker
      { s.worker worker with exited := true })

-- Launchers that have a script of their own are known to have a resident mode.
def transport : System State Actor Unit where
  Init s             := ∃ negotiation ≠ .oneShotFallback, s = { negotiation }
  Step s actor _ s' := Step libraries requests s actor s'

end Steps

end MediaCompanion
