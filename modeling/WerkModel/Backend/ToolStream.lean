import WerkModel.Backend.ToolCalling

-- The two ends of a generation with tool calls: a whole response, and a stream whose text is held
-- back until it is complete.
open Checks

namespace Backend

structure ChatCompletionFunctionCallDelta where
  name      : Option String
  arguments : Option String
  deriving DecidableEq

structure ChatCompletionToolCallDelta where
  index    : Nat
  id       : Option String
  kind     : Option String
  function : Option ChatCompletionFunctionCallDelta
  deriving DecidableEq

-- The metadata at the end of a generation, whose timings are passed on as they are.
structure Completion (τ : Type) where
  finishReason       : String
  promptTokens       : Nat
  completionTokens   : Nat
  timings            : τ
  backendDiagnostics : List String

inductive GenerateStreamEvent (τ : Type)
  | textChunk (text : String)
  | toolCallDelta (deltas : List ChatCompletionToolCallDelta)
  | done (completion : Completion τ)

structure GenerateResponse (τ : Type) extends Completion τ where
  text             : String
  assistantMessage : Option GeneratedAssistantMessage

inductive Poll (α : Type)
  | pending
  | ready (value : α)

def Poll.value? {α : Type} : Poll α → Option α
  | .pending     => none
  | .ready value => some value

theorem Poll.filterMap_ready {α : Type} (values : List α) :
    (values.map Poll.ready).filterMap Poll.value? = values := by
  rw [List.filterMap_map]
  exact List.filterMap_some

-- The items of a stream.
abbrev Item (τ : Type) := Except String (GenerateStreamEvent τ)

-- A stream of events answers a number of polls and has then ended.
structure ToolStream (τ : Type) where
  upstream : Option (List (Poll (Item τ)))
  policy   : Policy
  text     : String
  pending  : List (Item τ)

variable {ν τ : Type} (lib : Libraries ν)

namespace GeneratedAssistantMessage

variable (message : GeneratedAssistantMessage)

def calls : List ChatCompletionToolCall :=
  message.toolCalls.getD []

def validateFinishReason (finishReason : String) : Except String Unit :=
  ensure (message.calls = [] ∨ finishReason ∈ ["stop", "tool_calls"]) <|
    "generic tool generation ended with " ++ lib.printQuoted finishReason ++
    " before successful tool completion"

variable {message} in
theorem validateFinishReason_eq_ok {lib : Libraries ν} {finishReason : String} :
    message.validateFinishReason lib finishReason = .ok () ↔
      message.calls = [] ∨ finishReason ∈ ["stop", "tool_calls"] :=
  ensure_eq_ok

-- Calls are only published for a generation that has stopped by itself.
def finishReason (reason : String) : String :=
  if message.toolCalls.isSome then "tool_calls" else reason

end GeneratedAssistantMessage

namespace GenerateResponse

variable (response : GenerateResponse τ)

def toolCalls : List ChatCompletionToolCall :=
  (response.assistantMessage.bind (·.toolCalls)).getD []

def output : String :=
  (response.assistantMessage.bind (·.content)).getD response.text

end GenerateResponse

def Policy.finish (policy : Policy) (response : GenerateResponse τ) :
    Except String (GenerateResponse τ) := do
  ensure (response.toolCalls = [])
    "generic tool protocol received unexpected native tool calls"
  let message ← policy.parse lib response.output
  message.validateFinishReason lib response.finishReason
  return { response with
    text               := message.content.getD ""
    finishReason       := message.finishReason response.finishReason
    assistantMessage   := some message
    backendDiagnostics := response.backendDiagnostics ++ [diagnostic]
  }

theorem Policy.finish_eq_ok {lib : Libraries ν} {policy : Policy}
    {response finished : GenerateResponse τ} :
    policy.finish lib response = .ok finished ↔ response.toolCalls = [] ∧ ∃ message,
      policy.parse lib response.output = .ok message ∧
      message.validateFinishReason lib response.finishReason = .ok () ∧
      finished = { response with
        text               := message.content.getD ""
        finishReason       := message.finishReason response.finishReason
        assistantMessage   := some message
        backendDiagnostics := response.backendDiagnostics ++ [diagnostic]
      } := by
  rw [finish, ensure_bind_eq_ok, bind_eq_ok]
  simp only [seq_eq_ok, pure, Except.pure, Except.ok.injEq, eq_comm (b := finished)]

def ChatCompletionToolCall.delta (index : Nat) (call : ChatCompletionToolCall) :
    ChatCompletionToolCallDelta where
  index    := index
  id       := some call.id
  kind     := some call.kind
  function := some { name := some call.function.name, arguments := some call.function.arguments }

namespace GeneratedAssistantMessage

variable (message : GeneratedAssistantMessage)

def textEvents : List (GenerateStreamEvent τ) :=
  (message.content.filter (· ≠ "")).toList.map .textChunk

def callEvents : List (GenerateStreamEvent τ) :=
  message.toolCalls.toList.map fun calls => .toolCallDelta (calls.mapIdx ChatCompletionToolCall.delta)

def doneEvent (completion : Completion τ) : GenerateStreamEvent τ :=
  .done { completion with
    finishReason       := message.finishReason completion.finishReason
    backendDiagnostics := completion.backendDiagnostics ++
      [diagnostic, "generic tool stream buffered until validation"]
  }

def events (completion : Completion τ) : List (GenerateStreamEvent τ) :=
  message.textEvents ++ message.callEvents ++ [message.doneEvent completion]

end GeneratedAssistantMessage

namespace ToolStream

-- The stream that takes the place of its upstream.
def new (policy : Policy) (upstream : List (Poll (Item τ))) : ToolStream τ where
  upstream := some upstream
  policy   := policy
  text     := ""
  pending  := []

def finish (stream : ToolStream τ) (event : GenerateStreamEvent τ) :
    Except String (ToolStream τ) := do
  let message ← stream.policy.parse lib stream.text
  match event with
  | .done completion => do
    message.validateFinishReason lib completion.finishReason
    return { stream with pending := stream.pending ++ (message.events completion).map .ok }
  | _ => .error "generic tool stream received an invalid terminal event"

def close (stream : ToolStream τ) : ToolStream τ :=
  { stream with upstream := none }

def popPending (stream : ToolStream τ) : Poll (Option (Item τ)) × ToolStream τ :=
  match stream.pending with
  | []               => (.ready none, stream)
  | event :: pending => (.ready (some event), { stream with pending })

-- The turns of the loop that poll the upstream.
def pollUpstream (stream : ToolStream τ) :
    List (Poll (Item τ)) → Nat → Poll (Option (Item τ)) × ToolStream τ
  | [], _ =>
    (.ready <| some <| .error "tool generation stream ended before completion metadata",
      stream.close)
  | .pending :: upstream, _ => (.pending, { stream with upstream })
  | .ready (.error error) :: _, _ => (.ready <| some <| .error error, stream.close)
  | .ready (.ok (.toolCallDelta _)) :: _, _ =>
    (.ready <| some <| .error "generic tool stream received unexpected native tool calls",
      stream.close)
  | .ready (.ok (.done completion)) :: _, _ =>
    match stream.close.finish lib (.done completion) with
    | .error error  => (.ready <| some <| .error error, stream.close)
    | .ok finished  => finished.popPending
  | .ready (.ok (.textChunk text)) :: upstream, chunksPolled =>
    if maxOutputBytes - stream.text.utf8ByteSize < text.utf8ByteSize then
      (.ready <| some <| .error <| "generic tool output exceeds the " ++ toString maxOutputBytes ++
        "-byte validation limit", { stream.close with text := "" })
    -- Cooperate even if upstream yields ready chunks indefinitely.
    else if chunksPolled + 1 = 64 then
      (.pending, { stream with text := stream.text ++ text, upstream })
    else
      pollUpstream { stream with text := stream.text ++ text } upstream (chunksPolled + 1)

def pollNext (stream : ToolStream τ) : Poll (Option (Item τ)) × ToolStream τ :=
  match stream.pending, stream.upstream with
  | [], some upstream => stream.pollUpstream lib upstream 0
  | _, _              => stream.popPending

-- Polls that are left to the upstream and events that are left to publish. A generation that is
-- completed publishes at most three events.
def work (stream : ToolStream τ) : Nat :=
  (stream.upstream.elim 0 fun upstream => upstream.length + 4) + stream.pending.length

section Lemmas

variable {lib} {stream : ToolStream τ} {message : GeneratedAssistantMessage}
variable {completion : Completion τ}

theorem finish_eq_ok {finished : ToolStream τ} :
    stream.finish lib (.done completion) = .ok finished ↔ ∃ message,
      stream.policy.parse lib stream.text = .ok message ∧
      message.validateFinishReason lib completion.finishReason = .ok () ∧
      finished =
        { stream with pending := stream.pending ++ (message.events completion).map .ok } := by
  rw [finish, bind_eq_ok]
  simp only [seq_eq_ok, pure, Except.pure, Except.ok.injEq, eq_comm (b := finished)]

theorem length_events_le (message : GeneratedAssistantMessage) (completion : Completion τ) :
    (message.events completion).length ≤ 3 := by
  have ht : (message.content.filter (· ≠ "")).toList.length ≤ 1 := Option.length_toList_le
  have hc : message.toolCalls.toList.length ≤ 1 := Option.length_toList_le
  simp only [GeneratedAssistantMessage.events, GeneratedAssistantMessage.textEvents,
    GeneratedAssistantMessage.callEvents, List.length_append, List.length_map,
    List.length_singleton]
  omega

theorem work_popPending (h : stream.popPending.1 ≠ .ready none) :
    stream.popPending.2.work + 1 = stream.work := by
  rw [popPending] at h ⊢
  split
  case h_1 hp => simp [hp] at h
  case h_2 hp => simp [work, hp, Nat.add_assoc]

theorem work_pollUpstream {upstream : List (Poll (Item τ))} {chunksPolled : Nat}
    (h : (stream.pollUpstream lib upstream chunksPolled).1 ≠ .ready none) :
    (stream.pollUpstream lib upstream chunksPolled).2.work <
      upstream.length + 4 + stream.pending.length := by
  fun_induction stream.pollUpstream lib upstream chunksPolled
  case case6 stream completion _ _ finished hf =>
    have ⟨message, _, _, he⟩ := finish_eq_ok.mp hf
    have hw := work_popPending h
    have hl := length_events_le message completion
    simp only [he, work, close, Option.elim_none, List.length_append, List.length_map] at hw ⊢
    simp only [List.length_cons]
    omega
  case case9 hi =>
    have := hi h
    simp only [List.length_cons] at this ⊢
    omega
  all_goals simp [work, close]; try omega

theorem work_pollNext (h : (stream.pollNext lib).1 ≠ .ready none) :
    (stream.pollNext lib).2.work < stream.work := by
  rw [pollNext] at h ⊢
  split at h
  case h_1 upstream hp hu =>
    have := work_pollUpstream h
    simp only [work, hu, hp, Option.elim_some, List.length_nil] at this ⊢
    omega
  case h_2 =>
    have := work_popPending h
    omega

end Lemmas

-- All that is published to a consumer that polls until the stream has ended.
def collect (stream : ToolStream τ) : List (Item τ) :=
  match _h : stream.pollNext lib with
  | (.pending, next)            => next.collect
  | (.ready none, _)            => []
  | (.ready (some result), next) => result :: next.collect
termination_by stream.work
decreasing_by
  all_goals
    have hw : _ → (stream.pollNext lib).2.work < stream.work := work_pollNext
    simpa [*] using hw

-- What a consumer sees of a poll and of those after it.
def collectFrom (polled : Poll (Option (Item τ)) × ToolStream τ) : List (Item τ) :=
  match polled with
  | (.pending, next)             => next.collect lib
  | (.ready none, _)             => []
  | (.ready (some result), next) => result :: next.collect lib

-- The events of a complete text.
def complete (policy : Policy) (text : String) (completion : Completion τ) :
    Except String (List (GenerateStreamEvent τ)) := do
  let message ← policy.parse lib text
  message.validateFinishReason lib completion.finishReason
  return message.events completion

-- What becomes of a text and the items after it, however they are polled.
def terminal (policy : Policy) : String → List (Item τ) →
    Except String (List (GenerateStreamEvent τ))
  | _, []                          => .error "tool generation stream ended before completion metadata"
  | _, .error error :: _           => .error error
  | _, .ok (.toolCallDelta _) :: _ =>
    .error "generic tool stream received unexpected native tool calls"
  | text, .ok (.done completion) :: _ => complete lib policy text completion
  | text, .ok (.textChunk chunk) :: items =>
    if maxOutputBytes - text.utf8ByteSize < chunk.utf8ByteSize then
      .error <| "generic tool output exceeds the " ++ toString maxOutputBytes ++
        "-byte validation limit"
    else
      terminal policy (text ++ chunk) items

def publish : Except String (List (GenerateStreamEvent τ)) → List (Item τ)
  | .error error => [.error error]
  | .ok events   => events.map .ok

section Collect

variable {lib} {stream : ToolStream τ} {upstream : List (Poll (Item τ))}
variable {completion : Completion τ}

theorem complete_eq_ok {policy : Policy} {text : String}
    {events : List (GenerateStreamEvent τ)} :
    complete lib policy text completion = .ok events ↔ ∃ message,
      policy.parse lib text = .ok message ∧
      message.validateFinishReason lib completion.finishReason = .ok () ∧
      events = message.events completion := by
  rw [complete, bind_eq_ok]
  simp only [seq_eq_ok, pure, Except.pure, Except.ok.injEq, eq_comm (b := events)]

theorem finish_eq : stream.finish lib (.done completion) =
    (complete lib stream.policy stream.text completion).map fun events =>
      { stream with pending := stream.pending ++ events.map .ok } := by
  rw [finish, complete]
  cases stream.policy.parse lib stream.text
  case error => rfl
  case ok message =>
    simp only [bind, Except.bind]
    cases message.validateFinishReason lib completion.finishReason
    case error => rfl
    case ok    => rfl

theorem terminal_textChunk {policy : Policy} {text chunk : String} {items : List (Item τ)} :
    terminal lib policy text (.ok (.textChunk chunk) :: items) =
      if maxOutputBytes - text.utf8ByteSize < chunk.utf8ByteSize then
        .error <| "generic tool output exceeds the " ++ toString maxOutputBytes ++
          "-byte validation limit"
      else
        terminal lib policy (text ++ chunk) items :=
  rfl

theorem terminal_done {policy : Policy} {text : String} {items : List (Item τ)} :
    terminal lib policy text (.ok (.done completion) :: items) =
      complete lib policy text completion :=
  rfl

theorem collect_eq (stream : ToolStream τ) :
    stream.collect lib = collectFrom lib (stream.pollNext lib) := by
  rw [collect]
  split
  all_goals simp only [collectFrom, *]

theorem pollNext_closed (h : stream.upstream = none) :
    stream.pollNext lib = stream.popPending := by
  simp [pollNext, h]

theorem pollNext_upstream (hp : stream.pending = []) (hu : stream.upstream = some upstream) :
    stream.pollNext lib = stream.pollUpstream lib upstream 0 := by
  simp [pollNext, hp, hu]

theorem collect_closed (h : stream.upstream = none) :
    stream.collect lib = stream.pending := by
  generalize hp : stream.pending = pending
  induction pending generalizing stream
  case nil => rw [collect_eq, pollNext_closed h, popPending, hp, collectFrom]
  case cons event pending hi =>
    rw [collect_eq, pollNext_closed h, popPending, hp, collectFrom]
    exact congrArg _ <| hi h rfl

theorem collectFrom_closed (h : stream.upstream = none) :
    collectFrom lib stream.popPending = stream.pending := by
  rw [←pollNext_closed h, ←collect_eq, collect_closed h]

theorem collectFrom_error {error : String} (hp : stream.pending = [])
    (hu : stream.upstream = none) :
    collectFrom lib (.ready <| some <| .error error, stream) = publish (.error error) := by
  rw [collectFrom, collect_closed hu, hp, publish]

theorem collectFrom_done (hp : stream.pending = []) (completion : Completion τ)
    (chunksPolled : Nat) :
    collectFrom lib
        (stream.pollUpstream lib (.ready (.ok (.done completion)) :: upstream) chunksPolled) =
      publish (complete lib stream.policy stream.text completion) := by
  rw [pollUpstream, finish_eq]
  change _ = publish (complete lib stream.close.policy stream.close.text completion)
  cases complete lib stream.close.policy stream.close.text completion
  case error => exact collectFrom_error hp rfl
  case ok events =>
    change collectFrom lib (popPending _) = events.map .ok
    rw [collectFrom_closed rfl]
    simp [close, hp]

-- Neither the polls that find nothing nor those that only give way are seen.
theorem collectFrom_pollUpstream (hp : stream.pending = []) (chunksPolled : Nat) :
    collectFrom lib (stream.pollUpstream lib upstream chunksPolled) =
      publish (terminal lib stream.policy stream.text (upstream.filterMap Poll.value?)) := by
  induction upstream generalizing stream chunksPolled
  case nil => exact collectFrom_error hp rfl
  case cons polled upstream hi =>
    have hn : ∀ next : ToolStream τ, next.pending = [] → next.upstream = some upstream →
        next.collect lib = publish
          (terminal lib next.policy next.text (upstream.filterMap Poll.value?)) := by
      intro next hp hu
      rw [collect_eq, pollNext_upstream hp hu]
      exact hi hp 0
    match polled with
    | .pending                        => exact hn _ hp rfl
    | .ready (.error _)               => exact collectFrom_error hp rfl
    | .ready (.ok (.toolCallDelta _)) => exact collectFrom_error hp rfl
    | .ready (.ok (.done completion)) => exact collectFrom_done hp completion _
    | .ready (.ok (.textChunk text))  =>
      change collectFrom lib (ite _ _ _) = publish (ite _ _ _)
      split
      case isTrue => exact collectFrom_error hp rfl
      case isFalse =>
        split
        case isTrue  => exact hn _ hp rfl
        case isFalse =>
          have hp : { stream with text := stream.text ++ text }.pending = [] := hp
          exact hi hp (chunksPolled + 1)

theorem collect_eq_publish (hp : stream.pending = []) (hu : stream.upstream = some upstream) :
    stream.collect lib =
      publish (terminal lib stream.policy stream.text (upstream.filterMap Poll.value?)) := by
  rw [collect_eq, pollNext_upstream hp hu, collectFrom_pollUpstream hp]

end Collect
end ToolStream
end Backend
