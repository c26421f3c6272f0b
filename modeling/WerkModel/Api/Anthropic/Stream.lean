import WerkModel.Lib.Utf8
import WerkModel.Backend.Text
import WerkModel.Backend.ToolStream

-- The events of a message, which are published while the backend generates it.
open Backend Checks

namespace Api.Anthropic

scoped instance decidableMem (name : List Char) (names : List (List Char)) :
    Decidable (name ∈ names) :=
  decidable_of_iff (names.contains name = true) List.contains_iff_mem

def maxToolBytes : Nat := 8 * 1024 * 1024

def maxTools : Nat := 128

def byteLength (text : List Char) : Nat :=
  (Utf8.encode text).length

def trimEnd (text : List Char) : List Char :=
  (trimStart text.reverse).reverse

def validName (name : List Char) : Bool :=
  1 ≤ byteLength name ∧ byteLength name ≤ 128 ∧
    name.all fun c => c.isAlphanum ∨ c = '_' ∨ c = '-'

def stopReason (reason : String) : Except String String :=
  if reason = "stop" then .ok "end_turn"
  else if reason = "length" then .ok "max_tokens"
  else if reason = "tool_calls" then .ok "tool_use"
  else .error <| "unsupported backend finish reason: " ++ reason

def validateFinish (stop : String) (hasTools : Bool) : Except String Unit :=
  ensure (¬(stop = "tool_use" ∧ hasTools = false) ∧ ¬(stop = "end_turn" ∧ hasTools = true))
    "backend finish reason disagrees with its tool calls"

inductive ContentBlock
  | text
  | toolUse (id name : List Char)
  deriving DecidableEq

inductive Delta
  | text (text : List Char)
  | inputJson (partialJson : List Char)
  deriving DecidableEq

inductive Event
  | messageStart (id model : String)
  | contentBlockStart (index : Nat) (block : ContentBlock)
  | contentBlockDelta (index : Nat) (delta : Delta)
  | contentBlockStop (index : Nat)
  | messageDelta (stopReason : String) (stopSequence : Option String)
    (inputTokens outputTokens : Nat)
  | messageStop
  | error (message requestId : String)
  deriving DecidableEq

-- What a delta adds to a tool.
def deltaId (delta : ChatCompletionToolCallDelta) : List Char :=
  (delta.id.getD "").toList

def deltaName (delta : ChatCompletionToolCallDelta) : List Char :=
  ((delta.function.bind (·.name)).getD "").toList

def deltaArguments (delta : ChatCompletionToolCallDelta) : List Char :=
  ((delta.function.bind (·.arguments)).getD "").toList

structure Tool where
  id          : List Char  := []
  name        : List Char  := []
  arguments   : List Char  := []
  outputIndex : Option Nat := none
  -- The length of the arguments that are published.
  emitted     : Nat        := 0
  closed      : Bool       := false

def Tool.extend (tool : Tool) (delta : ChatCompletionToolCallDelta) : Tool :=
  { tool with
    id        := tool.id ++ deltaId delta
    name      := tool.name ++ deltaName delta
    arguments := tool.arguments ++ deltaArguments delta
  }

-- A stream without its source.
structure Messages where
  model       : String
  queue       : List Event
  requestId   : String
  tools       : Std.ExtTreeMap Nat Tool
  bytes       : Nat
  textStarted : Bool
  toolStarted : Bool
  toolNames   : List (List Char)
  -- What has stopped the generation, once it is done.
  matchedStop : Option String
  messageId   : String
  toolOrder   : List Nat
  textClosed  : Bool
  nextIndex   : Nat

namespace Messages

variable (isObject : List Char → Bool) (messages : Messages) (key : Nat)

def push (event : Event) : Messages :=
  { messages with queue := messages.queue ++ [event] }

def tool : Tool :=
  messages.tools[key]?.getD {}

def setTool (tool : Tool) : Messages :=
  { messages with tools := messages.tools.insert key tool }

def toolDelta (delta : ChatCompletionToolCallDelta) : Except String Messages := do
  ensure (delta.kind.all (· = "function")) "unsupported backend tool type"
  ensure (delta.index ∈ messages.tools ∨ messages.tools.size < maxTools)
    "too many tool calls in one response"
  let name := deltaName delta
  let arguments := deltaArguments delta
  let id := deltaId delta
  let bytes := messages.bytes + byteLength id + byteLength name + byteLength arguments
  ensure (bytes ≤ maxToolBytes) "tool response exceeds the 8 MiB stream buffer limit"
  let tool := messages.tool delta.index
  ensure (¬(tool.outputIndex.isSome ∧ name ≠ [])) "backend extended an already emitted tool name"
  ensure (¬(tool.closed ∧ (name ≠ [] ∨ trim arguments ≠ [])))
    "backend extended a completed tool block"
  let tool := tool.extend delta
  ensure (byteLength tool.id ≤ 128 ∧ byteLength tool.name ≤ 128)
    "backend tool identity is too long"
  return { messages with
    bytes
    toolStarted := true
    toolOrder   := if delta.index ∈ messages.tools then messages.toolOrder else
      messages.toolOrder ++ [delta.index]
    tools       := messages.tools.insert delta.index tool
  }

def closeText : Messages :=
  if messages.textStarted ∧ messages.textClosed = false then
    { messages.push (.contentBlockStop 0) with textClosed := true }
  else
    messages

def nameReady (name : List Char) : Bool :=
  messages.toolNames.any (· = name) ∧ ¬messages.toolNames.any fun other => other ≠ name ∧ name <+: other

-- Identifiers are local to a request, so that those of the backend may arrive in fragments.
def toolId (messageId : String) (index : Nat) : List Char :=
  "toolu_".toList ++ (stripPrefix "msg_werk_".toList messageId.toList).getD messageId.toList ++
    "_".toList ++ (toString index).toList

def openTool : Except String Messages := do
  let name := (messages.tool key).name
  ensure (messages.toolNames = [] ∨ name ∈ messages.toolNames)
    "backend requested a tool outside the supplied catalog"
  ensure (validName name) "backend returned an invalid tool name"
  let messages := messages.closeText
  let index := messages.nextIndex
  let id := toolId messages.messageId index
  let messages := messages.push (.contentBlockStart index (.toolUse id name))
  return { messages with nextIndex := index + 1 }.setTool key
    { messages.tool key with outputIndex := some index }

def openUnlessOpened : Except String Messages :=
  if (messages.tool key).outputIndex = none then messages.openTool key else .ok messages

-- The rest of the arguments that the tool has so far.
def emitArguments : Messages :=
  let tool := messages.tool key
  let index := tool.outputIndex.getD 0
  let fragment := tool.arguments.drop tool.emitted
  let messages := messages.setTool key { tool with emitted := tool.arguments.length }
  if fragment = [] then messages
  else messages.push (.contentBlockDelta index (.inputJson fragment))

def argumentsComplete (tool : Tool) : Bool :=
  (trimEnd tool.arguments).getLast? = some '}' ∧ isObject tool.arguments

def closeTool : Messages :=
  let tool := messages.tool key
  (messages.setTool key { tool with closed := true }).push
    (.contentBlockStop (tool.outputIndex.getD 0))

-- Tools are published one after the other. Names that may still become those of other tools are
-- held back until the final event.
def flushFrom (finalChunk : Bool) : List Nat → Messages → Except String Messages
  | [], messages          => .ok messages
  | key :: keys, messages =>
    let tool := messages.tool key
    if tool.closed then
      flushFrom finalChunk keys messages
    else if tool.outputIndex = none ∧ finalChunk = false ∧ messages.nameReady tool.name = false then
      .ok messages
    else do
      let messages ← messages.openUnlessOpened key
      let messages := messages.emitArguments key
      if argumentsComplete isObject (messages.tool key) ∨ finalChunk then
        flushFrom finalChunk keys (messages.closeTool key)
      else
        .ok messages

def flushTools (finalChunk : Bool) : Except String Messages :=
  flushFrom isObject finalChunk messages.toolOrder messages

def startText : Messages :=
  if messages.textStarted then messages
  else { messages.push (.contentBlockStart 0 .text) with textStarted := true, nextIndex := 1 }

def textChunk (text : List Char) : Except String Messages := do
  if text = [] then
    return messages
  else do
    ensure (messages.toolStarted = false)
      "backend text after tool deltas cannot be represented without reordering"
    return messages.startText.push (.contentBlockDelta 0 (.text text))

def toolDeltas (deltas : List ChatCompletionToolCallDelta) : Except String Messages := do
  let messages ← deltas.foldlM toolDelta messages
  messages.flushTools isObject false

-- A token limit can cut arguments, which are then published as they are.
def checkTools (stop : String) : List Tool → List (List Char) → Except String Unit
  | [], _            => .ok ()
  | tool :: tools, ids => do
    ensure (validName tool.id ∧ validName tool.name ∧ tool.id ∉ ids)
      "backend returned an invalid or duplicate tool identity"
    ensure (stop = "max_tokens" ∨ isObject tool.arguments)
      "backend returned incomplete or invalid tool JSON"
    checkTools stop tools (tool.id :: ids)

def stop (finishReason : String) : Except String String :=
  if messages.matchedStop.isSome then .ok "stop_sequence" else stopReason finishReason

def pushEmptyText : Messages :=
  (messages.push (.contentBlockStart 0 .text)).push (.contentBlockStop 0)

def conclude {τ : Type} (stop : String) (completion : Completion τ) : Messages :=
  let messages := { messages with tools := ∅ }
  let messages := if messages.textStarted = false ∧ messages.toolStarted = false then
    messages.pushEmptyText else messages
  let messages := messages.push <|
    .messageDelta stop messages.matchedStop completion.promptTokens completion.completionTokens
  messages.push .messageStop

def done {τ : Type} (completion : Completion τ) : Except String Messages := do
  let stop ← messages.stop completion.finishReason
  validateFinish stop (!messages.tools.isEmpty)
  checkTools isObject stop messages.tools.valueList []
  let messages ← messages.closeText.flushTools isObject true
  return messages.conclude stop completion

def event {τ : Type} : GenerateStreamEvent τ → Except String Messages
  | .textChunk text       => messages.textChunk text.toList
  | .toolCallDelta deltas => messages.toolDeltas isObject deltas
  | .done completion      => messages.done isObject completion

def fail (message : String) : Messages :=
  { messages with tools := ∅, queue := [.error message messages.requestId] }

end Messages

structure MessagesStream (τ : Type) extends Messages where
  source : Option (List (Poll (Item τ)))

namespace MessagesStream

variable {τ : Type} (isObject : List Char → Bool) (stream : MessagesStream τ)

def new (source : List (Poll (Item τ))) (model id requestId : String)
    (toolNames : List (List Char)) (matchedStop : Option String) : MessagesStream τ where
  model       := model
  queue       := [.messageStart id model]
  requestId   := requestId
  tools       := ∅
  bytes       := 0
  textStarted := false
  toolStarted := false
  toolNames   := toolNames
  matchedStop := matchedStop
  messageId   := id
  toolOrder   := []
  textClosed  := false
  nextIndex   := 0
  source      := some source

def fail (message : String) : MessagesStream τ where
  toMessages := stream.toMessages.fail message
  source     := none

def isDone : GenerateStreamEvent τ → Bool
  | .done _ => true
  | _       => false

def event (source : List (Poll (Item τ))) (event : GenerateStreamEvent τ) : MessagesStream τ :=
  match stream.toMessages.event isObject event with
  | .error error => stream.fail error
  | .ok messages => { toMessages := messages, source := if isDone event then none else some source }

-- The turns of the loop, whose number is bounded.
def turns : Nat → MessagesStream τ → Poll (Option Event) × MessagesStream τ
  | 0, stream        => (.pending, stream)
  | count + 1, stream =>
    match stream.queue, stream.source with
    | event :: queue, _                => (.ready (some event), { stream with queue })
    | [], none                         => (.ready none, stream)
    | [], some (.pending :: source)    => (.pending, { stream with source := some source })
    | [], some []                      =>
      turns count (stream.fail "backend stream ended without a completion event")
    | [], some (.ready (.error error) :: _)      => turns count (stream.fail error)
    | [], some (.ready (.ok event) :: source) => turns count (stream.event isObject source event)

def pollNext : Poll (Option Event) × MessagesStream τ :=
  stream.turns isObject 32

def polls : Nat :=
  stream.source.elim 0 (·.length + 1)

section Work

variable {isObject} {stream} {count : Nat}

theorem polls_event_le (source : List (Poll (Item τ))) (event : GenerateStreamEvent τ) :
    (stream.event isObject source event).polls ≤ source.length + 1 := by
  rw [MessagesStream.event]
  split
  case h_1 => exact Nat.zero_le _
  case h_2 =>
    cases isDone event
    case false => exact Nat.le_refl _
    case true  => exact Nat.zero_le _

-- A poll uses up polls of the source or an event of the queue.
def Progress (stream next : MessagesStream τ) : Prop :=
  next.polls < stream.polls ∨
    next.polls = stream.polls ∧ next.queue.length < stream.queue.length

theorem Progress.of_fewer_polls {stream next next' : MessagesStream τ}
    (h : Progress next next' ∨ count = 0 ∧ next' = next) (hp : next.polls < stream.polls) :
    Progress stream next' := by
  refine .inl ?_
  rcases h with (h | ⟨h, _⟩) | ⟨_, h⟩
  · exact h.trans hp
  · rwa [h]
  · rwa [h]

theorem progress_turns (h : (stream.turns isObject count).1 ≠ .ready none) :
    Progress stream (stream.turns isObject count).2 ∨
      count = 0 ∧ (stream.turns isObject count).2 = stream := by
  fun_induction turns isObject count stream
  case case1 => exact .inr ⟨rfl, rfl⟩
  case case2 count stream event queue hq =>
    refine .inl (.inr ⟨rfl, ?_⟩)
    simp [hq]
  case case3 => exact absurd rfl h
  case case4 count stream source hs hq =>
    refine .inl (.inl ?_)
    simp [polls, hs]
  case case5 count stream hs hq hi =>
    refine .inl (.of_fewer_polls (hi h) ?_)
    simp [polls, hs, fail]
  case case6 count stream error source hs hq hi =>
    refine .inl (.of_fewer_polls (hi h) ?_)
    simp [polls, hs, fail]
  case case7 count stream event source hs hq hi =>
    refine .inl (.of_fewer_polls (hi h) ?_)
    refine (polls_event_le source event).trans_lt ?_
    simp [polls, hs]

theorem progress_pollNext (h : (stream.pollNext isObject).1 ≠ .ready none) :
    Progress stream (stream.pollNext isObject).2 :=
  (progress_turns h).resolve_right fun hc => absurd hc.left (by decide)

end Work

-- All that is published to a consumer that polls until the stream has ended.
def collect (stream : MessagesStream τ) : List Event :=
  match _h : stream.pollNext isObject with
  | (.pending, next)            => next.collect
  | (.ready none, _)            => []
  | (.ready (some event), next) => event :: next.collect
termination_by (stream.polls, stream.queue.length)
decreasing_by
  all_goals
    rw [Prod.lex_def]
    have hp : _ → Progress stream (stream.pollNext isObject).2 := progress_pollNext
    simpa [Progress, *] using hp

-- What is published for the items of a source.
def deliver : Messages → List (Item τ) → List Event
  | messages, []                   =>
    [.error "backend stream ended without a completion event" messages.requestId]
  | messages, .error error :: _    => [.error error messages.requestId]
  | messages, .ok event :: items   =>
    match messages.event isObject event with
    | .error error => [.error error messages.requestId]
    | .ok next     =>
      next.queue ++ if isDone event then [] else deliver { next with queue := [] } items

-- What is left to publish.
def rest : List Event :=
  stream.queue ++ stream.source.elim [] fun source =>
    deliver isObject { stream.toMessages with queue := [] } (source.filterMap Poll.value?)

section Collect

variable {isObject} {stream} {count : Nat}

theorem rest_event {source : List (Poll (Item τ))} {event : GenerateStreamEvent τ}
    (hs : stream.source = some (.ready (.ok event) :: source)) (hq : stream.queue = []) :
    stream.rest isObject = (stream.event isObject source event).rest isObject := by
  have hm : { stream.toMessages with queue := [] } = stream.toMessages := by rw [←hq]
  rw [rest, hs, hq, hm]
  change deliver isObject stream.toMessages (.ok event :: source.filterMap Poll.value?) = _
  rw [deliver, MessagesStream.event]
  cases stream.toMessages.event isObject event
  case error    => rfl
  case ok next =>
    cases hd : isDone event
    case false => simp [rest]
    case true  => simp [rest]

theorem rest_turns (stream : MessagesStream τ) (count : Nat) : stream.rest isObject =
    match stream.turns isObject count with
    | (.pending, next)             => next.rest isObject
    | (.ready none, _)             => []
    | (.ready (some event), next)  => event :: next.rest isObject := by
  fun_induction turns isObject count stream
  case case1 => rfl
  case case2 count stream event queue hq =>
    simp [rest, hq]
  case case3 count stream hs hq => simp [rest, hs, hq]
  case case4 count stream source hs hq =>
    simp only [rest, hs, hq]
    rfl
  case case5 count stream hs hq hi =>
    rw [←hi]
    simp [rest, hs, hq, deliver, fail, Messages.fail]
  case case6 count stream error source hs hq hi =>
    rw [←hi]
    simp [rest, hs, hq, deliver, fail, Messages.fail, Poll.value?]
  case case7 count stream event source hs hq hi =>
    rw [←hi]
    exact rest_event hs hq

-- A consumer sees all that is left to publish, however often it polls.
theorem collect_eq (stream : MessagesStream τ) : stream.collect isObject = stream.rest isObject := by
  fun_induction collect isObject stream
  case case1 stream next hp hi =>
    rw [hi, rest_turns stream 32, ←pollNext, hp]
  case case2 stream next hp =>
    rw [rest_turns stream 32, ←pollNext, hp]
  case case3 stream event next hp hi =>
    rw [hi, rest_turns stream 32, ←pollNext, hp]

theorem collect_new (source : List (Poll (Item τ))) (model id requestId : String)
    (toolNames : List (List Char)) (matchedStop : Option String) :
    (new source model id requestId toolNames matchedStop).collect isObject =
      .messageStart id model :: deliver isObject
        { (new source model id requestId toolNames matchedStop).toMessages with queue := [] }
        (source.filterMap Poll.value?) :=
  collect_eq _

end Collect
end MessagesStream
end Api.Anthropic
