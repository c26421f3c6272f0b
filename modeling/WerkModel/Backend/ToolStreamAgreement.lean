import WerkModel.Backend.ToolGrammar
import WerkModel.Backend.ToolStream

-- A stream of texts publishes what a whole response with these texts holds, up to the identifiers
-- of its calls, which are random.
open Checks Infix

namespace Backend

variable {ν τ : Type} {lib : Libraries ν} {policy : Policy}

def Libraries.withRandom (lib : Libraries ν) (getrandom : Nat → Except String (List UInt8)) :
    Libraries ν :=
  { lib with getrandom }

-- Two sources of random bytes that fail on the same allocations.
def Alike (getrandom₁ getrandom₂ : Nat → Except String (List UInt8)) : Prop :=
  ∀ allocation, (∃ bytes, getrandom₁ allocation = .ok bytes) ↔
    ∃ bytes, getrandom₂ allocation = .ok bytes

theorem Alike.symm {getrandom₁ getrandom₂ : Nat → Except String (List UInt8)}
    (h : Alike getrandom₁ getrandom₂) : Alike getrandom₂ getrandom₁ :=
  fun allocation => (h allocation).symm

def ChatCompletionToolCall.anonymous (call : ChatCompletionToolCall) :
    String × ChatCompletionFunctionCall :=
  (call.kind, call.function)

def Unnamed (calls₁ calls₂ : List ChatCompletionToolCall) : Prop :=
  calls₁.map (·.anonymous) = calls₂.map (·.anonymous)

section Parse

variable {getrandom : Nat → Except String (List UInt8)} {rest content : List Char}
variable {calls calls' : List ChatCompletionToolCall} {call : ChatCompletionToolCall}
variable {message : GeneratedAssistantMessage} {wire : WireCall ν}

theorem Unnamed.length_eq (h : Unnamed calls calls') : calls.length = calls'.length := by
  simpa using congrArg List.length h

theorem Unnamed.eq_nil (h : Unnamed calls calls') : calls = [] ↔ calls' = [] := by
  rw [←List.length_eq_zero_iff, ←List.length_eq_zero_iff, h.length_eq]

theorem Unnamed.concat {call' : ChatCompletionToolCall} (h : Unnamed calls calls')
    (hc : call.anonymous = call'.anonymous) : Unnamed (calls ++ [call]) (calls' ++ [call']) := by
  simp only [Unnamed, List.map_append, List.map_cons, List.map_nil] at h ⊢
  rw [h, hc]

-- Messages with the same content and the same calls.
structure Similar (message₁ message₂ : GeneratedAssistantMessage) : Prop where
  content   : message₁.content = message₂.content
  toolCalls : message₁.toolCalls.map (·.map (·.anonymous)) =
    message₂.toolCalls.map (·.map (·.anonymous))

theorem toolCall_alike (ha : Alike lib.getrandom getrandom) (hl : calls.length = calls'.length)
    (h : toolCall lib calls wire = .ok call) :
    ∃ call', toolCall (lib.withRandom getrandom) calls' wire = .ok call' ∧
      call.anonymous = call'.anonymous := by
  have ⟨arguments, hr, ho, id, hi, text, ht, he⟩ := toolCall_eq_ok.mp h
  have ⟨bytes, hb, _⟩ := callId_eq_ok.mp hi
  have ⟨bytes', hb'⟩ := (ha _).mp ⟨bytes, hb⟩
  have hi' : callId (lib.withRandom getrandom) calls'.length = .ok _ :=
    callId_eq_ok.mpr ⟨bytes', hl ▸ hb', rfl⟩
  refine ⟨_, toolCall_eq_ok.mpr ⟨arguments, hr, ho, _, hi', text, ht, rfl⟩, ?_⟩
  rw [he]
  rfl

theorem checkCall_unnamed (hu : Unnamed calls calls')
    (h : policy.checkCall calls wire.name = .ok ()) :
    policy.checkCall calls' wire.name = .ok () := by
  rwa [checkCall_eq_ok, ←hu.eq_nil, ←checkCall_eq_ok]

theorem conclude_unnamed (hu : Unnamed calls calls')
    (h : policy.conclude content calls = .ok message) :
    ∃ message', policy.conclude content calls' = .ok message' ∧ Similar message message' := by
  have ⟨hr, he⟩ := conclude_eq_ok.mp h
  rw [checkRequired_eq_ok, Ne, hu.eq_nil, ←Ne, ←checkRequired_eq_ok] at hr
  refine ⟨_, conclude_eq_ok.mpr ⟨hr, rfl⟩, ?_⟩
  rw [he]
  by_cases hn : calls' = []
  case pos => exact ⟨by simp [hn, hu.eq_nil], by simp [hn, hu.eq_nil]⟩
  case neg => exact ⟨by simp [hn, hu.eq_nil], by simpa [hn, hu.eq_nil, Unnamed] using hu⟩

theorem parseFrom_alike (ha : Alike lib.getrandom getrandom) (hu : Unnamed calls calls')
    (h : policy.parseFrom lib rest content calls = .ok message) :
    ∃ message', policy.parseFrom (lib.withRandom getrandom) rest content calls' = .ok message' ∧
      Similar message message' := by
  induction hl : rest.length using Nat.strong_induction_on generalizing rest content calls calls'
  case h n hi =>
    cases hp : position openMarker rest
    case none =>
      have ⟨hm, hc⟩ := (parseFrom_of_none hp).mp h
      have ⟨message', hc', hs⟩ := conclude_unnamed hu hc
      exact ⟨message', (parseFrom_of_none hp).mpr ⟨hm, hc'⟩, hs⟩
    case some start =>
      have ⟨hm, wire, offset, hw, hx, hc, call, ht, hr⟩ := (parseFrom_of_some hp).mp h
      have ⟨call', ht', hn⟩ := toolCall_alike ha hu.length_eq ht
      have hd := length_lt_of_position offset (by decide) hp
      have ⟨message', hr', hs⟩ := hi _ (hl ▸ hd) (hu.concat hn) hr rfl
      have hc' := checkCall_unnamed hu hc
      exact ⟨message', (parseFrom_of_some hp).mpr ⟨hm, wire, offset, hw, hx, hc', call', ht', hr'⟩, hs⟩

theorem parse_alike {output : String} (ha : Alike lib.getrandom getrandom)
    (h : policy.parse lib output = .ok message) :
    ∃ message', policy.parse (lib.withRandom getrandom) output = .ok message' ∧
      Similar message message' := by
  have ⟨hl, hp⟩ := parse_eq_ok.mp h
  have ⟨message', hp', hs⟩ := parseFrom_alike ha rfl hp
  exact ⟨message', parse_eq_ok.mpr ⟨hl, hp'⟩, hs⟩

end Parse

section Finish

variable {getrandom : Nat → Except String (List UInt8)} {completion : Completion τ}
variable {response finished : GenerateResponse τ} {message message' : GeneratedAssistantMessage}

namespace GenerateStreamEvent

def text : GenerateStreamEvent τ → String
  | .textChunk text => text
  | _               => ""

def toolCallDeltas : GenerateStreamEvent τ → List ChatCompletionToolCallDelta
  | .toolCallDelta deltas => deltas
  | _                     => []

def finishReason? : GenerateStreamEvent τ → Option String
  | .done completion => some completion.finishReason
  | _                => none

@[simp]
theorem text_textChunk (text : String) : (textChunk text : GenerateStreamEvent τ).text = text :=
  rfl

end GenerateStreamEvent

def ChatCompletionToolCallDelta.anonymous (delta : ChatCompletionToolCallDelta) :
    ChatCompletionToolCallDelta :=
  { delta with id := none }

-- Events which, one after the other, say the same as a response. Identifiers are random.
structure Carries (events : List (GenerateStreamEvent τ)) (response : GenerateResponse τ) :
    Prop where
  content      : String.join (events.map (·.text)) = response.text
  toolCalls    : (events.flatMap (·.toolCallDeltas)).map (·.anonymous) =
    (response.toolCalls.mapIdx ChatCompletionToolCall.delta).map (·.anonymous)
  finishReason : events.filterMap (·.finishReason?) = [response.finishReason]

namespace Similar

theorem symm (h : Similar message message') : Similar message' message :=
  ⟨h.content.symm, h.toolCalls.symm⟩

theorem isSome_eq (h : Similar message message') :
    message.toolCalls.isSome = message'.toolCalls.isSome := by
  simpa using congrArg Option.isSome h.toolCalls

theorem calls_unnamed (h : Similar message message') : Unnamed message.calls message'.calls := by
  have hm : ∀ message : GeneratedAssistantMessage, message.calls.map (·.anonymous) =
      (message.toolCalls.map (·.map (·.anonymous))).getD [] := by
    intro message
    rw [GeneratedAssistantMessage.calls]
    cases message.toolCalls <;> rfl
  rw [Unnamed, hm, h.toolCalls, hm]

theorem finishReason_eq (h : Similar message message') (reason : String) :
    message.finishReason reason = message'.finishReason reason := by
  rw [GeneratedAssistantMessage.finishReason, h.isSome_eq, GeneratedAssistantMessage.finishReason]

theorem validateFinishReason {lib' : Libraries ν} (h : Similar message message') {reason : String}
    (hv : message.validateFinishReason lib reason = .ok ()) :
    message'.validateFinishReason lib' reason = .ok () := by
  rw [GeneratedAssistantMessage.validateFinishReason_eq_ok] at hv ⊢
  rwa [←h.calls_unnamed.eq_nil]

end Similar

theorem join_textEvents (message : GeneratedAssistantMessage) :
    String.join ((message.textEvents (τ := τ)).map (·.text)) = message.content.getD "" := by
  rw [GeneratedAssistantMessage.textEvents]
  rcases message.content with _ | text
  case none => rfl
  case some =>
    by_cases h : text = ""
    case pos => rw [h]; rfl
    case neg => simp [h, Option.filter_some]

theorem toolCallDeltas_textEvents (message : GeneratedAssistantMessage) :
    (message.textEvents (τ := τ)).flatMap (·.toolCallDeltas) = [] := by
  rw [GeneratedAssistantMessage.textEvents]
  cases message.content.filter (· ≠ "") <;> rfl

theorem finishReasons_textEvents (message : GeneratedAssistantMessage) :
    (message.textEvents (τ := τ)).filterMap (·.finishReason?) = [] := by
  rw [GeneratedAssistantMessage.textEvents]
  cases message.content.filter (· ≠ "") <;> rfl

theorem join_callEvents (message : GeneratedAssistantMessage) :
    String.join ((message.callEvents (τ := τ)).map (·.text)) = "" := by
  rw [GeneratedAssistantMessage.callEvents]
  cases message.toolCalls <;> rfl

theorem toolCallDeltas_callEvents (message : GeneratedAssistantMessage) :
    (message.callEvents (τ := τ)).flatMap (·.toolCallDeltas) =
      message.calls.mapIdx ChatCompletionToolCall.delta := by
  rw [GeneratedAssistantMessage.callEvents, GeneratedAssistantMessage.calls]
  cases message.toolCalls
  case none => rfl
  case some => exact List.append_nil _

theorem finishReasons_callEvents (message : GeneratedAssistantMessage) :
    (message.callEvents (τ := τ)).filterMap (·.finishReason?) = [] := by
  rw [GeneratedAssistantMessage.callEvents]
  cases message.toolCalls <;> rfl

-- Without its identifier a delta says what its call says without its identifier.
theorem Unnamed.map_delta {calls calls' : List ChatCompletionToolCall} (h : Unnamed calls calls') :
    (calls.mapIdx ChatCompletionToolCall.delta).map (·.anonymous) =
      (calls'.mapIdx ChatCompletionToolCall.delta).map (·.anonymous) := by
  let delta (index : Nat) (call : String × ChatCompletionFunctionCall) :
      ChatCompletionToolCallDelta :=
    (ChatCompletionToolCall.delta index ⟨"", call.1, call.2⟩).anonymous
  have hd : ∀ calls : List ChatCompletionToolCall,
      (calls.mapIdx ChatCompletionToolCall.delta).map (·.anonymous) =
        (calls.map (·.anonymous)).mapIdx delta := by
    intro calls
    refine List.ext_getElem? fun i => ?_
    rw [List.getElem?_map, List.getElem?_mapIdx, List.getElem?_mapIdx, List.getElem?_map]
    cases calls[i]? <;> rfl
  rw [hd, h, hd]

theorem events_carry (h : Similar message message') (response : GenerateResponse τ)
    (hc : message'.content.getD "" = response.text)
    (ha : response.assistantMessage = some message')
    (hf : message'.finishReason completion.finishReason = response.finishReason) :
    Carries (message.events completion) response where
  content := by
    rw [GeneratedAssistantMessage.events, List.map_append, List.map_append, String.join_append,
      String.join_append, join_textEvents, join_callEvents, h.content, hc]
    simp [GeneratedAssistantMessage.doneEvent, GenerateStreamEvent.text]
  toolCalls := by
    have hr : response.toolCalls = message'.calls := by
      rw [GenerateResponse.toolCalls, ha]
      rfl
    rw [GeneratedAssistantMessage.events, List.flatMap_append, List.flatMap_append,
      toolCallDeltas_textEvents, toolCallDeltas_callEvents, hr, ←h.calls_unnamed.map_delta]
    simp [GeneratedAssistantMessage.doneEvent, GenerateStreamEvent.toolCallDeltas]
  finishReason := by
    rw [GeneratedAssistantMessage.events, List.filterMap_append, List.filterMap_append,
      finishReasons_textEvents, finishReasons_callEvents, ←hf, ←h.finishReason_eq]
    rfl

-- Both ends of a generation agree on a complete text.
theorem complete_of_finish (ha : Alike lib.getrandom getrandom)
    (hr : response.finishReason = completion.finishReason)
    (h : policy.finish (lib.withRandom getrandom) response = .ok finished) :
    ∃ events, ToolStream.complete lib policy response.output completion = .ok events ∧
      Carries events finished := by
  have ⟨_, message', hp, hv, he⟩ := Policy.finish_eq_ok.mp h
  have ha : Alike (lib.withRandom getrandom).getrandom lib.getrandom := ha.symm
  have ⟨message, hp', hs⟩ := parse_alike ha hp
  have hv' : message.validateFinishReason lib completion.finishReason = .ok () :=
    hs.validateFinishReason (hr ▸ hv)
  refine ⟨_, ToolStream.complete_eq_ok.mpr ⟨message, hp', hv', rfl⟩, ?_⟩
  refine events_carry hs.symm finished ?_ ?_ ?_
  all_goals rw [he]
  rw [hr]

theorem finish_of_complete {events : List (GenerateStreamEvent τ)}
    (ha : Alike lib.getrandom getrandom) (hn : response.toolCalls = [])
    (hr : response.finishReason = completion.finishReason)
    (h : ToolStream.complete lib policy response.output completion = .ok events) :
    ∃ finished, policy.finish (lib.withRandom getrandom) response = .ok finished := by
  have ⟨message, hp, hv, _⟩ := ToolStream.complete_eq_ok.mp h
  have ⟨message', hp', hs⟩ := parse_alike ha hp
  exact ⟨_, Policy.finish_eq_ok.mpr ⟨hn, message', hp', hs.validateFinishReason (hr ▸ hv), rfl⟩⟩

end Finish

section Terminal

open ToolStream

variable {text : String} {texts : List String} {items : List (Item τ)}

def chunks (texts : List String) : List (Item τ) :=
  texts.map fun text => .ok (.textChunk text)

def size (texts : List String) : Nat :=
  (texts.map String.utf8ByteSize).sum

theorem utf8ByteSize_join (texts : List String) : (String.join texts).utf8ByteSize = size texts := by
  induction texts
  case nil             => rfl
  case cons text texts hi =>
    rw [String.join_cons, String.utf8ByteSize_append, hi, size, size, List.map_cons, List.sum_cons]

theorem terminal_chunks (h : text.utf8ByteSize + size texts ≤ maxOutputBytes) :
    terminal lib policy text (chunks texts ++ items) =
      terminal lib policy (text ++ String.join texts) items := by
  induction texts generalizing text
  case nil => simp [chunks]
  case cons chunk texts hi =>
    rw [size, List.map_cons, List.sum_cons] at h
    change terminal lib policy text (.ok (.textChunk chunk) :: (chunks texts ++ items)) = _
    rw [terminal_textChunk, if_neg (by omega), hi, String.join_cons, String.append_assoc]
    rw [String.utf8ByteSize_append, size]
    omega

theorem terminal_overflow (ht : text.utf8ByteSize ≤ maxOutputBytes)
    (h : maxOutputBytes < text.utf8ByteSize + size texts) :
    ∃ error, terminal lib policy text (chunks texts ++ items) = .error error := by
  induction texts generalizing text
  case nil =>
    simp only [size, List.map_nil, List.sum_nil] at h
    omega
  case cons chunk texts hi =>
    rw [size, List.map_cons, List.sum_cons] at h
    change ∃ error, terminal lib policy text (.ok (.textChunk chunk) :: (chunks texts ++ items)) = _
    rw [terminal_textChunk]
    split
    case isTrue => exact ⟨_, rfl⟩
    case isFalse hc =>
      refine hi ?_ ?_
      all_goals
        rw [String.utf8ByteSize_append]
        unfold size at *
        omega

-- The items after its texts with which an upstream does not complete them.
inductive Incomplete : List (Item τ) → Prop
  | ended : Incomplete []
  | error {error items} : Incomplete (.error error :: items)
  | toolCallDelta {deltas items} : Incomplete (.ok (.toolCallDelta deltas) :: items)

theorem terminal_incomplete (h : Incomplete items) (text : String) :
    ∃ error, terminal lib policy text items = .error error := by
  cases h
  all_goals exact ⟨_, rfl⟩

theorem error_of_overflow {response : GenerateResponse τ} (h : maxOutputBytes < size texts)
    (ho : response.output = String.join texts) (finished : GenerateResponse τ) :
    policy.finish lib response ≠ .ok finished := by
  intro hf
  have ⟨_, _, hp, _⟩ := Policy.finish_eq_ok.mp hf
  have hl := (parse_eq_ok.mp hp).1
  rw [ho, utf8ByteSize_join] at hl
  omega

end Terminal

section Agreement

open ToolStream

variable {getrandom : Nat → Except String (List UInt8)} {texts : List String}
variable {upstream : List (Poll (Item τ))} {items : List (Item τ)}

theorem collect_new (hu : upstream.filterMap Poll.value? = chunks texts ++ items) :
    (ToolStream.new policy upstream).collect lib =
      publish (terminal lib policy "" (chunks texts ++ items)) := by
  rw [collect_eq_publish rfl rfl, hu]
  rfl

theorem collect_incomplete (hu : upstream.filterMap Poll.value? = chunks texts ++ items)
    (h : Incomplete items ∨ maxOutputBytes < size texts) :
    ∃ error, (ToolStream.new policy upstream).collect lib = [.error error] := by
  suffices hs : ∃ error, terminal lib policy "" (chunks texts ++ items) = .error error by
    have ⟨error, he⟩ := hs
    exact ⟨error, by rw [collect_new hu, he, publish]⟩
  by_cases hl : maxOutputBytes < size texts
  case pos => exact terminal_overflow (Nat.zero_le _) (by simpa using hl)
  case neg =>
    rw [terminal_chunks (by simpa using hl)]
    exact terminal_incomplete (h.resolve_right hl) _

theorem collect_done {completion : Completion τ}
    (hu : upstream.filterMap Poll.value? = chunks texts ++ .ok (.done completion) :: items)
    (hl : size texts ≤ maxOutputBytes) :
    (ToolStream.new policy upstream).collect lib =
      publish (complete lib policy (String.join texts) completion) := by
  rw [collect_new hu, terminal_chunks (by simpa using hl), terminal_done, String.empty_append]

theorem tool_stream_agreement (policy : Policy) (ha : Alike lib.getrandom getrandom)
    (hu : upstream.filterMap Poll.value? = chunks texts ++ items) :
    (∀ completion rest (response : GenerateResponse τ), items = .ok (.done completion) :: rest →
      response.toolCalls = [] → response.output = String.join texts →
      response.finishReason = completion.finishReason →
      (∀ error, policy.finish (lib.withRandom getrandom) response = .error error →
        ∃ error, (ToolStream.new policy upstream).collect lib = [.error error]) ∧
      ∀ finished, policy.finish (lib.withRandom getrandom) response = .ok finished →
        ∃ events, (ToolStream.new policy upstream).collect lib = events.map .ok ∧
          Carries events finished) ∧
    (Incomplete items ∨ maxOutputBytes < size texts →
      ∃ error, (ToolStream.new policy upstream).collect lib = [.error error]) := by
  refine ⟨?_, collect_incomplete hu⟩
  intro completion rest response hi hn ho hr
  rw [hi] at hu
  by_cases hl : maxOutputBytes < size texts
  case pos =>
    exact ⟨fun _ _ => collect_incomplete hu (.inr hl),
      fun finished hf => absurd hf (error_of_overflow hl ho finished)⟩
  case neg =>
    rw [collect_done hu (Nat.le_of_not_lt hl), ←ho]
    constructor
    case left =>
      intro error he
      cases hc : complete lib policy response.output completion
      case error error => exact ⟨error, rfl⟩
      case ok =>
        have ⟨_, hf⟩ := finish_of_complete ha hn hr hc
        simp [he] at hf
    case right =>
      intro finished hf
      have ⟨events, hc, hs⟩ := complete_of_finish ha hr hf
      exact ⟨events, by rw [hc, publish], hs⟩

end Agreement

section Examples

open ToolStream

def smallText : String :=
  String.ofList (smallDocument "Checking.\n").render

def smallTexts : List String :=
  smallText.toList.map String.singleton

def smallCompletion : Completion Unit where
  finishReason       := "stop"
  promptTokens       := 81
  completionTokens   := 29
  timings            := ()
  backendDiagnostics := []

def smallItems : List (Item Unit) :=
  chunks smallTexts ++ [.ok (.done smallCompletion)]

def smallUpstream : List (Poll (Item Unit)) :=
  .pending :: smallItems.map .ready

def smallResponse : GenerateResponse Unit where
  toCompletion     := smallCompletion
  text             := smallText
  assistantMessage := none

def ones (_ : Nat) : Except String (List UInt8) :=
  .ok (List.replicate 16 1)

theorem alike_ones : Alike smallLibraries.getrandom ones :=
  fun _ => ⟨fun _ => ⟨_, rfl⟩, fun _ => ⟨_, rfl⟩⟩

theorem finish_smallResponse : ∃ finished,
    smallPolicy.finish (smallLibraries.withRandom ones) smallResponse = .ok finished ∧
    finished.text = "Checking.\n" := by
  have ⟨message, hp, m⟩ := parse_document smallLibraries_lawful (by decide +kernel)
    String.toList_ofList.symm (smallDocument_wellFormed (by decide +kernel))
    (smallPolicy_permits "Checking.\n")
  have ⟨message', hp', hs⟩ := parse_alike alike_ones hp
  have hv : message'.validateFinishReason (smallLibraries.withRandom ones) "stop" = .ok () :=
    GeneratedAssistantMessage.validateFinishReason_eq_ok.mpr (.inr List.mem_cons_self)
  refine ⟨_, Policy.finish_eq_ok.mpr ⟨rfl, message', hp', hv, rfl⟩, ?_⟩
  have hb : ¬Blank (smallDocument "Checking.\n").text :=
    fun hb => absurd (hb 'C' (by decide +kernel)) (by decide)
  have ht : (smallDocument "Checking.\n").text = "Checking.\n".toList := by decide +kernel
  simp only [←hs.content, m.text (.inr hb), ht, Option.getD_some, String.ofList_toList]

theorem tool_stream_agreement_small : ∃ finished events,
    finished.text = "Checking.\n" ∧
    (ToolStream.new smallPolicy smallUpstream).collect smallLibraries = events.map .ok ∧
    Carries events finished := by
  have ⟨finished, hf, ht⟩ := finish_smallResponse
  have hu : smallUpstream.filterMap Poll.value? = smallItems := Poll.filterMap_ready smallItems
  have ⟨events, hc, hs⟩ := ((tool_stream_agreement smallPolicy alike_ones hu).1 smallCompletion []
    smallResponse rfl rfl (by decide +kernel) rfl).2 finished hf
  exact ⟨finished, events, ht, hc, hs⟩

end Examples
end Backend
