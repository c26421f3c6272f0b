import WerkModel.Backend.Text
import WerkModel.Lib.Checks
import WerkModel.Lib.Infix
import WerkModel.Lib.Saturating

-- Tool calls of generators that only produce text, which mark their calls in this text.
open Checks Infix

namespace Backend

inductive ToolChoiceMode
  | none
  | auto
  | required
  deriving DecidableEq

structure NamedToolChoice where
  kind : String
  name : String
  deriving DecidableEq

inductive ToolChoice
  | mode (mode : ToolChoiceMode)
  | named (named : NamedToolChoice)
  deriving DecidableEq

structure ChatCompletionFunctionCall where
  name      : String
  arguments : String
  deriving DecidableEq

structure ChatCompletionToolCall where
  id       : String
  kind     : String
  function : ChatCompletionFunctionCall
  deriving DecidableEq

structure GeneratedAssistantMessage where
  content   : Option String
  toolCalls : Option (List ChatCompletionToolCall)
  deriving DecidableEq

-- JSON values, whose numbers are left open.
inductive Value (ν : Type)
  | null
  | bool (value : Bool)
  | number (value : ν)
  | string (value : String)
  | array (values : List (Value ν))
  | object (entries : List (String × Value ν))

def Value.isObject {ν : Type} : Value ν → Bool
  | .object _ => true
  | _         => false

structure WireCall (ν : Type) where
  name      : String
  arguments : Value ν

-- The libraries that the protocol rests on: a deserializer for JSON that decodes the first value of
-- a text and counts its characters, and the allocation of random bytes.
structure Libraries (ν : Type) where
  next        : List Char → Option (Except String (WireCall ν × Nat))
  fromStr     : String → Except String (Value ν)
  toString    : Value ν → Except String String
  getrandom   : Nat → Except String (List UInt8)
  printQuoted : String → String

def openMarker : List Char := "<tool_call>".toList

def closeMarker : List Char := "</tool_call>".toList

def maxOutputBytes : Nat := 16 * 1024 * 1024

def diagnostic : String :=
  "tool calling: werk-tool-call-v1 generic prompt protocol; model compliance is not guaranteed"

structure ToolFunction where
  name   : String
  strict : Option Bool

structure ChatCompletionTool where
  kind     : String
  function : ToolFunction

structure ToolCallingConfig where
  tools             : Option (List ChatCompletionTool)
  toolChoice        : Option ToolChoice
  parallelToolCalls : Option Bool

structure Policy where
  names    : List String
  choice   : ToolChoice
  parallel : Bool

def addTool (names : List String) (tool : ChatCompletionTool) : Except String (List String) := do
  ensure (tool.function.strict ≠ some true) <|
    "strict function schemas require native constrained tool decoding; the generic tool protocol " ++
    "cannot guarantee strict schema conformance"
  ensure (tool.kind = "function") "generic tool protocol supports function tools only"
  ensure (tool.function.name ≠ "") "tool function name must not be empty"
  ensure (tool.function.name ∉ names) <|
    "duplicate tool function name: " ++ tool.function.name
  return names ++ [tool.function.name]

def validateChoice (names : List String) : ToolChoice → Except String Unit
  | .mode .required => ensure (names ≠ []) "tool_choice required needs at least one function tool"
  | .named named    => do
    ensure (named.kind = "function") "named tool_choice must have type function"
    ensure (named.name ∈ names) <| "tool_choice selects unknown function: " ++ named.name
  | _ => .ok ()

def Policy.new (config : ToolCallingConfig) : Except String Policy := do
  let names ← (config.tools.getD []).foldlM addTool []
  let choice := config.toolChoice.getD (.mode (if names = [] then .none else .auto))
  validateChoice names choice
  return { names, choice, parallel := config.parallelToolCalls.getD true }

-- What a policy that comes from a configuration promises to the parser.
structure Policy.WellFormed (policy : Policy) : Prop where
  nodup    : policy.names.Nodup
  nonempty : "" ∉ policy.names
  required : policy.choice = .mode .required → policy.names ≠ []
  named    : ∀ named, policy.choice = .named named →
    named.kind = "function" ∧ named.name ∈ policy.names

theorem addTool_eq_ok {names more : List String} {tool : ChatCompletionTool} :
    addTool names tool = .ok more ↔ tool.function.strict ≠ some true ∧ tool.kind = "function" ∧
      tool.function.name ≠ "" ∧ tool.function.name ∉ names ∧
      names ++ [tool.function.name] = more := by
  rw [addTool]
  simp only [ensure_bind_eq_ok, pure, Except.pure, Except.ok.injEq]

theorem validateChoice_eq_ok {names : List String} {choice : ToolChoice} :
    validateChoice names choice = .ok () ↔ (choice = .mode .required → names ≠ []) ∧
      ∀ named, choice = .named named → named.kind = "function" ∧ named.name ∈ names := by
  cases choice
  case mode mode => cases mode <;> simp [validateChoice, ensure_eq_ok]
  case named     => simp [validateChoice, ensure_bind_eq_ok, ensure_eq_ok]

theorem Policy.new_wellFormed {config : ToolCallingConfig} {policy : Policy}
    (h : Policy.new config = .ok policy) : policy.WellFormed := by
  have ⟨names, hf, h⟩ := bind_eq_ok.mp h
  have ⟨hv, he⟩ := seq_eq_ok.mp h
  have hn : names.Nodup ∧ "" ∉ names := by
    refine foldlM_invariant (I := fun _ names => names.Nodup ∧ "" ∉ names) hf (by simp) ?_
    intro _ tool names more ⟨hd, hs⟩ ha
    have ⟨_, _, ht, hm, he⟩ := addTool_eq_ok.mp ha
    rw [←he, ←List.concat_eq_append, List.nodup_concat]
    exact ⟨⟨hm, hd⟩, by simp [hs, ht.symm]⟩
  have hc := validateChoice_eq_ok.mp hv
  cases he
  exact ⟨hn.1, hn.2, hc.1, hc.2⟩

def NoMarkup (text : List Char) : Prop :=
  ¬"<tool_".toList <:+: text ∧ ¬"</tool_".toList <:+: text

instance (text : List Char) : Decidable (NoMarkup text) :=
  inferInstanceAs <| Decidable (_ ∧ _)

def ensureNoMarkup (text : List Char) : Except String Unit :=
  ensure (NoMarkup text) "malformed or incomplete tool_call marker in model output"

def hexDigits (byte : UInt8) : List Char :=
  [Nat.digitChar (byte.toNat / 16), Nat.digitChar (byte.toNat % 16)]

section Calls

variable {ν : Type} (lib : Libraries ν)

def callId (allocation : Nat) : Except String String :=
  match lib.getrandom allocation with
  | .error error => .error <| "cannot allocate tool call ID: " ++ error
  | .ok bytes    => .ok <| "call_" ++ String.ofList (bytes.flatMap hexDigits)

def nextWire (body : List Char) : Except String (WireCall ν × Nat) :=
  match lib.next body with
  | none             => .error "empty tool_call body"
  | some (.error _)  => .error "malformed JSON in tool_call"
  | some (.ok wire)  => .ok wire

def resolveArguments : Value ν → Except String (Value ν)
  | .string encoded =>
    match lib.fromStr encoded with
    | .error _      => .error "tool arguments string is not valid JSON"
    | .ok arguments => .ok arguments
  | arguments => .ok arguments

def ToolChoice.checkNamed (name : String) : ToolChoice → Except String Unit
  | .named choice =>
    ensure (name = choice.name) <|
      "model emitted " ++ name ++ " instead of required function " ++ choice.name
  | _ => .ok ()

def Policy.checkCall (policy : Policy) (calls : List ChatCompletionToolCall) (name : String) :
    Except String Unit := do
  ensure (policy.choice ≠ .mode .none) "model emitted a tool call despite tool_choice none"
  ensure (name ∈ policy.names) <| "model emitted unknown tool function: " ++ name
  policy.choice.checkNamed name
  ensure (policy.parallel ∨ calls = [])
    "model emitted multiple calls despite parallel_tool_calls false"

def toolCall (calls : List ChatCompletionToolCall) (wire : WireCall ν) :
    Except String ChatCompletionToolCall := do
  let arguments ← resolveArguments lib wire.arguments
  ensure arguments.isObject "tool function arguments must be a JSON object"
  let id ← callId lib calls.length
  let arguments ← lib.toString arguments
  return { id, kind := "function", function := { name := wire.name, arguments } }

def ToolChoice.checkRequired (calls : List ChatCompletionToolCall) : ToolChoice → Except String Unit
  | .mode .required | .named _ =>
    ensure (calls ≠ []) "model did not emit the required tool call"
  | _ => .ok ()

def Policy.conclude (policy : Policy) (content : List Char) (calls : List ChatCompletionToolCall) :
    Except String GeneratedAssistantMessage := do
  policy.choice.checkRequired calls
  return {
    content   := if calls ≠ [] ∧ trim content = [] then none else some (String.ofList content)
    toolCalls := if calls ≠ [] then some calls else none
  }

theorem length_lt_of_position {marker rest : List Char} {start : Nat} (offset : Nat)
    (hm : 0 < marker.length) (h : position marker rest = some start) :
    ((trimStart ((rest.drop (start + marker.length)).drop offset)).drop closeMarker.length).length <
      rest.length := by
  have ⟨_, _, hl⟩ := of_position h
  have ht := length_trimStart_le ((rest.drop (start + marker.length)).drop offset)
  simp only [List.length_drop] at ht ⊢
  omega

-- The loop of the parser, from what is left of the output.
def Policy.parseFrom (policy : Policy) (rest content : List Char)
    (calls : List ChatCompletionToolCall) : Except String GeneratedAssistantMessage :=
  match _h : position openMarker rest with
  | none => do
    ensureNoMarkup rest
    policy.conclude (content ++ rest) calls
  | some start => do
    let before := rest.take start
    ensureNoMarkup before
    -- Arguments may contain a closing marker, so that their end is found before the marker.
    let body := rest.drop (start + openMarker.length)
    let (wire, offset) ← nextWire lib body
    let afterJson := trimStart (body.drop offset)
    ensure (closeMarker <+: afterJson) "tool_call is missing its closing </tool_call> marker"
    policy.checkCall calls wire.name
    let call ← toolCall lib calls wire
    policy.parseFrom (afterJson.drop closeMarker.length) (content ++ before) (calls ++ [call])
termination_by rest.length
decreasing_by exact length_lt_of_position _ (by decide) ‹_›

def Policy.parse (policy : Policy) (output : String) : Except String GeneratedAssistantMessage := do
  ensure (output.utf8ByteSize ≤ maxOutputBytes) <|
    "generic tool output exceeds the " ++ toString maxOutputBytes ++ "-byte validation limit"
  policy.parseFrom lib output.toList [] []

section Lemmas

variable {lib} {policy : Policy} {rest content : List Char} {calls : List ChatCompletionToolCall}
variable {message : GeneratedAssistantMessage} {start : Nat} {output : String}

theorem Value.exists_object {value : Value ν} (h : value.isObject) :
    ∃ entries, value = .object entries := by
  cases value
  case object entries => exact ⟨entries, rfl⟩
  all_goals simp [isObject] at h

theorem resolveArguments_object {entries : List (String × Value ν)} :
    resolveArguments lib (.object entries) = .ok (.object entries) :=
  rfl

theorem resolveArguments_string {text : String} {value : Value ν} :
    resolveArguments lib (.string text) = .ok value ↔ lib.fromStr text = .ok value := by
  rw [resolveArguments]
  cases lib.fromStr text
  case error => simp
  case ok    => simp

-- Arguments are decoded only from strings.
theorem resolveArguments_cases {argument value : Value ν}
    (h : resolveArguments lib argument = .ok value) :
    (∃ text, argument = .string text ∧ lib.fromStr text = .ok value) ∨ argument = value := by
  cases argument
  case string text => exact .inl ⟨text, rfl, resolveArguments_string.mp h⟩
  all_goals exact .inr (Except.ok.inj h)

theorem toolCall_eq_ok {wire : WireCall ν} {call : ChatCompletionToolCall} :
    toolCall lib calls wire = .ok call ↔ ∃ arguments,
      resolveArguments lib wire.arguments = .ok arguments ∧ arguments.isObject ∧
      ∃ id, callId lib calls.length = .ok id ∧ ∃ text, lib.toString arguments = .ok text ∧
      call = { id, kind := "function", function := { name := wire.name, arguments := text } } := by
  rw [toolCall, bind_eq_ok]
  simp only [ensure_bind_eq_ok]
  simp only [bind_eq_ok, pure, Except.pure, Except.ok.injEq]
  simp only [eq_comm (b := call)]

theorem callId_eq_ok {allocation : Nat} {id : String} :
    callId lib allocation = .ok id ↔ ∃ bytes, lib.getrandom allocation = .ok bytes ∧
      id = "call_" ++ String.ofList (bytes.flatMap hexDigits) := by
  rw [callId]
  cases lib.getrandom allocation
  case error => simp
  case ok    => simp [eq_comm]

theorem nextWire_eq_ok {body : List Char} {wire : WireCall ν × Nat} :
    nextWire lib body = .ok wire ↔ lib.next body = some (.ok wire) := by
  rw [nextWire]
  rcases lib.next body with _ | _ | _
  all_goals simp

theorem checkNamed_eq_ok {name : String} {choice : ToolChoice} :
    choice.checkNamed name = .ok () ↔ ∀ named, choice = .named named → name = named.name := by
  cases choice
  case mode  => simp [ToolChoice.checkNamed]
  case named => simp [ToolChoice.checkNamed, ensure_eq_ok]

theorem checkRequired_eq_ok {choice : ToolChoice} : choice.checkRequired calls = .ok () ↔
    (choice = .mode .required ∨ ∃ named, choice = .named named) → calls ≠ [] := by
  cases choice
  case mode mode => cases mode <;> simp [ToolChoice.checkRequired, ensure_eq_ok]
  case named     => simp [ToolChoice.checkRequired, ensure_eq_ok]

theorem checkCall_eq_ok {name : String} : policy.checkCall calls name = .ok () ↔
    policy.choice ≠ .mode .none ∧ name ∈ policy.names ∧
    (∀ named, policy.choice = .named named → name = named.name) ∧
    (policy.parallel ∨ calls = []) := by
  rw [Policy.checkCall, ensure_bind_eq_ok, ensure_bind_eq_ok, seq_eq_ok, ensure_eq_ok,
    checkNamed_eq_ok]

theorem conclude_eq_ok : policy.conclude content calls = .ok message ↔
    policy.choice.checkRequired calls = .ok () ∧ message = {
      content   := if calls ≠ [] ∧ trim content = [] then none else some (String.ofList content)
      toolCalls := if calls ≠ [] then some calls else none
    } := by
  rw [Policy.conclude, seq_eq_ok]
  simp [pure, Except.pure, eq_comm]

theorem exists_conclude (content : List Char) (h : policy.choice.checkRequired calls = .ok ()) :
    ∃ message, policy.conclude content calls = .ok message :=
  ⟨_, conclude_eq_ok.mpr ⟨h, rfl⟩⟩

theorem parseFrom_of_none (h : position openMarker rest = none) :
    policy.parseFrom lib rest content calls = .ok message ↔
      NoMarkup rest ∧ policy.conclude (content ++ rest) calls = .ok message := by
  rw [Policy.parseFrom]
  split
  case h_1     => rw [ensureNoMarkup, ensure_bind_eq_ok]
  case h_2 h'  => simp [h] at h'

theorem parseFrom_of_some (h : position openMarker rest = some start) :
    policy.parseFrom lib rest content calls = .ok message ↔
      NoMarkup (rest.take start) ∧ ∃ wire offset,
        nextWire lib (rest.drop (start + openMarker.length)) = .ok (wire, offset) ∧
        closeMarker <+: trimStart ((rest.drop (start + openMarker.length)).drop offset) ∧
        policy.checkCall calls wire.name = .ok () ∧ ∃ call, toolCall lib calls wire = .ok call ∧
        policy.parseFrom lib
          ((trimStart ((rest.drop (start + openMarker.length)).drop offset)).drop
            closeMarker.length)
          (content ++ rest.take start) (calls ++ [call]) = .ok message := by
  rw [Policy.parseFrom]
  split
  case h_1 h' => simp [h] at h'
  case h_2 h' =>
    cases h.symm.trans h'
    simp only [ensureNoMarkup, ensure_bind_eq_ok]
    rw [bind_eq_ok, Prod.exists]
    simp only [seq_eq_ok, ensure_eq_ok]
    simp only [bind_eq_ok]

theorem parse_eq_ok : policy.parse lib output = .ok message ↔
    output.utf8ByteSize ≤ maxOutputBytes ∧
    policy.parseFrom lib output.toList [] [] = .ok message := by
  rw [Policy.parse, ensure_bind_eq_ok]

end Lemmas
end Calls
end Backend
