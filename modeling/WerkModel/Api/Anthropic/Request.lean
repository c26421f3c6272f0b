import WerkModel.Api.Anthropic.Stream
import WerkModel.Api.Chat
import WerkModel.Lib.Json

-- The history of a request, and the chat messages that it is translated to.
open Backend (ChatCompletionToolCall trim)
open Checks

namespace Api.Anthropic.Request

inductive ImageSource
  | base64 (mediaType data : String)
  | url (url : String)

structure DocumentCitations where
  enabled : Bool

inductive ToolResultBlock
  | text (text : String)
  | image (source : ImageSource)
  | document (source : DocumentSource) (title context : Option String)
    (citations : Option DocumentCitations)

inductive ToolResultContent
  | text (text : String)
  | blocks (blocks : List ToolResultBlock)

structure ToolUse where
  id    : String
  name  : String
  input : Json

structure ToolResult where
  toolUseId : String
  content   : Option ToolResultContent
  isError   : Bool

inductive Block
  | text (text : String)
  | image (source : ImageSource)
  | document (source : DocumentSource) (title context : Option String)
    (citations : Option DocumentCitations)
  | toolUse (use : ToolUse)
  | toolResult (result : ToolResult)

inductive Content
  | text (text : String)
  | blocks (blocks : List Block)

def Content.toBlocks : Content → List Block
  | .text value  => [.text value]
  | .blocks list => list

structure Message where
  role    : String
  content : Content

def Message.blocks (message : Message) : List Block :=
  message.content.toBlocks

inductive TextContent
  | text (text : String)
  | blocks (texts : List String)

def TextContent.intoText : TextContent → String
  | .text value  => value
  | .blocks list => "\n".intercalate list

-- The decoding of Base64, the scheme and the host of an URL, and the printing of JSON.
structure Media where
  decode   : String → Option (List UInt8)
  parseUri : String → Option (Option String × Option String)
  print    : Json → String

variable (media : Media)

section Parts

def textPart (text : String) : ContentPart where
  kind := "text"
  text := some text

def documentPart (source : DocumentSource) (title context : Option String)
    (citations : Option DocumentCitations) : Except String ContentPart := do
  ensure (¬citations.any DocumentCitations.enabled)
    "document citations are not yet supported by the response adapter"
  return {
    kind := "file"
    file := some { source := some source, filename := title, context }
  }

def imageUrl : ImageSource → Except String String
  | .base64 mediaType data => do
    ensure (mediaType ∈ ["image/jpeg", "image/png", "image/gif", "image/webp"])
      "image media_type must be image/jpeg, image/png, image/gif or image/webp"
    match media.decode data with
    | none         => .error "image source contains invalid base64"
    | some decoded => do
      ensure (decoded ≠ []) "image source must not be empty"
      return "data:" ++ mediaType ++ ";base64," ++ data
  | .url url =>
    match media.parseUri url with
    | none                => .error "image URL must be a valid HTTP(S) URL"
    | some (scheme, host) => do
      ensure ((scheme = some "https" ∨ scheme = some "http") ∧ host.any (· ≠ ""))
        "image URL must use http or https and include a host"
      return url

def imagePart (source : ImageSource) : Except String ContentPart := do
  let url ← imageUrl media source
  return { kind := "image_url", imageUrl := some (.url url) }

def partsContent (parts : List ContentPart) : MessageContent :=
  if parts.all (·.kind = "text") then
    .text ("\n".intercalate (parts.filterMap ContentPart.text))
  else
    .parts parts

def resultPart : ToolResultBlock → Except String ContentPart
  | .text text                                 => .ok (textPart text)
  | .image source                              => imagePart media source
  | .document source title context citations   => documentPart source title context citations

def toolResultParts : Option ToolResultContent → Except String (List ContentPart)
  | none                 => .ok [textPart ""]
  | some (.text text)    => .ok [textPart text]
  | some (.blocks blocks) => blocks.mapM (resultPart media)

def toolResultContent (result : ToolResult) : Except String MessageContent := do
  let parts ← toolResultParts media result.content
  match partsContent parts, result.isError with
  | .text text, true   =>
    return .text (media.print (.object [("is_error", .bool true), ("content", .string text)]))
  | .parts parts, true => return .parts (textPart "\x7b\"is_error\":true\x7d" :: parts)
  | content, false     => return content

end Parts

section History

def textMessage (role text : String) : ChatMessage where
  role    := role
  content := some (.text text)

def toolCall (use : ToolUse) : ChatCompletionToolCall where
  id       := use.id
  kind     := "function"
  function := { name := use.name, arguments := media.print use.input }

-- The calls of the history, and those of them that wait for a result.
structure History where
  seen     : List String := []
  pending  : List String := []
  messages : List ChatMessage

-- What has been read of a message.
structure Turn extends History where
  parts      : List ContentPart            := []
  calls      : List ChatCompletionToolCall := []
  hadResults : Bool                        := false

def translateBlock (role : String) (turn : Turn) : Block → Except String Turn
  | .text text => do
    ensure (turn.calls = [])
      "assistant text after tool_use is not supported; place text before tool calls"
    ensure (turn.pending = []) "all pending tool_result blocks must precede user text"
    return { turn with parts := turn.parts ++ [textPart text] }
  | .image source => do
    ensure (role = "user" ∧ turn.pending = [])
      "images require a user message after all pending tool results"
    let part ← imagePart media source
    return { turn with parts := turn.parts ++ [part] }
  | .document source title context citations => do
    ensure (role = "user" ∧ turn.pending = [])
      "documents require a user message after all pending tool results"
    let part ← documentPart source title context citations
    return { turn with parts := turn.parts ++ [part] }
  | .toolUse use => do
    ensure (role = "assistant" ∧ validName use.name.toList ∧ validName use.id.toList ∧
      use.input.isObject) "tool_use requires assistant role, valid id/name and object input"
    ensure (use.id ∉ turn.seen) "duplicate tool_use id"
    return { turn with seen := use.id :: turn.seen, calls := turn.calls ++ [toolCall media use] }
  | .toolResult result => do
    ensure (role = "user" ∧ turn.parts.isEmpty ∧ result.toolUseId ∈ turn.pending)
      "tool_result must precede text and match a pending tool_use exactly once"
    let content ← toolResultContent media result
    return { turn with
      pending    := turn.pending.erase result.toolUseId
      messages   := turn.messages ++
        [{ role := "tool", content := some content, toolCallId := some result.toolUseId }]
      hadResults := true
    }

-- Only what is not a result is put into a message of the same role.
def Turn.translated (role : String) (turn : Turn) : List ChatMessage :=
  if turn.parts.isEmpty && turn.calls.isEmpty && turn.hadResults then
    []
  else
    [{
      role
      content   := if turn.parts.isEmpty then none else some (partsContent turn.parts)
      toolCalls := if turn.calls.isEmpty then none else some turn.calls
    }]

def translateMessage (history : History) (message : Message) : Except String History := do
  ensure (message.role = "user" ∨ message.role = "assistant")
    "messages[].role must be user or assistant; use the separate system field"
  ensure (history.pending = [] ∨ message.role = "user")
    "tool_use must be followed immediately by user tool_result blocks"
  ensure (message.blocks.isEmpty = false) "message content must not be empty"
  let turn ← message.blocks.foldlM (translateBlock media message.role) { history with }
  ensure (turn.pending = []) "user message is missing a tool_result for a pending tool_use"
  return {
    seen     := turn.seen
    pending  := turn.calls.map ChatCompletionToolCall.id
    messages := turn.messages ++ turn.translated message.role
  }

structure MessagesRequest where
  model     : String
  maxTokens : Nat
  messages  : List Message
  system    : Option TextContent
  -- What the checks of the other fields come to, which do not read the messages.
  others    : Except String Unit

def translate (request : MessagesRequest) : Except String (List ChatMessage) := do
  ensure (trim request.model.toList ≠ [] ∧ request.maxTokens ≠ 0 ∧ ¬request.messages.isEmpty)
    "model, nonempty messages and positive max_tokens are required"
  ensure (request.messages.length ≤ 100000) "messages may contain at most 100000 entries"
  request.others
  let system := request.system.map fun system => textMessage "system" system.intoText
  let history ← request.messages.foldlM (translateMessage media) { messages := system.toList }
  ensure (history.pending = [])
    "history ends with tool_use; provide its user tool_result before generating again"
  return history.messages

end History

end Api.Anthropic.Request
