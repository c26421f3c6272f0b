import WerkModel.Api.Chat
import WerkModel.Inference.Types
import WerkModel.Lib.Saturating

-- Chat messages that are trimmed until they fit into the context of a model.
open Inference (eqIgnoreAsciiCase)
open Saturating

namespace Api

namespace ChatMessage

variable (message : ChatMessage)

def isSystem : Bool :=
  eqIgnoreAsciiCase message.role "system"

def isAssistant : Bool :=
  eqIgnoreAsciiCase message.role "assistant"

-- System messages are not part of the conversation.
def isTurn : Bool :=
  !message.isSystem

end ChatMessage

namespace Generation

section Estimate

-- A third of the size in bytes, rounded up.
def estimateTextTokens (text : String) : Nat :=
  (text.utf8ByteSize + 2) / 3

def estimateImagePartTokens (part : ContentPart) : Nat :=
  let detail := part.imageUrl.bind fun
    | .object image => image.detail
    | .url _        => none
  match detail with
  | some "low"  => 256
  | some "high" => 2048
  | _           => 1024

def estimatePartTokens (part : ContentPart) : Nat :=
  match part.kind with
  | "text"                      => estimateTextTokens (part.text.getD "")
  | "image_url" | "input_image" => estimateImagePartTokens part
  | _                           => 0

def estimateContentTokens : MessageContent → Nat
  | .text text   => estimateTextTokens text
  | .parts parts => parts.foldl (fun tokens part => add usizeMax tokens (estimatePartTokens part)) 0

def estimateTokens (message : ChatMessage) : Nat :=
  add usizeMax ((message.content.map estimateContentTokens).getD 0) 16

-- The sum stays within the range of its type, because the messages are in memory.
def estimateMessageTokens (messages : List ChatMessage) : Nat :=
  (messages.map estimateTokens).sum + 16

end Estimate

section Trimming

def safetyTokens : Nat := 64

-- An answer goes with the message that it directly follows.
def removeCount (messages : List ChatMessage) (start : Nat) : Nat :=
  if messages[start + 1]?.any ChatMessage.isAssistant then 2 else 1

def drain (messages : List ChatMessage) (start count : Nat) : List ChatMessage :=
  messages.take start ++ messages.drop (start + count)

theorem length_drain {messages : List ChatMessage} {start : Nat}
    (h : ¬messages.length ≤ start + 1) :
    (drain messages start (removeCount messages start)).length < messages.length := by
  have hc : 1 ≤ removeCount messages start := by
    rw [removeCount]
    split <;> omega
  simp only [drain, List.length_append, List.length_take, List.length_drop]
  omega

variable (contextSize maxTokens promptBudget : Nat)

def trimLoop (removed : Nat) (messages : List ChatMessage) :
    Except String Nat × List ChatMessage :=
  if estimateMessageTokens messages ≤ promptBudget then
    (.ok removed, messages)
  else
    match messages.findIdx? ChatMessage.isTurn with
    | none => (.error <| "system prompt is too large for the " ++ toString contextSize ++
        "-token context", messages)
    | some start =>
      if messages.length ≤ start + 1 then
        (.error <| "current message is too large for the " ++ toString contextSize ++
          "-token context after reserving " ++ toString maxTokens ++ " response tokens", messages)
      else
        trimLoop (removed + removeCount messages start)
          (drain messages start (removeCount messages start))
termination_by messages.length
decreasing_by exact length_drain ‹_›

end Trimming

-- The messages are left as they are if there is no space for a prompt.
def trimMessagesToContext (messages : List ChatMessage) (contextSize maxTokens : UInt64) :
    Except String Nat × List ChatMessage :=
  let reserved := maxTokens.toNat + safetyTokens
  if usizeMax < reserved then
    (.error "chat response token reserve overflowed", messages)
  else if contextSize.toNat ≤ reserved then
    (.error <| "response budget (" ++ toString maxTokens.toNat ++
      " tokens) leaves no prompt space in the " ++ toString contextSize.toNat ++
      "-token context; reduce max_tokens or increase the server --ctx-size", messages)
  else
    trimLoop contextSize.toNat maxTokens.toNat (contextSize.toNat - reserved) 0 messages

end Generation
end Api
