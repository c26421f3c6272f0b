import WerkModel.Backend.ToolCalling

-- The messages of a chat.
open Backend (ChatCompletionToolCall)

namespace Api

structure ImageUrlPart where
  url    : String
  detail : Option String := none

inductive ImageUrlSpec
  | object (image : ImageUrlPart)
  | url (url : String)

inductive DocumentContent
  | text (text : String)
  | blocks (texts : List String)

inductive DocumentSource
  | base64 (mediaType data : String)
  | text (mediaType data : String)
  | url (url : String)
  | file (fileId : String)
  | content (content : DocumentContent)

structure FilePart where
  fileId   : Option String         := none
  fileData : Option String         := none
  filename : Option String         := none
  source   : Option DocumentSource := none
  context  : Option String         := none

structure ContentPart where
  kind     : String
  text     : Option String       := none
  imageUrl : Option ImageUrlSpec := none
  file     : Option FilePart     := none

inductive MessageContent
  | text (text : String)
  | parts (parts : List ContentPart)

structure ChatMessage where
  role       : String
  content    : Option MessageContent                := none
  name       : Option String                        := none
  toolCalls  : Option (List ChatCompletionToolCall) := none
  toolCallId : Option String                        := none

end Api
