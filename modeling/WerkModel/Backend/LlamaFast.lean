import WerkModel.Lib.Checks
import WerkModel.Lib.Chunks
import WerkModel.Lib.System

-- The sessions of the legacy llama.cpp backend, that mirror the tokens of the native KV cache.
open Checks

namespace Backend.LlamaFast

section Native

variable (τ : Type)

-- The logits of a token, which are those for all cells up to its position.
structure Logits where
  cells    : Multiset (Nat × τ)
  position : Nat

-- The cells of the cache, and the logits of each token of the last batch.
structure Native where
  cells : Multiset (Nat × τ)
  rows  : List (Option (Logits τ))

end Native

variable {τ : Type} [DecidableEq τ]

def batchCells (batch : List τ) (position : Nat) : Multiset (Nat × τ) :=
  ((batch.zipIdx position).map Prod.swap : List (Nat × τ))

def cellsOf (tokens : List τ) : Multiset (Nat × τ) :=
  batchCells tokens 0

def logitsOf (cells : Multiset (Nat × τ)) (position : Nat) : Logits τ where
  cells    := cells.filter (·.1 ≤ position)
  position := position

namespace Native

variable (native : Native τ)

def decode (batch : List τ) (position : Nat) (logitsLast : Bool) : Native τ :=
  let cells := native.cells + batchCells batch position
  {
    cells := cells
    rows  := (List.range batch.length).map fun index =>
      if logitsLast && index + 1 == batch.length then
        some (logitsOf cells (position + index))
      else
        none
  }

def seqRm (position : Nat) : Native τ :=
  { native with cells := native.cells.filter (·.1 < position) }

end Native

-- What a session has decoded and sampled.
inductive Event (τ : Type)
  | decoded (position length : Nat)
  | sampled (logits : Logits τ) (sequence : List τ)

structure Params (τ : Type) where
  nCtx         : Nat
  nBatch       : Nat
  warmupTokens : Nat
  eos          : τ
  eot          : τ

structure Session (τ : Type) where
  native        : Native τ
  tokens        : List τ
  lastBatchSize : Nat
  events        : List (Event τ)

-- The outcomes of the native calls of a prompt: of trimming the cache for it, of trimming the last
-- token, and the status of each batch.
structure Advance where
  trims     : Bool
  refreshes : Bool
  status    : Nat → Int

inductive Emission
  | continues
  | stops
  | fails (error : String)

-- A prediction draws a token, decodes it with a status, and emits its text.
structure Prediction (τ : Type) where
  draw   : Logits τ → τ
  status : Int
  emits  : Emission

structure Request (τ : Type) where
  hasImages    : Bool
  promptTokens : Except String (List τ)
  maxTokens    : Nat
  advance      : Advance
  predictions  : Nat → Prediction τ
  -- What becomes of the rest of the text.
  tail         : Emission

structure Response where
  promptTokens     : Nat
  completionTokens : Nat
  finishReason     : String

def sharedPrefixLen (previous next : List τ) : Nat :=
  ((previous.zip next).findIdx? fun pair => pair.1 ≠ pair.2).getD
    (min previous.length next.length)

def i32Max : Nat := 2 ^ 31 - 1

namespace Session

variable (params : Params τ) (s : Session τ)

def decode (status : Int) (batch : List τ) (position : Nat) (logitsLast : Bool) (failure : String) :
    Except String Unit × Session τ :=
  if params.nBatch < batch.length then
    (.error ("llama.cpp batch capacity exceeded: " ++ toString batch.length ++
      " tokens for capacity " ++ toString params.nBatch), s)
  else if status ≠ 0 then
    (.error (failure ++ toString status), s)
  else
    (.ok (), { s with
      native        := s.native.decode batch position logitsLast
      lastBatchSize := batch.length
      events        := s.events ++ [.decoded position batch.length]
    })

def advanceBatches (status : Nat → Int) (total : Nat) (s : Session τ) (index advanced : Nat) :
    List (List τ) → Except String Unit × Session τ
  | []              => (.ok (), s)
  | chunk :: chunks =>
    let isLast := advanced + chunk.length = total
    match s.decode params (status index) chunk (s.tokens.length + advanced) isLast
      "llama.cpp prompt decode failed with status " with
    | (.error error, s) => (.error error, s)
    | (.ok (), s)       =>
      advanceBatches status total s (index + 1) (advanced + chunk.length) chunks

-- The tokens are only recorded after the last of their batches.
def advancePromptTokens (status : Nat → Int) (tokens : List τ) : Except String Unit × Session τ :=
  if tokens.isEmpty then
    (.ok (), s)
  else
    match s.advanceBatches params status tokens.length 0 0
      (Chunks.of (max params.nBatch 1) tokens) with
    | (.error error, s) => (.error error, s)
    | (.ok (), s)       => (.ok (), { s with tokens := s.tokens ++ tokens })

def refreshLogitsFromLastToken (advance : Advance) : Except String Unit × Session τ :=
  match s.tokens.getLast? with
  | none       => (.ok (), s)
  | some token =>
    let position := s.tokens.length - 1
    if advance.refreshes then
      let s := { s with native := s.native.seqRm position, tokens := s.tokens.take position }
      s.advancePromptTokens params advance.status [token]
    else
      (.error "failed to refresh llama.cpp logits after KV cache trim", s)

-- The session without the tokens that the prompt does not share.
def trim (promptTokens : List τ) (trims : Bool) : Except String Unit × Session τ :=
  let sharedPrefix := sharedPrefixLen s.tokens promptTokens
  if sharedPrefix < s.tokens.length then
    if trims then
      (.ok (), { s with
        native        := s.native.seqRm sharedPrefix
        tokens        := s.tokens.take sharedPrefix
        lastBatchSize := 0
      })
    else
      (.error "failed to trim llama.cpp KV cache for prompt reuse", s)
  else
    (.ok (), s)

def newTokens (promptTokens : List τ) : List τ :=
  promptTokens.drop (sharedPrefixLen s.tokens promptTokens)

def setContextToTokens (advance : Advance) (promptTokens : List τ) :
    Except String Nat × Session τ :=
  let newTokens := s.newTokens promptTokens
  match s.trim promptTokens advance.trims with
  | (.error error, s) => (.error error, s)
  | (.ok (), s)       =>
    match
      if newTokens = [] ∧ s.lastBatchSize = 0 then s.refreshLogitsFromLastToken params advance
      else s.advancePromptTokens params advance.status newTokens with
    | (.error error, s) => (.error error, s)
    | (.ok (), s)       => (.ok newTokens.length, s)

def decodeGeneratedToken (status : Int) (token : τ) : Except String Unit × Session τ :=
  match s.decode params status [token] s.tokens.length true
    "llama.cpp token decode failed with status " with
  | (.error error, s) => (.error error, s)
  | (.ok (), s)       => (.ok (), { s with tokens := s.tokens ++ [token] })

def logits : Option (Logits τ) :=
  (s.native.rows[s.lastBatchSize - 1]?).join

-- The predictions from some tokens on, with the reason for which they end.
def predict (s : Session τ) (promptTokens : List τ) (predictions : Nat → Prediction τ)
    (generated : List τ) : Nat → Except String (Nat × String) × Session τ
  | 0          => (.ok (generated.length, "length"), s)
  | fuel + 1   =>
    match s.logits with
    | none        => (.error "llama.cpp did not return logits for the current context", s)
    | some logits =>
      let s := { s with events := s.events ++ [.sampled logits (promptTokens ++ generated)] }
      let prediction := predictions generated.length
      let token := prediction.draw logits
      if token = params.eos ∨ token = params.eot then
        (.ok (generated.length, "stop"), s)
      else
        match s.decodeGeneratedToken params prediction.status token, prediction.emits with
        | (.error error, s), _      => (.error error, s)
        | (.ok (), s), .fails error => (.error error, s)
        | (.ok (), s), .stops       => (.ok (generated.length + 1, "stop"), s)
        | (.ok (), s), .continues   =>
          predict s promptTokens predictions (generated ++ [token]) fuel

def maxPredictions (maxTokens : Nat) : Nat :=
  min maxTokens (max (params.nCtx - s.tokens.length - 1) 1)

def generateFrom (request : Request τ) (promptTokens : List τ) :
    Except String Response × Session τ :=
  match s.setContextToTokens params request.advance promptTokens with
  | (.error error, s) => (.error error, s)
  | (.ok evaluated, s) =>
    match s.predict params promptTokens request.predictions []
      (s.maxPredictions params request.maxTokens) with
    | (.error error, s)            => (.error error, s)
    | (.ok (completed, reason), s) =>
      match if reason = "stop" then .continues else request.tail with
      | .fails error => (.error error, s)
      | .stops       => (.ok ⟨evaluated, completed, "stop"⟩, s)
      | .continues   => (.ok ⟨evaluated, completed, reason⟩, s)

def checkPrompt (request : Request τ) : Except String (List τ) := do
  ensure (¬request.hasImages) <| "llama.cpp legacy FFI backend is text-only for now; " ++
    "use a VLM-capable backend/model for image inputs"
  let promptTokens ← request.promptTokens
  ensure (promptTokens ≠ []) "prompt is empty after tokenization"
  ensure (promptTokens.length < params.nCtx) <|
    "chat context is full for this model (" ++ toString promptTokens.length ++ " prompt tokens, " ++
    toString params.nCtx ++ " token context); increase WERK_LLAMA_CTX or start a new chat"
  return promptTokens

def generate (request : Request τ) : Except String Response × Session τ :=
  match checkPrompt params request with
  | .error error     => (.error error, s)
  | .ok promptTokens => s.generateFrom params request promptTokens

-- A warm-up that fails is ignored, and so is its trim of the cache.
def warmup (warmup : Advance) : Session τ :=
  if params.warmupTokens = 0 then
    s
  else
    match s.advancePromptTokens params warmup.status
      (List.replicate params.warmupTokens params.eos) with
    | (.error _, s) => s
    | (.ok (), s)   => { s with
      native        := if warmup.trims then s.native.seqRm 0 else s.native
      tokens        := []
      lastBatchSize := 0
    }

def empty : Session τ where
  native        := { cells := 0, rows := [] }
  tokens        := []
  lastBatchSize := 0
  events        := []

def new (warmup : Advance) : Except String (Session τ) := do
  ensure (params.nBatch ≠ 0 ∧ params.nBatch ≤ i32Max) <|
    "invalid llama.cpp batch capacity: " ++ toString params.nBatch
  return empty.warmup params warmup

end Session

inductive Input (τ : Type)
  | new (warmup : Advance)
  | generate (request : Request τ)

inductive Output
  | created
  | failed (error : String)
  | generated (response : Response)

-- The calls on one context, from its construction on.
inductive Step (params : Params τ) :
    Option (Session τ) → Input τ → Output → Option (Session τ) → Prop
  | refused {warmup error} : Session.new params warmup = .error error →
    Step params none (.new warmup) (.failed error) none
  | created {warmup s} : Session.new params warmup = .ok s →
    Step params none (.new warmup) .created (some s)
  | failed {s s' request error} : s.generate params request = (.error error, s') →
    Step params (some s) (.generate request) (.failed error) (some s')
  | generated {s s' request response} : s.generate params request = (.ok response, s') →
    Step params (some s) (.generate request) (.generated response) (some s')

def sessions (params : Params τ) : System (Option (Session τ)) (Input τ) Output where
  Init s := s = none
  Step   := Step params

end Backend.LlamaFast
