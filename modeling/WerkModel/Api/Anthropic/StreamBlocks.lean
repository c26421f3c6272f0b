import WerkModel.Api.Anthropic.Stream

-- The events of a message as a sequence of content blocks.
open Backend Checks

namespace Api.Anthropic

structure Block where
  kind   : ContentBlock
  deltas : List Delta

def Block.opening (index : Nat) (block : Block) : List Event :=
  .contentBlockStart index block.kind :: block.deltas.map (.contentBlockDelta index)

def Block.events (index : Nat) (block : Block) : List Event :=
  block.opening index ++ [.contentBlockStop index]

-- The events of the blocks that are closed and of one that is still open.
def blockEvents (closed : List Block) (current : Option Block) : List Event :=
  (closed.mapIdx Block.events).flatten ++ current.elim [] (Block.opening closed.length)

-- The part of a message before its end.
def unfinished (id model : String) (closed : List Block) (current : Option Block) : List Event :=
  .messageStart id model :: blockEvents closed current

-- How a message ends.
structure Ending where
  stopReason   : String
  stopSequence : Option String
  inputTokens  : Nat
  outputTokens : Nat

def Ending.events (ending : Ending) : List Event :=
  [.messageDelta ending.stopReason ending.stopSequence ending.inputTokens ending.outputTokens,
    .messageStop]

-- A complete message, whose blocks are opened, filled and closed one after the other.
def message (id model : String) (blocks : List Block) (ending : Ending) : List Event :=
  unfinished id model blocks none ++ ending.events

section Blocks

variable {closed : List Block} {block : Block} {id model : String}

theorem blockEvents_open (kind : ContentBlock) :
    blockEvents closed none ++ [.contentBlockStart closed.length kind] =
      blockEvents closed (some { kind, deltas := [] }) := by
  simp [blockEvents, Block.opening]

theorem blockEvents_fill (delta : Delta) :
    blockEvents closed (some block) ++ [.contentBlockDelta closed.length delta] =
      blockEvents closed (some { block with deltas := block.deltas ++ [delta] }) := by
  simp [blockEvents, Block.opening]

theorem blockEvents_close :
    blockEvents closed (some block) ++ [.contentBlockStop closed.length] =
      blockEvents (closed ++ [block]) none := by
  simp [blockEvents, Block.events, List.mapIdx_append]

-- Whatever is unfinished can be completed.
theorem unfinished_prefix (current : Option Block) (ending : Ending) :
    ∃ blocks, unfinished id model closed current <+: message id model blocks ending := by
  cases current
  case none       => exact ⟨closed, List.prefix_append ..⟩
  case some block =>
    refine ⟨closed ++ [block], ?_⟩
    rw [message, unfinished, unfinished, ←blockEvents_close, ←List.cons_append, List.append_assoc]
    exact List.prefix_append ..

end Blocks

def eventText {τ : Type} : GenerateStreamEvent τ → List Char
  | .textChunk text  => text.toList
  | .toolCallDelta _ => []
  | .done _          => []

def eventDeltas {τ : Type} : GenerateStreamEvent τ → List ChatCompletionToolCallDelta
  | .textChunk _          => []
  | .toolCallDelta deltas => deltas
  | .done _               => []

section Received

variable {deltas : List ChatCompletionToolCallDelta} {delta : ChatCompletionToolCallDelta}

-- What the deltas of an index add up to.
def gather (part : ChatCompletionToolCallDelta → List Char)
    (deltas : List ChatCompletionToolCallDelta) (index : Nat) : List Char :=
  (deltas.filter (·.index = index)).flatMap part

-- The indices in the order in which they first appear.
def firstAppearances (deltas : List ChatCompletionToolCallDelta) : List Nat :=
  deltas.foldl (fun order delta =>
    if delta.index ∈ order then order else order ++ [delta.index]) []

theorem gather_append (part : ChatCompletionToolCallDelta → List Char)
    (deltas : List ChatCompletionToolCallDelta) (delta : ChatCompletionToolCallDelta)
    (index : Nat) :
    gather part (deltas ++ [delta]) index =
      gather part deltas index ++ if delta.index = index then part delta else [] := by
  rw [gather, gather, List.filter_append, List.flatMap_append]
  by_cases h : delta.index = index <;> simp [h]

theorem firstAppearances_append :
    firstAppearances (deltas ++ [delta]) =
      if delta.index ∈ firstAppearances deltas then firstAppearances deltas
      else firstAppearances deltas ++ [delta.index] := by
  rw [firstAppearances, List.foldl_append]
  rfl

theorem mem_firstAppearances {index : Nat} :
    index ∈ firstAppearances deltas ↔ ∃ delta ∈ deltas, delta.index = index := by
  induction deltas using List.reverseRecOn
  case nil                     => simp [firstAppearances]
  case append_singleton deltas delta hi =>
    rw [firstAppearances_append]
    split
    case isTrue h =>
      simp only [List.mem_append, List.mem_singleton, or_and_right, exists_or, exists_eq_left, ←hi]
      exact ⟨.inl, fun hm => hm.elim id fun he => he ▸ h⟩
    case isFalse =>
      simp only [List.mem_append, List.mem_singleton, or_and_right, exists_or, exists_eq_left, ←hi]
      rw [eq_comm]

theorem nodup_firstAppearances : (firstAppearances deltas).Nodup := by
  induction deltas using List.reverseRecOn
  case nil                     => exact List.nodup_nil
  case append_singleton deltas delta hi =>
    rw [firstAppearances_append]
    split
    case isTrue    => exact hi
    case isFalse h => exact hi.append (List.nodup_singleton _) (List.disjoint_singleton.mpr h)

end Received
end Api.Anthropic
