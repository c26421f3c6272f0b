import WerkModel.Api.Anthropic.Request

-- The histories that are accepted, and what their messages are translated to.
open Backend (ChatCompletionToolCall)
open Checks

namespace Api.Anthropic.Request

variable {media : Media} {block : Block} {blocks : List Block} {turn turn' : Turn}
variable {message : Message} {messages : List Message} {history history' : History}
variable {pending seen : List String} {out : List ChatMessage}

section Definitions

def ToolUse.Named (use : ToolUse) : Prop :=
  validName use.name.toList ∧ validName use.id.toList

def ToolUse.Valid (use : ToolUse) : Prop :=
  use.Named ∧ use.input.isObject = true

def Block.use? : Block → Option ToolUse
  | .toolUse use => some use
  | _            => none

def Block.result? : Block → Option ToolResult
  | .toolResult result => some result
  | _                  => none

def Block.isContent (block : Block) : Bool :=
  block.use?.isNone && block.result?.isNone

namespace Message

def useIds (message : Message) : List String :=
  (message.blocks.filterMap Block.use?).map ToolUse.id

def resultIds (message : Message) : List String :=
  (message.blocks.filterMap Block.result?).map ToolResult.toolUseId

def ObjectInputs (message : Message) : Prop :=
  ∀ use : ToolUse, .toolUse use ∈ message.blocks → use.input.isObject = true

-- Texts come before calls, and results before all else.
inductive Shaped (message : Message) : Prop
  | assistant {texts : List String} {uses : List ToolUse} : message.role = "assistant" →
    message.blocks ≠ [] → message.blocks = texts.map .text ++ uses.map .toolUse →
    (∀ use ∈ uses, use.Named) → Shaped message
  | user {results : List ToolResult} {others : List Block} : message.role = "user" →
    message.blocks ≠ [] → message.blocks = results.map .toolResult ++ others →
    (∀ block ∈ others, block.isContent = true) → Shaped message

end Message

-- Each message holds the results of the calls of the message before it.
structure Grammar (messages : List Message) : Prop where
  shaped   : ∀ message ∈ messages, message.Shaped
  fresh    : (messages.flatMap Message.useIds).Nodup
  opens    : ∀ message ∈ messages.head?, message.resultIds = []
  answered : messages.IsChain fun message next => next.resultIds.Perm message.useIds
  closes   : ∀ message ∈ messages.getLast?, message.useIds = []

def contentPart (media : Media) : Block → Except String ContentPart
  | .text text                               => .ok (textPart text)
  | .image source                            => imagePart media source
  | .document source title context citations => documentPart source title context citations
  | .toolUse _ | .toolResult _               => .error "not content"

def resultMessage (media : Media) (result : ToolResult) : Except String ChatMessage := do
  let content ← toolResultContent media result
  return { role := "tool", content := some content, toolCallId := some result.toolUseId }

-- What the blocks of a message are translated to, in their order.
inductive Rendered (media : Media) (message : Message) : List ChatMessage → Prop
  | assistant {texts : List String} {uses : List ToolUse} : message.role = "assistant" →
    message.blocks ≠ [] → message.blocks = texts.map .text ++ uses.map .toolUse →
    (∀ use ∈ uses, use.Valid) → Rendered media message [{
      role      := "assistant"
      content   := if texts.isEmpty then none else some (.text ("\n".intercalate texts))
      toolCalls := if uses.isEmpty then none else some (uses.map (toolCall media))
    }]
  | user {results : List ToolResult} {others : List Block} {tools : List ChatMessage}
    {parts : List ContentPart} : message.role = "user" → message.blocks ≠ [] →
    message.blocks = results.map .toolResult ++ others →
    results.Forall₂ (fun result tool => resultMessage media result = .ok tool) tools →
    others.Forall₂ (fun block part => contentPart media block = .ok part) parts →
    Rendered media message (tools ++ if parts.isEmpty then [] else
      [{ role := "user", content := some (partsContent parts) }])

end Definitions

section Blocks

variable {parts : List ContentPart}

theorem translateBlock_content (hp : turn.pending = []) (hc : turn.calls = []) :
    translateBlock media "user" turn block = .ok turn' ↔ ∃ part,
      contentPart media block = .ok part ∧ turn' = { turn with parts := turn.parts ++ [part] } := by
  cases block
  case text text =>
    simp only [translateBlock, contentPart, ensure_bind_eq_ok, hp, hc, pure, Except.pure,
      Except.ok.injEq, true_and, exists_eq_left']
    exact eq_comm
  case image source =>
    simp only [translateBlock, contentPart, ensure_bind_eq_ok, hp, true_and]
    simp only [bind_eq_ok, pure, Except.pure, Except.ok.injEq]
    exact exists_congr fun part => and_congr_right fun _ => eq_comm
  case document source title context citations =>
    simp only [translateBlock, contentPart, ensure_bind_eq_ok, hp, true_and]
    simp only [bind_eq_ok, pure, Except.pure, Except.ok.injEq]
    exact exists_congr fun part => and_congr_right fun _ => eq_comm
  case toolUse use       => simp [translateBlock, contentPart, ensure_bind_eq_ok]
  case toolResult result => simp [translateBlock, contentPart, ensure_bind_eq_ok, hp]

-- After the results, a user message holds nothing but content.
theorem foldlM_content (hp : turn.pending = []) (hc : turn.calls = []) :
    blocks.foldlM (translateBlock media "user") turn = .ok turn' ↔ ∃ parts,
      blocks.Forall₂ (fun block part => contentPart media block = .ok part) parts ∧
      turn' = { turn with parts := turn.parts ++ parts } := by
  induction blocks generalizing turn
  case nil => simp [pure, Except.pure, eq_comm]
  case cons block blocks hi =>
    rw [List.foldlM_cons, bind_eq_ok]
    constructor
    case mp =>
      rintro ⟨next, hn, hr⟩
      obtain ⟨part, hb, rfl⟩ := (translateBlock_content hp hc).mp hn
      obtain ⟨parts, hf, rfl⟩ := (hi (by exact hp) (by exact hc)).mp hr
      exact ⟨part :: parts, .cons hb hf, by simp⟩
    case mpr =>
      rintro ⟨parts, hf, rfl⟩
      cases hf
      case cons part parts hb hf =>
        refine ⟨_, (translateBlock_content hp hc).mpr ⟨part, hb, rfl⟩,
          (hi (by exact hp) (by exact hc)).mpr ⟨parts, hf, ?_⟩⟩
        simp

theorem translateBlock_result {result : ToolResult} :
    translateBlock media "user" turn (.toolResult result) = .ok turn' ↔
      turn.parts = [] ∧ result.toolUseId ∈ turn.pending ∧ ∃ tool,
        resultMessage media result = .ok tool ∧ turn' = { turn with
          pending    := turn.pending.erase result.toolUseId
          messages   := turn.messages ++ [tool]
          hadResults := true
        } := by
  simp only [translateBlock, ensure_bind_eq_ok, List.isEmpty_iff, true_and, and_assoc]
  simp only [resultMessage, bind_eq_ok, pure, Except.pure, Except.ok.injEq]
  constructor
  case mp =>
    rintro ⟨hp, hm, content, hc, rfl⟩
    exact ⟨hp, hm, _, ⟨content, hc, rfl⟩, rfl⟩
  case mpr =>
    rintro ⟨hp, hm, tool, ⟨content, hc, rfl⟩, rfl⟩
    exact ⟨hp, hm, content, hc, rfl⟩

theorem isContent_of_contentPart {part : ContentPart}
    (h : contentPart media block = .ok part) : block.isContent = true := by
  cases block <;> first | rfl | nomatch h

theorem result?_eq_some {result : ToolResult} :
    block.result? = some result ↔ block = .toolResult result := by
  cases block <;> simp [Block.result?]

theorem pending_of_translateBlock (hb : block.result? = none)
    (h : translateBlock media "user" turn block = .ok turn') : turn.pending = [] := by
  cases block
  case text text =>
    rw [translateBlock, ensure_bind_eq_ok, ensure_bind_eq_ok] at h
    exact h.right.left
  case image source =>
    rw [translateBlock, ensure_bind_eq_ok] at h
    exact h.left.right
  case document source title context citations =>
    rw [translateBlock, ensure_bind_eq_ok] at h
    exact h.left.right
  case toolUse use       => simp [translateBlock, ensure_bind_eq_ok] at h
  case toolResult result => nomatch hb

-- A user message answers what is pending, and goes on with content.
theorem foldlM_results {chat : List ChatMessage} {answered : Bool} :
    blocks.foldlM (translateBlock media "user")
      { seen, pending, messages := chat, hadResults := answered } = .ok turn' ∧
        turn'.pending = [] ↔
      ∃ (results : List ToolResult) (others : List Block) (tools : List ChatMessage)
        (parts : List ContentPart), blocks = results.map .toolResult ++ others ∧
        (results.map ToolResult.toolUseId).Perm pending ∧
        results.Forall₂ (fun result tool => resultMessage media result = .ok tool) tools ∧
        others.Forall₂ (fun block part => contentPart media block = .ok part) parts ∧
        turn' = {
          seen
          messages   := chat ++ tools
          parts
          hadResults := answered || !results.isEmpty
        } := by
  induction blocks generalizing pending chat answered
  case nil =>
    rw [List.foldlM_nil]
    constructor
    case mp =>
      rintro ⟨he, hp⟩
      cases he
      cases hp
      exact ⟨[], [], [], [], rfl, .nil, .nil, .nil, by simp⟩
    case mpr =>
      rintro ⟨results, others, tools, parts, he, hp, hf, hf', rfl⟩
      obtain ⟨hr, rfl⟩ := List.append_eq_nil_iff.mp he.symm
      cases List.map_eq_nil_iff.mp hr
      cases hf
      cases hf'
      cases hp.nil_eq
      exact ⟨by simp [pure, Except.pure], rfl⟩
  case cons block blocks hi =>
    cases hb : block.result?
    case some result =>
      obtain rfl := result?_eq_some.mp hb
      rw [List.foldlM_cons, bind_eq_ok]
      constructor
      case mp =>
        rintro ⟨⟨next, hn, hr⟩, hp⟩
        obtain ⟨-, hm, tool, ht, rfl⟩ := translateBlock_result.mp hn
        obtain ⟨results, others, tools, parts, rfl, hperm, hf, hf', rfl⟩ := hi.mp ⟨hr, hp⟩
        exact ⟨result :: results, others, tool :: tools, parts, rfl,
          List.cons_perm_iff_perm_erase.mpr ⟨hm, hperm⟩, .cons ht hf, hf', by simp⟩
      case mpr =>
        rintro ⟨results, others, tools, parts, he, hp, hf, hf', rfl⟩
        cases results
        case nil =>
          cases he
          cases hf'
          case cons hpart _ => nomatch hpart
        case cons result' results =>
          cases he
          cases hf
          case cons tool tools ht hf =>
            obtain ⟨hm, hperm⟩ := List.cons_perm_iff_perm_erase.mp hp
            refine ⟨⟨_, translateBlock_result.mpr ⟨rfl, hm, tool, ht, rfl⟩, (hi.mpr ?_).left⟩, rfl⟩
            exact ⟨results, others, tools, parts, rfl, hperm, hf, hf', by simp⟩
    case none =>
      constructor
      case mp =>
        rintro ⟨hr, -⟩
        have hp : pending = [] := by
          rw [List.foldlM_cons, bind_eq_ok] at hr
          obtain ⟨next, hn, -⟩ := hr
          exact pending_of_translateBlock hb hn
        subst hp
        obtain ⟨parts, hf, rfl⟩ := (foldlM_content rfl rfl).mp hr
        exact ⟨[], block :: blocks, [], parts, rfl, .nil, .nil, hf, by simp⟩
      case mpr =>
        rintro ⟨results, others, tools, parts, he, hp, hf, hf', rfl⟩
        cases results
        case cons =>
          cases he
          nomatch hb
        case nil =>
          cases he
          cases hf
          cases hp.nil_eq
          exact ⟨(foldlM_content rfl rfl).mpr ⟨parts, hf', by simp⟩, rfl⟩

-- No call of the history is made again.
def Fresh (seen ids : List String) : Prop :=
  ids.Nodup ∧ ∀ id ∈ ids, id ∉ seen

theorem fresh_cons {id : String} {ids : List String} :
    Fresh seen (id :: ids) ↔ id ∉ seen ∧ Fresh (id :: seen) ids := by
  simp only [Fresh, List.nodup_cons, List.mem_cons, not_or]
  grind

theorem translateBlock_use {use : ToolUse} : translateBlock media "assistant" turn (.toolUse use) =
    .ok turn' ↔ use.Valid ∧ use.id ∉ turn.seen ∧ turn' = { turn with
      seen  := use.id :: turn.seen
      calls := turn.calls ++ [toolCall media use]
    } := by
  simp only [translateBlock, ensure_bind_eq_ok, pure, Except.pure, Except.ok.injEq, true_and,
    ToolUse.Valid, ToolUse.Named, and_assoc]
  exact and_congr_right fun _ => and_congr_right fun _ => and_congr_right fun _ =>
    and_congr_right fun _ => eq_comm

-- After the first call, an assistant message holds nothing but calls.
theorem foldlM_uses (hc : turn.calls ≠ []) :
    blocks.foldlM (translateBlock media "assistant") turn = .ok turn' ↔
      ∃ uses : List ToolUse, blocks = uses.map .toolUse ∧ (∀ use ∈ uses, use.Valid) ∧
        Fresh turn.seen (uses.map ToolUse.id) ∧ turn' = { turn with
          seen  := (uses.map ToolUse.id).reverse ++ turn.seen
          calls := turn.calls ++ uses.map (toolCall media)
        } := by
  induction blocks generalizing turn
  case nil =>
    rw [List.foldlM_nil]
    constructor
    case mp =>
      intro he
      cases he
      exact ⟨[], rfl, by simp, by simp [Fresh], by simp⟩
    case mpr =>
      rintro ⟨uses, he, -, -, rfl⟩
      cases List.map_eq_nil_iff.mp he.symm
      simp [pure, Except.pure]
  case cons block blocks hi =>
    rw [List.foldlM_cons, bind_eq_ok]
    constructor
    case mp =>
      rintro ⟨next, hn, hr⟩
      cases block
      case toolUse use =>
        obtain ⟨hv, hs, rfl⟩ := translateBlock_use.mp hn
        obtain ⟨uses, rfl, huses, hfresh, rfl⟩ := (hi (by simp)).mp hr
        exact ⟨use :: uses, rfl, List.forall_mem_cons.mpr ⟨hv, huses⟩,
          fresh_cons.mpr ⟨hs, hfresh⟩, by simp⟩
      all_goals simp [translateBlock, ensure_bind_eq_ok, hc] at hn
    case mpr =>
      rintro ⟨uses, he, huses, hfresh, rfl⟩
      cases uses
      case nil => nomatch he
      case cons use uses =>
        cases he
        obtain ⟨hv, huses⟩ := List.forall_mem_cons.mp huses
        obtain ⟨hs, hfresh⟩ := fresh_cons.mp hfresh
        refine ⟨_, translateBlock_use.mpr ⟨hv, hs, rfl⟩, (hi (by simp)).mpr ?_⟩
        exact ⟨uses, rfl, huses, hfresh, by simp⟩

theorem foldlM_texts {chat : List ChatMessage} {parts : List ContentPart} :
    blocks.foldlM (translateBlock media "assistant")
      { seen, pending := [], messages := chat, parts } = .ok turn' ↔
      ∃ (texts : List String) (uses : List ToolUse),
        blocks = texts.map .text ++ uses.map .toolUse ∧ (∀ use ∈ uses, use.Valid) ∧
        Fresh seen (uses.map ToolUse.id) ∧ turn' = {
          seen     := (uses.map ToolUse.id).reverse ++ seen
          messages := chat
          parts    := parts ++ texts.map textPart
          calls    := uses.map (toolCall media)
        } := by
  induction blocks generalizing parts
  case nil =>
    rw [List.foldlM_nil]
    constructor
    case mp =>
      intro he
      cases he
      exact ⟨[], [], rfl, by simp, by simp [Fresh], by simp⟩
    case mpr =>
      rintro ⟨texts, uses, he, -, -, rfl⟩
      obtain ⟨ht, hu⟩ := List.append_eq_nil_iff.mp he.symm
      cases List.map_eq_nil_iff.mp ht
      cases List.map_eq_nil_iff.mp hu
      simp [pure, Except.pure]
  case cons block blocks hi =>
    rw [List.foldlM_cons, bind_eq_ok]
    constructor
    case mp =>
      rintro ⟨next, hn, hr⟩
      cases block
      case text text =>
        simp only [translateBlock, ensure_bind_eq_ok, pure, Except.pure, Except.ok.injEq,
          true_and] at hn
        subst hn
        obtain ⟨texts, uses, rfl, huses, hfresh, rfl⟩ := hi.mp hr
        exact ⟨text :: texts, uses, rfl, huses, hfresh, by simp⟩
      case toolUse use =>
        obtain ⟨hv, hs, rfl⟩ := translateBlock_use.mp hn
        obtain ⟨uses, rfl, huses, hfresh, rfl⟩ := (foldlM_uses (by simp)).mp hr
        exact ⟨[], use :: uses, rfl, List.forall_mem_cons.mpr ⟨hv, huses⟩,
          fresh_cons.mpr ⟨hs, hfresh⟩, by simp⟩
      all_goals simp [translateBlock, ensure_bind_eq_ok] at hn
    case mpr =>
      rintro ⟨texts, uses, he, huses, hfresh, rfl⟩
      cases texts
      case cons text texts =>
        cases he
        refine ⟨{ seen, pending := [], messages := chat, parts := parts ++ [textPart text] }, ?_,
          hi.mpr ⟨texts, uses, rfl, huses, hfresh, by simp⟩⟩
        simp [translateBlock, ensure, bind, Except.bind, pure, Except.pure]
      case nil =>
        cases uses
        case nil => cases he
        case cons use uses =>
          cases he
          obtain ⟨hv, huses⟩ := List.forall_mem_cons.mp huses
          obtain ⟨hs, hfresh⟩ := fresh_cons.mp hfresh
          refine ⟨_, translateBlock_use.mpr ⟨hv, hs, rfl⟩, (foldlM_uses (by simp)).mpr ?_⟩
          exact ⟨uses, rfl, huses, hfresh, by simp⟩

end Blocks

section Messages

variable {texts : List String} {uses : List ToolUse} {results : List ToolResult}
variable {others : List Block} {parts : List ContentPart} {tools : List ChatMessage}

theorem useIds_assistant (h : message.blocks = texts.map .text ++ uses.map .toolUse) :
    message.useIds = uses.map ToolUse.id := by
  have ht : (texts.map Block.text).filterMap Block.use? = [] := by
    simp [List.filterMap_map, Function.comp_def, Block.use?]
  have hu : (uses.map Block.toolUse).filterMap Block.use? = uses := by
    simp [List.filterMap_map, Function.comp_def, Block.use?]
  rw [Message.useIds, h, List.filterMap_append, ht, hu, List.nil_append]

theorem resultIds_assistant (h : message.blocks = texts.map .text ++ uses.map .toolUse) :
    message.resultIds = [] := by
  rw [Message.resultIds, h]
  simp [List.filterMap_map, Function.comp_def, Block.result?]

theorem useIds_user (h : message.blocks = results.map .toolResult ++ others)
    (hc : ∀ block ∈ others, block.isContent = true) : message.useIds = [] := by
  have ho : others.filterMap Block.use? = [] := by
    refine List.filterMap_eq_nil_iff.mpr fun block hm => ?_
    have hb := hc block hm
    rw [Block.isContent, Bool.and_eq_true, Option.isNone_iff_eq_none] at hb
    exact hb.left
  rw [Message.useIds, h, List.filterMap_append, ho]
  simp [List.filterMap_map, Function.comp_def, Block.use?]

theorem resultIds_user (h : message.blocks = results.map .toolResult ++ others)
    (hc : ∀ block ∈ others, block.isContent = true) :
    message.resultIds = results.map ToolResult.toolUseId := by
  have ho : others.filterMap Block.result? = [] := by
    refine List.filterMap_eq_nil_iff.mpr fun block hm => ?_
    have hb := hc block hm
    rw [Block.isContent, Bool.and_eq_true, Option.isNone_iff_eq_none,
      Option.isNone_iff_eq_none] at hb
    exact hb.right
  have hr : (results.map Block.toolResult).filterMap Block.result? = results := by
    simp [List.filterMap_map, Function.comp_def, Block.result?]
  rw [Message.resultIds, h, List.filterMap_append, ho, hr, List.append_nil]

theorem partsContent_texts :
    partsContent (texts.map textPart) = .text ("\n".intercalate texts) := by
  have ha : ((texts.map textPart).all (·.kind = "text")) = true := by
    simp [textPart]
  have ht : (texts.map textPart).filterMap ContentPart.text = texts := by
    simp [List.filterMap_map, Function.comp_def, textPart]
  rw [partsContent, if_pos ha, ht]

theorem isContent_of_forall₂
    (h : others.Forall₂ (fun block part => contentPart media block = .ok part) parts) :
    ∀ block ∈ others, block.isContent = true := by
  induction h
  case nil           => simp
  case cons hb _ hi => exact List.forall_mem_cons.mpr ⟨isContent_of_contentPart hb, hi⟩

-- A message that is made up of results is not repeated as one of the user.
theorem translated_user {chat : List ChatMessage} (hne : message.blocks ≠ [])
    (hb : message.blocks = results.map .toolResult ++ others)
    (hf : others.Forall₂ (fun block part => contentPart media block = .ok part) parts) :
    Turn.translated "user" { seen, messages := chat, parts, hadResults := !results.isEmpty } =
      if parts.isEmpty then [] else [{ role := "user", content := some (partsContent parts) }] := by
  cases parts
  case cons part parts => simp [Turn.translated]
  case nil =>
    cases hf
    cases results
    case nil  => exact absurd hb hne
    case cons => simp [Turn.translated]

theorem translated_assistant {chat : List ChatMessage} :
    Turn.translated "assistant" {
      seen, messages := chat, parts := texts.map textPart, calls := uses.map (toolCall media)
    } = [{
      role      := "assistant"
      content   := if texts.isEmpty then none else some (.text ("\n".intercalate texts))
      toolCalls := if uses.isEmpty then none else some (uses.map (toolCall media))
    }] := by
  simp [Turn.translated, partsContent_texts]

theorem translateMessage_eq_ok :
    translateMessage media history message = .ok history' ↔ ∃ out, Rendered media message out ∧
      message.resultIds.Perm history.pending ∧ Fresh history.seen message.useIds ∧ history' = {
        seen     := message.useIds.reverse ++ history.seen
        pending  := message.useIds
        messages := history.messages ++ out
      } := by
  obtain ⟨seen, pending, chat⟩ := history
  simp only [translateMessage, ensure_bind_eq_ok, List.isEmpty_eq_false_iff]
  constructor
  case mp =>
    rintro ⟨hrole, hpending, hne, h⟩
    obtain ⟨turn, hfold, h⟩ := bind_eq_ok.mp h
    obtain ⟨hp, h⟩ := ensure_bind_eq_ok.mp h
    cases h
    obtain hrole | hrole := hrole
    case inl =>
      rw [hrole] at hfold ⊢
      obtain ⟨results, others, tools, parts, hb, hperm, hf, hf', rfl⟩ :=
        foldlM_results.mp ⟨hfold, hp⟩
      have hc := isContent_of_forall₂ hf'
      refine ⟨_, .user hrole hne hb hf hf', resultIds_user hb hc ▸ hperm,
        useIds_user hb hc ▸ by simp [Fresh], ?_⟩
      rw [useIds_user hb hc, Bool.false_or, translated_user hne hb hf']
      simp
    case inr =>
      obtain rfl : pending = [] := hpending.resolve_right (by simp [hrole])
      rw [hrole] at hfold ⊢
      obtain ⟨texts, uses, hb, hv, hfresh, rfl⟩ := foldlM_texts.mp hfold
      refine ⟨_, .assistant hrole hne hb hv, resultIds_assistant hb ▸ .nil,
        useIds_assistant hb ▸ hfresh, ?_⟩
      rw [useIds_assistant hb, List.nil_append, translated_assistant]
      simp [toolCall, Function.comp_def]
  case mpr =>
    rintro ⟨out, hr, hperm, hfresh, rfl⟩
    cases hr
    case user results others tools parts hrole hne hb hf hf' =>
      have hc := isContent_of_forall₂ hf'
      rw [resultIds_user hb hc] at hperm
      have hfold : message.blocks.foldlM (translateBlock media message.role)
          { seen, pending, messages := chat } = .ok {
            seen, messages := chat ++ tools, parts, hadResults := false || !results.isEmpty } := by
        rw [hrole]
        exact (foldlM_results.mpr ⟨results, others, tools, parts, hb, hperm, hf, hf', rfl⟩).left
      refine ⟨.inl hrole, .inr hrole, hne, bind_eq_ok.mpr ⟨_, hfold, ?_⟩⟩
      rw [ensure_bind_eq_ok, hrole, Bool.false_or, translated_user hne hb hf', useIds_user hb hc]
      simp [pure, Except.pure]
    case assistant texts uses hrole hne hb hv =>
      rw [resultIds_assistant hb] at hperm
      cases hperm.nil_eq
      rw [useIds_assistant hb] at hfresh
      have hfold : message.blocks.foldlM (translateBlock media message.role)
          { seen, messages := chat } = .ok {
            seen     := (uses.map ToolUse.id).reverse ++ seen
            messages := chat
            parts    := [] ++ texts.map textPart
            calls    := uses.map (toolCall media)
          } := by
        rw [hrole]
        exact foldlM_texts.mpr ⟨texts, uses, hb, hv, hfresh, rfl⟩
      refine ⟨.inr hrole, .inl rfl, hne, bind_eq_ok.mpr ⟨_, hfold, ?_⟩⟩
      rw [ensure_bind_eq_ok, hrole, List.nil_append, translated_assistant, useIds_assistant hb]
      simp [pure, Except.pure, toolCall, Function.comp_def]

end Messages

section Runs

-- Messages that answer what is pending, and that leave nothing pending.
def Paired : List String → List Message → Prop
  | pending, []                  => pending = []
  | pending, message :: messages => message.resultIds.Perm pending ∧ Paired message.useIds messages

theorem paired_iff : Paired pending messages ↔ (messages = [] → pending = []) ∧
    (∀ message ∈ messages.head?, message.resultIds.Perm pending) ∧
    messages.IsChain (fun message next => next.resultIds.Perm message.useIds) ∧
    ∀ message ∈ messages.getLast?, message.useIds = [] := by
  induction messages generalizing pending
  case nil => simp [Paired]
  case cons message messages hi =>
    rw [Paired, hi, List.isChain_cons]
    cases messages
    case nil  => simp
    case cons => simp [and_assoc]

theorem fresh_append {ids ids' : List String} :
    Fresh seen (ids ++ ids') ↔ Fresh seen ids ∧ Fresh (ids.reverse ++ seen) ids' := by
  simp only [Fresh, List.nodup_append, List.mem_append, List.mem_reverse, not_or]
  grind

theorem foldlM_translateMessage :
    (∃ history', messages.foldlM (translateMessage media) history = .ok history' ∧
      history'.pending = [] ∧ history'.messages = out) ↔
    ∃ outs, messages.Forall₂ (Rendered media) outs ∧ Paired history.pending messages ∧
      Fresh history.seen (messages.flatMap Message.useIds) ∧
      out = history.messages ++ outs.flatten := by
  induction messages generalizing history
  case nil =>
    rw [List.foldlM_nil]
    constructor
    case mp =>
      rintro ⟨history', he, hp, rfl⟩
      cases he
      exact ⟨[], .nil, hp, by simp [Fresh], by simp⟩
    case mpr =>
      rintro ⟨outs, hf, hp, -, rfl⟩
      cases hf
      exact ⟨history, rfl, hp, by simp⟩
  case cons message messages hi =>
    rw [List.foldlM_cons]
    constructor
    case mp =>
      rintro ⟨history', he, hp, hm⟩
      obtain ⟨next, hn, hr⟩ := bind_eq_ok.mp he
      obtain ⟨first, hfirst, hperm, hfresh, rfl⟩ := translateMessage_eq_ok.mp hn
      obtain ⟨outs, hf, hpaired, hfresh', rfl⟩ := hi.mp ⟨history', hr, hp, hm⟩
      exact ⟨first :: outs, .cons hfirst hf, ⟨hperm, hpaired⟩,
        fresh_append.mpr ⟨hfresh, hfresh'⟩, by simp⟩
    case mpr =>
      rintro ⟨outs, hf, hpaired, hfresh, rfl⟩
      cases hf
      case cons first outs hfirst hf =>
        obtain ⟨hfresh, hfresh'⟩ := fresh_append.mp hfresh
        have hn := translateMessage_eq_ok.mpr ⟨first, hfirst, hpaired.left, hfresh, rfl⟩
        have hrest : ∃ history', messages.foldlM (translateMessage media) {
            seen     := message.useIds.reverse ++ history.seen
            pending  := message.useIds
            messages := history.messages ++ first
          } = .ok history' ∧ history'.pending = [] ∧
            history'.messages = history.messages ++ (first :: outs).flatten :=
          hi.mpr ⟨outs, hf, hpaired.right, hfresh', by simp⟩
        obtain ⟨history', hr, hp, hm⟩ := hrest
        exact ⟨history', bind_eq_ok.mpr ⟨_, hn, hr⟩, hp, hm⟩

def Block.Decodes (media : Media) : Block → Prop
  | .text _                                  => True
  | .image source                            => ∃ part, imagePart media source = .ok part
  | .document source title context citations =>
    ∃ part, documentPart source title context citations = .ok part
  | .toolUse _                               => True
  | .toolResult result                       =>
    ∃ content, toolResultContent media result = .ok content

theorem exists_contentPart (hd : block.Decodes media) (hc : block.isContent = true) :
    ∃ part, contentPart media block = .ok part := by
  cases block
  case text          => exact ⟨_, rfl⟩
  case image         => exact hd
  case document      => exact hd
  case toolUse       => nomatch hc
  case toolResult    => nomatch hc

theorem exists_forall₂ {α β : Type} {R : α → β → Prop} {l : List α} (h : ∀ a ∈ l, ∃ b, R a b) :
    ∃ l', l.Forall₂ R l' := by
  induction l
  case nil => exact ⟨[], .nil⟩
  case cons a l hi =>
    obtain ⟨⟨b, hb⟩, ht⟩ := List.forall_mem_cons.mp h
    obtain ⟨l', hl⟩ := hi ht
    exact ⟨b :: l', .cons hb hl⟩

theorem shaped_of_rendered (h : Rendered media message out) : message.Shaped := by
  cases h
  case assistant hrole hne hb hv => exact .assistant hrole hne hb fun use hm => (hv use hm).left
  case user hrole hne hb hf hf'  => exact .user hrole hne hb (isContent_of_forall₂ hf')

theorem objectInputs_of_rendered (h : Rendered media message out) : message.ObjectInputs := by
  intro use hm
  cases h
  case assistant texts uses hrole hne hb hv =>
    rw [hb, List.mem_append, List.mem_map, List.mem_map] at hm
    obtain ⟨text, -, he⟩ | ⟨use', hu, he⟩ := hm
    · nomatch he
    · cases he
      exact (hv use hu).right
  case user results others hrole hne hb hf hf' =>
    rw [hb, List.mem_append, List.mem_map] at hm
    obtain ⟨result, -, he⟩ | ho := hm
    · nomatch he
    · nomatch isContent_of_forall₂ hf' _ ho

theorem shaped_of_forall₂ {outs : List (List ChatMessage)}
    (h : messages.Forall₂ (Rendered media) outs) :
    ∀ message ∈ messages, message.Shaped ∧ message.ObjectInputs := by
  induction h
  case nil          => simp
  case cons hr _ hi =>
    exact List.forall_mem_cons.mpr ⟨⟨shaped_of_rendered hr, objectInputs_of_rendered hr⟩, hi⟩

theorem exists_rendered (hs : message.Shaped) (ho : message.ObjectInputs)
    (hd : ∀ block ∈ message.blocks, block.Decodes media) : ∃ out, Rendered media message out := by
  cases hs
  case assistant texts uses hrole hne hb hv =>
    refine ⟨_, .assistant hrole hne hb fun use hm => ⟨hv use hm, ho use ?_⟩⟩
    rw [hb]
    exact List.mem_append_right _ (List.mem_map_of_mem hm)
  case user results others hrole hne hb hc =>
    rw [hb] at hd
    have htools : ∀ result ∈ results, ∃ tool, resultMessage media result = .ok tool := by
      intro result hm
      obtain ⟨content, hr⟩ := hd (.toolResult result)
        (List.mem_append_left _ (List.mem_map_of_mem hm))
      exact ⟨_, bind_eq_ok.mpr ⟨content, hr, rfl⟩⟩
    obtain ⟨tools, hf⟩ := exists_forall₂ htools
    obtain ⟨parts, hf'⟩ := exists_forall₂ fun block hm =>
      exists_contentPart (hd block (List.mem_append_right _ hm)) (hc block hm)
    exact ⟨_, .user hrole hne hb hf hf'⟩

-- With media that can be read, the grammar is what is translated.
theorem grammar_iff (hd : ∀ message ∈ messages, ∀ block ∈ message.blocks, block.Decodes media) :
    Grammar messages ∧ (∀ message ∈ messages, message.ObjectInputs) ↔
      (∃ outs, messages.Forall₂ (Rendered media) outs) ∧ Paired [] messages ∧
      Fresh [] (messages.flatMap Message.useIds) := by
  rw [paired_iff]
  constructor
  case mp =>
    rintro ⟨h, ho⟩
    refine ⟨exists_forall₂ fun message hm =>
        exists_rendered (h.shaped message hm) (ho message hm) (hd message hm),
      ⟨fun _ => rfl, fun message hm => ?_, h.answered, h.closes⟩, h.fresh, by simp⟩
    rw [h.opens message hm]
  case mpr =>
    rintro ⟨⟨outs, hf⟩, ⟨-, hopens, hchain, hcloses⟩, hfresh⟩
    have hs := shaped_of_forall₂ hf
    exact ⟨⟨fun message hm => (hs message hm).left, hfresh.left,
        fun message hm => (hopens message hm).eq_nil, hchain, hcloses⟩,
      fun message hm => (hs message hm).right⟩

-- What the results for some calls are followed by is no result.
def Answers (ids : List String) (out : List ChatMessage) : Prop :=
  ∃ tools rest, out = tools ++ rest ∧ (tools.map ChatMessage.toolCallId).Perm (ids.map some) ∧
    (∀ tool ∈ tools, tool.role = "tool") ∧ ∀ next ∈ rest.head?, next.role ≠ "tool"

def Answered (out : List ChatMessage) : Prop :=
  ∀ before call after calls, out = before ++ call :: after → call.toolCalls = some calls →
    Answers (calls.map ChatCompletionToolCall.id) after

theorem Answered.append {first : List ChatMessage}
    (hn : ∀ message ∈ first, message.toolCalls = none) (h : Answered out) :
    Answered (first ++ out) := by
  induction first
  case nil => exact h
  case cons message first hi =>
    obtain ⟨hh, ht⟩ := List.forall_mem_cons.mp hn
    intro before call after calls he hc
    cases before
    case nil =>
      cases he
      rw [hh] at hc
      nomatch hc
    case cons => exact hi ht _ call after calls (List.cons.inj he).right hc

theorem resultMessage_eq_ok {result : ToolResult} {tool : ChatMessage}
    (h : resultMessage media result = .ok tool) :
    tool.toolCallId = some result.toolUseId ∧ tool.role = "tool" ∧ tool.toolCalls = none := by
  obtain ⟨content, -, he⟩ := bind_eq_ok.mp h
  cases he
  exact ⟨rfl, rfl, rfl⟩

theorem resultMessages {results : List ToolResult} {tools : List ChatMessage}
    (h : results.Forall₂ (fun result tool => resultMessage media result = .ok tool) tools) :
    tools.map ChatMessage.toolCallId = (results.map ToolResult.toolUseId).map some ∧
      ∀ tool ∈ tools, tool.role = "tool" ∧ tool.toolCalls = none := by
  induction h
  case nil => simp
  case cons hr _ hi =>
    obtain ⟨hid, hrole⟩ := resultMessage_eq_ok hr
    refine ⟨?_, List.forall_mem_cons.mpr ⟨hrole, hi.right⟩⟩
    rw [List.map_cons, List.map_cons, List.map_cons, hid, hi.left]

theorem answered_flatten {outs : List (List ChatMessage)}
    (hf : messages.Forall₂ (Rendered media) outs) (hp : Paired pending messages) :
    Answered outs.flatten ∧ Answers pending outs.flatten := by
  induction hf generalizing pending
  case nil =>
    cases hp
    refine ⟨fun before call after calls he _ => ?_, [], [], rfl, .nil, by simp, by simp⟩
    simp at he
  case cons message first messages outs hr _ hi =>
    obtain ⟨hperm, hpaired⟩ := hp
    obtain ⟨hanswered, htools⟩ := hi hpaired
    rw [List.flatten_cons]
    cases hr
    case assistant texts uses hrole hne hb hv =>
      rw [resultIds_assistant hb] at hperm
      cases hperm.nil_eq
      rw [useIds_assistant hb] at htools
      refine ⟨fun before call after calls he hc => ?_, [], _, rfl, .nil, by simp, by simp⟩
      cases before
      case cons => exact hanswered _ call after calls (List.cons.inj he).right hc
      case nil =>
        cases he
        simp only [Option.ite_none_left_eq_some, Option.some.injEq] at hc
        obtain ⟨-, rfl⟩ := hc
        rw [List.map_map]
        exact htools
    case user results others tools parts hrole hne hb hf hf' =>
      have hc := isContent_of_forall₂ hf'
      rw [resultIds_user hb hc] at hperm
      rw [useIds_user hb hc] at htools
      obtain ⟨hids, hroles⟩ := resultMessages hf
      refine ⟨hanswered.append ?_, tools, _, List.append_assoc .., hids ▸ hperm.map some,
        fun tool hm => (hroles tool hm).left, ?_⟩
      · intro message hm
        obtain hm | hm := List.mem_append.mp hm
        · exact (hroles message hm).right
        · split at hm
          case isTrue  => nomatch hm
          case isFalse =>
            cases List.mem_singleton.mp hm
            rfl
      · intro next hnext
        split at hnext
        case isFalse =>
          cases hnext
          simp
        case isTrue =>
          obtain ⟨none, rest, he, hz, -, hn⟩ := htools
          cases List.map_eq_nil_iff.mp hz.eq_nil
          exact hn next (by rwa [he] at hnext)

end Runs

section Requests

variable {request : MessagesRequest}

def MessagesRequest.systemMessage (request : MessagesRequest) : List ChatMessage :=
  (request.system.map fun system => textMessage "system" system.intoText).toList

theorem MessagesRequest.systemMessage_toolCalls :
    ∀ message ∈ request.systemMessage, message.toolCalls = none := by
  intro message hm
  cases hs : request.system
  case none => simp [systemMessage, hs] at hm
  case some system =>
    simp only [systemMessage, hs, Option.map_some, Option.toList_some, List.mem_singleton] at hm
    rw [hm, textMessage]

theorem translate_eq_ok (hm : Backend.trim request.model.toList ≠ []) (ht : request.maxTokens ≠ 0)
    (ho : request.others = .ok ()) :
    translate media request = .ok out ↔ request.messages ≠ [] ∧ request.messages.length ≤ 100000 ∧
      ∃ outs, request.messages.Forall₂ (Rendered media) outs ∧ Paired [] request.messages ∧
        Fresh [] (request.messages.flatMap Message.useIds) ∧
        out = request.systemMessage ++ outs.flatten := by
  simp only [translate, ensure_bind_eq_ok, List.isEmpty_iff]
  constructor
  case mp =>
    rintro ⟨⟨-, -, hne⟩, hlen, h⟩
    obtain ⟨-, -, h⟩ := bind_eq_ok.mp h
    obtain ⟨history, hfold, h⟩ := bind_eq_ok.mp h
    obtain ⟨hp, h⟩ := ensure_bind_eq_ok.mp h
    cases h
    exact ⟨hne, hlen, foldlM_translateMessage.mp ⟨history, hfold, hp, rfl⟩⟩
  case mpr =>
    rintro ⟨hne, hlen, h⟩
    have hrun : ∃ history, request.messages.foldlM (translateMessage media)
        { messages := request.systemMessage } = .ok history ∧ history.pending = [] ∧
          history.messages = out := foldlM_translateMessage.mpr h
    obtain ⟨history, hfold, hp, rfl⟩ := hrun
    exact ⟨⟨hm, ht, hne⟩, hlen, bind_eq_ok.mpr ⟨(), ho,
      bind_eq_ok.mpr ⟨history, hfold, ensure_bind_eq_ok.mpr ⟨hp, rfl⟩⟩⟩⟩

theorem translate_iff (hm : Backend.trim request.model.toList ≠ []) (ht : request.maxTokens ≠ 0)
    (ho : request.others = .ok ())
    (hd : ∀ message ∈ request.messages, ∀ block ∈ message.blocks, block.Decodes media) :
    ((∃ out, translate media request = .ok out) ↔ request.messages ≠ [] ∧
      request.messages.length ≤ 100000 ∧ Grammar request.messages ∧
      ∀ message ∈ request.messages, message.ObjectInputs) ∧
    ∀ out, translate media request = .ok out → (∃ outs,
      request.messages.Forall₂ (Rendered media) outs ∧
      out = request.systemMessage ++ outs.flatten) ∧ Answered out := by
  refine ⟨?_, fun out h => ?_⟩
  · rw [grammar_iff hd]
    constructor
    case mp =>
      rintro ⟨out, h⟩
      obtain ⟨hne, hlen, outs, hf, hp, hfresh, -⟩ := (translate_eq_ok hm ht ho).mp h
      exact ⟨hne, hlen, ⟨outs, hf⟩, hp, hfresh⟩
    case mpr =>
      rintro ⟨hne, hlen, ⟨outs, hf⟩, hp, hfresh⟩
      exact ⟨_, (translate_eq_ok hm ht ho).mpr ⟨hne, hlen, outs, hf, hp, hfresh, rfl⟩⟩
  · obtain ⟨-, -, outs, hf, hp, -, rfl⟩ := (translate_eq_ok hm ht ho).mp h
    exact ⟨⟨outs, hf, rfl⟩,
      (answered_flatten hf hp).left.append MessagesRequest.systemMessage_toolCalls⟩

def skyMedia : Media where
  decode _      := none
  parseUri url  := if url = "https://sky/now.png" then some (some "https", some "sky") else none
  print _       := "\x7b\x7d"

-- The input is what the assistant calls its tool with.
def skyRequest (input : Json) : MessagesRequest where
  model     := "m"
  maxTokens := 1
  system    := some (.text "Be short.")
  others    := .ok ()
  messages  := [{
    role    := "user"
    content := .blocks [.text "Does it rain?", .image (.url "https://sky/now.png")]
  }, {
    role    := "assistant"
    content := .blocks [.text "I look.", .toolUse { id := "1", name := "look", input }]
  }, {
    role    := "user"
    content := .blocks [
      .toolResult { toolUseId := "1", content := some (.text "no"), isError := false },
      .text "Does it snow?"
    ]
  }]

theorem decodes_skyRequest (input : Json) : ∀ message ∈ (skyRequest input).messages,
    ∀ block ∈ message.blocks, block.Decodes skyMedia := by
  simp only [skyRequest, List.forall_mem_cons, Message.blocks, Content.toBlocks]
  exact ⟨⟨trivial, ⟨_, rfl⟩, by simp⟩, ⟨trivial, trivial, by simp⟩, ⟨⟨_, rfl⟩, trivial, by simp⟩,
    by simp⟩

theorem grammar_skyRequest (input : Json) : Grammar (skyRequest input).messages where
  shaped := by
    have named : validName "look".toList ∧ validName "1".toList := by decide
    simp only [skyRequest, List.forall_mem_cons]
    refine ⟨?_, ?_, ?_, by simp⟩
    case refine_1 =>
      refine @Message.Shaped.user _ [] _ rfl ?_ rfl ?_
      · simp [Message.blocks, Content.toBlocks]
      · simp [Block.isContent, Block.use?, Block.result?]
    case refine_2 =>
      refine @Message.Shaped.assistant _ ["I look."] [_] rfl ?_ rfl ?_
      · simp [Message.blocks, Content.toBlocks]
      · exact List.forall_mem_singleton.mpr named
    case refine_3 =>
      refine @Message.Shaped.user _ [_] [.text _] rfl ?_ rfl ?_
      · simp [Message.blocks, Content.toBlocks]
      · simp [Block.isContent, Block.use?, Block.result?]
  fresh    := List.nodup_singleton "1"
  opens    := by simp [skyRequest, Message.resultIds, Message.blocks, Content.toBlocks,
    Block.result?]
  answered := .cons_cons (by exact .nil) (.cons_cons (by exact .refl ["1"]) (.singleton _))
  closes   := by simp [skyRequest, Message.useIds, Message.blocks, Content.toBlocks, Block.use?]

theorem translate_iff_sky :
    ∃ out, translate skyMedia (skyRequest (.object [])) = .ok out ∧ Answered out := by
  have ho : ∀ message ∈ (skyRequest (.object [])).messages, message.ObjectInputs := by
    simp [skyRequest, Message.ObjectInputs, Message.blocks, Content.toBlocks, Json.isObject]
  obtain ⟨hi, ha⟩ := translate_iff (by decide) (by decide) rfl (decodes_skyRequest (.object []))
  obtain ⟨out, h⟩ := hi.mpr ⟨by simp [skyRequest], by simp [skyRequest], grammar_skyRequest _, ho⟩
  exact ⟨out, h, (ha out h).right⟩

theorem grammar_nil : Grammar [] where
  shaped   := by simp
  fresh    := .nil
  opens    := by simp
  answered := .nil
  closes   := by simp

-- An input that is no object is rejected where all else is in order, and so is no history at all.
theorem not_translated_null : (Grammar (skyRequest .null).messages ∧
    (∀ message ∈ (skyRequest .null).messages, ∀ block ∈ message.blocks, block.Decodes skyMedia) ∧
    translate skyMedia (skyRequest .null) =
      .error "tool_use requires assistant role, valid id/name and object input") ∧ Grammar [] ∧
    translate skyMedia { skyRequest .null with messages := [] } =
      .error "model, nonempty messages and positive max_tokens are required" :=
  ⟨⟨grammar_skyRequest .null, decodes_skyRequest .null, rfl⟩, grammar_nil, rfl⟩

end Requests

end Api.Anthropic.Request
