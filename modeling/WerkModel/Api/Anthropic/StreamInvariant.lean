import WerkModel.Api.Anthropic.StreamBlocks

-- What a stream has published of the tools that it has received.
open Backend Checks

namespace Api.Anthropic

variable {isObject : List Char → Bool}

-- A block that carries a tool.
structure Block.Carries (id name arguments : List Char) (block : Block) : Prop where
  kind   : block.kind = .toolUse id name
  deltas : ∃ fragments : List (List Char), block.deltas = fragments.map .inputJson ∧
    fragments.flatten = arguments

structure Tool.Unopened (tool : Tool) : Prop where
  outputIndex : tool.outputIndex = none
  emitted     : tool.emitted = 0
  closed      : tool.closed = false

structure Tool.Opened (id : List Char) (index : Nat) (block : Block) (tool : Tool) : Prop where
  outputIndex : tool.outputIndex = some index
  closed      : tool.closed = false
  emitted     : tool.emitted ≤ tool.arguments.length
  carries     : block.Carries id tool.name (tool.arguments.take tool.emitted)

-- A tool is closed when its arguments are an object, to which only whitespace is added. At the end
-- all of the tools are closed.
structure Tool.Closed (isObject : List Char → Bool) (final : Bool) (id : List Char) (block : Block)
    (tool : Tool) : Prop where
  outputIndex : tool.outputIndex ≠ none
  closed      : tool.closed = true
  carries     : ∃ arguments blank, tool.arguments = arguments ++ blank ∧ Blank blank ∧
    block.Carries id tool.name arguments ∧ (isObject arguments = true ∨ final = true ∧ blank = [])

-- What a delta may change of a tool.
structure Tool.Grows (tool tool' : Tool) : Prop where
  outputIndex : tool'.outputIndex = tool.outputIndex
  emitted     : tool'.emitted = tool.emitted
  closed      : tool'.closed = tool.closed
  name        : tool.outputIndex ≠ none → tool'.name = tool.name
  arguments   : ∃ added, tool'.arguments = tool.arguments ++ added ∧
    (tool.closed = true → Blank added)

namespace Tool

variable {tool tool' : Tool} {id : List Char} {index : Nat} {block : Block}

theorem Grows.refl (tool : Tool) : tool.Grows tool :=
  ⟨rfl, rfl, rfl, fun _ => rfl, [], (List.append_nil _).symm, fun _ => nofun⟩

theorem Unopened.grow (hu : tool.Unopened) (hg : tool.Grows tool') : tool'.Unopened :=
  ⟨hg.outputIndex.trans hu.outputIndex, hg.emitted.trans hu.emitted, hg.closed.trans hu.closed⟩

theorem Opened.grow (ho : tool.Opened id index block) (hg : tool.Grows tool') :
    tool'.Opened id index block := by
  obtain ⟨added, ha, _⟩ := hg.arguments
  have hc := ho.carries
  refine ⟨hg.outputIndex.trans ho.outputIndex, hg.closed.trans ho.closed, ?_, ?_⟩
  · rw [hg.emitted, ha, List.length_append]
    exact Nat.le_add_right_of_le ho.emitted
  · rwa [hg.emitted, ha, List.take_append_of_le_length ho.emitted,
      hg.name (by simp [ho.outputIndex])]

theorem Closed.grow (hc : tool.Closed isObject false id block) (hg : tool.Grows tool') :
    tool'.Closed isObject false id block := by
  obtain ⟨added, ha, hb⟩ := hg.arguments
  obtain ⟨arguments, blank, he, hb', hd, hi⟩ := hc.carries
  have hi : isObject arguments = true := hi.resolve_right fun h => nomatch h.left
  refine ⟨by rw [hg.outputIndex]; exact hc.outputIndex, hg.closed.trans hc.closed, arguments,
    blank ++ added, ?_, ?_, ?_, .inl hi⟩
  · rw [ha, he, List.append_assoc]
  · exact fun c hm => (List.mem_append.mp hm).elim (hb' c) (hb hc.closed c)
  · rwa [hg.name hc.outputIndex]

-- At the end less is asked of a tool.
theorem Closed.mono {final : Bool} (hc : tool.Closed isObject false id block) :
    tool.Closed isObject final id block := by
  obtain ⟨arguments, blank, he, hb, hd, hi⟩ := hc.carries
  exact ⟨hc.outputIndex, hc.closed, arguments, blank, he, hb, hd,
    .inl (hi.resolve_right fun h => nomatch h.left)⟩

end Tool

-- The block of the text.
inductive TextBlocks : List Char → List Block → Prop
  | none : TextBlocks [] []
  | text {chunks : List (List Char)} : chunks.flatten ≠ [] →
    TextBlocks chunks.flatten [{ kind := .text, deltas := chunks.map .text }]

theorem TextBlocks.eq_nil {texts : List Block} (h : TextBlocks [] texts) : texts = [] := by
  generalize he : ([] : List Char) = text at h
  cases h
  case none    => rfl
  case text hn => exact absurd he.symm hn

namespace Messages

variable {messages next : Messages} {key : Nat} {shown : List Event} {text : List Char}
variable {done rest : List Nat} {closed : List Block} {current : Option Block} {final : Bool}

-- The tool that is published at the moment, and those that wait for it.
inductive Front (messages : Messages) (index : Nat) : Option Block → List Nat → Prop
  | idle {waiting : List Nat} : (∀ key ∈ waiting, (messages.tool key).Unopened) →
    Front messages index none waiting
  | busy {block : Block} {tool : Nat} {waiting : List Nat} :
    (messages.tool tool).Opened (toolId messages.messageId index) index block →
    (∀ key ∈ waiting, (messages.tool key).Unopened) →
    Front messages index (some block) (tool :: waiting)

-- The blocks of the text and of the tools that are done.
def Rendered (isObject : List Char → Bool) (final : Bool) (text : List Char) (done : List Nat)
    (closed : List Block) (messages : Messages) : Prop :=
  ∃ texts blocks, closed = texts ++ blocks ∧ TextBlocks text texts ∧
    List.Forall₂ (fun tool block =>
      (messages.tool tool.1).Closed isObject final (toolId messages.messageId tool.2) block)
      (done.zipIdx texts.length) blocks

-- The tools are published one after the other, once the text is complete.
structure Layout (isObject : List Char → Bool) (final : Bool) (shown : List Event)
    (text : List Char) (done rest : List Nat) (closed : List Block) (current : Option Block)
    (messages : Messages) : Prop where
  log        : shown ++ messages.queue =
    unfinished messages.messageId messages.model closed current
  textClosed : messages.textClosed = messages.textStarted
  mem        : ∀ key, key ∈ messages.tools ↔ key ∈ messages.toolOrder
  order      : messages.toolOrder = done ++ rest
  nodup      : messages.toolOrder.Nodup
  rendered   : Rendered isObject final text done closed messages
  front      : Front messages closed.length current rest
  nextIndex  : messages.nextIndex = closed.length + current.elim 0 fun _ => 1

-- The text is not complete, so that all tools wait for it.
structure Writing (shown : List Event) (text : List Char) (messages : Messages) : Prop where
  log         : ∃ chunks : List (List Char), chunks.flatten = text ∧ shown ++ messages.queue =
    unfinished messages.messageId messages.model []
      (some { kind := .text, deltas := chunks.map .text })
  text        : text ≠ []
  textStarted : messages.textStarted = true
  textClosed  : messages.textClosed = false
  mem         : ∀ key, key ∈ messages.tools ↔ key ∈ messages.toolOrder
  nodup       : messages.toolOrder.Nodup
  waiting     : ∀ key ∈ messages.toolOrder, (messages.tool key).Unopened
  nextIndex   : messages.nextIndex = 1

-- What never changes.
structure Fixed (messages next : Messages) : Prop where
  model       : next.model = messages.model
  requestId   : next.requestId = messages.requestId
  messageId   : next.messageId = messages.messageId
  toolNames   : next.toolNames = messages.toolNames
  matchedStop : next.matchedStop = messages.matchedStop

theorem Fixed.refl (messages : Messages) : Fixed messages messages :=
  ⟨rfl, rfl, rfl, rfl, rfl⟩

theorem Fixed.trans {messages₁ messages₂ messages₃ : Messages} (h₁ : Fixed messages₁ messages₂)
    (h₂ : Fixed messages₂ messages₃) : Fixed messages₁ messages₃ where
  model       := h₂.model.trans h₁.model
  requestId   := h₂.requestId.trans h₁.requestId
  messageId   := h₂.messageId.trans h₁.messageId
  toolNames   := h₂.toolNames.trans h₁.toolNames
  matchedStop := h₂.matchedStop.trans h₁.matchedStop

-- What does not change when tools are published.
structure Frame (messages next : Messages) : Prop extends Fixed messages next where
  toolOrder   : next.toolOrder = messages.toolOrder
  bytes       : next.bytes = messages.bytes
  size        : next.tools.size = messages.tools.size
  textStarted : next.textStarted = messages.textStarted
  toolStarted : next.toolStarted = messages.toolStarted
  id          : ∀ key, (next.tool key).id = (messages.tool key).id
  name        : ∀ key, (next.tool key).name = (messages.tool key).name
  arguments   : ∀ key, (next.tool key).arguments = (messages.tool key).arguments

theorem Frame.refl (messages : Messages) : Frame messages messages :=
  ⟨.refl messages, rfl, rfl, rfl, rfl, rfl, fun _ => rfl, fun _ => rfl, fun _ => rfl⟩

theorem Frame.trans {messages₁ messages₂ messages₃ : Messages} (h₁ : Frame messages₁ messages₂)
    (h₂ : Frame messages₂ messages₃) : Frame messages₁ messages₃ where
  toFixed       := h₁.toFixed.trans h₂.toFixed
  toolOrder     := h₂.toolOrder.trans h₁.toolOrder
  bytes         := h₂.bytes.trans h₁.bytes
  size          := h₂.size.trans h₁.size
  textStarted   := h₂.textStarted.trans h₁.textStarted
  toolStarted   := h₂.toolStarted.trans h₁.toolStarted
  id key        := (h₂.id key).trans (h₁.id key)
  name key      := (h₂.name key).trans (h₁.name key)
  arguments key := (h₂.arguments key).trans (h₁.arguments key)

@[simp]
theorem tool_push (event : Event) (key : Nat) : (messages.push event).tool key = messages.tool key :=
  rfl

theorem tool_setTool (tool : Tool) (i : Nat) :
    (messages.setTool key tool).tool i = if key = i then tool else messages.tool i := by
  rw [Messages.tool, setTool, Std.ExtTreeMap.getElem?_insert]
  by_cases h : key = i
  case pos => simp [h]
  case neg => simp [h, Messages.tool]

@[simp]
theorem tool_setTool_self (tool : Tool) : (messages.setTool key tool).tool key = tool := by
  rw [tool_setTool, if_pos rfl]

theorem tool_setTool_of_ne {i : Nat} (tool : Tool) (h : i ≠ key) :
    (messages.setTool key tool).tool i = messages.tool i := by
  rw [tool_setTool, if_neg h.symm]

-- An update of the progress of a tool.
theorem Frame.setTool {tool : Tool} (hm : key ∈ messages.tools)
    (hi : tool.id = (messages.tool key).id) (hn : tool.name = (messages.tool key).name)
    (ha : tool.arguments = (messages.tool key).arguments) :
    Frame messages (messages.setTool key tool) := by
  have ht {α : Type} (f : Tool → α) (h : f tool = f (messages.tool key)) (i : Nat) :
      f ((messages.setTool key tool).tool i) = f (messages.tool i) := by
    rw [tool_setTool]
    split
    case isTrue he => rw [h, he]
    case isFalse   => rfl
  exact {
    toFixed     := ⟨rfl, rfl, rfl, rfl, rfl⟩
    toolOrder   := rfl
    bytes       := rfl
    size        := by simp [Messages.setTool, Std.ExtTreeMap.size_insert, hm]
    textStarted := rfl
    toolStarted := rfl
    id          := ht Tool.id hi
    name        := ht Tool.name hn
    arguments   := ht Tool.arguments ha
  }

section Layout

variable (hl : Layout isObject final shown text done rest closed current messages)
include hl

theorem Layout.not_mem_done (hk : key ∈ rest) : key ∉ done := by
  have hn := hl.nodup
  rw [hl.order] at hn
  exact fun hd => List.disjoint_of_nodup_append hn hd hk

theorem Layout.mem_of_mem_rest (hk : key ∈ rest) : key ∈ messages.tools := by
  rw [hl.mem, hl.order]
  exact List.mem_append_right _ hk

-- What is rendered only depends on the tools that are done.
theorem Layout.rendered_of_eq (hi : next.messageId = messages.messageId)
    (ht : ∀ key ∈ done, next.tool key = messages.tool key) :
    Rendered isObject final text done closed next := by
  obtain ⟨texts, blocks, hc, hb, hf⟩ := hl.rendered
  refine ⟨texts, blocks, hc, hb, ?_⟩
  have hd : ∀ tool ∈ done.zipIdx texts.length, tool.1 ∈ done := fun tool ht =>
    List.fst_mem_of_mem_zipIdx ht
  refine ((List.forall₂_and_left ..).mpr ⟨hd, hf⟩).imp fun tool block ⟨hm, h⟩ => ?_
  rwa [ht tool.1 hm, hi]

end Layout

theorem closeText_of_layout
    (hl : Layout isObject final shown text done rest closed current messages) :
    messages.closeText = messages := by
  rw [closeText, if_neg]
  rintro ⟨hs, hc⟩
  exact absurd (hl.textClosed.trans hs) (by simp [hc])

theorem openTool_eq_ok : messages.openTool key = .ok next ↔
    (messages.toolNames = [] ∨ (messages.tool key).name ∈ messages.toolNames) ∧
    validName (messages.tool key).name ∧
    next = { messages.closeText.push (.contentBlockStart messages.closeText.nextIndex
      (.toolUse (toolId messages.closeText.messageId messages.closeText.nextIndex)
        (messages.tool key).name)) with
      nextIndex := messages.closeText.nextIndex + 1 }.setTool key
        { messages.closeText.tool key with outputIndex := some messages.closeText.nextIndex } := by
  rw [openTool]
  simp only [ensure_bind_eq_ok, pure, Except.pure, Except.ok.injEq, eq_comm (b := next)]
  rfl

-- A step in the publication of a tool.
def advance (messages : Messages) (key : Nat) (tool : Tool) (events : List Event)
    (nextIndex : Nat) : Messages :=
  { messages.setTool key tool with queue := messages.queue ++ events, nextIndex }

section Advance

variable {tool : Tool} {events : List Event} {nextIndex : Nat}

theorem tool_advance_self : (messages.advance key tool events nextIndex).tool key = tool :=
  tool_setTool_self tool

theorem tool_advance_of_ne {i : Nat} (h : i ≠ key) :
    (messages.advance key tool events nextIndex).tool i = messages.tool i :=
  tool_setTool_of_ne tool h

theorem Frame.advance (hm : key ∈ messages.tools) (hi : tool.id = (messages.tool key).id)
    (hn : tool.name = (messages.tool key).name)
    (ha : tool.arguments = (messages.tool key).arguments) :
    Frame messages (messages.advance key tool events nextIndex) := by
  have h := Frame.setTool hm hi hn ha
  exact { h with }

theorem Layout.advance {done' rest' : List Nat} {closed' : List Block} {current' : Option Block}
    (hl : Layout isObject final shown text done rest closed current messages) (hk : key ∈ rest)
    (ho : done' ++ rest' = done ++ rest)
    (he : blockEvents closed current ++ events = blockEvents closed' current')
    (hb : Rendered isObject final text done' closed'
      (messages.advance key tool events nextIndex))
    (hf : Front (messages.advance key tool events nextIndex) closed'.length current' rest')
    (hn : nextIndex = closed'.length + current'.elim 0 fun _ => 1) :
    Layout isObject final shown text done' rest' closed' current'
      (messages.advance key tool events nextIndex) where
  log        := by
    change shown ++ (messages.queue ++ events) = unfinished messages.messageId messages.model _ _
    rw [←List.append_assoc, hl.log, unfinished, unfinished, ←he]
    rfl
  textClosed := hl.textClosed
  mem        := by
    intro i
    change i ∈ messages.tools.insert key tool ↔ i ∈ messages.toolOrder
    rw [Std.ExtTreeMap.mem_insert, ←hl.mem, Std.LawfulEqCmp.compare_eq_iff_eq]
    exact ⟨fun h => h.elim (fun h => h ▸ hl.mem_of_mem_rest hk) id, .inr⟩
  order      := hl.order.trans ho.symm
  nodup      := hl.nodup
  rendered   := hb
  front      := hf
  nextIndex  := hn

end Advance

theorem Layout.not_mem_tail (hl : Layout isObject final shown text done (key :: rest) closed current
    messages) : key ∉ rest := by
  have hn := hl.nodup
  rw [hl.order] at hn
  exact (List.nodup_cons.mp (List.Nodup.of_append_right hn)).left

theorem Layout.rendered_advance {tool : Tool} {events : List Event} {nextIndex : Nat}
    (hl : Layout isObject final shown text done rest closed current messages) (hk : key ∈ rest) :
    Rendered isObject final text done closed (messages.advance key tool events nextIndex) := by
  refine hl.rendered_of_eq ?_ fun i hd => ?_
  · rfl
  · exact tool_advance_of_ne (ne_of_mem_of_not_mem hd (hl.not_mem_done hk))

theorem openTool_layout
    (hl : Layout isObject final shown text done (key :: rest) closed none messages)
    (h : messages.openTool key = .ok next) :
    Frame messages next ∧ ∃ block,
      Layout isObject final shown text done (key :: rest) closed (some block) next := by
  obtain ⟨_, _, he⟩ := openTool_eq_ok.mp h
  have hk := List.mem_cons_self (a := key) (l := rest)
  have hi : messages.nextIndex = closed.length := hl.nextIndex
  rw [closeText_of_layout hl, hi] at he
  have he : next = messages.advance key
      { messages.tool key with outputIndex := some closed.length }
      [.contentBlockStart closed.length (.toolUse (toolId messages.messageId closed.length)
        (messages.tool key).name)] (closed.length + 1) := he
  rw [he]
  cases hl.front
  case idle hu =>
    have hu' := hu key hk
    refine ⟨.advance (hl.mem_of_mem_rest hk) rfl rfl rfl, _, hl.advance hk rfl
      (blockEvents_open _) (hl.rendered_advance hk) (.busy ?_ fun i hi => ?_) rfl⟩
    · rw [tool_advance_self]
      exact ⟨rfl, hu'.closed, by simp [hu'.emitted], rfl, [], rfl, by simp [hu'.emitted]⟩
    · rw [tool_advance_of_ne (ne_of_mem_of_not_mem hi hl.not_mem_tail)]
      exact hu i (List.mem_cons_of_mem _ hi)

theorem emitArguments_layout {block : Block}
    (hl : Layout isObject final shown text done (key :: rest) closed (some block) messages) :
    Frame messages (messages.emitArguments key) ∧
    ((messages.emitArguments key).tool key).emitted =
      ((messages.emitArguments key).tool key).arguments.length ∧
    ∃ block, Layout isObject final shown text done (key :: rest) closed (some block)
      (messages.emitArguments key) := by
  have hk := List.mem_cons_self (a := key) (l := rest)
  have hi : messages.nextIndex = closed.length + 1 := hl.nextIndex
  cases hl.front
  case busy ho hu =>
    let tool := { messages.tool key with emitted := (messages.tool key).arguments.length }
    let fragment := (messages.tool key).arguments.drop (messages.tool key).emitted
    have hx : (messages.tool key).outputIndex.getD 0 = closed.length := by rw [ho.outputIndex]; rfl
    by_cases hf : fragment = []
    case pos =>
      have he : messages.emitArguments key = messages.advance key tool [] (closed.length + 1) := by
        rw [emitArguments, if_pos hf, advance, List.append_nil, ←hi]
        rfl
      have hd := List.drop_eq_nil_iff.mp hf
      rw [he]
      refine ⟨.advance (hl.mem_of_mem_rest hk) rfl rfl rfl, by rw [tool_advance_self], block,
        hl.advance hk rfl (List.append_nil _) (hl.rendered_advance hk) (.busy ?_ fun i hi => ?_) rfl⟩
      · have hc := ho.carries
        rw [List.take_of_length_le hd] at hc
        rw [tool_advance_self]
        exact ⟨ho.outputIndex, ho.closed, Nat.le_refl _, by rwa [List.take_length]⟩
      · rw [tool_advance_of_ne (ne_of_mem_of_not_mem hi hl.not_mem_tail)]
        exact hu i hi
    case neg =>
      have he : messages.emitArguments key = messages.advance key tool
          [.contentBlockDelta closed.length (.inputJson fragment)] (closed.length + 1) := by
        rw [emitArguments, if_neg hf, hx, ←hi]
        rfl
      rw [he]
      refine ⟨.advance (hl.mem_of_mem_rest hk) rfl rfl rfl, by rw [tool_advance_self], _,
        hl.advance hk rfl (blockEvents_fill _) (hl.rendered_advance hk) (.busy ?_ fun i hi => ?_) rfl⟩
      · obtain ⟨hn, fragments, hd, hs⟩ := ho.carries
        rw [tool_advance_self]
        refine ⟨ho.outputIndex, ho.closed, Nat.le_refl _, hn, fragments ++ [fragment], ?_, ?_⟩
        · rw [hd, List.map_append, List.map_singleton]
        · rw [List.flatten_append, hs, List.take_length, List.flatten_singleton,
            List.take_append_drop]
      · rw [tool_advance_of_ne (ne_of_mem_of_not_mem hi hl.not_mem_tail)]
        exact hu i hi

theorem closeTool_layout {block : Block}
    (hl : Layout isObject final shown text done (key :: rest) closed (some block) messages)
    (he : (messages.tool key).emitted = (messages.tool key).arguments.length)
    (hc : isObject (messages.tool key).arguments = true ∨ final = true) :
    Frame messages (messages.closeTool key) ∧
    Layout isObject final shown text (done ++ [key]) rest (closed ++ [block]) none
      (messages.closeTool key) := by
  have hk := List.mem_cons_self (a := key) (l := rest)
  have hi : messages.nextIndex = closed.length + 1 := hl.nextIndex
  cases hl.front
  case busy ho hu =>
    have hx : (messages.tool key).outputIndex.getD 0 = closed.length := by rw [ho.outputIndex]; rfl
    have he' : messages.closeTool key = messages.advance key
        { messages.tool key with closed := true } [.contentBlockStop closed.length]
        (closed.length + 1) := by
      rw [closeTool, hx, ←hi]
      rfl
    rw [he']
    refine ⟨.advance (hl.mem_of_mem_rest hk) rfl rfl rfl, hl.advance hk (List.append_cons ..).symm
      blockEvents_close ?_ (.idle fun i hi => ?_) (by simp)⟩
    · obtain ⟨texts, blocks, hb, ht, hf⟩ := hl.rendered_advance hk
      refine ⟨texts, blocks ++ [block], by rw [hb, List.append_assoc], ht, ?_⟩
      have hlen : closed.length = texts.length + done.length := by
        rw [hb, List.length_append, ←hf.length_eq, List.length_zipIdx]
      have hcar := ho.carries
      rw [he, List.take_length, hlen] at hcar
      rw [List.zipIdx_append]
      refine List.rel_append hf (.cons ?_ .nil)
      rw [tool_advance_self]
      exact ⟨by simp [ho.outputIndex], rfl, (messages.tool key).arguments, [],
        (List.append_nil _).symm, nofun, hcar, hc.imp_right fun h => ⟨h, rfl⟩⟩
    · rw [tool_advance_of_ne (ne_of_mem_of_not_mem hi hl.not_mem_tail)]
      exact hu i hi

theorem Frame.closeText (messages : Messages) : Frame messages messages.closeText := by
  rw [Messages.closeText]
  split
  case isTrue  => exact { Frame.refl messages with }
  case isFalse => exact .refl messages

theorem closeText_layout (final : Bool) (hw : Writing shown text messages) : ∃ closed,
    Layout isObject final shown text [] messages.toolOrder closed none messages.closeText := by
  obtain ⟨chunks, hc, hlog⟩ := hw.log
  rw [closeText, if_pos ⟨hw.textStarted, hw.textClosed⟩]
  refine ⟨[{ kind := .text, deltas := chunks.map .text }], {
    log        := ?_
    textClosed := hw.textStarted.symm
    mem        := hw.mem
    order      := rfl
    nodup      := hw.nodup
    rendered   := ⟨_, [], (List.append_nil _).symm, hc ▸ .text (hc ▸ hw.text), .nil⟩
    front      := .idle hw.waiting
    nextIndex  := hw.nextIndex
  }⟩
  change shown ++ (messages.queue ++ [_]) = _
  rw [←List.append_assoc, hlog]
  exact congrArg (List.cons _) blockEvents_close

theorem openTool_closeText (messages : Messages) (key : Nat) :
    messages.closeText.openTool key = messages.openTool key := by
  have hc : messages.closeText.closeText = messages.closeText := by
    refine if_neg ?_
    rw [closeText]
    split
    case isTrue    => simp
    case isFalse h => exact h
  have hf := Frame.closeText messages
  rw [openTool, openTool, hc, hf.name, hf.toolNames]

-- The tools that are done are passed over.
theorem flushFrom_done (hd : ∀ key ∈ done, (messages.tool key).closed = true) :
    flushFrom isObject final (done ++ rest) messages = flushFrom isObject final rest messages := by
  induction done
  case nil                => rfl
  case cons key done hi =>
    have ⟨hk, hd⟩ := List.forall_mem_cons.mp hd
    rw [List.cons_append, flushFrom, if_pos hk, hi hd]

theorem Rendered.exists_closed (h : Rendered isObject final text done closed messages) (hk : key ∈ done) :
    ∃ id block, (messages.tool key).Closed isObject final id block := by
  obtain ⟨texts, blocks, -, -, hf⟩ := h
  generalize texts.length = index at hf
  induction done generalizing index blocks
  case nil                => nomatch hk
  case cons first done hi =>
    rw [List.zipIdx_cons, List.forall₂_cons_left_iff] at hf
    obtain ⟨block, blocks, hb, hf, _⟩ := hf
    rcases List.mem_cons.mp hk with he | hk
    case inl => exact ⟨_, block, he ▸ hb⟩
    case inr => exact hi hk blocks _ hf

theorem Layout.closed_of_mem_done
    (hl : Layout isObject final shown text done rest closed current messages) :
    ∀ key ∈ done, (messages.tool key).closed = true := by
  intro key hk
  obtain ⟨_, _, h⟩ := hl.rendered.exists_closed hk
  exact h.closed

theorem Front.not_closed {index : Nat} (hf : Front messages index current rest) (hk : key ∈ rest) :
    (messages.tool key).closed = false := by
  cases hf
  case idle hu                      => exact (hu key hk).closed
  case busy block tool waiting ho hu =>
    rcases List.mem_cons.mp hk with rfl | hk
    case inl => exact ho.closed
    case inr => exact (hu key hk).closed

-- Where the loop stands after some of its turns.
def Flushed (isObject : List Char → Bool) (final : Bool) (shown : List Event) (text : List Char)
    (messages next : Messages) : Prop :=
  Frame messages next ∧ ∃ done rest closed current,
    Layout isObject final shown text done rest closed current next ∧ (final = true → rest = [])

theorem flushFrom_busy {keys : List Nat} {block : Block}
    (hi : ∀ {messages done closed}, Layout isObject final shown text done keys closed none messages →
      flushFrom isObject final keys messages = .ok next →
      Flushed isObject final shown text messages next)
    (hl : Layout isObject final shown text done (key :: keys) closed (some block) messages)
    (h : (if argumentsComplete isObject ((messages.emitArguments key).tool key) ∨ final then
      flushFrom isObject final keys ((messages.emitArguments key).closeTool key)
      else .ok (messages.emitArguments key)) = .ok next) :
    Flushed isObject final shown text messages next := by
  obtain ⟨hf, he, block, hl⟩ := emitArguments_layout hl
  split at h
  case isTrue hc =>
    have hc : isObject ((messages.emitArguments key).tool key).arguments = true ∨ final = true := by
      refine hc.imp_left fun hc => ?_
      simp only [argumentsComplete, decide_eq_true_eq] at hc
      exact hc.right
    obtain ⟨hf', hl⟩ := closeTool_layout hl he hc
    obtain ⟨hf'', hr⟩ := hi hl h
    exact ⟨hf.trans (hf'.trans hf''), hr⟩
  case isFalse hc =>
    cases h
    exact ⟨hf, done, key :: keys, closed, some block, hl, fun h => absurd (.inr h) hc⟩

theorem flushFrom_layout
    (hl : Layout isObject final shown text done rest closed current messages)
    (h : flushFrom isObject final rest messages = .ok next) :
    Flushed isObject final shown text messages next := by
  induction rest generalizing messages done closed current
  case nil              =>
    cases h
    exact ⟨.refl _, done, [], closed, current, hl, fun _ => rfl⟩
  case cons key keys hi =>
    rw [flushFrom] at h
    cases hl.front
    case idle hu =>
      have hk := hu key (List.mem_cons_self ..)
      simp only [hk.closed, hk.outputIndex, Bool.false_eq_true, if_false, true_and] at h
      split at h
      case isTrue hn =>
        cases h
        exact ⟨.refl _, done, key :: keys, closed, none, hl, by simp [hn.left]⟩
      case isFalse =>
        obtain ⟨opened, ho, h⟩ := bind_eq_ok.mp h
        rw [openUnlessOpened, if_pos hk.outputIndex] at ho
        obtain ⟨hf, block, hl⟩ := openTool_layout hl ho
        obtain ⟨hf', hr⟩ := flushFrom_busy hi hl h
        exact ⟨hf.trans hf', hr⟩
    case busy block ho hu =>
      simp only [ho.closed, ho.outputIndex, Bool.false_eq_true, if_false, false_and,
        reduceCtorEq] at h
      obtain ⟨_, hn, h⟩ := bind_eq_ok.mp h
      rw [openUnlessOpened, if_neg (by simp [ho.outputIndex])] at hn
      cases hn
      exact flushFrom_busy hi hl h

theorem flushTools_layout
    (hl : Layout isObject final shown text done rest closed current messages)
    (h : messages.flushTools isObject final = .ok next) :
    Flushed isObject final shown text messages next := by
  rw [flushTools, hl.order, flushFrom_done hl.closed_of_mem_done] at h
  exact flushFrom_layout hl h

-- The text is closed when the first tool is opened.
theorem flushTools_writing (hw : Writing shown text messages)
    (h : messages.flushTools isObject false = .ok next) :
    next = messages ∨ messages.toolOrder ≠ [] ∧ Flushed isObject false shown text messages next := by
  rw [flushTools] at h
  cases ho : messages.toolOrder
  case nil =>
    rw [ho] at h
    exact .inl (Except.ok.inj h).symm
  case cons key keys =>
    have hk := hw.waiting key (by simp [ho])
    obtain ⟨closed, hl⟩ := closeText_layout false hw
    rw [ho] at h hl
    have ht : messages.closeText.tool key = messages.tool key := by
      rw [closeText]
      split <;> rfl
    have hr : messages.closeText.nameReady = messages.nameReady := by
      funext name
      rw [nameReady, (Frame.closeText messages).toolNames, nameReady]
    by_cases hn : messages.nameReady (messages.tool key).name = false
    case pos =>
      rw [flushFrom, hk.closed, hk.outputIndex, if_neg nofun, if_pos ⟨rfl, rfl, hn⟩] at h
      exact .inl (Except.ok.inj h).symm
    case neg =>
      have hc : flushFrom isObject false (key :: keys) messages.closeText = .ok next := by
        rw [flushFrom, hk.closed, hk.outputIndex, if_neg nofun, if_neg (by simp [hn])] at h
        rw [flushFrom, ht, hk.closed, hk.outputIndex, hr, if_neg nofun, if_neg (by simp [hn]),
          openUnlessOpened, ht, openTool_closeText, if_pos hk.outputIndex]
        rwa [openUnlessOpened, if_pos hk.outputIndex] at h
      obtain ⟨hf, hr⟩ := flushFrom_layout hl hc
      exact .inr ⟨nofun, (Frame.closeText messages).trans hf, hr⟩

-- What is published between two events.
inductive Phase (isObject : List Char → Bool) (shown : List Event) (text : List Char)
    (messages : Messages) : Prop
  | writing : Writing shown text messages → Phase isObject shown text messages
  | publishing {done rest : List Nat} {closed : List Block} {current : Option Block} :
    Layout isObject false shown text done rest closed current messages →
    (messages.toolOrder = [] → text = []) → Phase isObject shown text messages

theorem Phase.mem (hp : Phase isObject shown text messages) :
    ∀ key, key ∈ messages.tools ↔ key ∈ messages.toolOrder := by
  cases hp
  case writing hw    => exact hw.mem
  case publishing hl _ => exact hl.mem

theorem Phase.flushTools (hp : Phase isObject shown text messages)
    (h : messages.flushTools isObject false = .ok next) :
    Frame messages next ∧ Phase isObject shown text next := by
  have hf {text} (ht : messages.toolOrder = [] → text = [])
      (hf : Flushed isObject false shown text messages next) :
      Frame messages next ∧ Phase isObject shown text next := by
    obtain ⟨hf, done, rest, closed, current, hl, _⟩ := hf
    exact ⟨hf, .publishing hl fun ho => ht (hf.toolOrder ▸ ho)⟩
  cases hp
  case writing hw =>
    rcases flushTools_writing hw h with he | ⟨ho, hr⟩
    case inl =>
      rw [he]
      exact ⟨.refl messages, .writing hw⟩
    case inr => exact hf (absurd · ho) hr
  case publishing hl ht => exact hf ht (flushTools_layout hl h)

theorem toolDelta_eq_ok {delta : ChatCompletionToolCallDelta} :
    messages.toolDelta delta = .ok next ↔
    delta.kind.all (· = "function") ∧
    (delta.index ∈ messages.tools ∨ messages.tools.size < maxTools) ∧
    messages.bytes + byteLength (deltaId delta) + byteLength (deltaName delta) +
      byteLength (deltaArguments delta) ≤ maxToolBytes ∧
    ¬((messages.tool delta.index).outputIndex.isSome ∧ deltaName delta ≠ []) ∧
    ¬((messages.tool delta.index).closed ∧
      (deltaName delta ≠ [] ∨ trim (deltaArguments delta) ≠ [])) ∧
    (byteLength ((messages.tool delta.index).extend delta).id ≤ 128 ∧
      byteLength ((messages.tool delta.index).extend delta).name ≤ 128) ∧
    next = { messages with
      bytes       := messages.bytes + byteLength (deltaId delta) + byteLength (deltaName delta) +
        byteLength (deltaArguments delta)
      toolStarted := true
      toolOrder   := if delta.index ∈ messages.tools then messages.toolOrder else
        messages.toolOrder ++ [delta.index]
      tools       := messages.tools.insert delta.index ((messages.tool delta.index).extend delta)
    } := by
  rw [toolDelta]
  simp only [ensure_bind_eq_ok, pure, Except.pure, Except.ok.injEq, eq_comm (b := next)]

-- What a delta does to the tools and their order.
structure Extended (delta : ChatCompletionToolCallDelta) (messages next : Messages) : Prop where
  tool  : ∀ key, next.tool key =
    if delta.index = key then (messages.tool key).extend delta else messages.tool key
  grows : ∀ key, (messages.tool key).Grows (next.tool key)
  order : ∃ added, next.toolOrder = messages.toolOrder ++ added ∧
    ∀ key ∈ added, (messages.tool key).Unopened
  nodup : next.toolOrder.Nodup
  mem   : ∀ key, key ∈ next.tools ↔ key ∈ next.toolOrder
  queue : next.queue = messages.queue
  fixed : Fixed messages next
  text  : next.textStarted = messages.textStarted ∧ next.textClosed = messages.textClosed
  index : next.nextIndex = messages.nextIndex

theorem toolDelta_extended {delta : ChatCompletionToolCallDelta}
    (hm : ∀ key, key ∈ messages.tools ↔ key ∈ messages.toolOrder)
    (hn : messages.toolOrder.Nodup) (h : messages.toolDelta delta = .ok next) :
    Extended delta messages next := by
  obtain ⟨_, _, _, ho, hc, _, he⟩ := toolDelta_eq_ok.mp h
  have ht : ∀ key, next.tool key =
      if delta.index = key then (messages.tool key).extend delta else messages.tool key := by
    intro key
    have hs : next.tool key = (messages.setTool delta.index
        ((messages.tool delta.index).extend delta)).tool key := by
      rw [he]
      rfl
    rw [hs, tool_setTool]
    split
    case isTrue h => rw [h]
    case isFalse  => rfl
  have hg : (messages.tool delta.index).Grows ((messages.tool delta.index).extend delta) := by
    refine ⟨rfl, rfl, rfl, fun hi => ?_, deltaArguments delta, rfl, fun hx => ?_⟩
    · have hd : deltaName delta = [] := by
        by_contra hd
        exact ho ⟨Option.isSome_iff_ne_none.mpr hi, hd⟩
      rw [Tool.extend, hd, List.append_nil]
    · refine trim_eq_nil.mp ?_
      by_contra hd
      exact hc ⟨hx, .inr hd⟩
  have hto : next.toolOrder = if delta.index ∈ messages.tools then messages.toolOrder else
      messages.toolOrder ++ [delta.index] := by rw [he]
  refine ⟨ht, fun key => ?_, ?_, ?_, fun key => ?_, by rw [he],
    by rw [he]; exact ⟨rfl, rfl, rfl, rfl, rfl⟩, by simp [he], by rw [he]⟩
  · rw [ht]
    split
    case isTrue h => exact h ▸ hg
    case isFalse  => exact .refl _
  · rw [hto]
    split
    case isTrue    => exact ⟨[], (List.append_nil _).symm, nofun⟩
    case isFalse h =>
      refine ⟨[delta.index], rfl, fun key hk => ?_⟩
      rw [List.mem_singleton.mp hk, Messages.tool, Std.ExtTreeMap.getElem?_eq_none h]
      exact ⟨rfl, rfl, rfl⟩
  · rw [hto]
    split
    case isTrue    => exact hn
    case isFalse h =>
      rw [hm] at h
      exact hn.append (List.nodup_singleton _) (List.disjoint_singleton.mpr h)
  · have hi : key ∈ next.tools ↔ delta.index = key ∨ key ∈ messages.tools := by
      rw [he]
      simp only [Std.ExtTreeMap.mem_insert, Std.LawfulEqCmp.compare_eq_iff_eq]
    rw [hi, hto]
    split
    case isTrue h =>
      rw [←hm]
      exact ⟨fun hk => hk.elim (fun hk => hk ▸ h) id, .inr⟩
    case isFalse =>
      rw [List.mem_append, List.mem_singleton, ←hm, or_comm, eq_comm]

section Extended

variable {delta : ChatCompletionToolCallDelta} (hx : Extended delta messages next)
include hx

theorem Extended.unopened {keys : List Nat} (hu : ∀ key ∈ keys, (messages.tool key).Unopened) :
    ∀ key ∈ keys, (next.tool key).Unopened :=
  fun key hk => (hu key hk).grow (hx.grows key)

theorem Extended.writing (hw : Writing shown text messages) : Writing shown text next := by
  obtain ⟨added, ho, hu⟩ := hx.order
  exact {
    log         := by rw [hx.queue, hx.fixed.messageId, hx.fixed.model]; exact hw.log
    text        := hw.text
    textStarted := hx.text.left.trans hw.textStarted
    textClosed  := hx.text.right.trans hw.textClosed
    mem         := hx.mem
    nodup       := hx.nodup
    waiting     := by
      rw [ho]
      exact hx.unopened (List.forall_mem_append.mpr ⟨hw.waiting, hu⟩)
    nextIndex   := hx.index.trans hw.nextIndex
  }

theorem Extended.layout
    (hl : Layout isObject false shown text done rest closed current messages) :
    ∃ rest, Layout isObject false shown text done rest closed current next := by
  obtain ⟨added, ho, hu⟩ := hx.order
  refine ⟨rest ++ added, {
    log        := by rw [hx.queue, hx.fixed.messageId, hx.fixed.model]; exact hl.log
    textClosed := by rw [hx.text.left, hx.text.right]; exact hl.textClosed
    mem        := hx.mem
    order      := by rw [ho, hl.order, List.append_assoc]
    nodup      := hx.nodup
    rendered   := ?_
    front      := ?_
    nextIndex  := hx.index.trans hl.nextIndex
  }⟩
  · obtain ⟨texts, blocks, hb, ht, hf⟩ := hl.rendered
    refine ⟨texts, blocks, hb, ht, hf.imp fun tool block h => ?_⟩
    rw [hx.fixed.messageId]
    exact h.grow (hx.grows tool.1)
  · cases hl.front
    case idle hw => exact .idle (hx.unopened (List.forall_mem_append.mpr ⟨hw, hu⟩))
    case busy hk hw =>
      refine .busy ?_ (hx.unopened (List.forall_mem_append.mpr ⟨hw, hu⟩))
      rw [hx.fixed.messageId]
      exact hk.grow (hx.grows _)

end Extended

theorem Phase.nodup (hp : Phase isObject shown text messages) : messages.toolOrder.Nodup := by
  cases hp
  case writing hw      => exact hw.nodup
  case publishing hl _ => exact hl.nodup

theorem Phase.toolDelta {delta : ChatCompletionToolCallDelta}
    (hp : Phase isObject shown text messages) (h : messages.toolDelta delta = .ok next) :
    Extended delta messages next ∧ Phase isObject shown text next := by
  have hx := toolDelta_extended hp.mem hp.nodup h
  refine ⟨hx, ?_⟩
  cases hp
  case writing hw       => exact .writing (hx.writing hw)
  case publishing hl ht =>
    obtain ⟨_, hl⟩ := hx.layout hl
    refine .publishing hl fun hn => ht ?_
    obtain ⟨added, ho, _⟩ := hx.order
    exact (List.append_eq_nil_iff.mp (ho.symm.trans hn)).left

end Messages
end Api.Anthropic
