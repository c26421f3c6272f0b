import WerkModel.Api.Anthropic.StreamInvariant

-- A stream publishes a message that carries what the backend has generated, or fails.
open Backend Checks

namespace Api.Anthropic

variable {isObject : List Char → Bool} {τ : Type}

-- The blocks of a message that carries a text and the tools of some deltas.
structure Contents (isObject : List Char → Bool) (id : String) (text : List Char)
    (deltas : List ChatCompletionToolCallDelta) (texts tools : List Block) : Prop where
  textBlocks : (text ≠ [] ∨ deltas ≠ []) ∧ TextBlocks text texts ∨
    text = [] ∧ deltas = [] ∧ texts = [{ kind := .text, deltas := [] }]
  toolBlocks : List.Forall₂ (fun tool block => ∃ arguments blank,
      gather deltaArguments deltas tool.1 = arguments ++ blank ∧ Blank blank ∧
      (blank ≠ [] → isObject arguments = true) ∧
      block.Carries (Messages.toolId id tool.2) (gather deltaName deltas tool.1) arguments)
    ((firstAppearances deltas).zipIdx texts.length) tools

def deltaBytes (delta : ChatCompletionToolCallDelta) : Nat :=
  byteLength (deltaId delta) + byteLength (deltaName delta) + byteLength (deltaArguments delta)

namespace Messages

variable {messages next : Messages} {shown : List Event} {text : List Char}
variable {deltas : List ChatCompletionToolCallDelta} {delta : ChatCompletionToolCallDelta}

-- What a stream knows of the events that it has received.
structure Received (text : List Char) (deltas : List ChatCompletionToolCallDelta)
    (messages : Messages) : Prop where
  order       : messages.toolOrder = firstAppearances deltas
  id          : ∀ key, (messages.tool key).id = gather deltaId deltas key
  name        : ∀ key, (messages.tool key).name = gather deltaName deltas key
  arguments   : ∀ key, (messages.tool key).arguments = gather deltaArguments deltas key
  textStarted : messages.textStarted = true ↔ text ≠ []
  toolStarted : messages.toolStarted = true ↔ deltas ≠ []
  bytes       : messages.bytes = (deltas.map deltaBytes).sum
  bounded     : (deltas.map deltaBytes).sum ≤ maxToolBytes
  size        : messages.tools.size = (firstAppearances deltas).length
  sized       : (firstAppearances deltas).length ≤ maxTools
  kinds       : ∀ delta ∈ deltas, delta.kind.all (· = "function")

theorem Received.frame (hr : Received text deltas messages) (hf : Frame messages next) :
    Received text deltas next where
  order         := hf.toolOrder.trans hr.order
  id key        := (hf.id key).trans (hr.id key)
  name key      := (hf.name key).trans (hr.name key)
  arguments key := (hf.arguments key).trans (hr.arguments key)
  textStarted   := by rw [hf.textStarted]; exact hr.textStarted
  toolStarted   := by rw [hf.toolStarted]; exact hr.toolStarted
  bytes         := hf.bytes.trans hr.bytes
  bounded       := hr.bounded
  size          := hf.size.trans hr.size
  sized         := hr.sized
  kinds         := hr.kinds

theorem Extended.gather (hx : Extended delta messages next) {field : Tool → List Char}
    {part : ChatCompletionToolCallDelta → List Char}
    (hp : ∀ tool, field (tool.extend delta) = field tool ++ part delta)
    (hg : ∀ key, field (messages.tool key) = gather part deltas key) (key : Nat) :
    field (next.tool key) = gather part (deltas ++ [delta]) key := by
  rw [hx.tool, gather_append, ←hg]
  split
  case isTrue  => exact hp _
  case isFalse => exact (List.append_nil _).symm

theorem Received.toolDelta (hr : Received text deltas messages)
    (hm : ∀ key, key ∈ messages.tools ↔ key ∈ messages.toolOrder)
    (hx : Extended delta messages next) (h : messages.toolDelta delta = .ok next) :
    Received text (deltas ++ [delta]) next := by
  obtain ⟨hk, hs, hb, _, _, _, he⟩ := toolDelta_eq_ok.mp h
  have hmem : delta.index ∈ messages.tools ↔ delta.index ∈ firstAppearances deltas := by
    rw [hm, hr.order]
  have hbytes : ((deltas ++ [delta]).map deltaBytes).sum = messages.bytes + deltaBytes delta := by
    rw [List.map_append, List.sum_append, hr.bytes, List.map_singleton, List.sum_singleton]
  have hsize : next.tools.size = (firstAppearances (deltas ++ [delta])).length := by
    rw [he, firstAppearances_append]
    by_cases hi : delta.index ∈ messages.tools
    case pos => simp [Std.ExtTreeMap.size_insert, ←hmem, hr.size, hi]
    case neg => simp [Std.ExtTreeMap.size_insert, ←hmem, hr.size, hi]
  exact {
    order       := by
      rw [he, firstAppearances_append]
      simp only [hmem, hr.order]
    id          := hx.gather (fun _ => rfl) hr.id
    name        := hx.gather (fun _ => rfl) hr.name
    arguments   := hx.gather (fun _ => rfl) hr.arguments
    textStarted := by rw [hx.text.left]; exact hr.textStarted
    toolStarted := by simp [he]
    bytes       := by
      rw [hbytes, he, deltaBytes]
      simp only [Nat.add_assoc]
    bounded     := by
      rw [hbytes, deltaBytes]
      omega
    size        := hsize
    sized       := by
      rw [firstAppearances_append]
      split
      case isTrue    => exact hr.sized
      case isFalse h =>
        have hs := hs.resolve_left fun h' => h (hmem.mp h')
        rw [hr.size] at hs
        rwa [List.length_append, List.length_singleton]
    kinds       := List.forall_mem_append.mpr ⟨hr.kinds, List.forall_mem_singleton.mpr hk⟩
  }

-- The state between two events.
structure Consistent (isObject : List Char → Bool) (shown : List Event) (text : List Char)
    (deltas : List ChatCompletionToolCallDelta) (messages : Messages) : Prop where
  received : Received text deltas messages
  phase    : Phase isObject shown text messages

theorem Consistent.toolDeltas {added : List ChatCompletionToolCallDelta}
    (hc : Consistent isObject shown text deltas messages)
    (h : messages.toolDeltas isObject added = .ok next) :
    Consistent isObject shown text (deltas ++ added) next ∧ Fixed messages next := by
  obtain ⟨extended, hx, hf⟩ := bind_eq_ok.mp h
  have hc : Consistent isObject shown text (deltas ++ added) extended ∧ Fixed messages extended := by
    refine foldlM_invariant (I := fun passed next =>
      Consistent isObject shown text (deltas ++ passed) next ∧ Fixed messages next) hx ?_ ?_
    · rw [List.append_nil]
      exact ⟨hc, .refl messages⟩
    · intro passed delta extended next ⟨hc, hf⟩ hd
      obtain ⟨hx, hp⟩ := hc.phase.toolDelta hd
      rw [←List.append_assoc]
      exact ⟨⟨hc.received.toolDelta hc.phase.mem hx hd, hp⟩, hf.trans hx.fixed⟩
  obtain ⟨hc, hx⟩ := hc
  obtain ⟨hf, hp⟩ := hc.phase.flushTools hf
  exact ⟨⟨hc.received.frame hf, hp⟩, hx.trans hf.toFixed⟩

theorem Consistent.order_eq_nil (hc : Consistent isObject shown text deltas messages)
    (ht : messages.toolStarted = false) : deltas = [] ∧ messages.toolOrder = [] := by
  have hd : deltas = [] := by
    by_contra hd
    exact absurd (hc.received.toolStarted.mpr hd) (by simp [ht])
  refine ⟨hd, ?_⟩
  rw [hc.received.order, hd]
  rfl

theorem textChunk_eq_ok {chunk : List Char} (hn : chunk ≠ []) :
    messages.textChunk chunk = .ok next ↔ messages.toolStarted = false ∧
      next = messages.startText.push (.contentBlockDelta 0 (.text chunk)) := by
  rw [textChunk, if_neg hn, ensure_bind_eq_ok]
  simp only [pure, Except.pure, Except.ok.injEq, eq_comm (b := next)]

theorem startText_eq (messages : Messages) : ∃ queue nextIndex,
    messages.startText = { messages with queue, nextIndex, textStarted := true } := by
  rw [startText]
  split
  case isTrue h => exact ⟨messages.queue, messages.nextIndex, by rw [←h]⟩
  case isFalse  => exact ⟨_, _, rfl⟩

theorem startText_log (hc : Consistent isObject shown text deltas messages)
    (ho : messages.toolOrder = []) : ∃ chunks : List (List Char), chunks.flatten = text ∧
      shown ++ messages.startText.queue = unfinished messages.messageId messages.model []
        (some { kind := .text, deltas := chunks.map .text }) ∧
      messages.startText.textClosed = false ∧ messages.startText.nextIndex = 1 := by
  have hs := hc.received.textStarted
  cases hc.phase
  case writing hw =>
    obtain ⟨chunks, hf, hl⟩ := hw.log
    rw [startText, if_pos hw.textStarted]
    exact ⟨chunks, hf, hl, hw.textClosed, hw.nextIndex⟩
  case publishing done rest closed current hl ht =>
    have he := ht ho
    have hf : messages.textStarted = false := by simpa [he] using hs
    obtain ⟨hd, hr⟩ := List.append_eq_nil_iff.mp (hl.order.symm.trans ho)
    subst hd hr
    obtain ⟨texts, blocks, hb, htext, hr⟩ := hl.rendered
    obtain rfl : blocks = [] := List.forall₂_nil_left_iff.mp hr
    have hlog := hl.log
    cases hl.front
    case idle =>
      have htext : TextBlocks [] texts := he ▸ htext
      rw [hb, htext.eq_nil] at hlog
      rw [startText, if_neg (by simp [hf])]
      refine ⟨[], he.symm, ?_, hl.textClosed.trans hf, rfl⟩
      change shown ++ (messages.queue ++ [_]) = _
      rw [←List.append_assoc, hlog]
      exact congrArg (List.cons _) (blockEvents_open _)

-- The text is published before all tools.
theorem Consistent.textChunk {chunk : List Char}
    (hc : Consistent isObject shown text deltas messages)
    (h : messages.textChunk chunk = .ok next) :
    Consistent isObject shown (text ++ chunk) deltas next ∧ Fixed messages next ∧
      (chunk ≠ [] → deltas = []) := by
  by_cases hn : chunk = []
  case pos =>
    rw [Messages.textChunk, if_pos hn] at h
    rw [hn, List.append_nil, ←Except.ok.inj h]
    exact ⟨hc, .refl _, absurd rfl⟩
  case neg =>
    obtain ⟨ht, rfl⟩ := (textChunk_eq_ok hn).mp h
    obtain ⟨hd, ho⟩ := hc.order_eq_nil ht
    obtain ⟨chunks, hf, hlog, hclosed, hindex⟩ := startText_log hc ho
    obtain ⟨queue, nextIndex, he⟩ := startText_eq messages
    have hr := hc.received
    have hne : text ++ chunk ≠ [] := by simp [hn]
    rw [he] at hlog hclosed hindex ⊢
    refine ⟨⟨{ hr with textStarted := ⟨fun _ => hne, fun _ => rfl⟩ }, .writing {
      log         := ⟨chunks ++ [chunk], by simp [hf], ?_⟩
      text        := hne
      textStarted := rfl
      textClosed  := hclosed
      mem         := hc.phase.mem
      nodup       := hc.phase.nodup
      waiting     := fun key hk => absurd (ho ▸ hk : key ∈ []) List.not_mem_nil
      nextIndex   := hindex
    }⟩, ⟨rfl, rfl, rfl, rfl, rfl⟩, fun _ => hd⟩
    change shown ++ (queue ++ [_]) = _
    rw [←List.append_assoc, hlog, List.map_append]
    exact congrArg (List.cons _) (blockEvents_fill _)

theorem Layout.mono {done rest : List Nat} {closed : List Block} {current : Option Block}
    (final : Bool) (hl : Layout isObject false shown text done rest closed current messages) :
    Layout isObject final shown text done rest closed current messages := by
  obtain ⟨texts, blocks, hb, ht, hf⟩ := hl.rendered
  exact { hl with rendered := ⟨texts, blocks, hb, ht, hf.imp fun _ _ h => h.mono⟩ }

theorem Phase.closeText (final : Bool) (hp : Phase isObject shown text messages) :
    ∃ done rest closed current,
      Layout isObject final shown text done rest closed current messages.closeText := by
  cases hp
  case writing hw =>
    obtain ⟨closed, hl⟩ := closeText_layout final hw
    exact ⟨_, _, _, _, hl⟩
  case publishing hl _ =>
    rw [closeText_of_layout hl]
    exact ⟨_, _, _, _, hl.mono final⟩

-- At the end all tools are done.
theorem Consistent.flushed (hc : Consistent isObject shown text deltas messages)
    (h : messages.closeText.flushTools isObject true = .ok next) :
    Received text deltas next ∧ Frame messages next ∧ ∃ closed,
      Layout isObject true shown text (firstAppearances deltas) [] closed none next := by
  obtain ⟨_, _, _, _, hl⟩ := hc.phase.closeText true
  obtain ⟨hf, done, rest, closed, current, hl, hn⟩ := flushTools_layout hl h
  have hf := (Frame.closeText messages).trans hf
  have hr := hc.received.frame hf
  obtain rfl := hn rfl
  have ho : done = firstAppearances deltas := by
    rw [←hr.order, hl.order, List.append_nil]
  refine ⟨hr, hf, closed, ?_⟩
  rw [←ho]
  cases hl.front
  case idle => exact hl

theorem Layout.contents {closed : List Block} (hr : Received text deltas messages)
    (hl : Layout isObject true shown text (firstAppearances deltas) [] closed none messages)
    (hn : text ≠ [] ∨ deltas ≠ []) :
    ∃ texts tools, closed = texts ++ tools ∧
      Contents isObject messages.messageId text deltas texts tools := by
  obtain ⟨texts, blocks, hb, ht, hf⟩ := hl.rendered
  refine ⟨texts, blocks, hb, .inl ⟨hn, ht⟩, hf.imp fun tool block h => ?_⟩
  obtain ⟨arguments, blank, ha, hb, hc, hi⟩ := h.carries
  rw [hr.arguments] at ha
  rw [hr.name] at hc
  exact ⟨arguments, blank, ha, hb, fun hn => hi.resolve_right fun hi => hn hi.right, hc⟩

-- How a stream ends a message.
def ending (stop : String) (completion : Completion τ) (messages : Messages) : Ending where
  stopReason   := stop
  stopSequence := messages.matchedStop
  inputTokens  := completion.promptTokens
  outputTokens := completion.completionTokens

theorem conclude_queue (stop : String) (completion : Completion τ) :
    (messages.conclude stop completion).queue = messages.queue ++
      (if messages.textStarted = false ∧ messages.toolStarted = false then
        [.contentBlockStart 0 .text, .contentBlockStop 0] else []) ++
      (messages.ending stop completion).events := by
  rw [conclude]
  by_cases h : messages.textStarted = false ∧ messages.toolStarted = false
  case pos =>
    rw [if_pos h, if_pos h]
    simp [push, pushEmptyText, Ending.events, ending]
  case neg =>
    rw [if_neg h, if_neg h]
    simp [push, Ending.events, ending]

theorem done_eq_ok {completion : Completion τ} : messages.done isObject completion = .ok next ↔
    ∃ stop, messages.stop completion.finishReason = .ok stop ∧
      validateFinish stop (!messages.tools.isEmpty) = .ok () ∧
      checkTools isObject stop messages.tools.valueList [] = .ok () ∧
      ∃ flushed, messages.closeText.flushTools isObject true = .ok flushed ∧
        next = flushed.conclude stop completion := by
  rw [done, bind_eq_ok]
  simp only [seq_eq_ok]
  simp only [bind_eq_ok, pure, Except.pure, Except.ok.injEq, eq_comm (b := next)]

theorem Received.empty_iff (hr : Received text deltas messages) :
    (messages.textStarted = false ∧ messages.toolStarted = false) ↔ text = [] ∧ deltas = [] := by
  rw [←Bool.not_eq_true, ←Bool.not_eq_true, hr.textStarted, hr.toolStarted, not_not, not_not]

-- Without a text or tools there is a block of an empty text.
theorem Layout.contents_empty {closed : List Block} (hr : Received text deltas messages)
    (hl : Layout isObject true shown text (firstAppearances deltas) [] closed none messages)
    (hn : text = [] ∧ deltas = []) :
    closed = [] ∧ Contents isObject messages.messageId text deltas
      [{ kind := .text, deltas := [] }] [] := by
  obtain ⟨texts, blocks, hb, ht, hf⟩ := hl.rendered
  obtain ⟨rfl, rfl⟩ := hn
  obtain rfl : blocks = [] := List.forall₂_nil_left_iff.mp hf
  refine ⟨?_, .inr ⟨rfl, rfl, rfl⟩, .nil⟩
  rw [hb, ht.eq_nil, List.append_nil]

theorem Consistent.done {completion : Completion τ}
    (hc : Consistent isObject shown text deltas messages)
    (h : messages.done isObject completion = .ok next) :
    ∃ stop texts tools, messages.stop completion.finishReason = .ok stop ∧
      Contents isObject messages.messageId text deltas texts tools ∧
      shown ++ next.queue = message messages.messageId messages.model (texts ++ tools)
        (messages.ending stop completion) := by
  obtain ⟨stop, hs, _, _, flushed, hf, he⟩ := done_eq_ok.mp h
  obtain ⟨hr, hf, closed, hl⟩ := hc.flushed hf
  have hlog := hl.log
  have hending : flushed.ending stop completion = messages.ending stop completion := by
    rw [ending, ending, hf.matchedStop]
  rw [hf.messageId, hf.model] at hlog
  rw [he, conclude_queue, hending, ←List.append_assoc, ←List.append_assoc, hlog]
  by_cases hn : text = [] ∧ deltas = []
  case pos =>
    obtain ⟨hb, hcon⟩ := hl.contents_empty hr hn
    refine ⟨stop, _, _, hs, hf.messageId ▸ hcon, ?_⟩
    rw [if_pos (hr.empty_iff.mpr hn), hb]
    rfl
  case neg =>
    obtain ⟨texts, tools, hb, hcon⟩ := hl.contents hr (by tauto)
    refine ⟨stop, texts, tools, hs, hf.messageId ▸ hcon, ?_⟩
    rw [if_neg (hr.empty_iff.not.mpr hn), hb, List.append_nil, message]

-- The events that have been published are no longer in the queue.
theorem Consistent.publish (hc : Consistent isObject shown text deltas messages) :
    Consistent isObject (shown ++ messages.queue) text deltas { messages with queue := [] } := by
  refine ⟨{ hc.received with }, ?_⟩
  have hq (list : List Event) : list ++ messages.queue ++ [] = list ++ messages.queue :=
    List.append_nil _
  cases hc.phase
  case writing hw =>
    obtain ⟨chunks, hf, hl⟩ := hw.log
    exact .writing { hw with log := ⟨chunks, hf, (hq _).trans hl⟩ }
  case publishing hl ht =>
    refine .publishing { hl with log := (hq _).trans hl.log, front := ?_ } ht
    cases hl.front
    case idle hw    => exact .idle hw
    case busy hk hw => exact .busy hk hw

theorem Consistent.unfinished (hc : Consistent isObject shown text deltas messages) :
    ∃ closed current, shown ++ messages.queue =
      unfinished messages.messageId messages.model closed current := by
  cases hc.phase
  case writing hw =>
    obtain ⟨chunks, _, hl⟩ := hw.log
    exact ⟨_, _, hl⟩
  case publishing hl _ => exact ⟨_, _, hl.log⟩

theorem Consistent.event {event : GenerateStreamEvent τ}
    (hc : Consistent isObject shown text deltas messages)
    (hd : MessagesStream.isDone event = false) (h : messages.event isObject event = .ok next) :
    Consistent isObject shown (text ++ eventText event) (deltas ++ eventDeltas event) next ∧
      Fixed messages next := by
  cases event
  case textChunk chunk =>
    obtain ⟨hc, hf, _⟩ := hc.textChunk h
    rw [eventDeltas, List.append_nil]
    exact ⟨hc, hf⟩
  case toolCallDelta added =>
    rw [eventText, List.append_nil]
    exact hc.toolDeltas h
  case done => nomatch hd

end Messages

namespace MessagesStream

open Messages

variable {messages : Messages} {shown : List Event} {text : List Char}
variable {deltas : List ChatCompletionToolCallDelta}

-- What becomes of the items of a source.
inductive Delivered (isObject : List Char → Bool) (messages : Messages) (text : List Char)
    (deltas : List ChatCompletionToolCallDelta) (items : List (Item τ)) (published : List Event) :
    Prop
  | complete {events : List (GenerateStreamEvent τ)} {completion : Completion τ}
    {rest : List (Item τ)} {stop : String} {texts tools : List Block} :
    items = events.map .ok ++ .ok (.done completion) :: rest →
    (∀ event ∈ events, isDone event = false) →
    messages.stop completion.finishReason = .ok stop →
    Contents isObject messages.messageId (text ++ events.flatMap eventText)
      (deltas ++ events.flatMap eventDeltas) texts tools →
    published = message messages.messageId messages.model (texts ++ tools)
      (messages.ending stop completion) →
    Delivered isObject messages text deltas items published
  | failed {before : List Event} {closed : List Block} {current : Option Block} {error : String} :
    published = before ++ [.error error messages.requestId] →
    before = unfinished messages.messageId messages.model closed current →
    Delivered isObject messages text deltas items published

theorem Delivered.cons {next : Messages} {event : GenerateStreamEvent τ} {items : List (Item τ)}
    {published : List Event} (hd : isDone event = false) (hf : Fixed messages next)
    (h : Delivered isObject next (text ++ eventText event) (deltas ++ eventDeltas event) items
      published) : Delivered isObject messages text deltas (.ok event :: items) published := by
  cases h
  case complete events completion rest stop texts tools hi hn hs hc hp =>
    have hi : .ok event :: items = (event :: events).map .ok ++ .ok (.done completion) :: rest := by
      rw [hi]
      rfl
    rw [Messages.stop, hf.matchedStop] at hs
    rw [hf.messageId, List.append_assoc, List.append_assoc] at hc
    rw [ending, hf.messageId, hf.model, hf.matchedStop] at hp
    exact .complete hi (List.forall_mem_cons.mpr ⟨hd, hn⟩) hs hc hp
  case failed hp hu =>
    rw [hf.requestId] at hp
    rw [hf.messageId, hf.model] at hu
    exact .failed hp hu

theorem deliver_error (hc : Consistent isObject shown text deltas messages)
    (hq : messages.queue = []) (items : List (Item τ)) (error : String) :
    Delivered isObject messages text deltas items
      (shown ++ [.error error messages.requestId]) := by
  obtain ⟨closed, current, hu⟩ := hc.unfinished
  rw [hq, List.append_nil] at hu
  exact .failed rfl hu

theorem deliver_done {completion : Completion τ} {next : Messages} {items : List (Item τ)}
    (hc : Consistent isObject shown text deltas messages)
    (h : messages.done isObject completion = .ok next) :
    Delivered isObject messages text deltas (.ok (.done completion) :: items)
      (shown ++ next.queue) := by
  obtain ⟨stop, texts, tools, hs, hcon, hm⟩ := hc.done h
  have hi : .ok (.done completion) :: items =
      ([] : List (GenerateStreamEvent τ)).map .ok ++ .ok (.done completion) :: items := rfl
  rw [←List.append_nil text, ←List.append_nil deltas] at hcon
  exact .complete hi nofun hs hcon hm

theorem deliver_delivered (items : List (Item τ))
    (hc : Consistent isObject shown text deltas messages) (hq : messages.queue = []) :
    Delivered isObject messages text deltas items (shown ++ deliver isObject messages items) := by
  induction items generalizing messages shown text deltas
  case nil               => exact deliver_error hc hq [] _
  case cons item items hi =>
    cases item
    case error error => exact deliver_error hc hq _ error
    case ok event =>
      rw [deliver]
      cases he : messages.event isObject event
      case error error => exact deliver_error hc hq _ error
      case ok next =>
        cases hd : isDone event
        case true =>
          cases event
          case done completion =>
            simp only [if_true, List.append_nil]
            exact deliver_done hc he
          case textChunk     => cases hd
          case toolCallDelta => cases hd
        case false =>
          obtain ⟨hc', hf⟩ := hc.event hd he
          have h := hi hc'.publish rfl
          rw [List.append_assoc] at h
          have hf : Fixed messages { next with queue := [] } := { hf with }
          exact .cons hd hf h

theorem consistent_new (isObject : List Char → Bool) (source : List (Poll (Item τ))) (model id requestId : String)
    (toolNames : List (List Char)) (matchedStop : Option String) :
    Consistent isObject [.messageStart id model] [] []
      { (new source model id requestId toolNames matchedStop).toMessages with queue := [] } := by
  have ht (key : Nat) : (new source model id requestId toolNames matchedStop).tool key = {} := rfl
  refine ⟨{
    order       := rfl
    id          := fun _ => rfl
    name        := fun _ => rfl
    arguments   := fun _ => rfl
    textStarted := by simp [new]
    toolStarted := by simp [new]
    bytes       := rfl
    bounded     := Nat.zero_le _
    size        := rfl
    sized       := Nat.zero_le _
    kinds       := nofun
  }, .publishing {
    log        := rfl
    textClosed := rfl
    mem        := by simp [new]
    order      := (List.append_nil []).symm
    nodup      := List.nodup_nil
    rendered   := ⟨[], [], rfl, .none, .nil⟩
    front      := .idle nofun
    nextIndex  := rfl
  } fun _ => rfl⟩

-- A stream either publishes a complete message, which carries what the backend has generated, or a
-- part of a message and then an error.
theorem messages_stream_complete_or_failed (isObject : List Char → Bool)
    (source : List (Poll (Item τ))) (model id requestId : String) (toolNames : List (List Char))
    (matchedStop : Option String) :
    (∃ (events : List (GenerateStreamEvent τ)) (completion : Completion τ)
        (rest : List (Item τ)) (stop : String) (texts tools : List Block),
      source.filterMap Poll.value? = events.map .ok ++ .ok (.done completion) :: rest ∧
      (∀ event ∈ events, isDone event = false) ∧
      Contents isObject id (events.flatMap eventText) (events.flatMap eventDeltas) texts tools ∧
      (new source model id requestId toolNames matchedStop).collect isObject =
        message id model (texts ++ tools) {
          stopReason   := stop
          stopSequence := matchedStop
          inputTokens  := completion.promptTokens
          outputTokens := completion.completionTokens
        }) ∨
    ∃ before error,
      (new source model id requestId toolNames matchedStop).collect isObject =
        before ++ [.error error requestId] ∧
      ∀ ending, ∃ blocks, before <+: message id model blocks ending := by
  rw [collect_new]
  have hc := consistent_new isObject source model id requestId toolNames matchedStop
  cases deliver_delivered (source.filterMap Poll.value?) hc rfl
  case complete events completion rest stop texts tools hi hn hs hcon hp =>
    exact .inl ⟨events, completion, rest, stop, texts, tools, hi, hn, hcon, hp⟩
  case failed before closed current error hp hu =>
    refine .inr ⟨before, error, hp, fun ending => ?_⟩
    rw [hu]
    exact unfinished_prefix current ending

end MessagesStream
end Api.Anthropic
