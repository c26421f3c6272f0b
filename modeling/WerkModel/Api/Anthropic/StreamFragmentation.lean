import WerkModel.Api.Anthropic.StreamContents

-- Whether a stream completes depends on what the backend has generated, but not on how it is cut
-- into fragments.
open Backend Checks

namespace Api.Anthropic

variable {isObject : List Char → Bool} {τ : Type}

section Totals

variable {deltas more : List ChatCompletionToolCallDelta} {index : Nat}
variable {part : ChatCompletionToolCallDelta → List Char}

theorem gather_of_not_mem (h : index ∉ firstAppearances deltas) : gather part deltas index = [] := by
  rw [gather, List.filter_eq_nil_iff.mpr, List.flatMap_nil]
  intro delta hd he
  exact h (mem_firstAppearances.mpr ⟨delta, hd, of_decide_eq_true he⟩)

theorem gather_append_list (deltas more : List ChatCompletionToolCallDelta) :
    gather part (deltas ++ more) index = gather part deltas index ++ gather part more index := by
  rw [gather, List.filter_append, List.flatMap_append]
  rfl

theorem gather_prefix : gather part deltas index <+: gather part (deltas ++ more) index := by
  rw [gather_append_list]
  exact List.prefix_append ..

theorem firstAppearances_prefix :
    firstAppearances deltas <+: firstAppearances (deltas ++ more) := by
  induction more using List.reverseRecOn
  case nil                     => rw [List.append_nil]
  case append_singleton more delta hi =>
    rw [←List.append_assoc, firstAppearances_append]
    split
    case isTrue  => exact hi
    case isFalse => exact hi.trans (List.prefix_append ..)

theorem byteLength_append (text text' : List Char) :
    byteLength (text ++ text') = byteLength text + byteLength text' := by
  simp [byteLength]

theorem byteLength_le_of_valid {name : List Char} (h : validName name = true) :
    byteLength name ≤ 128 := by
  simp only [validName, decide_eq_true_eq] at h
  exact h.right.left

theorem byteLength_mono {text text' : List Char} (h : text <+: text') :
    byteLength text ≤ byteLength text' := by
  obtain ⟨rest, rfl⟩ := h
  rw [byteLength_append]
  exact Nat.le_add_right ..

def indexBytes (deltas : List ChatCompletionToolCallDelta) (index : Nat) : Nat :=
  byteLength (gather deltaId deltas index) + byteLength (gather deltaName deltas index) +
    byteLength (gather deltaArguments deltas index)

theorem indexBytes_append (deltas : List ChatCompletionToolCallDelta)
    (delta : ChatCompletionToolCallDelta) (index : Nat) :
    indexBytes (deltas ++ [delta]) index =
      indexBytes deltas index + if delta.index = index then deltaBytes delta else 0 := by
  simp only [indexBytes, gather_append, byteLength_append]
  split
  case isTrue  => rw [deltaBytes]; omega
  case isFalse => rfl

-- The length of all fragments only depends on what they add up to.
theorem sum_deltaBytes (deltas : List ChatCompletionToolCallDelta) :
    (deltas.map deltaBytes).sum = ((firstAppearances deltas).map (indexBytes deltas)).sum := by
  induction deltas using List.reverseRecOn
  case nil                            => rfl
  case append_singleton deltas delta hi =>
    have hs {indices : List Nat} (hn : indices.Nodup) :
        (indices.map (indexBytes (deltas ++ [delta]))).sum =
          (indices.map (indexBytes deltas)).sum +
            if delta.index ∈ indices then deltaBytes delta else 0 := by
      rw [←List.sum_toFinset _ hn, ←List.sum_toFinset _ hn]
      simp only [indexBytes_append, Finset.sum_add_distrib, Finset.sum_ite_eq, List.mem_toFinset]
    have hz (h : delta.index ∉ firstAppearances deltas) : indexBytes deltas delta.index = 0 := by
      rw [indexBytes, gather_of_not_mem h, gather_of_not_mem h, gather_of_not_mem h]
      rfl
    rw [List.map_append, List.sum_append, hi, List.map_singleton, List.sum_singleton,
      hs nodup_firstAppearances, firstAppearances_append]
    by_cases h : delta.index ∈ firstAppearances deltas
    case pos => rw [if_pos h, if_pos h]
    case neg =>
      rw [if_neg h, List.map_append, List.sum_append, List.map_singleton, List.sum_singleton,
        hz h, if_pos (by simp)]
      rfl

end Totals

namespace Messages

variable {messages next : Messages} {key : Nat} {final : Bool}

def Supplied (messages : Messages) (name : List Char) : Prop :=
  messages.toolNames = [] ∨ name ∈ messages.toolNames

theorem nameReady_iff {name : List Char} : messages.nameReady name = true ↔
    name ∈ messages.toolNames ∧ ∀ other ∈ messages.toolNames, name <+: other → other = name := by
  simp only [nameReady, decide_eq_true_eq, List.any_eq_true, not_exists, not_and, exists_eq_right]
  refine and_congr_right fun _ => forall₂_congr fun other ho => ?_
  exact not_imp_not.symm.trans (by tauto)

-- The tools that are opened are those of the catalog. Before the end their names are final.
structure Publishes (final : Bool) (messages next : Messages) : Prop where
  toolNames : next.toolNames = messages.toolNames
  name      : ∀ key, (next.tool key).name = (messages.tool key).name
  opens     : ∀ key, (next.tool key).outputIndex ≠ none → (messages.tool key).outputIndex ≠ none ∨
    messages.Supplied (messages.tool key).name ∧
      (final = false → messages.nameReady (messages.tool key).name = true)

theorem Publishes.refl (final : Bool) (messages : Messages) : Publishes final messages messages :=
  ⟨rfl, fun _ => rfl, fun _ => .inl⟩

theorem Publishes.trans {messages₁ messages₂ messages₃ : Messages}
    (h₁ : Publishes final messages₁ messages₂) (h₂ : Publishes final messages₂ messages₃) :
    Publishes final messages₁ messages₃ where
  toolNames := h₂.toolNames.trans h₁.toolNames
  name key  := (h₂.name key).trans (h₁.name key)
  opens key := by
    intro ho
    rcases h₂.opens key ho with ho | ho
    case inl => exact h₁.opens key ho
    case inr =>
      rw [h₁.name, Supplied, nameReady, h₁.toolNames] at ho
      exact .inr ho

theorem Publishes.setTool {tool : Tool} (hn : tool.name = (messages.tool key).name)
    (ho : tool.outputIndex ≠ none → (messages.tool key).outputIndex ≠ none ∨
      messages.Supplied (messages.tool key).name ∧
        (final = false → messages.nameReady (messages.tool key).name = true)) :
    Publishes final messages (messages.setTool key tool) := by
  refine ⟨rfl, fun i => ?_, fun i hi => ?_⟩
  · rw [tool_setTool]
    split
    case isTrue he => rw [hn, he]
    case isFalse   => rfl
  · rw [tool_setTool] at hi
    split at hi
    case isTrue he => exact he ▸ ho hi
    case isFalse   => exact .inl hi

theorem Publishes.closeText (messages : Messages) : Publishes final messages messages.closeText := by
  rw [Messages.closeText]
  split
  case isTrue  => exact ⟨rfl, fun _ => rfl, fun _ => .inl⟩
  case isFalse => exact .refl final messages

theorem emitArguments_publishes (messages : Messages) (key : Nat) :
    Publishes final messages (messages.emitArguments key) := by
  have h : Publishes final messages (messages.setTool key { messages.tool key with
      emitted := (messages.tool key).arguments.length }) := .setTool rfl .inl
  rw [emitArguments]
  split
  case isTrue  => exact h
  case isFalse => exact { h with }

theorem closeTool_publishes (messages : Messages) (key : Nat) :
    Publishes final messages (messages.closeTool key) := by
  have h : Publishes final messages (messages.setTool key { messages.tool key with
      closed := true }) := .setTool rfl .inl
  exact { h with }

theorem openTool_publishes
    (hr : final = false → messages.nameReady (messages.tool key).name = true)
    (h : messages.openTool key = .ok next) : Publishes final messages next := by
  obtain ⟨hs, _, he⟩ := openTool_eq_ok.mp h
  have hc : Publishes final messages { messages.closeText.push
      (.contentBlockStart messages.closeText.nextIndex (.toolUse
        (toolId messages.closeText.messageId messages.closeText.nextIndex)
        (messages.tool key).name)) with nextIndex := messages.closeText.nextIndex + 1 } :=
    { Publishes.closeText messages with }
  rw [he]
  refine hc.trans (.setTool rfl fun _ => .inr ?_)
  rw [hc.name, Supplied, nameReady, hc.toolNames]
  exact ⟨hs, hr⟩

theorem flushFrom_publishes {keys : List Nat}
    (h : flushFrom isObject final keys messages = .ok next) : Publishes final messages next := by
  induction keys generalizing messages
  case nil =>
    obtain rfl : messages = next := Except.ok.inj h
    exact .refl final messages
  case cons key keys hi =>
    rw [flushFrom] at h
    split at h
    case isTrue  => exact hi h
    case isFalse =>
      split at h
      case isTrue =>
        obtain rfl : messages = next := Except.ok.inj h
        exact .refl final messages
      case isFalse hn =>
        obtain ⟨opened, ho, h⟩ := bind_eq_ok.mp h
        have hp : Publishes final messages opened := by
          rw [openUnlessOpened] at ho
          split at ho
          case isTrue hu  => exact openTool_publishes (by simpa [hu] using hn) ho
          case isFalse =>
            obtain rfl : messages = opened := Except.ok.inj ho
            exact .refl final messages
        have hp := hp.trans (emitArguments_publishes opened key)
        dsimp only at h
        split at h
        case isTrue => exact hp.trans ((closeTool_publishes _ key).trans (hi h))
        case isFalse =>
          obtain rfl : opened.emitArguments key = next := Except.ok.inj h
          exact hp

-- A tool may be opened under its name.
def Openable (messages : Messages) (name : List Char) : Prop :=
  messages.Supplied name ∧ validName name

-- Whenever a tool is opened, it may be opened.
def AllOpenable (final : Bool) (keys : List Nat) (messages : Messages) : Prop :=
  ∀ key ∈ keys, final = true ∨ messages.nameReady (messages.tool key).name = true →
    messages.Openable (messages.tool key).name

theorem Publishes.openable {keys : List Nat} (hp : Publishes final messages next)
    (h : messages.AllOpenable final keys) : next.AllOpenable final keys := by
  intro key hk hn
  rw [hp.name, nameReady, hp.toolNames] at hn
  rw [hp.name, Openable, Supplied, hp.toolNames]
  exact h key hk hn

theorem exists_openTool (h : messages.Openable (messages.tool key).name) :
    ∃ next, messages.openTool key = .ok next :=
  ⟨_, openTool_eq_ok.mpr ⟨h.left, h.right, rfl⟩⟩

theorem exists_flushFrom {keys : List Nat} (h : messages.AllOpenable final keys) :
    ∃ next, flushFrom isObject final keys messages = .ok next := by
  induction keys generalizing messages
  case nil              => exact ⟨messages, rfl⟩
  case cons key keys hi =>
    have hk := h key (List.mem_cons_self ..)
    have h : messages.AllOpenable final keys := fun i hi => h i (List.mem_cons_of_mem _ hi)
    rw [flushFrom]
    split
    case isTrue  => exact hi h
    case isFalse =>
      split
      case isTrue     => exact ⟨messages, rfl⟩
      case isFalse hn =>
        have ho : ∃ opened, messages.openUnlessOpened key = .ok opened ∧
            Publishes final messages opened := by
          rw [openUnlessOpened]
          split
          case isTrue hu =>
            have hr : final = false → messages.nameReady (messages.tool key).name = true := by
              simpa [hu] using hn
            have hr' : final = true ∨ messages.nameReady (messages.tool key).name = true := by
              cases final
              case false => exact .inr (hr rfl)
              case true  => exact .inl rfl
            obtain ⟨opened, ho⟩ := exists_openTool (hk hr')
            exact ⟨opened, ho, openTool_publishes hr ho⟩
          case isFalse => exact ⟨messages, rfl, .refl final messages⟩
        obtain ⟨opened, ho, hp⟩ := ho
        have hp := hp.trans (emitArguments_publishes opened key)
        rw [ho]
        change ∃ next, ite _ _ _ = Except.ok next
        split
        case isTrue  => exact hi ((hp.trans (closeTool_publishes _ key)).openable h)
        case isFalse => exact ⟨_, rfl⟩

-- The names of the tools that are opened before the end are final.
def Ready (messages : Messages) : Prop :=
  ∀ key, (messages.tool key).outputIndex ≠ none →
    messages.nameReady (messages.tool key).name = true

theorem Publishes.ready (hp : Publishes false messages next) (hr : messages.Ready) :
    next.Ready := by
  intro key ho
  rw [hp.name, nameReady, hp.toolNames]
  rcases hp.opens key ho with ho | ⟨_, hn⟩
  case inl => exact hr key ho
  case inr => exact hn rfl

theorem Extended.ready {delta : ChatCompletionToolCallDelta} (hx : Extended delta messages next)
    (hr : messages.Ready) : next.Ready := by
  intro key ho
  rw [(hx.grows key).outputIndex] at ho
  rw [(hx.grows key).name ho, nameReady, hx.fixed.toolNames]
  exact hr key ho

theorem nameReady.supplied {name : List Char} (h : messages.nameReady name = true) :
    messages.Supplied name :=
  .inr (nameReady_iff.mp h).left

section Closed

variable {shown : List Event} {text : List Char}

theorem tool_of_not_mem (h : key ∉ messages.tools) : messages.tool key = {} := by
  rw [Messages.tool, Std.ExtTreeMap.getElem?_eq_none h]
  rfl

-- Before the end only tools with complete arguments are closed.
theorem Phase.closed (hp : Phase isObject shown text messages)
    (hc : (messages.tool key).closed = true) : (messages.tool key).outputIndex ≠ none ∧
      ∃ arguments, isObject arguments = true ∧ arguments <+: (messages.tool key).arguments := by
  by_cases hm : key ∈ messages.toolOrder
  case neg =>
    rw [tool_of_not_mem (by rwa [hp.mem])] at hc
    nomatch hc
  case pos =>
    cases hp
    case writing hw => exact absurd hc (by simp [(hw.waiting key hm).closed])
    case publishing done rest closed current hl _ =>
      rw [hl.order] at hm
      rcases List.mem_append.mp hm with hm | hm
      case inl =>
        obtain ⟨id, block, h⟩ := hl.rendered.exists_closed hm
        obtain ⟨arguments, blank, ha, _, _, hi⟩ := h.carries
        refine ⟨h.outputIndex, arguments, hi.resolve_right (fun h => nomatch h.left), ?_⟩
        rw [ha]
        exact List.prefix_append ..
      case inr => exact absurd hc (by simp [hl.front.not_closed hm])

end Closed

-- Whether a message with some tools is complete. This depends on what the deltas add up to.
structure Accepted (isObject : List Char → Bool) (toolNames : List (List Char)) (stop : String)
    (deltas : List ChatCompletionToolCallDelta) : Prop where
  kinds    : ∀ delta ∈ deltas, delta.kind.all (· = "function")
  sized    : (firstAppearances deltas).length ≤ maxTools
  bounded  : (deltas.map deltaBytes).sum ≤ maxToolBytes
  finish   : validateFinish stop (!(firstAppearances deltas).isEmpty) = .ok ()
  ids      : ∀ index ∈ firstAppearances deltas, validName (gather deltaId deltas index)
  distinct : ((firstAppearances deltas).map (gather deltaId deltas)).Nodup
  names    : ∀ index ∈ firstAppearances deltas, validName (gather deltaName deltas index) ∧
    (toolNames = [] ∨ gather deltaName deltas index ∈ toolNames)
  objects  : stop = "max_tokens" ∨ ∀ index ∈ firstAppearances deltas,
    isObject (gather deltaArguments deltas index)

theorem checkTools_eq_ok {stop : String} {tools : List Tool} {ids : List (List Char)} :
    checkTools isObject stop tools ids = .ok () ↔
      (∀ tool ∈ tools, validName tool.id ∧ validName tool.name ∧ tool.id ∉ ids ∧
        (stop = "max_tokens" ∨ isObject tool.arguments)) ∧ (tools.map Tool.id).Nodup := by
  induction tools generalizing ids
  case nil                => simp [checkTools]
  case cons tool tools hi =>
    rw [checkTools, ensure_bind_eq_ok, ensure_bind_eq_ok, hi, List.forall_mem_cons, List.map_cons,
      List.nodup_cons]
    simp only [List.mem_cons, List.mem_map, not_or, not_exists, not_and]
    constructor
    case mp =>
      rintro ⟨⟨hv, hn, hm⟩, ho, ht, hd⟩
      exact ⟨⟨⟨hv, hn, hm, ho⟩, fun other h => ⟨(ht other h).1, (ht other h).2.1,
        (ht other h).2.2.1.2, (ht other h).2.2.2⟩⟩, fun other h => (ht other h).2.2.1.1, hd⟩
    case mpr =>
      rintro ⟨⟨⟨hv, hn, hm, ho⟩, ht⟩, hm', hd⟩
      exact ⟨⟨hv, hn, hm⟩, ho, fun other h => ⟨(ht other h).1, (ht other h).2.1,
        ⟨hm' other h, (ht other h).2.2.1⟩, (ht other h).2.2.2⟩, hd⟩

section Done

variable {shown : List Event} {text : List Char} {deltas : List ChatCompletionToolCallDelta}

theorem valueList_eq (messages : Messages) :
    messages.tools.valueList = messages.tools.keys.map messages.tool := by
  rw [Std.ExtTreeMap.valueList, ←Std.ExtTreeMap.map_fst_toList_eq_keys, List.map_map]
  refine List.map_congr_left fun entry he => ?_
  have hl := Std.ExtTreeMap.mem_toList_iff_getElem?_eq_some.mp he
  rw [Function.comp_apply, Messages.tool, hl]
  rfl

-- The tools in the order of their indices are those in the order in which they have appeared.
theorem Consistent.valueList_perm (hc : Consistent isObject shown text deltas messages) :
    messages.tools.valueList.Perm ((firstAppearances deltas).map messages.tool) := by
  rw [valueList_eq]
  refine List.Perm.map _ ?_
  rw [List.perm_ext_iff_of_nodup Std.ExtTreeMap.nodup_keys nodup_firstAppearances]
  intro key
  rw [Std.ExtTreeMap.mem_keys, hc.phase.mem, hc.received.order]

theorem Consistent.isEmpty (hc : Consistent isObject shown text deltas messages) :
    messages.tools.isEmpty = (firstAppearances deltas).isEmpty := by
  rw [Std.ExtTreeMap.isEmpty_eq_size_beq_zero, hc.received.size]
  cases firstAppearances deltas <;> rfl

theorem Consistent.checkTools_eq_ok {stop : String}
    (hc : Consistent isObject shown text deltas messages) :
    checkTools isObject stop messages.tools.valueList [] = .ok () ↔
      (∀ index ∈ firstAppearances deltas, validName (gather deltaId deltas index) ∧
        validName (gather deltaName deltas index) ∧
        (stop = "max_tokens" ∨ isObject (gather deltaArguments deltas index))) ∧
      ((firstAppearances deltas).map (gather deltaId deltas)).Nodup := by
  have hr := hc.received
  rw [Messages.checkTools_eq_ok, (hc.valueList_perm.map Tool.id).nodup_iff, List.map_map]
  have hi : Tool.id ∘ messages.tool = gather deltaId deltas := funext hr.id
  rw [hi]
  refine and_congr_left fun _ => ?_
  simp only [hc.valueList_perm.mem_iff, List.forall_mem_map, hr.id, hr.name, hr.arguments,
    List.not_mem_nil, not_false_eq_true, true_and]

theorem Consistent.accepted_of_done {completion : Completion τ} {stop : String}
    (hc : Consistent isObject shown text deltas messages) (hr : messages.Ready)
    (hs : messages.stop completion.finishReason = .ok stop)
    (h : messages.done isObject completion = .ok next) :
    Accepted isObject messages.toolNames stop deltas := by
  obtain ⟨stop', hs', hv, ht, flushed, hf, _⟩ := done_eq_ok.mp h
  obtain rfl := Except.ok.inj (hs.symm.trans hs')
  obtain ⟨ht, hd⟩ := hc.checkTools_eq_ok.mp ht
  rw [hc.isEmpty] at hv
  have hp := (Publishes.closeText messages).trans (flushFrom_publishes hf)
  obtain ⟨_, _, closed, hl⟩ := hc.flushed hf
  have hn : ∀ index ∈ firstAppearances deltas,
      messages.Supplied (gather deltaName deltas index) := by
    intro index hi
    obtain ⟨_, _, hx⟩ := hl.rendered.exists_closed hi
    rw [←hc.received.name]
    rcases hp.opens index hx.outputIndex with ho | ⟨hs, _⟩
    case inl => exact nameReady.supplied (hr index ho)
    case inr => exact hs
  exact {
    kinds    := hc.received.kinds
    sized    := hc.received.sized
    bounded  := hc.received.bounded
    finish   := hv
    ids      := fun index hi => (ht index hi).left
    distinct := hd
    names    := fun index hi => ⟨(ht index hi).right.left, hn index hi⟩
    objects  := by
      by_cases hm : stop = "max_tokens"
      case pos => exact .inl hm
      case neg => exact .inr fun index hi => (ht index hi).right.right.resolve_left hm
  }

theorem Consistent.exists_done {completion : Completion τ} {stop : String}
    (hc : Consistent isObject shown text deltas messages)
    (hs : messages.stop completion.finishReason = .ok stop)
    (ha : Accepted isObject messages.toolNames stop deltas) :
    ∃ next, messages.done isObject completion = .ok next := by
  have ho : messages.closeText.AllOpenable true messages.closeText.toolOrder := by
    refine (Publishes.closeText messages).openable fun index hi _ => ?_
    rw [(Frame.closeText messages).toolOrder, hc.received.order] at hi
    rw [hc.received.name]
    exact ⟨(ha.names index hi).right, (ha.names index hi).left⟩
  obtain ⟨flushed, hf⟩ :
      ∃ flushed, messages.closeText.flushTools isObject true = .ok flushed := exists_flushFrom ho
  refine ⟨_, done_eq_ok.mpr ⟨stop, hs, ?_, hc.checkTools_eq_ok.mpr ⟨fun index hi => ?_, ha.distinct⟩,
    flushed, hf, rfl⟩⟩
  · rw [hc.isEmpty]
    exact ha.finish
  · exact ⟨ha.ids index hi, (ha.names index hi).left, ha.objects.imp_right fun h => h index hi⟩

end Done

-- Only whitespace follows a complete object.
def NothingFollows (isObject : List Char → Bool) (text : List Char) : Prop :=
  ∀ object rest, text = object ++ rest → isObject object = true → Blank rest

section Progress

variable {shown : List Event} {text : List Char} {stop : String}
variable {deltas total added : List ChatCompletionToolCallDelta}
variable {delta : ChatCompletionToolCallDelta}
variable (hc : Consistent isObject shown text deltas messages)
variable (ha : Accepted isObject messages.toolNames stop total)
include hc ha

-- No other name of the catalog begins with a name that is ready.
theorem Consistent.name_eq (hp : deltas <+: total) (hk : key ∈ firstAppearances total)
    (hn : messages.nameReady (messages.tool key).name = true) :
    gather deltaName total key = (messages.tool key).name := by
  obtain ⟨hm, hu⟩ := nameReady_iff.mp hn
  have hs : gather deltaName total key ∈ messages.toolNames :=
    (ha.names key hk).right.resolve_left (List.ne_nil_of_mem hm)
  obtain ⟨more, rfl⟩ := hp
  refine hu _ hs ?_
  rw [hc.received.name]
  exact gather_prefix

theorem Consistent.openable (hp : deltas <+: total) :
    messages.AllOpenable false messages.toolOrder := by
  intro key hk hn
  have hn := hn.resolve_left nofun
  rw [hc.received.order] at hk
  have hk : key ∈ firstAppearances total := by
    obtain ⟨more, rfl⟩ := hp
    exact firstAppearances_prefix.subset hk
  refine ⟨nameReady.supplied hn, ?_⟩
  rw [←hc.name_eq ha hp hk hn]
  exact (ha.names key hk).left

theorem Consistent.exists_toolDelta (hr : messages.Ready) (hp : deltas ++ [delta] <+: total)
    (hn : NothingFollows isObject (gather deltaArguments total delta.index)) :
    ∃ next, messages.toolDelta delta = .ok next := by
  obtain ⟨more, ht⟩ := hp
  have hm : delta ∈ total := by simp [←ht]
  have hi : delta.index ∈ firstAppearances total := mem_firstAppearances.mpr ⟨delta, hm, rfl⟩
  have hpart (part : ChatCompletionToolCallDelta → List Char) :
      gather part total delta.index =
        gather part deltas delta.index ++ (part delta ++ gather part more delta.index) := by
    rw [←ht, gather_append_list, gather_append, if_pos rfl, List.append_assoc]
  have hname : (messages.tool delta.index).outputIndex ≠ none → deltaName delta = [] := by
    intro ho
    have he := hc.name_eq ha ⟨[delta] ++ more, by rw [←ht, List.append_assoc]⟩ hi (hr _ ho)
    rw [hpart, ←hc.received.name, List.append_right_eq_self] at he
    exact (List.append_eq_nil_iff.mp he).left
  refine ⟨_, toolDelta_eq_ok.mpr ⟨ha.kinds delta hm, ?_, ?_, ?_, ?_, ⟨?_, ?_⟩, rfl⟩⟩
  · refine or_iff_not_imp_left.mpr fun hx => ?_
    rw [hc.phase.mem, hc.received.order] at hx
    have hl : (firstAppearances (deltas ++ [delta])).length ≤ (firstAppearances total).length := by
      rw [←ht]
      exact firstAppearances_prefix.length_le
    rw [firstAppearances_append, if_neg hx, List.length_append, List.length_singleton] at hl
    rw [hc.received.size]
    exact Nat.lt_of_succ_le (hl.trans ha.sized)
  · have hb := ha.bounded
    rw [←ht, List.map_append, List.map_append, List.sum_append, List.sum_append,
      List.map_singleton, List.sum_singleton, deltaBytes, ←hc.received.bytes] at hb
    omega
  · rintro ⟨ho, hx⟩
    exact hx (hname (Option.isSome_iff_ne_none.mp ho))
  · rintro ⟨hx, hd⟩
    obtain ⟨ho, object, hob, ⟨rest, hpre⟩⟩ := hc.phase.closed hx
    refine hd.elim (fun hd => hd (hname ho)) fun hd => hd (trim_eq_nil.mpr ?_)
    have hb := hn object (rest ++ (deltaArguments delta ++ gather deltaArguments more delta.index))
      (by rw [hpart, ←hc.received.arguments, ←hpre, List.append_assoc]) hob
    exact fun c hc => hb c (by simp [hc])
  · refine (byteLength_mono ?_).trans (byteLength_le_of_valid (ha.ids _ hi))
    rw [hpart, ←hc.received.id, ←List.append_assoc]
    exact List.prefix_append ..
  · refine (byteLength_mono ?_).trans (byteLength_le_of_valid (ha.names _ hi).left)
    rw [hpart, ←hc.received.name, ←List.append_assoc]
    exact List.prefix_append ..

theorem Consistent.exists_toolDeltas (hr : messages.Ready) (hp : deltas ++ added <+: total)
    (hn : ∀ index, NothingFollows isObject (gather deltaArguments total index)) :
    ∃ next, messages.toolDeltas isObject added = .ok next := by
  suffices h : ∃ extended, added.foldlM Messages.toolDelta messages = .ok extended ∧
      extended.AllOpenable false extended.toolOrder by
    obtain ⟨extended, hx, ho⟩ := h
    obtain ⟨next, hf⟩ : ∃ next, extended.flushTools isObject false = .ok next := exists_flushFrom ho
    exact ⟨next, bind_eq_ok.mpr ⟨extended, hx, hf⟩⟩
  induction added generalizing messages deltas
  case nil =>
    rw [List.append_nil] at hp
    exact ⟨messages, rfl, hc.openable ha hp⟩
  case cons delta added hi =>
    rw [List.append_cons] at hp
    have hp' := (List.prefix_append ..).trans hp
    obtain ⟨next, hd⟩ := hc.exists_toolDelta ha hr hp' (hn delta.index)
    obtain ⟨hx, hphase⟩ := hc.phase.toolDelta hd
    have hc' : Consistent isObject shown text (deltas ++ [delta]) next :=
      ⟨hc.received.toolDelta hc.phase.mem hx hd, hphase⟩
    obtain ⟨extended, he, ho⟩ := hi hc' (hx.fixed.toolNames ▸ ha) (hx.ready hr) hp
    exact ⟨extended, by rw [List.foldlM_cons]; exact bind_eq_ok.mpr ⟨next, hd, he⟩, ho⟩

end Progress

section Feed

variable {shown : List Event} {text : List Char} {stop : String}
variable {deltas total : List ChatCompletionToolCallDelta} {event : GenerateStreamEvent τ}
variable {events : List (GenerateStreamEvent τ)}

theorem Consistent.ready_toolDeltas {added : List ChatCompletionToolCallDelta}
    (hc : Consistent isObject shown text deltas messages) (hr : messages.Ready)
    (h : messages.toolDeltas isObject added = .ok next) : next.Ready := by
  obtain ⟨extended, hx, hf⟩ := bind_eq_ok.mp h
  refine (flushFrom_publishes hf).ready ?_
  have hi := foldlM_invariant (I := fun passed messages =>
    Consistent isObject shown text (deltas ++ passed) messages ∧ messages.Ready) hx
  refine (hi ⟨by rwa [List.append_nil], hr⟩ ?_).right
  intro passed delta messages next ⟨hc, hr⟩ hd
  obtain ⟨hx, hp⟩ := hc.phase.toolDelta hd
  rw [←List.append_assoc]
  exact ⟨⟨hc.received.toolDelta hc.phase.mem hx hd, hp⟩, hx.ready hr⟩

theorem Consistent.ready_event (hc : Consistent isObject shown text deltas messages)
    (hd : MessagesStream.isDone event = false) (hr : messages.Ready)
    (h : messages.event isObject event = .ok next) : next.Ready := by
  cases event
  case textChunk chunk =>
    have h : messages.textChunk chunk.toList = .ok next := h
    by_cases hn : chunk.toList = []
    case pos =>
      rw [Messages.textChunk, if_pos hn] at h
      exact Except.ok.inj h ▸ hr
    case neg =>
      obtain ⟨_, rfl⟩ := (textChunk_eq_ok hn).mp h
      obtain ⟨queue, nextIndex, he⟩ := startText_eq messages
      rw [he]
      exact hr
  case toolCallDelta added => exact hc.ready_toolDeltas hr h
  case done                => cases hd

theorem Consistent.exists_event (hc : Consistent isObject shown text deltas messages)
    (hd : MessagesStream.isDone event = false) (hr : messages.Ready)
    (ha : Accepted isObject messages.toolNames stop total)
    (hn : ∀ index, NothingFollows isObject (gather deltaArguments total index))
    (hp : deltas ++ eventDeltas event <+: total) (ht : deltas = [] ∨ eventText event = []) :
    ∃ next, messages.event isObject event = .ok next := by
  cases event
  case textChunk chunk =>
    change ∃ next, messages.textChunk chunk.toList = .ok next
    by_cases he : chunk.toList = []
    case pos =>
      rw [Messages.textChunk, if_pos he]
      exact ⟨messages, rfl⟩
    case neg =>
      have hs : messages.toolStarted = false := by
        have hi := hc.received.toolStarted
        rw [ht.resolve_right he] at hi
        simpa using hi
      exact ⟨_, (textChunk_eq_ok he).mpr ⟨hs, rfl⟩⟩
  case toolCallDelta added => exact hc.exists_toolDeltas ha hr hp hn
  case done                => cases hd

-- The state after some events, each of which has been published.
def feed (isObject : List Char → Bool) :
    Messages → List (GenerateStreamEvent τ) → Except String Messages
  | messages, []              => .ok messages
  | messages, event :: events => do
    let next ← messages.event isObject event
    feed isObject { next with queue := [] } events

-- The text comes before all tools.
def TextFirst (events : List (GenerateStreamEvent τ)) : Prop :=
  events.Pairwise fun first second => eventDeltas first = [] ∨ eventText second = []

theorem Consistent.exists_feed (hc : Consistent isObject shown text deltas messages)
    (hd : ∀ event ∈ events, MessagesStream.isDone event = false) (hr : messages.Ready)
    (ha : Accepted isObject messages.toolNames stop total)
    (hn : ∀ index, NothingFollows isObject (gather deltaArguments total index))
    (hp : deltas ++ events.flatMap eventDeltas = total)
    (ht : deltas = [] ∨ ∀ event ∈ events, eventText event = []) (hf : TextFirst events) :
    ∃ last, feed isObject messages events = .ok last := by
  induction events generalizing messages shown text deltas
  case nil                 => exact ⟨messages, rfl⟩
  case cons event events hi =>
    have ⟨hd, hd'⟩ := List.forall_mem_cons.mp hd
    have ⟨hf, hf'⟩ := List.pairwise_cons.mp hf
    rw [List.flatMap_cons, ←List.append_assoc] at hp
    have hp' : deltas ++ eventDeltas event <+: total := hp ▸ List.prefix_append ..
    have ht' := ht.imp_right fun h => h event (List.mem_cons_self ..)
    obtain ⟨next, he⟩ := hc.exists_event hd hr ha hn hp' ht'
    obtain ⟨hc', hx⟩ := hc.event hd he
    have hr' : next.Ready := hc.ready_event hd hr he
    have hr' : Ready { next with queue := [] } := hr'
    have ha' : Accepted isObject next.toolNames stop total := hx.toolNames ▸ ha
    have ht : deltas ++ eventDeltas event = [] ∨ ∀ event ∈ events, eventText event = [] := by
      by_cases h : deltas = [] ∧ eventDeltas event = []
      case pos => exact .inl (List.append_eq_nil_iff.mpr h)
      case neg =>
        refine .inr fun other ho => ?_
        rcases not_and_or.mp h with h | h
        case inl => exact ht.resolve_left h other (List.mem_cons_of_mem _ ho)
        case inr => exact (hf other ho).resolve_left h
    obtain ⟨last, hl⟩ := hi hc'.publish hd' hr' ha' hp ht hf'
    exact ⟨last, bind_eq_ok.mpr ⟨next, he, hl⟩⟩

-- No text is accepted after a tool.
theorem Consistent.textFirst_event (hc : Consistent isObject shown text deltas messages)
    (h : messages.event isObject event = .ok next) : deltas = [] ∨ eventText event = [] := by
  cases event
  case textChunk chunk =>
    have h : messages.textChunk chunk.toList = .ok next := h
    by_cases he : chunk.toList = []
    case pos => exact .inr he
    case neg =>
      have hs := hc.received.toolStarted
      rw [((textChunk_eq_ok he).mp h).left] at hs
      exact .inl (by simpa using hs)
  case toolCallDelta => exact .inr rfl
  case done          => exact .inr rfl

theorem Consistent.textFirst_feed (hc : Consistent isObject shown text deltas messages)
    (hd : ∀ event ∈ events, MessagesStream.isDone event = false) {last : Messages}
    (h : feed isObject messages events = .ok last) :
    TextFirst events ∧ (deltas = [] ∨ ∀ event ∈ events, eventText event = []) := by
  induction events generalizing messages shown text deltas
  case nil                 => exact ⟨.nil, .inr nofun⟩
  case cons event events hi =>
    have ⟨hd, hd'⟩ := List.forall_mem_cons.mp hd
    obtain ⟨next, he, h⟩ := bind_eq_ok.mp h
    obtain ⟨hf, ht⟩ := hi (hc.event hd he).left.publish hd' h
    rw [List.append_eq_nil_iff] at ht
    refine ⟨.cons (fun other ho => ?_) hf, ?_⟩
    · exact ht.imp And.right fun h => h other ho
    · rcases hc.textFirst_event he with h | h
      case inl => exact .inl h
      case inr => exact ht.imp And.left fun ht => List.forall_mem_cons.mpr ⟨h, ht⟩

theorem Consistent.feed (hc : Consistent isObject shown text deltas messages)
    (hd : ∀ event ∈ events, MessagesStream.isDone event = false) (hr : messages.Ready)
    (hq : messages.queue = []) {last : Messages} (h : feed isObject messages events = .ok last) :
    last.Ready ∧ Fixed messages last ∧ last.queue = [] ∧ ∃ shown',
      Consistent isObject shown' (text ++ events.flatMap eventText)
        (deltas ++ events.flatMap eventDeltas) last ∧
      ∀ items, shown ++ MessagesStream.deliver isObject messages (events.map .ok ++ items) =
        shown' ++ MessagesStream.deliver isObject last items := by
  induction events generalizing messages shown text deltas
  case nil =>
    obtain rfl : messages = last := Except.ok.inj h
    refine ⟨hr, .refl messages, hq, shown, ?_, fun _ => rfl⟩
    rwa [List.flatMap_nil, List.flatMap_nil, List.append_nil, List.append_nil]
  case cons event events hi =>
    have ⟨hd, hd'⟩ := List.forall_mem_cons.mp hd
    obtain ⟨next, he, h⟩ := bind_eq_ok.mp h
    obtain ⟨hc', hx⟩ := hc.event hd he
    have hr' : next.Ready := hc.ready_event hd hr he
    have hr' : Ready { next with queue := [] } := hr'
    obtain ⟨hl, hx', hq, shown', hs, hp⟩ := hi hc'.publish hd' hr' rfl h
    have hx : Fixed messages { next with queue := [] } := { hx with }
    refine ⟨hl, hx.trans hx', hq, shown', ?_, fun items => ?_⟩
    · rwa [List.append_assoc, List.append_assoc] at hs
    · rw [←hp, List.append_assoc, List.map_cons, List.cons_append, MessagesStream.deliver, he]
      simp only [hd, Bool.false_eq_true, if_false]

theorem Consistent.feed_error (hc : Consistent isObject shown text deltas messages)
    (hd : ∀ event ∈ events, MessagesStream.isDone event = false) {error : String}
    (h : Messages.feed isObject messages events = .error error) (items : List (Item τ)) :
    ∃ before, MessagesStream.deliver isObject messages (events.map .ok ++ items) =
      before ++ [.error error messages.requestId] := by
  induction events generalizing messages shown text deltas
  case nil                 => nomatch h
  case cons event events hi =>
    have ⟨hd, hd'⟩ := List.forall_mem_cons.mp hd
    rw [List.map_cons, List.cons_append, MessagesStream.deliver]
    rw [Messages.feed] at h
    cases he : messages.event isObject event
    case error failure =>
      rw [he] at h
      obtain rfl : failure = error := Except.error.inj h
      exact ⟨[], rfl⟩
    case ok next =>
      rw [he] at h
      obtain ⟨hc', hx⟩ := hc.event hd he
      obtain ⟨before, hb⟩ := hi hc'.publish hd' h
      refine ⟨next.queue ++ before, ?_⟩
      simp only [hd, Bool.false_eq_true, if_false, hb]
      rw [hx.requestId, List.append_assoc]

end Feed
end Messages

section Fragmentation

variable {completion : Completion τ} {stop : String}
variable {events events₁ events₂ : List (GenerateStreamEvent τ)}
variable {deltas deltas₁ deltas₂ : List ChatCompletionToolCallDelta}

-- Deltas that add up to the same.
structure SameTools (deltas₁ deltas₂ : List ChatCompletionToolCallDelta) : Prop where
  order     : firstAppearances deltas₁ = firstAppearances deltas₂
  id        : ∀ index, gather deltaId deltas₁ index = gather deltaId deltas₂ index
  name      : ∀ index, gather deltaName deltas₁ index = gather deltaName deltas₂ index
  arguments : ∀ index, gather deltaArguments deltas₁ index = gather deltaArguments deltas₂ index

def SameKinds (deltas₁ deltas₂ : List ChatCompletionToolCallDelta) : Prop :=
  (∀ delta ∈ deltas₁, delta.kind.all (· = "function")) ↔
    ∀ delta ∈ deltas₂, delta.kind.all (· = "function")

theorem SameTools.symm (h : SameTools deltas₁ deltas₂) : SameTools deltas₂ deltas₁ :=
  ⟨h.order.symm, fun i => (h.id i).symm, fun i => (h.name i).symm, fun i => (h.arguments i).symm⟩

theorem SameTools.accepted {toolNames : List (List Char)} (h : SameTools deltas₁ deltas₂)
    (hk : SameKinds deltas₁ deltas₂) (ha : Messages.Accepted isObject toolNames stop deltas₁) :
    Messages.Accepted isObject toolNames stop deltas₂ := by
  have hid : gather deltaId deltas₁ = gather deltaId deltas₂ := funext h.id
  have hn : gather deltaName deltas₁ = gather deltaName deltas₂ := funext h.name
  have hg : gather deltaArguments deltas₁ = gather deltaArguments deltas₂ := funext h.arguments
  have hb : indexBytes deltas₁ = indexBytes deltas₂ := by
    funext index
    rw [indexBytes, indexBytes, hid, hn, hg]
  obtain ⟨hk', hs, hb', hf, hi, hd, hn', ho⟩ := ha
  rw [sum_deltaBytes, hb, h.order, ←sum_deltaBytes] at hb'
  rw [h.order] at hs hf hi hd hn' ho
  rw [hid] at hi hd
  rw [hn] at hn'
  rw [hg] at ho
  exact ⟨hk.mp hk', hs, hb', hf, hi, hd, hn', ho⟩

def Delta.content : Delta → List Char
  | .text chunk            => chunk
  | .inputJson partialJson => partialJson

def Block.content (block : Block) : List Char :=
  block.deltas.flatMap Delta.content

-- Blocks that carry the same, up to whitespace after a complete object.
def Block.Agrees (isObject : List Char → Bool) (block₁ block₂ : Block) : Prop :=
  block₁.kind = block₂.kind ∧ ∃ shared blank, Blank blank ∧
    (blank ≠ [] → isObject shared = true) ∧
    (block₁.content = shared ∧ block₂.content = shared ++ blank ∨
      block₂.content = shared ∧ block₁.content = shared ++ blank)

theorem Block.Agrees.of_eq {block₁ block₂ : Block} (hk : block₁.kind = block₂.kind)
    (hc : block₁.content = block₂.content) : block₁.Agrees isObject block₂ :=
  ⟨hk, _, [], nofun, absurd rfl, .inl ⟨rfl, by rw [List.append_nil, hc]⟩⟩

theorem Block.Carries.content {id name arguments : List Char} {block : Block}
    (h : block.Carries id name arguments) : block.content = arguments := by
  obtain ⟨fragments, hd, hf⟩ := h.deltas
  rw [Block.content, hd, List.flatMap_map, ←hf]
  exact List.flatMap_id'

-- Two cuts of the same arguments, after each of which only whitespace follows.
theorem Block.Carries.agrees {id name arguments₁ arguments₂ blank₁ blank₂ : List Char}
    {block₁ block₂ : Block} (h₁ : block₁.Carries id name arguments₁)
    (h₂ : block₂.Carries id name arguments₂) (he : arguments₁ ++ blank₁ = arguments₂ ++ blank₂)
    (hb₁ : Blank blank₁) (hb₂ : Blank blank₂) (hi₁ : blank₁ ≠ [] → isObject arguments₁ = true)
    (hi₂ : blank₂ ≠ [] → isObject arguments₂ = true) : block₁.Agrees isObject block₂ := by
  refine ⟨h₁.kind.trans h₂.kind.symm, ?_⟩
  rw [h₁.content, h₂.content]
  rcases List.append_eq_append_iff.mp he with ⟨rest, hr, hr'⟩ | ⟨rest, hr, hr'⟩
  case inl =>
    refine ⟨arguments₁, rest, fun c hc => hb₁ c (by simp [hr', hc]), fun hn => hi₁ ?_, .inl ⟨rfl, hr⟩⟩
    simp [hr', hn]
  case inr =>
    refine ⟨arguments₂, rest, fun c hc => hb₂ c (by simp [hr', hc]), fun hn => hi₂ ?_, .inr ⟨rfl, hr⟩⟩
    simp [hr', hn]

-- Lists that correspond to the same list.
theorem forall₂_common {α β γ : Type} {R : γ → α → Prop} {S : γ → β → Prop} {T : α → β → Prop}
    {l : List γ} {as : List α} {bs : List β} (h₁ : List.Forall₂ R l as) (h₂ : List.Forall₂ S l bs)
    (h : ∀ c a b, R c a → S c b → T a b) : List.Forall₂ T as bs := by
  induction h₁ generalizing bs
  case nil =>
    cases h₂
    exact .nil
  case cons hr _ hi =>
    cases h₂
    case cons hs h₂ => exact .cons (h _ _ _ hr hs) (hi h₂)

theorem firstAppearances_eq_nil : firstAppearances deltas = [] ↔ deltas = [] := by
  constructor
  case mp =>
    intro h
    rw [List.eq_nil_iff_forall_not_mem]
    intro delta hd
    have hm : delta.index ∈ firstAppearances deltas := mem_firstAppearances.mpr ⟨delta, hd, rfl⟩
    exact List.not_mem_nil (h ▸ hm)
  case mpr =>
    rintro rfl
    rfl

theorem TextBlocks.agrees {text : List Char} {texts₁ texts₂ : List Block}
    (h₁ : TextBlocks text texts₁) (h₂ : TextBlocks text texts₂) :
    List.Forall₂ (Block.Agrees isObject) texts₁ texts₂ := by
  have hb {chunks : List (List Char)} :
      (⟨.text, chunks.map .text⟩ : Block).content = chunks.flatten := by
    rw [Block.content, List.flatMap_map]
    exact List.flatMap_id'
  cases h₁
  case none =>
    rw [h₂.eq_nil]
    exact .nil
  case text chunks hn =>
    generalize he : chunks.flatten = text at h₂
    cases h₂
    case none         => exact absurd he hn
    case text chunks' _ => exact .cons (.of_eq rfl (by rw [hb, hb, he])) .nil

theorem Contents.agrees {id : String} {text : List Char} {texts₁ texts₂ tools₁ tools₂ : List Block}
    (hs : SameTools deltas₁ deltas₂) (h₁ : Contents isObject id text deltas₁ texts₁ tools₁)
    (h₂ : Contents isObject id text deltas₂ texts₂ tools₂) :
    List.Forall₂ (Block.Agrees isObject) (texts₁ ++ tools₁) (texts₂ ++ tools₂) := by
  have hd : deltas₁ = [] ↔ deltas₂ = [] := by
    rw [←firstAppearances_eq_nil, hs.order, firstAppearances_eq_nil]
  have ht : List.Forall₂ (Block.Agrees isObject) texts₁ texts₂ := by
    rcases h₁.textBlocks with ⟨hn₁, ht₁⟩ | ⟨he₁, hd₁, ht₁⟩ <;>
    rcases h₂.textBlocks with ⟨hn₂, ht₂⟩ | ⟨he₂, hd₂, ht₂⟩
    · exact ht₁.agrees ht₂
    · exact (hn₁.elim (absurd he₂) (absurd (hd.mpr hd₂)))
    · exact (hn₂.elim (absurd he₁) (absurd (hd.mp hd₁)))
    · rw [ht₁, ht₂]
      exact .cons (.of_eq rfl rfl) .nil
  refine List.rel_append ht ?_
  have ht₁ := h₁.toolBlocks
  rw [hs.order, ht.length_eq] at ht₁
  refine forall₂_common ht₁ h₂.toolBlocks ?_
  rintro tool block₁ block₂ ⟨arguments₁, blank₁, he₁, hb₁, hi₁, hc₁⟩
    ⟨arguments₂, blank₂, he₂, hb₂, hi₂, hc₂⟩
  rw [hs.name] at hc₁
  exact hc₁.agrees hc₂ (by rw [←he₁, ←he₂, hs.arguments]) hb₁ hb₂ hi₁ hi₂

end Fragmentation

namespace MessagesStream

open Messages

variable {completion : Completion τ} {stop : String} {rest : List (Item τ)}
variable {events events₁ events₂ : List (GenerateStreamEvent τ)}

-- The items of a source that completes.
def Ends (source : List (Poll (Item τ))) (events : List (GenerateStreamEvent τ))
    (completion : Completion τ) : Prop :=
  (∀ event ∈ events, isDone event = false) ∧ ∃ rest,
    source.filterMap Poll.value? = events.map .ok ++ .ok (.done completion) :: rest

-- A cut message may go on after a complete object.
def Separated (isObject : List Char → Bool) (stop : String)
    (events : List (GenerateStreamEvent τ)) : Prop :=
  stop = "max_tokens" →
    ∀ index, NothingFollows isObject (gather deltaArguments (events.flatMap eventDeltas) index)

theorem nothingFollows {toolNames : List (List Char)}
    (law : ∀ object rest, isObject object = true → isObject (object ++ rest) = true → Blank rest)
    (hs : Separated isObject stop events)
    (ha : Accepted isObject toolNames stop (events.flatMap eventDeltas)) (index : Nat) :
    NothingFollows isObject (gather deltaArguments (events.flatMap eventDeltas) index) := by
  rcases ha.objects with hm | ho
  case inl => exact hs hm index
  case inr =>
    intro object rest he hi
    by_cases hf : index ∈ firstAppearances (events.flatMap eventDeltas)
    case pos => exact law object rest hi (he ▸ ho index hf)
    case neg =>
      rw [gather_of_not_mem hf] at he
      rw [(List.append_eq_nil_iff.mp he.symm).right]
      exact nofun

section Outcome

variable {source source₁ source₂ : List (Poll (Item τ))} {model id requestId : String}
variable {toolNames : List (List Char)} {matchedStop : Option String}
variable (law : ∀ object rest, isObject object = true → isObject (object ++ rest) = true →
  Blank rest)

-- What a stream is at first, without the event that it begins with.
def initial (source : List (Poll (Item τ))) (model id requestId : String)
    (toolNames : List (List Char)) (matchedStop : Option String) : Messages :=
  { (new source model id requestId toolNames matchedStop).toMessages with queue := [] }

theorem deliver_error_of_done {messages : Messages} {error : String}
    (h : messages.done isObject completion = .error error) (rest : List (Item τ)) :
    deliver isObject messages (.ok (.done completion) :: rest) =
      [.error error messages.requestId] := by
  rw [deliver, Messages.event, h]

theorem deliver_of_done {messages next : Messages}
    (h : messages.done isObject completion = .ok next) (rest : List (Item τ)) :
    deliver isObject messages (.ok (.done completion) :: rest) = next.queue := by
  rw [deliver, Messages.event, h]
  exact List.append_nil _

include law in
-- A stream completes if what the backend has generated is accepted, and fails otherwise.
theorem collect_outcome (he : Ends source events completion)
    (hs : (initial source model id requestId toolNames matchedStop).stop completion.finishReason =
      .ok stop) (hn : Separated isObject stop events) :
    ((TextFirst events ∧ Accepted isObject toolNames stop (events.flatMap eventDeltas)) ∧
      ∃ texts tools, Contents isObject id (events.flatMap eventText) (events.flatMap eventDeltas) texts tools ∧
      (new source model id requestId toolNames matchedStop).collect isObject =
        message id model (texts ++ tools) {
          stopReason   := stop
          stopSequence := matchedStop
          inputTokens  := completion.promptTokens
          outputTokens := completion.completionTokens
        }) ∨
    ¬(TextFirst events ∧ Accepted isObject toolNames stop (events.flatMap eventDeltas)) ∧
      ∃ before error,
      (new source model id requestId toolNames matchedStop).collect isObject =
        before ++ [.error error requestId] := by
  obtain ⟨hd, rest, hi⟩ := he
  have hc := consistent_new isObject source model id requestId toolNames matchedStop
  have hr : (initial source model id requestId toolNames matchedStop).Ready := fun _ => absurd rfl
  rw [collect_new, hi]
  cases hf : feed isObject (initial source model id requestId toolNames matchedStop) events
  case error error =>
    refine .inr ⟨fun ⟨ht, ha⟩ => ?_, ?_⟩
    · obtain ⟨last, hl⟩ := hc.exists_feed hd hr ha (nothingFollows law hn ha) rfl (.inl rfl) ht
      nomatch hf.symm.trans hl
    · obtain ⟨before, hb⟩ := hc.feed_error hd hf (.ok (.done completion) :: rest)
      exact ⟨.messageStart id model :: before, error, congrArg (List.cons _) hb⟩
  case ok last =>
    have ht := (hc.textFirst_feed hd hf).left
    obtain ⟨hr, hx, hq, shown, hc, hp⟩ := hc.feed hd hr rfl hf
    rw [←List.singleton_append, hp]
    have hs : last.stop completion.finishReason = .ok stop := by
      rwa [Messages.stop, hx.matchedStop]
    cases hdone : last.done isObject completion
    case error error =>
      refine .inr ⟨fun ⟨_, ha⟩ => ?_, shown, error, ?_⟩
      · obtain ⟨next, hl⟩ := hc.exists_done hs (hx.toolNames ▸ ha)
        nomatch hdone.symm.trans hl
      · rw [deliver_error_of_done hdone, hx.requestId]
        rfl
    case ok next =>
      have ha := hc.accepted_of_done hr hs hdone
      rw [hx.toolNames] at ha
      obtain ⟨stop', texts, tools, hs', hcon, hm⟩ := hc.done hdone
      obtain rfl := Except.ok.inj (hs.symm.trans hs')
      rw [hx.messageId] at hcon
      refine .inl ⟨⟨ht, ha⟩, texts, tools, hcon, ?_⟩
      rw [deliver_of_done hdone, hm, ending, hx.messageId, hx.model, hx.matchedStop]
      rfl

include law in
-- Streams of the same generation either both complete with the same blocks, or both fail.
theorem fragmentation_agreement (he₁ : Ends source₁ events₁ completion)
    (he₂ : Ends source₂ events₂ completion) (ht : TextFirst events₁ ↔ TextFirst events₂)
    (hs : (if matchedStop.isSome then .ok "stop_sequence" else stopReason completion.finishReason) =
      .ok stop) (hn : Separated isObject stop events₁)
    (htext : events₁.flatMap eventText = events₂.flatMap eventText)
    (htools : SameTools (events₁.flatMap eventDeltas) (events₂.flatMap eventDeltas))
    (hkinds : SameKinds (events₁.flatMap eventDeltas) (events₂.flatMap eventDeltas)) :
    (∃ blocks₁ blocks₂ ending,
      (new source₁ model id requestId toolNames matchedStop).collect isObject =
        message id model blocks₁ ending ∧
      (new source₂ model id requestId toolNames matchedStop).collect isObject =
        message id model blocks₂ ending ∧
      List.Forall₂ (Block.Agrees isObject) blocks₁ blocks₂) ∨
    ∃ before₁ before₂ error₁ error₂,
      (new source₁ model id requestId toolNames matchedStop).collect isObject =
        before₁ ++ [.error error₁ requestId] ∧
      (new source₂ model id requestId toolNames matchedStop).collect isObject =
        before₂ ++ [.error error₂ requestId] := by
  have hn₂ : Separated isObject stop events₂ := fun hm index => htools.arguments index ▸ hn hm index
  have ha : Accepted isObject toolNames stop _ → Accepted isObject toolNames stop _ :=
    htools.accepted hkinds
  have ha' : Accepted isObject toolNames stop _ → Accepted isObject toolNames stop _ :=
    htools.symm.accepted hkinds.symm
  rcases collect_outcome law he₁ hs hn with ⟨ha₁, texts₁, tools₁, hc₁, hm₁⟩ |
    ⟨hr₁, before₁, error₁, hp₁⟩ <;>
  rcases collect_outcome law he₂ hs hn₂ with ⟨ha₂, texts₂, tools₂, hc₂, hm₂⟩ |
    ⟨hr₂, before₂, error₂, hp₂⟩
  · rw [←htext] at hc₂
    exact .inl ⟨_, _, _, hm₁, hm₂, hc₁.agrees htools hc₂⟩
  · exact absurd (ha₁.imp ht.mp ha) hr₂
  · exact absurd (ha₂.imp ht.mpr ha') hr₁
  · exact .inr ⟨before₁, before₂, error₁, error₂, hp₁, hp₂⟩

end Outcome

section Cuts

-- The objects among some short arguments.
def isEmptyObject (text : List Char) : Bool :=
  text ∈ ["{}".toList, "{} ".toList]

theorem blank_of_isEmptyObject (object rest : List Char) (ho : isEmptyObject object = true)
    (hr : isEmptyObject (object ++ rest) = true) : Blank rest := by
  simp only [isEmptyObject, List.mem_cons, List.not_mem_nil, or_false, decide_eq_true_eq] at ho hr
  rcases ho with rfl | rfl <;> simp at hr
  case inl =>
    rcases hr with rfl | rfl
    · exact nofun
    · exact List.forall_mem_singleton.mpr rfl
  case inr =>
    subst hr
    exact nofun

def cutDelta (kind id name : Option String) (arguments : String) :
    ChatCompletionToolCallDelta where
  index    := 0
  id       := id
  kind     := kind
  function := some { name, arguments := some arguments }

def cutCompletion : Completion Unit where
  finishReason       := "length"
  promptTokens       := 1
  completionTokens   := 2
  timings            := ()
  backendDiagnostics := []

def cutSource (events : List (GenerateStreamEvent Unit)) : List (Poll (Item Unit)) :=
  (events ++ [GenerateStreamEvent.done cutCompletion]).map fun event => .ready (.ok event)

def cutStream (events : List (GenerateStreamEvent Unit)) : List Event :=
  (new (cutSource events) "m" "msg_werk_1" "req_1" ["f".toList] none).collect isEmptyObject

-- The same arguments as a whole and in two fragments.
def wholeArguments (kind : Option String) (arguments arguments' : String) :
    List (GenerateStreamEvent Unit) :=
  [.toolCallDelta [cutDelta kind (some "a") (some "f") (arguments ++ arguments')]]

def splitArguments (arguments arguments' : String) : List (GenerateStreamEvent Unit) :=
  [.toolCallDelta [cutDelta none (some "a") (some "f") arguments],
    .toolCallDelta [cutDelta none none none arguments']]

theorem splitArguments_same (kind : Option String) (arguments arguments' : String) :
    SameTools ((wholeArguments kind arguments arguments').flatMap eventDeltas)
      ((splitArguments arguments arguments').flatMap eventDeltas) where
  order           := rfl
  id index        := by by_cases h : 0 = index <;>
    simp [gather, wholeArguments, splitArguments, eventDeltas, cutDelta, deltaId, h]
  name index      := by by_cases h : 0 = index <;>
    simp [gather, wholeArguments, splitArguments, eventDeltas, cutDelta, deltaName, h]
  arguments index := by by_cases h : 0 = index <;>
    simp [gather, wholeArguments, splitArguments, eventDeltas, cutDelta, deltaArguments, h]

-- The arguments that a stream publishes.
def publishedArguments (published : List Event) : List Char :=
  published.flatMap fun
    | .contentBlockDelta _ (.inputJson partialJson) => partialJson
    | _                                             => []

theorem cutStream_eq (events : List (GenerateStreamEvent Unit)) : cutStream events =
    .messageStart "msg_werk_1" "m" :: deliver isEmptyObject
      (initial (cutSource events) "m" "msg_werk_1" "req_1" ["f".toList] none)
      ((cutSource events).filterMap Poll.value?) :=
  collect_new ..

theorem ends_cutSource {events : List (GenerateStreamEvent Unit)}
    (h : ∀ event ∈ events, isDone event = false) : Ends (cutSource events) events cutCompletion := by
  refine ⟨h, [], ?_⟩
  simp [cutSource, List.filterMap_map, Function.comp_def, Poll.value?]

theorem separated_wholeArguments (kind : Option String) :
    Separated isEmptyObject "max_tokens" (wholeArguments kind "\x7b" "\x7d") := by
  intro _ index object rest he ho
  have hw : gather deltaArguments ((wholeArguments kind "\x7b" "\x7d").flatMap eventDeltas) index =
      if 0 = index then "\x7b\x7d".toList else [] := by
    by_cases h : 0 = index <;>
      simp [gather, wholeArguments, eventDeltas, cutDelta, deltaArguments, h]
  rw [hw] at he
  split at he
  case isTrue  => exact blank_of_isEmptyObject object rest ho (he ▸ rfl)
  case isFalse =>
    rw [(List.append_eq_nil_iff.mp he.symm).right]
    intro c hc
    cases hc

theorem fragmentation_agreement_braces :
    (∃ blocks₁ blocks₂ ending,
      cutStream (wholeArguments none "\x7b" "\x7d") = message "msg_werk_1" "m" blocks₁ ending ∧
      cutStream (splitArguments "\x7b" "\x7d") = message "msg_werk_1" "m" blocks₂ ending ∧
      List.Forall₂ (Block.Agrees isEmptyObject) blocks₁ blocks₂) ∨
    ∃ before₁ before₂ error₁ error₂,
      cutStream (wholeArguments none "\x7b" "\x7d") = before₁ ++ [.error error₁ "req_1"] ∧
      cutStream (splitArguments "\x7b" "\x7d") = before₂ ++ [.error error₂ "req_1"] := by
  have hs : (if (none : Option String).isSome then .ok "stop_sequence" else
    stopReason cutCompletion.finishReason) = .ok "max_tokens" := rfl
  have hw : TextFirst (wholeArguments none "\x7b" "\x7d") := List.pairwise_singleton ..
  have hf : TextFirst (splitArguments "\x7b" "\x7d") := List.pairwise_pair.mpr (.inr rfl)
  have hk : SameKinds ((wholeArguments none "\x7b" "\x7d").flatMap eventDeltas)
      ((splitArguments "\x7b" "\x7d").flatMap eventDeltas) := by
    simp [SameKinds, wholeArguments, splitArguments, eventDeltas, cutDelta]
  exact fragmentation_agreement blank_of_isEmptyObject (ends_cutSource (by decide))
    (ends_cutSource (by decide)) (iff_of_true hw hf) hs (separated_wholeArguments none) rfl
    (splitArguments_same ..) hk

-- What comes after a complete object, text that comes after a tool, and tools of another kind tell
-- two streams of the same generation apart.
theorem fragmentation_matters :
    (SameTools ((wholeArguments none "\x7b\x7d" "x").flatMap eventDeltas)
        ((splitArguments "\x7b\x7d" "x").flatMap eventDeltas) ∧
      (cutStream (wholeArguments none "\x7b\x7d" "x")).getLast? = some .messageStop ∧
      (cutStream (splitArguments "\x7b\x7d" "x")).getLast? =
        some (.error "backend extended a completed tool block" "req_1")) ∧
    (SameTools ((wholeArguments none "\x7b\x7d" " ").flatMap eventDeltas)
        ((splitArguments "\x7b\x7d" " ").flatMap eventDeltas) ∧
      (cutStream (wholeArguments none "\x7b\x7d" " ")).getLast? = some .messageStop ∧
      (cutStream (splitArguments "\x7b\x7d" " ")).getLast? = some .messageStop ∧
      publishedArguments (cutStream (wholeArguments none "\x7b\x7d" " ")) = "\x7b\x7d ".toList ∧
      publishedArguments (cutStream (splitArguments "\x7b\x7d" " ")) = "\x7b\x7d".toList) ∧
    (SameTools ((wholeArguments (some "custom") "\x7b" "\x7d").flatMap eventDeltas)
        ((splitArguments "\x7b" "\x7d").flatMap eventDeltas) ∧
      (cutStream (wholeArguments (some "custom") "\x7b" "\x7d")).getLast? =
        some (.error "unsupported backend tool type" "req_1") ∧
      (cutStream (splitArguments "\x7b" "\x7d")).getLast? = some .messageStop) ∧
    (cutStream (.textChunk "t" :: wholeArguments none "\x7b" "\x7d")).getLast? =
        some .messageStop ∧
      (cutStream (wholeArguments none "\x7b" "\x7d" ++ [.textChunk "t"])).getLast? =
        some (.error "backend text after tool deltas cannot be represented without reordering"
          "req_1") := by
  simp only [cutStream_eq]
  refine ⟨⟨splitArguments_same .., ?_⟩, ⟨splitArguments_same .., ?_⟩,
    ⟨splitArguments_same .., ?_⟩, ?_⟩ <;> decide +kernel

end Cuts
end MessagesStream
end Api.Anthropic
