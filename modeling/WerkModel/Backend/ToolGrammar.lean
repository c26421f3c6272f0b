import WerkModel.Backend.ToolCalling

-- The language of outputs with tool calls: texts without markers, in between blocks that each hold
-- the JSON text of a call.
open Checks Infix

namespace Backend

variable {ν : Type} {lib : Libraries ν} {Encodes : List Char → WireCall ν → Prop}
variable {policy : Policy}

-- The texts that encode calls, with the whitespace before them, are found at the start of any text.
structure Libraries.Lawful (lib : Libraries ν) (Encodes : List Char → WireCall ν → Prop) :
    Prop where
  complete  : ∀ json wire rest, Encodes json wire →
    lib.next (json ++ rest) = some (.ok (wire, json.length))
  sound     : ∀ body wire offset, lib.next body = some (.ok (wire, offset)) →
    Encodes (body.take offset) wire
  toString  : ∀ value, ∃ text, lib.toString value = .ok text
  getrandom : ∀ allocation, ∃ bytes, lib.getrandom allocation = .ok bytes

structure Block (ν : Type) where
  json : List Char
  ws   : List Char
  wire : WireCall ν

def Block.render (block : Block ν) : List Char :=
  openMarker ++ (block.json ++ (block.ws ++ closeMarker))

-- Every block follows a text, which may be empty.
structure Document (ν : Type) where
  blocks : List (List Char × Block ν)
  tail   : List Char

namespace Document

variable (document : Document ν)

def render : List Char :=
  (document.blocks.flatMap fun (text, block) => text ++ block.render) ++ document.tail

def text : List Char :=
  document.blocks.flatMap Prod.fst ++ document.tail

def wires : List (WireCall ν) :=
  document.blocks.map fun (_, block) => block.wire

end Document

-- Arguments are an object or the JSON text of an object.
inductive Arguments (lib : Libraries ν) : Value ν → List (String × Value ν) → Prop
  | object {entries} : Arguments lib (.object entries) entries
  | encoded {text entries} : lib.fromStr text = .ok (.object entries) →
    Arguments lib (.string text) entries

structure Block.WellFormed (lib : Libraries ν) (Encodes : List Char → WireCall ν → Prop)
    (block : Block ν) : Prop where
  json      : Encodes block.json block.wire
  ws        : Blank block.ws
  arguments : ∃ entries, Arguments lib block.wire.arguments entries

-- A number of calls precedes the document.
structure Permits (policy : Policy) (calls : Nat) (wires : List (WireCall ν)) : Prop where
  names    : ∀ wire ∈ wires, wire.name ∈ policy.names
  none     : policy.choice = .mode .none → wires = []
  required : policy.choice = .mode .required → 0 < calls + wires.length
  named    : ∀ named, policy.choice = .named named →
    0 < calls + wires.length ∧ ∀ wire ∈ wires, wire.name = named.name
  parallel : policy.parallel ∨ wires = [] ∨ calls + wires.length ≤ 1

structure Document.WellFormed (lib : Libraries ν) (Encodes : List Char → WireCall ν → Prop)
    (document : Document ν) : Prop where
  texts  : ∀ entry ∈ document.blocks, NoMarkup entry.1
  tail   : NoMarkup document.tail
  blocks : ∀ entry ∈ document.blocks, entry.2.WellFormed lib Encodes

-- The call that a block asks for, whose identifier is random.
structure Denotes (lib : Libraries ν) (wire : WireCall ν) (call : ChatCompletionToolCall) :
    Prop where
  kind      : call.kind = "function"
  name      : call.function.name = wire.name
  arguments : ∃ entries, Arguments lib wire.arguments entries ∧
    lib.toString (.object entries) = .ok call.function.arguments

section Markers

theorem openMarker_eq : openMarker = '<' :: "tool_call>".toList := by
  decide +kernel

theorem closeMarker_eq : closeMarker = '<' :: "/tool_call>".toList := by
  decide +kernel

theorem not_openMarker {text : List Char} (h : NoMarkup text) : ¬openMarker <:+: text := by
  have hi : "<tool_".toList <:+: openMarker := ⟨[], "call>".toList, by decide +kernel⟩
  exact fun hm => h.1 (hi.trans hm)

theorem position_openMarker {text rest : List Char} (h : NoMarkup text) :
    position openMarker (text ++ (openMarker ++ rest)) = some text.length := by
  rw [openMarker_eq]
  exact position_append (by decide +kernel) (openMarker_eq ▸ not_openMarker h)

theorem position_none {text : List Char} (h : NoMarkup text) : position openMarker text = none :=
  (position_eq_none (by decide)).mpr (not_openMarker h)

end Markers

section ToolCall

variable {wire : WireCall ν} {calls : List ChatCompletionToolCall} {call : ChatCompletionToolCall}

theorem toolCall_of_arguments (calls : List ChatCompletionToolCall) (lawful : lib.Lawful Encodes)
    {entries : List (String × Value ν)} (h : Arguments lib wire.arguments entries) :
    ∃ call, toolCall lib calls wire = .ok call ∧ Denotes lib wire call := by
  have ⟨_, hb⟩ := lawful.getrandom calls.length
  have ⟨text, ht⟩ := lawful.toString (.object entries)
  have hr : resolveArguments lib wire.arguments = .ok (.object entries) := by
    generalize wire.arguments = arguments at h
    cases h
    case object       => exact resolveArguments_object
    case encoded hf   => exact resolveArguments_string.mpr hf
  have hi := callId_eq_ok.mpr ⟨_, hb, rfl⟩
  exact ⟨_, toolCall_eq_ok.mpr ⟨_, hr, rfl, _, hi, _, ht, rfl⟩, rfl, rfl, entries, h, ht⟩

theorem arguments_of_toolCall (h : toolCall lib calls wire = .ok call) :
    ∃ entries, Arguments lib wire.arguments entries := by
  have ⟨value, hr, ho, _⟩ := toolCall_eq_ok.mp h
  have ⟨entries, he⟩ := Value.exists_object ho
  rw [he] at hr
  obtain ⟨text, ha, hf⟩ | ha := resolveArguments_cases hr
  · exact ⟨entries, ha ▸ .encoded hf⟩
  · exact ⟨entries, ha ▸ .object⟩

end ToolCall

section Parser

variable {calls : List ChatCompletionToolCall} {rest content : List Char}
variable {message : GeneratedAssistantMessage} {document : Document ν}

theorem Document.render_cons {text tail : List Char} {block : Block ν} {blocks} :
    Document.render ⟨(text, block) :: blocks, tail⟩ =
      text ++ (openMarker ++ (block.json ++ (block.ws ++ (closeMarker ++
        Document.render ⟨blocks, tail⟩)))) := by
  simp [Document.render, Block.render]

theorem permits_nil_iff :
    Permits policy calls.length ([] : List (WireCall ν)) ↔
      policy.choice.checkRequired calls = .ok () := by
  rw [checkRequired_eq_ok, ←List.length_pos_iff]
  constructor
  case mp =>
    rintro p (h | ⟨named, h⟩)
    · exact p.required h
    · exact (p.named named h).1
  case mpr =>
    intro h
    constructor
    case names    => simp
    case none     => simp
    case required => exact fun hc => h (.inl hc)
    case named    => exact fun named hc => ⟨h (.inr ⟨named, hc⟩), by simp⟩
    case parallel => simp

theorem permits_cons_iff {wire : WireCall ν} {wires : List (WireCall ν)} :
    Permits policy calls.length (wire :: wires) ↔
      policy.checkCall calls wire.name = .ok () ∧ Permits policy (calls.length + 1) wires := by
  rw [checkCall_eq_ok]
  constructor
  case mp =>
    intro p
    have hp := p.parallel
    simp only [List.length_cons, List.cons_ne_nil, false_or] at hp
    refine ⟨⟨?_, ?_, ?_, ?_⟩, ?_, ?_, ?_, ?_, ?_⟩
    · exact fun hc => List.cons_ne_nil _ _ (p.none hc)
    · exact p.names wire List.mem_cons_self
    · exact fun named hc => (p.named named hc).2 wire List.mem_cons_self
    · exact hp.imp id fun hl => List.length_eq_zero_iff.mp (by omega)
    · exact fun wire hw => p.names wire (List.mem_cons_of_mem _ hw)
    · exact fun hc => absurd (p.none hc) (List.cons_ne_nil _ _)
    · exact fun _ => by omega
    · exact fun named hc =>
        ⟨by omega, fun wire hw => (p.named named hc).2 wire (List.mem_cons_of_mem _ hw)⟩
    · exact hp.imp id fun hl => .inr (by omega)
  case mpr =>
    rintro ⟨⟨hn, hm, hd, hc⟩, p⟩
    constructor
    case names    => exact List.forall_mem_cons.mpr ⟨hm, p.names⟩
    case none     => exact fun h => absurd h hn
    case required => simp
    case named    =>
      exact fun named h => ⟨by simp, List.forall_mem_cons.mpr ⟨hd named h, (p.named named h).2⟩⟩
    case parallel =>
      obtain hc | hc := hc
      · exact .inl hc
      · refine p.parallel.imp id fun hp => .inr ?_
        have hl : calls.length = 0 := List.length_eq_zero_iff.mpr hc
        have hw : wires.length = 0 := by
          obtain hp | hp := hp
          · exact List.length_eq_zero_iff.mpr hp
          · omega
        rw [List.length_cons]
        omega

theorem trimStart_close {ws : List Char} (h : Blank ws) :
    trimStart (ws ++ (closeMarker ++ rest)) = closeMarker ++ rest := by
  rw [closeMarker_eq]
  exact trimStart_append h (by decide)

theorem parseFrom_block {text : List Char} {block : Block ν} {call : ChatCompletionToolCall}
    (lawful : lib.Lawful Encodes) (ht : NoMarkup text) (hb : block.WellFormed lib Encodes)
    (hc : policy.checkCall calls block.wire.name = .ok ())
    (hcall : toolCall lib calls block.wire = .ok call) :
    policy.parseFrom lib
      (text ++ (openMarker ++ (block.json ++ (block.ws ++ (closeMarker ++ rest))))) content calls =
        .ok message ↔
    policy.parseFrom lib rest (content ++ text) (calls ++ [call]) = .ok message := by
  have hn := nextWire_eq_ok.mpr
    (lawful.complete block.json block.wire (block.ws ++ (closeMarker ++ rest)) hb.json)
  rw [parseFrom_of_some (position_openMarker ht), List.take_left, List.drop_length_add_append,
    List.drop_left, and_iff_right ht]
  constructor
  case mp =>
    rintro ⟨wire, offset, hw, _, _, call', hcall', hp⟩
    cases hn.symm.trans hw
    cases hcall.symm.trans hcall'
    rwa [List.drop_left, trimStart_close hb.ws, List.drop_left] at hp
  case mpr =>
    intro hp
    refine ⟨block.wire, block.json.length, hn, ?_, hc, call, hcall, ?_⟩
    · rw [List.drop_left, trimStart_close hb.ws]
      exact List.prefix_append ..
    · rwa [List.drop_left, trimStart_close hb.ws, List.drop_left]

-- The parser follows a document of its language, block by block.
theorem parseFrom_render (lawful : lib.Lawful Encodes) (h : document.WellFormed lib Encodes)
    (hp : Permits policy calls.length document.wires) :
    ∃ more, List.Forall₂ (Denotes lib) document.wires more ∧
      policy.choice.checkRequired (calls ++ more) = .ok () ∧
      ∀ message, policy.parseFrom lib document.render content calls = .ok message ↔
        policy.conclude (content ++ document.text) (calls ++ more) = .ok message := by
  obtain ⟨blocks, tail⟩ := document
  induction blocks generalizing content calls
  case nil =>
    refine ⟨[], .nil, by rw [List.append_nil]; exact permits_nil_iff.mp hp, fun message => ?_⟩
    have he : Document.render (⟨[], tail⟩ : Document ν) = tail := rfl
    rw [he, parseFrom_of_none (position_none h.tail), and_iff_right h.tail, List.append_nil]
    rfl
  case cons entry blocks hi =>
    obtain ⟨text, block⟩ := entry
    have ht := h.texts _ List.mem_cons_self
    have hb := h.blocks _ List.mem_cons_self
    have ⟨hc, hp⟩ := permits_cons_iff.mp hp
    have ⟨_, ha⟩ := hb.arguments
    have ⟨call, hcall, hd⟩ := toolCall_of_arguments calls lawful ha
    have h' : Document.WellFormed lib Encodes ⟨blocks, tail⟩ :=
      ⟨fun e he => h.texts e (List.mem_cons_of_mem _ he), h.tail,
        fun e he => h.blocks e (List.mem_cons_of_mem _ he)⟩
    have hp' : Permits policy (calls ++ [call]).length (Document.wires ⟨blocks, tail⟩) := by
      rwa [List.length_append]
    have ⟨more, hf, hq, hm⟩ := @hi (calls ++ [call]) (content ++ text) h' hp'
    rw [List.append_assoc] at hq
    refine ⟨call :: more, .cons hd hf, hq, fun message => ?_⟩
    rw [Document.render_cons, parseFrom_block lawful ht hb hc hcall, hm, List.append_assoc,
      List.append_assoc]
    simp [Document.text]

theorem exists_document (lawful : lib.Lawful Encodes)
    (h : policy.parseFrom lib rest content calls = .ok message) :
    ∃ document : Document ν, document.render = rest ∧ document.WellFormed lib Encodes ∧
      Permits policy calls.length document.wires := by
  induction hn : rest.length using Nat.strong_induction_on generalizing rest content calls
  case h hi =>
    cases hp : position openMarker rest
    case none =>
      rw [parseFrom_of_none hp, conclude_eq_ok] at h
      exact ⟨⟨[], rest⟩, rfl, ⟨by simp, h.1, by simp⟩, permits_nil_iff.mpr h.2.1⟩
    case some start =>
      rw [parseFrom_of_some hp] at h
      have ⟨ht, wire, offset, hw, ⟨after, hclose⟩, hc, call, hcall, h⟩ := h
      have ⟨body, hb, hs⟩ := of_position hp
      have hd : (rest.take start ++ (openMarker ++ body)).drop
          ((rest.take start).length + openMarker.length) = body := by
        rw [List.drop_length_add_append, List.drop_left]
      rw [←hb, List.length_take, Nat.min_eq_left (by omega)] at hd
      have hl := length_lt_of_position offset (by decide) hp
      have ⟨ws, hws, htrim⟩ := exists_blank ((rest.drop (start + openMarker.length)).drop offset)
      rw [hd] at hw htrim hl h hclose
      have ⟨document, hr, hwf, hpm⟩ := hi _ (hn ▸ hl) h rfl
      have hj := lawful.sound _ _ _ (nextWire_eq_ok.mp hw)
      have he : rest = Document.render
          ⟨(rest.take start, ⟨body.take offset, ws, wire⟩) :: document.blocks, document.tail⟩ := by
        rw [←hclose, List.drop_left] at hr
        rw [Document.render_cons, hr, hclose, ←htrim, List.take_append_drop, ←hb]
      refine ⟨_, he.symm, ⟨?_, hwf.tail, ?_⟩, permits_cons_iff.mpr ⟨hc, ?_⟩⟩
      · exact List.forall_mem_cons.mpr ⟨ht, hwf.texts⟩
      · exact List.forall_mem_cons.mpr ⟨⟨hj, hws, arguments_of_toolCall hcall⟩, hwf.blocks⟩
      · rwa [List.length_append] at hpm

-- What a message says about the document that it was parsed from.
structure Means (lib : Libraries ν) (document : Document ν) (message : GeneratedAssistantMessage) :
    Prop where
  calls  : List.Forall₂ (Denotes lib) document.wires (message.toolCalls.getD [])
  absent : message.toolCalls = none ↔ document.blocks = []
  text   : (document.blocks = [] ∨ ¬Blank document.text) →
    message.content = some (String.ofList document.text)
  blank  : document.blocks ≠ [] → Blank document.text → message.content = none

theorem means_of_conclude {more : List ChatCompletionToolCall}
    (hf : List.Forall₂ (Denotes lib) document.wires more)
    (h : policy.conclude document.text more = .ok message) : Means lib document message := by
  have hb : document.blocks = [] ↔ more = [] := by
    rw [←List.length_eq_zero_iff, ←List.length_eq_zero_iff, ←hf.length_eq, Document.wires,
      List.length_map]
  rw [(conclude_eq_ok.mp h).2]
  constructor
  case calls =>
    by_cases hm : more = []
    case pos => simpa [hm] using hf
    case neg => simpa [hm] using hf
  case absent => simp [hb]
  case text =>
    intro ht
    rw [hb, ←trim_eq_nil] at ht
    exact if_neg fun hn => ht.elim hn.1 fun ht => ht hn.2
  case blank => exact fun hn ht => if_pos ⟨hb.not.mp hn, trim_eq_nil.mpr ht⟩

theorem parse_document {output : String} (lawful : lib.Lawful Encodes)
    (hl : output.utf8ByteSize ≤ maxOutputBytes) (hr : document.render = output.toList)
    (h : document.WellFormed lib Encodes) (hp : Permits policy 0 document.wires) :
    ∃ message, policy.parse lib output = .ok message ∧ Means lib document message := by
  have ⟨more, hf, hq, hm⟩ := @parseFrom_render _ _ _ policy [] [] document lawful h hp
  have ⟨message, hc⟩ := exists_conclude document.text hq
  exact ⟨message, parse_eq_ok.mpr ⟨hl, hr ▸ (hm message).mpr hc⟩, means_of_conclude hf hc⟩

theorem parse_language {output : String} (lawful : lib.Lawful Encodes)
    (hl : output.utf8ByteSize ≤ maxOutputBytes) :
    ((∃ message, policy.parse lib output = .ok message) ↔ ∃ document : Document ν,
      document.render = output.toList ∧ document.WellFormed lib Encodes ∧
      Permits policy 0 document.wires) ∧
    ∀ document : Document ν, document.render = output.toList → document.WellFormed lib Encodes →
      Permits policy 0 document.wires →
      ∃ message, policy.parse lib output = .ok message ∧ Means lib document message := by
  refine ⟨⟨?_, ?_⟩, fun document => parse_document lawful hl⟩
  · rintro ⟨message, h⟩
    exact exists_document lawful (parse_eq_ok.mp h).2
  · rintro ⟨document, hr, h, hp⟩
    have ⟨message, hm, _⟩ := parse_document lawful hl hr h hp
    exact ⟨message, hm⟩

end Parser

section Examples

def smallJson : List Char :=
  "\x7b\"name\":\"weather\",\"arguments\":\x7b\x7d\x7d".toList

def smallWire : WireCall Nat where
  name      := "weather"
  arguments := .object []

def smallLibraries : Libraries Nat where
  next body     := if smallJson <+: body then some (.ok (smallWire, smallJson.length)) else none
  fromStr _     := .error ""
  toString _    := .ok "\x7b\x7d"
  getrandom _   := .ok (List.replicate 16 0)
  printQuoted   := id

def smallEncodes (json : List Char) (wire : WireCall Nat) : Prop :=
  json = smallJson ∧ wire = smallWire

theorem smallLibraries_lawful : smallLibraries.Lawful smallEncodes where
  toString _  := ⟨_, rfl⟩
  getrandom _ := ⟨_, rfl⟩
  complete := by
    rintro json wire rest ⟨rfl, rfl⟩
    have hp : smallJson <+: smallJson ++ rest := List.prefix_append ..
    simp only [smallLibraries, hp, if_true]
  sound := by
    intro body wire offset h
    by_cases hp : smallJson <+: body
    case neg => simp [smallLibraries, hp] at h
    case pos =>
      simp only [smallLibraries, hp, if_true, Option.some.injEq, Except.ok.injEq,
        Prod.mk.injEq] at h
      rw [←h.1, ←h.2]
      exact ⟨(List.prefix_iff_eq_take.mp hp).symm, rfl⟩

def smallPolicy : Policy where
  names    := ["weather"]
  choice   := .mode .auto
  parallel := false

def smallDocument (text : String) : Document Nat where
  blocks := [(text.toList, ⟨smallJson, [], smallWire⟩)]
  tail   := []

theorem smallDocument_wellFormed {text : String} (h : NoMarkup text.toList) :
    (smallDocument text).WellFormed smallLibraries smallEncodes := by
  constructor
  case texts  => simpa [smallDocument] using h
  case tail   => simp [smallDocument, NoMarkup]
  case blocks =>
    have hb : Block.WellFormed smallLibraries smallEncodes ⟨smallJson, [], smallWire⟩ :=
      ⟨⟨rfl, rfl⟩, by simp [Blank], [], .object⟩
    simpa [smallDocument] using hb

theorem smallPolicy_permits (text : String) : Permits smallPolicy 0 (smallDocument text).wires := by
  constructor <;> simp [smallPolicy, smallDocument, Document.wires, smallWire]

theorem parse_language_small : ∃ message,
    smallPolicy.parse smallLibraries (String.ofList (smallDocument "Checking.\n").render) =
      .ok message ∧ message.content = some "Checking.\n" := by
  have ⟨message, h, m⟩ := (parse_language smallLibraries_lawful (by decide +kernel)).2
    (smallDocument "Checking.\n") String.toList_ofList.symm
    (smallDocument_wellFormed (by decide +kernel)) (smallPolicy_permits _)
  refine ⟨message, h, (m.text (.inr ?_)).trans (by decide +kernel)⟩
  intro hb
  exact absurd (hb 'C' (by decide +kernel)) (by decide)

-- The text of an output that only has whitespace beside its calls is not returned.
theorem blank_text_dropped : ∃ message,
    smallPolicy.parse smallLibraries (String.ofList (smallDocument "\n").render) = .ok message ∧
    (smallDocument "\n").text = ['\n'] ∧ message.content ≠ some "\n" := by
  have ⟨message, h, m⟩ := parse_document smallLibraries_lawful (by decide +kernel)
    String.toList_ofList.symm (smallDocument_wellFormed (by decide +kernel))
    (smallPolicy_permits "\n")
  have ht : (smallDocument "\n").text = ['\n'] := by decide +kernel
  have hb : Blank (smallDocument "\n").text := by
    rw [ht]
    exact List.forall_mem_singleton.mpr (by decide)
  refine ⟨message, h, ht, ?_⟩
  rw [m.blank (by simp [smallDocument]) hb]
  simp

end Examples
end Backend
