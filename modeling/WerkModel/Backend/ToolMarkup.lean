import WerkModel.Backend.ToolGrammar

-- Markers in the text that is published beside the tool calls of an output.
open Checks Infix

namespace Backend

def markers : List (List Char) := ["<tool_".toList, "</tool_".toList]

section Segments

variable {ν : Type} (lib : Libraries ν)

-- The texts around the call blocks of an output.
def segments (rest : List Char) : List (List Char) :=
  match _h : position openMarker rest with
  | none       => [rest]
  | some start =>
    match lib.next (rest.drop (start + openMarker.length)) with
    | some (.ok (_, offset)) =>
      let afterJson := trimStart ((rest.drop (start + openMarker.length)).drop offset)
      rest.take start :: segments (afterJson.drop closeMarker.length)
    | _ => [rest]
termination_by rest.length
decreasing_by exact length_lt_of_position _ (by decide) ‹_›

variable {lib} {policy : Policy} {rest content : List Char} {calls : List ChatCompletionToolCall}
variable {message : GeneratedAssistantMessage} {start : Nat} {output : String}

theorem noMarkup_iff : NoMarkup rest ↔ ∀ marker ∈ markers, ¬marker <:+: rest := by
  simp only [NoMarkup, markers, List.forall_mem_cons, List.not_mem_nil, false_implies,
    implies_true, and_true]

theorem segments_of_none (h : position openMarker rest = none) : segments lib rest = [rest] := by
  rw [segments]
  split
  case h_1    => rfl
  case h_2 h' => cases h.symm.trans h'

theorem segments_of_some {wire offset} (h : position openMarker rest = some start)
    (hn : nextWire lib (rest.drop (start + openMarker.length)) = .ok (wire, offset)) :
    segments lib rest = rest.take start ::
      segments lib ((trimStart ((rest.drop (start + openMarker.length)).drop offset)).drop
        closeMarker.length) := by
  rw [segments]
  split
  case h_1 h' => cases h.symm.trans h'
  case h_2 h' =>
    cases h.symm.trans h'
    rw [nextWire_eq_ok.mp hn]

-- The loop checks every segment on its own, and publishes them joined.
theorem parseFrom_segments (h : policy.parseFrom lib rest content calls = .ok message) :
    (∀ text ∈ segments lib rest, NoMarkup text) ∧
    ∃ calls, policy.conclude (content ++ (segments lib rest).flatten) calls = .ok message := by
  induction hl : rest.length using Nat.strong_induction_on generalizing rest content calls
  case h length hi =>
    cases hp : position openMarker rest
    case none =>
      have ⟨hn, hc⟩ := (parseFrom_of_none hp).mp h
      rw [segments_of_none hp]
      exact ⟨List.forall_mem_singleton.mpr hn, calls, by rwa [List.flatten_singleton]⟩
    case some start =>
      have ⟨hn, wire, offset, hw, _, _, call, _, hr⟩ := (parseFrom_of_some hp).mp h
      have hd := length_lt_of_position offset (by decide) hp
      have ⟨ht, more, hc⟩ := hi _ (hl ▸ hd) hr rfl
      rw [segments_of_some hp hw]
      refine ⟨List.forall_mem_cons.mpr ⟨hn, ht⟩, more, ?_⟩
      rwa [List.flatten_cons, ←List.append_assoc]

-- The segments of an output of the language are the texts between its blocks.
theorem segments_render {Encodes : List Char → WireCall ν → Prop} {document : Document ν}
    (lawful : lib.Lawful Encodes) (h : document.WellFormed lib Encodes) :
    segments lib document.render = document.blocks.map Prod.fst ++ [document.tail] := by
  obtain ⟨blocks, tail⟩ := document
  induction blocks
  case nil => exact segments_of_none <| position_none h.tail
  case cons entry blocks hi =>
    obtain ⟨text, block⟩ := entry
    have hb := h.blocks _ List.mem_cons_self
    have ht := h.texts _ List.mem_cons_self
    have hn := nextWire_eq_ok.mpr <| lawful.complete block.json block.wire
      (block.ws ++ (closeMarker ++ Document.render ⟨blocks, tail⟩)) hb.json
    rw [Document.render_cons, segments_of_some (position_openMarker ht) (by rwa [List.drop_length_add_append, List.drop_left]),
      List.take_left, List.drop_length_add_append, List.drop_left, List.drop_left,
      trimStart_close hb.ws, List.drop_left, hi]
    · rfl
    · exact ⟨fun e he => h.texts e (List.mem_cons_of_mem _ he), h.tail,
        fun e he => h.blocks e (List.mem_cons_of_mem _ he)⟩

theorem mem_flatten_of_cut {texts : List (List Char)} {marker : List Char} (hm : marker ∈ markers)
    (h : Cut marker texts) : '<' ∈ texts.flatten := by
  have ⟨before, after, ht, front, back, hf, _, hp, hs, _⟩ := h
  have hh : marker.head? = some '<' :=
    (by decide : ∀ marker ∈ markers, marker.head? = some '<') marker hm
  rw [hp, List.head?_append_of_ne_nil _ hf] at hh
  rw [ht, List.flatten_append]
  exact List.mem_append_left _ <| hs.subset <| List.mem_of_mem_head? hh

-- The markers that are published are cut in two by call blocks.
theorem content_clean_iff (h : policy.parse lib output = .ok message) :
    (∀ content, message.content = some content → NoMarkup content.toList) ↔
    ∀ marker ∈ markers, ¬Cut marker (segments lib output.toList) := by
  have ⟨hs, calls, hc⟩ := parseFrom_segments (parse_eq_ok.mp h).2
  rw [List.nil_append] at hc
  have hd := (conclude_eq_ok.mp hc).2
  rw [hd]
  split
  case isTrue hb =>
    -- A blank text is not published, and has no markers.
    refine iff_of_true nofun fun marker hm hk => ?_
    exact absurd (trim_eq_nil.mp hb.2 _ <| mem_flatten_of_cut hm hk) (by decide)
  case isFalse =>
    simp only [Option.some.injEq, forall_eq', String.toList_ofList, noMarkup_iff]
    refine forall₂_congr fun marker hm => not_congr ?_
    have hn : marker ≠ [] := (by decide : ∀ marker ∈ markers, marker ≠ []) marker hm
    rw [infix_flatten_iff hn]
    exact or_iff_right fun ⟨text, ht, hi⟩ => noMarkup_iff.mp (hs text ht) marker hm hi

end Segments

-- An opening marker that a call block cuts in two.

def cutDocument : Document Nat where
  blocks := [("<to".toList, ⟨smallJson, [], smallWire⟩)]
  tail   := "ol_call>".toList

theorem cutDocument_wellFormed : cutDocument.WellFormed smallLibraries smallEncodes where
  texts  := List.forall_mem_singleton.mpr (by decide)
  tail   := by decide
  blocks := List.forall_mem_singleton.mpr
    ⟨⟨rfl, rfl⟩, List.forall_mem_nil _, [], .object⟩

theorem content_clean_small : ∃ message, smallPolicy.parse smallLibraries
      (String.ofList (smallDocument "Checking.\n").render) = .ok message ∧
    ∀ content, message.content = some content → NoMarkup content.toList := by
  have hw : (smallDocument "Checking.\n").WellFormed smallLibraries smallEncodes :=
    smallDocument_wellFormed (by decide +kernel)
  have ⟨message, h, _⟩ := parse_document smallLibraries_lawful (by decide +kernel)
    String.toList_ofList.symm hw (smallPolicy_permits _)
  refine ⟨message, h, (content_clean_iff h).mpr fun marker hm hc => ?_⟩
  rw [String.toList_ofList, segments_render smallLibraries_lawful hw] at hc
  exact absurd (mem_flatten_of_cut hm hc) (by decide)

theorem marker_published : ∃ message content,
    smallPolicy.parse smallLibraries (String.ofList cutDocument.render) = .ok message ∧
    message.content = some content ∧ "<tool_".toList <:+: content.toList := by
  have ⟨message, h, m⟩ := parse_document smallLibraries_lawful (by decide +kernel)
    String.toList_ofList.symm cutDocument_wellFormed (smallPolicy_permits "<to")
  refine ⟨message, _, h, m.text (.inr fun hb => ?_), by decide +kernel⟩
  exact absurd (hb '<' (by decide +kernel)) (by decide)

end Backend
