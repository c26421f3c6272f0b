import WerkModel.Backend.LlamaFastText

-- What is streamed is what is returned as long as no stop string begins in what was streamed, and
-- nothing is lost as long as the pieces are UTF-8.
open Slices Stops

namespace Backend.LlamaFast.Text

open Utf8PieceDecoder

variable {stops : List Bytes} {tx : Bool} {s s' : State} {draws : List (Option Bytes)}
variable {piece pending : Bytes} {k m : Nat}

theorem led_of_mem_map {stop : Bytes} {stops : List (List Char)}
    (h : stop ∈ stops.map Utf8.encode) : Led stop := by
  obtain ⟨chars, _, rfl⟩ := List.mem_map.mp h
  exact led_encode chars

section Streaming

-- The stream is the text that is returned without a stream, in which no stop string is left.
def Delivered (stops : List Bytes) (draws : List (Option Bytes)) : Prop :=
  ∃ plain streamed, generate stops false draws = some plain ∧
    generate stops true draws = some streamed ∧ streamed.events.flatten = plain.text ∧
    Free stops plain.text

theorem Cut.free {tx : Bool} {chunks : List Bytes} (h : Cut stops chunks tx s k m) :
    Free stops s.text := by
  rw [h.text]
  exact h.earliest.free_take

-- A cut is streamed exactly if and only if it is not in front of what was streamed before.
theorem Cut.flatten_iff {chunks : List Bytes} (h : Cut stops chunks true s k m) :
    s.events.flatten = s.text ↔ (textAt chunks k).length ≤ m := by
  obtain ⟨rest, hr⟩ := @textAt_append _ chunks (k + 1) k (by omega)
  have hlt := h.earliest.starts.lt
  have hlen : s.text.length = m := by
    rw [h.text, List.length_take]
    omega
  rw [h.events rfl]
  constructor
  case mp =>
    intro he
    have := congrArg List.length he
    rw [List.length_append, List.length_drop, hlen] at this
    omega
  case mpr =>
    intro hle
    have ht : textAt chunks k = s.text.take (textAt chunks k).length := by
      rw [h.text, List.take_take, Nat.min_eq_left hle, hr, List.take_left' rfl]
    conv_lhs => rw [ht]
    rw [List.length_take, Nat.min_eq_left (by omega), List.take_append_drop]

theorem delivered_iff (stops : List (List Char)) (draws : List (Option Bytes)) :
    let stops := stops.map Utf8.encode
    Delivered stops draws ↔ ∀ k m, FirstAt stops (chunks draws) (k + 1) →
      Earliest stops (textAt (chunks draws) (k + 1)) m →
      (textAt (chunks draws) k).length ≤ m := by
  intro stops
  have hl : ∀ stop ∈ stops, Led stop := fun _ => led_of_mem_map
  have ⟨plain, hp, hplain⟩ := @generate_run stops false draws hl
  have ⟨streamed, hs, hstreamed⟩ := @generate_run stops true draws hl
  rcases hplain with ⟨k, m, hc⟩ | hw
  case inl =>
    rcases hstreamed with ⟨k', m', hc'⟩ | hw'
    case inr => exact absurd hw'.free hc.first.not_free
    case inl =>
      obtain rfl : k' = k := Nat.succ.inj (hc'.first.unique hc.first)
      obtain rfl := hc'.earliest.unique hc.earliest
      have ht : streamed.text = plain.text := hc'.text.trans hc.text.symm
      constructor
      case mp =>
        rintro ⟨plain', streamed', hp', hs', he, _⟩ j n hj hn
        obtain rfl := Option.some.inj (hp.symm.trans hp')
        obtain rfl := Option.some.inj (hs.symm.trans hs')
        obtain rfl : j = k' := Nat.succ.inj (hj.unique hc.first)
        obtain rfl := hn.unique hc.earliest
        exact hc'.flatten_iff.mp (he.trans ht.symm)
      case mpr =>
        intro h
        refine ⟨plain, streamed, hp, hs, ?_, hc.free⟩
        exact (hc'.flatten_iff.mpr (h _ _ hc.first hc.earliest)).trans ht
  case inr =>
    rcases hstreamed with ⟨k', m', hc'⟩ | hw'
    case inl => exact absurd hw.free hc'.first.not_free
    case inr =>
      refine iff_of_true ⟨plain, streamed, hp, hs, ?_, hw.text ▸ hw.free⟩ ?_
      · rw [hw'.events rfl, hw'.text, hw.text]
      · exact fun k m hk _ => absurd hw.free hk.not_free

-- The first half of the stop string is streamed, and none of the text is returned.
theorem not_delivered_split :
    ¬Delivered ([['a', 'b']].map Utf8.encode) ([['a'], ['b']].map (some ∘ Utf8.encode)) := by
  rintro ⟨plain, streamed, hp, hs, he, _⟩
  have hp' : generate ([['a', 'b']].map Utf8.encode) false
      ([['a'], ['b']].map (some ∘ Utf8.encode)) = some ⟨[], [], [], 2, "stop"⟩ := by
    decide +kernel
  have hs' : generate ([['a', 'b']].map Utf8.encode) true
      ([['a'], ['b']].map (some ∘ Utf8.encode)) = some ⟨[], [], [[97]], 2, "stop"⟩ := by
    decide +kernel
  obtain rfl := Option.some.inj (hp'.symm.trans hp)
  obtain rfl := Option.some.inj (hs'.symm.trans hs)
  exact absurd he (by decide)

end Streaming

section Decoding

-- The pieces that are drawn before the text ends.
def pieces (draws : List (Option Bytes)) : List Bytes :=
  (draws.takeWhile Option.isSome).reduceOption

-- What is kept after some pieces.
def heldFrom (pending : Bytes) (pieces : List Bytes) : Bytes :=
  pieces.foldl (fun pending piece => (push pending piece).2) pending

def held (pieces : List Bytes) : Bytes :=
  heldFrom [] pieces

-- All but an incomplete character in the end is in the text, and never more than such a character
-- is kept.
structure Lossless (pieces : List Bytes) (s : State) : Prop where
  text : ∃ body tail, pieces.flatten = body ++ tail ∧ Lossy.Incomplete tail ∧
    s.text = Lossy.lossy body
  held : ∀ k ≤ pieces.length, Lossy.Incomplete (held (pieces.take k))

theorem finish_eq : finish pending = Lossy.lossy pending := by
  rw [finish]
  split
  case isTrue h => rw [h]; rfl
  case isFalse  => rfl

theorem heldFrom_eq (consumed : List Bytes)
    (h : ∀ chars, Utf8.encode chars <+: pending → chars = []) :
    (∃ chars, pending ++ consumed.flatten = Utf8.encode chars ++ heldFrom pending consumed) ∧
      ∀ chars, Utf8.encode chars <+: heldFrom pending consumed → chars = [] := by
  induction consumed generalizing pending
  case nil => exact ⟨⟨[], by simp [heldFrom]⟩, h⟩
  case cons piece consumed hi =>
    have ⟨chars, _, hp, hn⟩ := push_eq pending piece
    have ⟨⟨chars', hc⟩, hn'⟩ := hi hn
    refine ⟨⟨chars ++ chars', ?_⟩, hn'⟩
    rw [List.flatten_cons, ←List.append_assoc, hp, List.append_assoc, hc, Utf8.encode_append,
      List.append_assoc]
    rfl

theorem held_eq (consumed : List Bytes) :
    (∃ chars, consumed.flatten = Utf8.encode chars ++ held consumed) ∧
      ∀ chars, Utf8.encode chars <+: held consumed → chars = [] :=
  heldFrom_eq consumed fun _ hp => Utf8.encode_injective (List.prefix_nil.mp hp)

-- The text is what was decoded, and what is kept in the end unless the text ends before.
theorem flatten_chunksFrom : ∃ chars,
    pending ++ (pieces draws).flatten = Utf8.encode chars ++ heldFrom pending (pieces draws) ∧
    (chunksFrom pending draws).flatten = Utf8.encode chars ++
      if none ∈ draws then [] else Lossy.lossy (heldFrom pending (pieces draws)) := by
  induction draws generalizing pending
  case nil =>
    refine ⟨[], by simp [pieces, heldFrom], ?_⟩
    have hn : none ∉ ([] : List (Option Bytes)) := List.not_mem_nil
    rw [chunksFrom, finish_eq, if_neg hn]
    split
    case isTrue h  => exact h.symm
    case isFalse   => exact List.append_nil _
  case cons draw draws hi =>
    cases draw
    case none => exact ⟨[], by simp [pieces, heldFrom], by simp [chunksFrom]⟩
    case some piece =>
      have hp : pieces (some piece :: draws) = piece :: pieces draws := by
        simp [pieces, List.reduceOption_cons_of_some]
      obtain ⟨chars, he, hc, _⟩ := push_eq pending piece
      obtain ⟨chars', hc', ht⟩ := @hi (push pending piece).2
      refine ⟨chars ++ chars', ?_, ?_⟩
      · rw [hp, List.flatten_cons, ←List.append_assoc, hc, List.append_assoc, hc',
          Utf8.encode_append, List.append_assoc]
        rfl
      · have hf : (chunksFrom pending (some piece :: draws)).flatten =
            (push pending piece).1 ++ (chunksFrom (push pending piece).2 draws).flatten := by
          rw [chunksFrom]
          split
          case isTrue h  => rw [h, List.nil_append]
          case isFalse h => rw [List.flatten_cons]
        rw [hf, ht, he, hp, Utf8.encode_append, List.append_assoc]
        simp only [List.mem_cons, reduceCtorEq, false_or]
        rfl

-- What the pieces keep back is incomplete if and only if they are the beginning of a text.
theorem held_incomplete_iff {consumed : List Bytes} :
    (∀ k ≤ consumed.length, Lossy.Incomplete (held (consumed.take k))) ↔
      ∃ chars, consumed.flatten <+: Utf8.encode chars := by
  constructor
  case mp =>
    intro h
    obtain ⟨c, hp, _⟩ := h consumed.length (Nat.le_refl _)
    obtain ⟨⟨chars, hc⟩, _⟩ := held_eq consumed
    rw [List.take_length] at hp
    refine ⟨chars ++ [c], ?_⟩
    rw [hc, Utf8.encode_append]
    exact (List.prefix_append_right_inj _).mpr (by simpa [Utf8.encode] using hp)
  case mpr =>
    rintro ⟨chars, hp⟩ k _
    obtain ⟨⟨chars', hc⟩, hn⟩ := held_eq (consumed.take k)
    have hk : (consumed.take k).flatten <+: consumed.flatten := by
      conv_rhs => rw [←List.take_append_drop k consumed, List.flatten_append]
      exact List.prefix_append ..
    obtain ⟨rest, hr⟩ := Lossy.exists_of_append (hc ▸ hk.trans hp)
    exact Lossy.incomplete_of_prefix hr hn

-- A byte that belongs to no character delays all that follows it.
theorem generate_lossless_iff (stops : List (List Char)) (tx : Bool) (draws : List (Option Bytes))
    (h : Free (stops.map Utf8.encode) (chunks draws).flatten) :
    ∃ s, generate (stops.map Utf8.encode) tx draws = some s ∧
      (Lossless (pieces draws) s ↔ ∃ chars, (pieces draws).flatten <+: Utf8.encode chars) := by
  have ⟨s, hs, hc⟩ := @generate_run _ tx draws fun _ => @led_of_mem_map _ stops
  refine ⟨s, hs, fun hl => held_incomplete_iff.mp hl.held, fun hp => ?_⟩
  have hheld := held_incomplete_iff.mpr hp
  refine ⟨?_, hheld⟩
  rcases hc with ⟨k, m, hc⟩ | hw
  case inl => exact absurd h hc.first.not_free
  case inr =>
    have ⟨chars, hc, ht⟩ := @flatten_chunksFrom draws []
    rw [List.nil_append] at hc
    change (chunks draws).flatten = _ at ht
    rw [←hw.text] at ht
    split at ht
    case isTrue =>
      rw [List.append_nil] at ht
      refine ⟨_, held (pieces draws), hc, ?_, by rw [ht, Lossy.lossy_encode]⟩
      have := hheld _ (Nat.le_refl _)
      rwa [List.take_length] at this
    case isFalse =>
      refine ⟨_, [], (List.append_nil _).symm, Lossy.incomplete_nil, ?_⟩
      rw [ht, hc, Lossy.lossy_encode_append]

theorem generate_lossless_iff_euro :
    Free (([] : List (List Char)).map Utf8.encode)
        (chunks [some [0xE2], some [0x82, 0xAC]]).flatten ∧
      ∃ s, generate (([] : List (List Char)).map Utf8.encode) true
        [some [0xE2], some [0x82, 0xAC]] = some s ∧
        (Lossless (pieces [some [0xE2], some [0x82, 0xAC]]) s ↔
          ∃ chars, (pieces [some [0xE2], some [0x82, 0xAC]]).flatten <+: Utf8.encode chars) :=
  ⟨by simp [Free], generate_lossless_iff [] true _ (by simp [Free])⟩

-- The character behind the byte is kept with it, and lost when the text ends.
theorem not_lossless_invalid :
    generate [] true [some [0xFF], some [0x61], none] = some ⟨[], [], [], 2, "stop"⟩ ∧
      ¬Lossless (pieces [some [0xFF], some [0x61], none]) ⟨[], [], [], 2, "stop"⟩ := by
  refine ⟨by decide +kernel, fun h => ?_⟩
  have ⟨c, hp, _⟩ := h.held 1 (by decide)
  have ⟨lead, rest, expected, hc, hf, _⟩ := Lossy.exists_following c
  have hheld : held ((pieces [some [0xFF], some [0x61], none]).take 1) = [0xFF] := by
    decide +kernel
  rw [hheld, hc, List.cons_prefix_cons] at hp
  rw [←hp.1] at hf
  exact absurd hf (by simp [Lossy.following])

end Decoding

end Backend.LlamaFast.Text
