import WerkModel.Lib.Lossy
import WerkModel.Lib.Stops

-- The text of the legacy llama.cpp backend: the pieces of its tokens are decoded as UTF-8, cut at
-- stop strings and streamed.
open Slices Stops

namespace Backend.LlamaFast.Text

abbrev Bytes := List UInt8

namespace Utf8PieceDecoder

-- What was decoded, and what is kept for the next piece.
def push (pending bytes : Bytes) : Bytes × Bytes :=
  let pending := pending ++ bytes
  if (Utf8.decode pending).isSome then
    (pending, [])
  else
    let validUpTo := Lossy.validUpTo pending
    if validUpTo = 0 then
      ([], pending)
    else
      (Lossy.lossy (pending.take validUpTo), pending.drop validUpTo)

def finish (pending : Bytes) : Bytes :=
  if pending = [] then [] else Lossy.lossy pending

end Utf8PieceDecoder

open Utf8PieceDecoder

def firstStopIndex (text : Bytes) (stops : List Bytes) : Option Nat :=
  ((stops.filter (· ≠ [])).filterMap (Infix.position · text)).min?

structure State where
  pending          : Bytes
  text             : Bytes
  events           : List Bytes
  completionTokens : Nat
  finishReason     : String
  deriving DecidableEq

def State.init : State where
  pending          := []
  text             := []
  events           := []
  completionTokens := 0
  finishReason     := "length"

section

variable (stops : List Bytes) (tx : Bool)

def sendTextChunk (events : List Bytes) (chunk : Bytes) : List Bytes :=
  if chunk = [] ∨ ¬tx then events else events ++ [chunk]

-- The text is cut where the first stop string begins, of which nothing more is sent.
def State.receive (s : State) (chunk : Bytes) : Option (Bool × State) :=
  let previousLen := s.text.length
  let text := s.text ++ chunk
  match firstStopIndex text stops with
  | some stopIndex => do
    let events ←
      if stopIndex > previousLen then
        (slice text previousLen stopIndex).map (sendTextChunk tx s.events)
      else
        some s.events
    let text ← truncate text stopIndex
    return (true, { s with text := text, events := events, finishReason := "stop" })
  | none           =>
    some (false, { s with text := text, events := sendTextChunk tx s.events chunk })

-- One token is drawn for each round: either the end of the text, or the bytes of a piece of it.
def decode : List (Option Bytes) → State → Option State
  | [], s                  => some s
  | none :: _, s           => some { s with finishReason := "stop" }
  | some piece :: draws, s =>
    let pushed := push s.pending piece
    let s := { s with completionTokens := s.completionTokens + 1, pending := pushed.2 }
    if pushed.1 = [] then
      decode draws s
    else do
      let received ← s.receive stops tx pushed.1
      if received.1 then return received.2 else decode draws received.2

-- A character that is incomplete in the end is replaced, unless a stop ended the text.
def State.conclude (s : State) : Option State :=
  let tail := finish s.pending
  let s := { s with pending := [] }
  if tail ≠ [] ∧ s.finishReason ≠ "stop" then do
    let received ← s.receive stops tx tail
    return received.2
  else
    some s

def generate (draws : List (Option Bytes)) : Option State := do
  let s ← decode stops tx draws .init
  s.conclude stops tx

end

-- The texts that are decoded for the pieces in front of the end of the text.
def chunksFrom (pending : Bytes) : List (Option Bytes) → List Bytes
  | []                  => if finish pending = [] then [] else [finish pending]
  | none :: _           => []
  | some piece :: draws =>
    if (push pending piece).1 = [] then
      chunksFrom (push pending piece).2 draws
    else
      (push pending piece).1 :: chunksFrom (push pending piece).2 draws

def chunks (draws : List (Option Bytes)) : List Bytes :=
  chunksFrom [] draws

variable {stops consumed : List Bytes} {tx : Bool} {s : State} {chunk pending bytes : Bytes}
variable {draws : List (Option Bytes)} {m : Nat}

-- What is kept begins with no character.
theorem push_eq (pending bytes : Bytes) : ∃ chars, (push pending bytes).1 = Utf8.encode chars ∧
    pending ++ bytes = Utf8.encode chars ++ (push pending bytes).2 ∧
    ∀ chars, Utf8.encode chars <+: (push pending bytes).2 → chars = [] := by
  simp only [push]
  split
  case isTrue h =>
    have ⟨chars, hc⟩ := Option.isSome_iff_exists.mp h
    refine ⟨chars, Utf8.decode_eq_some.mp hc, ?_, fun chars' hp => ?_⟩
    · rw [List.append_nil]
      exact Utf8.decode_eq_some.mp hc
    · exact Utf8.encode_injective (List.prefix_nil.mp hp)
  case isFalse =>
    split
    case isTrue h =>
      refine ⟨[], rfl, rfl, fun chars hp => @Lossy.eq_nil_of_prefix chars (pending ++ bytes) ?_⟩
      rwa [h]
    case isFalse =>
      have ⟨chars, hc⟩ := @Lossy.exists_validUpTo (pending ++ bytes)
      refine ⟨chars, ?_, ?_, fun chars hp => Lossy.eq_nil_of_prefix hp⟩
      · rw [hc, Lossy.lossy_encode]
      · rw [←hc, List.take_append_drop]

theorem led_push : Led (push pending bytes).1 := by
  have ⟨chars, hc, _⟩ := push_eq pending bytes
  rw [hc]
  exact led_encode chars

theorem led_finish : Led (finish pending) := by
  rw [finish]
  split
  case isTrue  => simp [Led]
  case isFalse => exact Lossy.led_lossy

theorem flatten_sendTextChunk {events : List Bytes} :
    (sendTextChunk true events chunk).flatten = events.flatten ++ chunk := by
  rw [sendTextChunk]
  split
  case isTrue h =>
    obtain rfl : chunk = [] := by simpa using h
    rw [List.append_nil]
  case isFalse => rw [List.flatten_append, List.flatten_singleton]

-- Nothing was found so far, and all of it was sent.
structure Running (stops consumed : List Bytes) (tx : Bool) (s : State) : Prop where
  text   : s.text = consumed.flatten
  free   : Free stops s.text
  events : tx = true → s.events.flatten = s.text
  reason : s.finishReason = "length"

-- The text was cut in the first chunk that completes a stop string, and from this chunk was sent
-- what is in front of the cut.
structure Cut (stops consumed : List Bytes) (tx : Bool) (s : State) (k m : Nat) : Prop where
  first    : FirstAt stops consumed (k + 1)
  earliest : Earliest stops (textAt consumed (k + 1)) m
  text     : s.text = (textAt consumed (k + 1)).take m
  events   : tx = true →
    s.events.flatten = textAt consumed k ++ s.text.drop (textAt consumed k).length
  reason   : s.finishReason = "stop"

structure Whole (stops consumed : List Bytes) (tx : Bool) (s : State) : Prop where
  free   : Free stops consumed.flatten
  text   : s.text = consumed.flatten
  events : tx = true → s.events.flatten = s.text

theorem Running.init : Running stops [] tx .init where
  text     := rfl
  free _ _ hn hp := hn (List.infix_nil.mp hp)
  events _ := rfl
  reason   := rfl

theorem Running.receive_of_free (h : Running stops consumed tx s)
    (hf : Free stops (s.text ++ chunk)) : ∃ s', s.receive stops tx chunk = some (false, s') ∧
      Running stops (consumed ++ [chunk]) tx s' ∧ s'.pending = s.pending := by
  have he : firstStopIndex (s.text ++ chunk) stops = none := earliest_eq_none_iff.mpr hf
  rw [State.receive]
  simp only [he]
  refine ⟨_, rfl, ⟨?_, hf, fun ht => ?_, h.reason⟩, rfl⟩
  · rw [List.flatten_append, List.flatten_singleton, h.text]
  · rw [ht, flatten_sendTextChunk, h.events ht]

theorem Running.receive_of_earliest (h : Running stops consumed tx s)
    (hl : ∀ stop ∈ stops, Led stop) (hc : Led chunk) (hm : Earliest stops (s.text ++ chunk) m)
    (rest : List Bytes) : ∃ s', s.receive stops tx chunk = some (true, s') ∧
      Cut stops (consumed ++ chunk :: rest) tx s' consumed.length m := by
  have he : firstStopIndex (s.text ++ chunk) stops = some m := earliest_eq_some_iff.mpr hm
  have hk : textAt (consumed ++ chunk :: rest) consumed.length = s.text := by
    rw [textAt, List.take_left' rfl, h.text]
  have hk' : textAt (consumed ++ chunk :: rest) (consumed.length + 1) = s.text ++ chunk := by
    rw [textAt, List.append_cons, List.take_left' (by simp), List.flatten_append,
      List.flatten_singleton, h.text]
  have hfirst : FirstAt stops (consumed ++ chunk :: rest) (consumed.length + 1) := by
    refine ⟨by simp, by rw [hk']; exact hm.not_free, fun j hj => ?_⟩
    exact free_of_le (hk.symm ▸ h.free) (show j ≤ consumed.length by omega)
  obtain ⟨stop, hs, hn, hp⟩ := hm.starts
  have hb := isCharBoundary_of_prefix (hl stop hs) hn hp
  have hb' : isCharBoundary (s.text ++ chunk) s.text.length = true :=
    isCharBoundary_append isCharBoundary_length hc
  have hlt := hm.starts.lt
  have htrunc : truncate (s.text ++ chunk) m = some ((s.text ++ chunk).take m) := by
    rw [truncate, if_neg (by omega), if_pos hb]
  rw [State.receive]
  simp only [he, htrunc]
  by_cases hgt : m > s.text.length
  case pos =>
    rw [if_pos hgt, slice, if_pos ⟨hgt.le, hb', hb⟩]
    refine ⟨_, rfl, hfirst, ?_, ?_, fun ht => ?_, rfl⟩
    · rwa [hk']
    · rw [hk']
    · rw [ht, flatten_sendTextChunk, h.events ht, hk]
  case neg =>
    rw [if_neg hgt]
    refine ⟨_, rfl, hfirst, ?_, ?_, fun ht => ?_, rfl⟩
    · rwa [hk']
    · rw [hk']
    · rw [h.events ht, hk, List.drop_eq_nil_of_le (by rw [List.length_take]; omega),
        List.append_nil]

theorem conclude_of_stop (h : s.finishReason = "stop") :
    s.conclude stops tx = some { s with pending := [] } := by
  rw [State.conclude, if_neg fun hc => hc.2 h]

theorem Running.run (h : Running stops consumed tx s) (hl : ∀ stop ∈ stops, Led stop) :
    ∃ s', ((decode stops tx draws s).bind fun s => s.conclude stops tx) = some s' ∧
      ((∃ k m, Cut stops (consumed ++ chunksFrom s.pending draws) tx s' k m) ∨
        Whole stops (consumed ++ chunksFrom s.pending draws) tx s') := by
  induction draws generalizing s consumed
  case nil =>
    rw [decode, Option.bind_some, State.conclude, chunksFrom]
    by_cases ht : finish s.pending = []
    case pos =>
      rw [if_neg fun hc => hc.1 ht, if_pos ht, List.append_nil]
      exact ⟨_, rfl, .inr ⟨h.text ▸ h.free, h.text, h.events⟩⟩
    case neg =>
      rw [if_pos ⟨ht, by simp [h.reason]⟩, if_neg ht]
      have h' : Running stops consumed tx { s with pending := [] } :=
        ⟨h.text, h.free, h.events, h.reason⟩
      by_cases hf : Free stops (s.text ++ finish s.pending)
      case pos =>
        have ⟨s', hs', hr, _⟩ := h'.receive_of_free hf
        refine ⟨s', by simp only [hs', Option.bind_eq_bind, Option.bind_some]; rfl, .inr ?_⟩
        exact ⟨hr.text ▸ hr.free, hr.text, hr.events⟩
      case neg =>
        have ⟨m, hm⟩ := exists_earliest hf
        have ⟨s', hs', hr⟩ := h'.receive_of_earliest hl led_finish hm []
        exact ⟨s', by simp only [hs', Option.bind_eq_bind, Option.bind_some]; rfl,
          .inl ⟨_, m, hr⟩⟩
  case cons draw draws hi =>
    cases draw
    case none =>
      rw [decode, Option.bind_some, conclude_of_stop rfl, chunksFrom, List.append_nil]
      exact ⟨_, rfl, .inr ⟨h.text ▸ h.free, h.text, h.events⟩⟩
    case some piece =>
      have h' : Running stops consumed tx { s with
          completionTokens := s.completionTokens + 1, pending := (push s.pending piece).2 } :=
        ⟨h.text, h.free, h.events, h.reason⟩
      rw [decode, chunksFrom]
      split
      case isTrue  => exact hi h'
      case isFalse =>
        by_cases hf : Free stops (s.text ++ (push s.pending piece).1)
        case pos =>
          have ⟨s', hs', hr, hpending⟩ := h'.receive_of_free hf
          simp only [hs', Option.bind_eq_bind, Option.bind_some, Bool.false_eq_true, if_false]
          rw [List.append_cons, ←show s'.pending = (push s.pending piece).2 from hpending]
          exact hi hr
        case neg =>
          have ⟨m, hm⟩ := exists_earliest hf
          have ⟨s', hs', hr⟩ := h'.receive_of_earliest hl led_push hm
            (chunksFrom (push s.pending piece).2 draws)
          simp only [hs', Option.bind_eq_bind, Option.bind_some, if_true]
          refine ⟨{ s' with pending := [] }, conclude_of_stop hr.reason, .inl
            ⟨consumed.length, m, ?_⟩⟩
          exact ⟨hr.first, hr.earliest, hr.text, hr.events, hr.reason⟩

theorem generate_run (hl : ∀ stop ∈ stops, Led stop) : ∃ s, generate stops tx draws = some s ∧
    ((∃ k m, Cut stops (chunks draws) tx s k m) ∨ Whole stops (chunks draws) tx s) :=
  Running.init.run hl

end Backend.LlamaFast.Text
