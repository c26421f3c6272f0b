import WerkModel.Lib.Slices
import WerkModel.Lib.Stops

-- The decoding loop of Candle, which cuts the text at stop strings and streams what no stop string
-- can take back.
open Slices

namespace Backend.Candle

abbrev Text := List UInt8

-- The first stop string of the list that is found cuts the text.
def stopReachedIn (text : Text) (start : Nat) : List Text → Option (Bool × Text)
  | []            => some (false, text)
  | stop :: stops => do
    if stop = [] then
      stopReachedIn text start stops
    else
      let window ← sliceFrom text start
      match Infix.position stop window with
      | none       => stopReachedIn text start stops
      | some index => do
        let text ← truncate text (start + index)
        return (true, text)

def stopReachedFrom (text : Text) (stops : List Text) (start : Nat) : Option (Bool × Text) :=
  stopReachedIn text (floorCharBoundary text start) stops

def maxStopLen (stops : List Text) : Nat :=
  (stops.map List.length).max?.getD 0

def stopCheckStart (previousLen maxStopLen : Nat) : Nat :=
  previousLen - (maxStopLen - 1)

-- The places of the characters.
def charIndices (text : Text) : List Nat :=
  (List.range text.length).filter (isCharBoundary text)

def stopPrefixSuffixLen (maxStopLen : Nat) (text stop : Text) : Option (Option Nat) := do
  let suffixStart := text.length - min (maxStopLen - 1) text.length
  let suffixStart := floorCharBoundary text suffixStart
  let window ← sliceFrom text suffixStart
  let suffixes ← (charIndices window).mapM fun index => sliceFrom text (suffixStart + index)
  return (suffixes.find? fun suffix => suffix.length < stop.length ∧ suffix <+: stop).map
    List.length

def stopGuardEmitLen (text : Text) (stops : List Text) (maxStopLen : Nat) : Option Nat := do
  let held ← (stops.filter (· ≠ [])).mapM (stopPrefixSuffixLen maxStopLen text)
  return text.length - ((held.filterMap id).max?.getD 0)

structure State where
  generatedText     : Text
  streamedLen       : Nat
  emitted           : List Text
  generated         : Nat
  finishReason      : String
  matchedStopString : Bool

def State.init : State where
  generatedText     := []
  streamedLen       := 0
  emitted           := []
  generated         := 0
  finishReason      := "length"
  matchedStopString := false

section

variable (stops : List Text) (streaming : Bool)

-- The callback gets what is safe and was not streamed before.
def State.stream (s : State) (safeLen : Nat) : Option State :=
  if streaming ∧ safeLen > s.streamedLen then do
    let safePiece ← slice s.generatedText s.streamedLen safeLen
    return { s with emitted := s.emitted ++ [safePiece], streamedLen := safeLen }
  else
    return s

-- One token is drawn for each round: either the end of the text, or a piece of it.
def decode (maxStopLen : Nat) : List (Option Text) → State → Option State
  | [], s                  => some s
  | none :: _, s           => some { s with finishReason := "stop" }
  | some piece :: draws, s => do
    let stopCheckFrom := stopCheckStart s.generatedText.length maxStopLen
    let (reachedStop, text) ← stopReachedFrom (s.generatedText ++ piece) stops stopCheckFrom
    let safeLen ← if reachedStop then some text.length else stopGuardEmitLen text stops maxStopLen
    let s ← { s with generated := s.generated + 1, generatedText := text }.stream streaming safeLen
    if reachedStop then
      return { s with finishReason := "stop", matchedStopString := true }
    else
      decode maxStopLen draws s

def generate (draws : List (Option Text)) : Option State := do
  let s ← decode stops streaming (maxStopLen stops) draws .init
  if s.matchedStopString then
    return s
  else
    s.stream streaming s.generatedText.length

end

end Backend.Candle
