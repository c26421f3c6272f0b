import WerkModel.Backend.ToolStream
import WerkModel.Lib.Json

-- The telemetry of a generation, and the streams that report how it ends.
open Backend

namespace Observability

structure Totals where
  started   : Nat
  completed : Nat
  errors    : Nat
  cancelled : Nat
  active    : Nat
  deriving DecidableEq

def Totals.count (totals : Totals) (status : String) : Totals :=
  let totals := { totals with active := totals.active - 1 }
  if status = "error" then
    { totals with errors := totals.errors + 1 }
  else if status = "cancelled" then
    { totals with cancelled := totals.cancelled + 1 }
  else
    { totals with completed := totals.completed + 1 }

-- The guard of a request with the totals of the telemetry that it belongs to.
structure RequestGuard where
  totals   : Totals
  state    : String
  finished : Bool
  first    : Bool

def begin (totals : Totals) : RequestGuard where
  totals   := { totals with started := totals.started + 1, active := totals.active + 1 }
  state    := "waiting / prefill"
  finished := false
  first    := false

def statusOf (reason : String) : String :=
  if reason = "tool_calls" then "tool_calls" else if reason = "length" then "length" else "done"

namespace RequestGuard

variable (guard : RequestGuard)

def finish (status : String) : RequestGuard :=
  if guard.finished then
    guard
  else
    { guard with totals := guard.totals.count status, state := status, finished := true }

def error : RequestGuard :=
  guard.finish "error"

def done (reason : String) : RequestGuard :=
  guard.finish (statusOf reason)

def rawComplete (value : Json) : RequestGuard :=
  let reason := ((value.index "choices").asArray.bind List.head?).bind fun choice =>
    (choice.index "finish_reason").asString
  guard.finish (statusOf (reason.getD "done"))

def firstOutput : RequestGuard :=
  if guard.first then guard else { guard with first := true, state := "streaming" }

def drop (panicking : Bool) : RequestGuard :=
  guard.finish (if panicking then "error" else "cancelled")

end RequestGuard

-- The items of a native chat stream.
abbrev RawItem := Except String Json

-- A choice that has a finish reason.
def finish (choice : Json) : Option (Nat × String) := do
  let reason ← (choice.index "finish_reason").asString
  let index ← (choice.index "index").asUnsigned
  return (index, reason)

def choices (chunk : Json) : List Json :=
  (chunk.index "choices").asArray.getD []

structure RawStream where
  guard    : RequestGuard
  expected : Nat
  finished : Finset Nat
  reason   : String

namespace RawStream

variable (s : RawStream)

def setGuard (guard : RequestGuard) : RawStream :=
  { s with guard := guard }

def observeDelta (delta : Json) : RawStream :=
  if (delta.index "content").asString.any (· ≠ "") || (delta.index "tool_calls").asArray.isSome then
    s.setGuard s.guard.firstOutput
  else
    s

def observe (choice : Json) : RawStream :=
  let s := s.observeDelta (choice.index "delta")
  match finish choice with
  | some (index, reason) =>
    if index < s.expected then
      { s with finished := insert index s.finished, reason := reason }
    else
      s
  | none => s

def next : RawItem → RawStream
  | .error _  => s.setGuard s.guard.error
  | .ok value =>
    let s := if (value.get "error").isSome then s.setGuard s.guard.error else s
    (choices value).foldl observe s

-- The end of the stream.
def close : RawStream :=
  if s.finished.card = s.expected then
    let choice := Json.object [("finish_reason", .string s.reason)]
    s.setGuard (s.guard.rawComplete (.object [("choices", .array [choice])]))
  else
    s.setGuard s.guard.error

end RawStream

def observeRawStream (guard : RequestGuard) (expected : Nat) : RawStream where
  guard    := guard
  expected := expected
  finished := ∅
  reason   := ""

section Generation

variable {τ : Type} (guard : RequestGuard)

-- What an observed stream of a generation does with the next item, and at its end.
def observeItem : Item τ → RequestGuard
  | .ok (.textChunk text)       => if text ≠ "" then guard.firstOutput else guard
  | .ok (.toolCallDelta deltas) => if deltas ≠ [] then guard.firstOutput else guard
  | .ok (.done completion)      => guard.done completion.finishReason
  | .error _                    => guard.error

def observeEnd : RequestGuard :=
  if guard.finished then guard else guard.error

end Generation

-- A request that has not been counted yet, or has been counted as an error.
structure Counts (begun : Totals) (errored : Prop) (guard : RequestGuard) : Prop where
  running : ¬errored → guard.finished = false ∧ guard.totals = begun
  errored : errored → guard.finished = true ∧ guard.totals = begun.count "error"

section Counts

variable {begun : Totals} {errored : Prop} {guard : RequestGuard} {s : RawStream} {reason : String}

theorem Counts.begin {totals : Totals} :
    Counts (begin totals).totals False (Observability.begin totals) :=
  ⟨fun _ => ⟨rfl, rfl⟩, nofun⟩

@[simp]
theorem firstOutput_finished : guard.firstOutput.finished = guard.finished := by
  rw [RequestGuard.firstOutput]
  split <;> rfl

@[simp]
theorem firstOutput_totals : guard.firstOutput.totals = guard.totals := by
  rw [RequestGuard.firstOutput]
  split <;> rfl

theorem Counts.firstOutput (h : Counts begun errored guard) :
    Counts begun errored guard.firstOutput where
  running hn := by simpa using h.running hn
  errored he := by simpa using h.errored he

theorem Counts.congr {errored' : Prop} (h : Counts begun errored guard)
    (he : errored' ↔ errored) : Counts begun errored' guard :=
  propext he ▸ h

theorem Counts.error (h : Counts begun errored guard) : Counts begun True guard.error where
  running hn := absurd trivial hn
  errored _  := by
    rw [RequestGuard.error, RequestGuard.finish]
    by_cases he : errored
    case pos =>
      rw [if_pos (h.errored he).left]
      exact h.errored he
    case neg =>
      obtain ⟨hf, ht⟩ := h.running he
      simp [hf, ht]

theorem count_statusOf : begun.count (statusOf reason) = begun.count "done" := by
  rw [statusOf]
  split
  case isTrue  => rfl
  case isFalse => split <;> rfl

theorem Counts.finish_totals (h : Counts begun errored guard) :
    (guard.finish (statusOf reason)).finished = true ∧ (errored →
      (guard.finish (statusOf reason)).totals = begun.count "error") ∧
      (¬errored → (guard.finish (statusOf reason)).totals = begun.count "done") := by
  rw [RequestGuard.finish]
  by_cases he : errored
  case pos =>
    obtain ⟨hf, ht⟩ := h.errored he
    simp [hf, ht, he]
  case neg =>
    obtain ⟨hf, ht⟩ := h.running he
    simp [hf, ht, he, count_statusOf]

-- The guard of a request that has been counted counts nothing any more.
theorem finish_of_finished {status : String} (h : guard.finished = true) :
    guard.finish status = guard :=
  if_pos h

theorem drop_of_finished {panicking : Bool} (h : guard.finished = true) :
    guard.drop panicking = guard :=
  finish_of_finished h

theorem observeItem_of_finished {τ : Type} (item : Item τ) (h : guard.finished = true) :
    (observeItem guard item).finished = true ∧
      (observeItem guard item).totals = guard.totals := by
  cases item
  case error => rw [observeItem, RequestGuard.error, finish_of_finished h]; exact ⟨h, rfl⟩
  case ok event =>
    cases event <;> rw [observeItem]
    case textChunk     => split <;> simp [h]
    case toolCallDelta => split <;> simp [h]
    case done          => rw [RequestGuard.done, finish_of_finished h]; exact ⟨h, rfl⟩

theorem count_error_ne : begun.count "error" ≠ begun.count "done" := by
  intro h
  have h := congrArg Totals.errors h
  simp [Totals.count] at h

end Counts
end Observability
