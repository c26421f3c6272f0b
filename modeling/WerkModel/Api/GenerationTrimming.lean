import WerkModel.Api.Generation
import WerkModel.Lib.Lists

-- What is kept of a conversation that is trimmed to fit into a context.
open Omission Saturating

namespace Api.Generation

variable {messages : List ChatMessage} {contextSize maxTokens : UInt64} {n m start : Nat}

-- The messages without the first turns.
abbrev dropTurns (n : Nat) (messages : List ChatMessage) : List ChatMessage :=
  dropFirst ChatMessage.isTurn n messages

def turns (messages : List ChatMessage) : List ChatMessage :=
  messages.filter ChatMessage.isTurn

def Fits (contextSize maxTokens : UInt64) (messages : List ChatMessage) : Prop :=
  estimateMessageTokens messages + maxTokens.toNat + safetyTokens ≤ contextSize.toNat

-- From one exchange to the next, while there is a message after its first turn.
def Next (messages : List ChatMessage) (n m : Nat) : Prop :=
  ∃ start, (dropTurns n messages).findIdx? ChatMessage.isTurn = some start ∧
    start + 1 < (dropTurns n messages).length ∧
    m = n + removeCount (dropTurns n messages) start

-- Where the exchanges of a conversation begin and end.
inductive Boundary (messages : List ChatMessage) : Nat → Prop
  | zero : Boundary messages 0
  | next {n m : Nat} : Boundary messages n → Next messages n m → Boundary messages m

theorem isTurn_of_isAssistant {message : ChatMessage} (h : message.isAssistant = true) :
    message.isTurn = true := by
  have ha := of_decide_eq_true h
  simp only [ChatMessage.isTurn, ChatMessage.isSystem, Inference.eqIgnoreAsciiCase, ha]
  decide

section Steps

theorem drain_eq (h : messages.findIdx? ChatMessage.isTurn = some start) :
    drain messages start (removeCount messages start) =
      dropTurns (removeCount messages start) messages := by
  rw [drain, removeCount]
  split
  case isTrue ha =>
    refine (dropFirst_eq_append_of_next h ?_).symm
    obtain ⟨message, hm, ha⟩ := (Option.any_eq_true ..).mp ha
    rw [hm]
    exact isTurn_of_isAssistant ha
  case isFalse => rw [dropTurns, dropFirst_eq_append h, dropFirst_zero]

theorem estimate_le (h : n ≤ m) :
    estimateMessageTokens (dropTurns m messages) ≤ estimateMessageTokens (dropTurns n messages) :=
  Nat.add_le_add_right (((dropFirst_sublist_of_le h).map _).sum_le_sum fun _ _ => Nat.zero_le _) _

theorem Fits.mono (h : Fits contextSize maxTokens (dropTurns n messages)) (hle : n ≤ m) :
    Fits contextSize maxTokens (dropTurns m messages) := by
  have hest : estimateMessageTokens (dropTurns m messages) ≤
      estimateMessageTokens (dropTurns n messages) := estimate_le hle
  rw [Fits] at h ⊢
  omega

theorem removeCount_pos : 1 ≤ removeCount messages start := by
  rw [removeCount]
  split <;> omega

theorem length_turns_drop :
    (turns (dropTurns n messages)).length = (turns messages).length - n := by
  rw [turns, filter_dropFirst, List.length_drop, turns]

theorem Next.lt (h : Next messages n m) : n < m := by
  obtain ⟨start, -, -, rfl⟩ := h
  exact Nat.lt_add_of_pos_right removeCount_pos

theorem Next.le_length (h : Next messages n m) : m ≤ (turns messages).length := by
  obtain ⟨start, hs, -, rfl⟩ := h
  have hl : (turns (dropTurns n messages)).length = (turns messages).length - n :=
    length_turns_drop
  have hc : removeCount (dropTurns n messages) start ≤ (turns (dropTurns n messages)).length := by
    rw [removeCount]
    split
    case isFalse => exact length_filter_pos hs
    case isTrue ha =>
      refine two_le_length_filter hs ((Option.any_eq_true ..).mpr ?_)
      obtain ⟨message, hm, ha⟩ := (Option.any_eq_true ..).mp ha
      exact ⟨message, hm, isTurn_of_isAssistant ha⟩
  have hpos : 1 ≤ (turns (dropTurns n messages)).length := length_filter_pos hs
  omega

end Steps

section Loop

variable (hr : maxTokens.toNat + safetyTokens < contextSize.toNat)

def loop (contextSize maxTokens : UInt64) (messages : List ChatMessage) (n : Nat) :
    Except String Nat × List ChatMessage :=
  trimLoop contextSize.toNat maxTokens.toNat
    (contextSize.toNat - (maxTokens.toNat + safetyTokens)) n (dropTurns n messages)

include hr

theorem fits_iff : Fits contextSize maxTokens messages ↔ estimateMessageTokens messages ≤
    contextSize.toNat - (maxTokens.toNat + safetyTokens) := by
  rw [Fits]
  omega

theorem loop_of_fits (hf : Fits contextSize maxTokens (dropTurns n messages)) :
    loop contextSize maxTokens messages n = (.ok n, dropTurns n messages) := by
  rw [loop, trimLoop, if_pos ((fits_iff hr).mp hf)]

theorem loop_of_next (hf : ¬Fits contextSize maxTokens (dropTurns n messages))
    (hn : Next messages n m) :
    loop contextSize maxTokens messages n = loop contextSize maxTokens messages m := by
  obtain ⟨start, hs, hl, rfl⟩ := hn
  rw [loop, trimLoop, if_neg fun h => hf ((fits_iff hr).mpr h), hs]
  simp only [Nat.not_le.mpr hl, if_false]
  rw [drain_eq hs, dropTurns, dropTurns, dropFirst_dropFirst, loop]

-- What is left then holds no more turns, or ends with the only one.
theorem loop_of_not_next (hf : ¬Fits contextSize maxTokens (dropTurns n messages))
    (hn : ∀ m, ¬Next messages n m) :
    (∃ error remaining, loop contextSize maxTokens messages n = (.error error, remaining)) ∧
    ¬Fits contextSize maxTokens (dropTurns ((turns messages).length - 1) messages) := by
  have hstop (hl : (turns messages).length - 1 ≤ n) :
      ¬Fits contextSize maxTokens (dropTurns ((turns messages).length - 1) messages) :=
    fun h => hf (h.mono hl)
  rw [loop, trimLoop, if_neg fun h => hf ((fits_iff hr).mpr h)]
  split
  case h_1 hs =>
    refine ⟨⟨_, _, rfl⟩, hstop ?_⟩
    have hz : turns (dropTurns n messages) = [] :=
      List.filter_eq_nil_iff.mpr fun message hm => by
        simpa using List.findIdx?_eq_none_iff.mp hs message hm
    have hlength : (turns (dropTurns n messages)).length = (turns messages).length - n :=
      length_turns_drop
    rw [hz, List.length_nil] at hlength
    omega
  case h_2 start hs =>
    have hl : (dropTurns n messages).length ≤ start + 1 := by
      by_contra hl
      exact hn _ ⟨start, hs, by omega, rfl⟩
    rw [if_pos hl]
    refine ⟨⟨_, _, rfl⟩, hstop ?_⟩
    have hone : (turns (dropTurns n messages)).length = 1 := dropFirst_last hs hl
    rw [length_turns_drop] at hone
    omega

-- The loop takes one exchange after the other, up to the first boundary from which it all fits.
theorem loop_cases (hb : Boundary messages n) :
    (∃ m, loop contextSize maxTokens messages n = (.ok m, dropTurns m messages) ∧
      Fits contextSize maxTokens (dropTurns m messages) ∧
      (m = n ∨ ∃ k, Boundary messages k ∧ Next messages k m ∧
        ¬Fits contextSize maxTokens (dropTurns k messages))) ∨
    (∃ error remaining, loop contextSize maxTokens messages n = (.error error, remaining)) ∧
      ¬Fits contextSize maxTokens (dropTurns ((turns messages).length - 1) messages) := by
  induction hk : (turns messages).length - n using Nat.strong_induction_on generalizing n
  case h k hi =>
    by_cases hf : Fits contextSize maxTokens (dropTurns n messages)
    case pos => exact .inl ⟨n, loop_of_fits hr hf, hf, .inl rfl⟩
    case neg =>
      by_cases hn : ∃ m, Next messages n m
      case neg => exact .inr (loop_of_not_next hr hf (not_exists.mp hn))
      case pos =>
        obtain ⟨m, hn⟩ := hn
        have hlt : (turns messages).length - m < k := by
          have := hn.lt
          have := hn.le_length
          omega
        rw [loop_of_next hr hf hn]
        obtain ⟨l, he, hfl, rfl | hc⟩ | he := hi _ hlt (hb.next hn) rfl
        · exact .inl ⟨_, he, hfl, .inr ⟨n, hb, hn, hf⟩⟩
        · exact .inl ⟨l, he, hfl, .inr hc⟩
        · exact .inr he

end Loop

section Result

-- What a conversation that has been trimmed still holds.
structure Kept (contextSize maxTokens : UInt64) (messages : List ChatMessage) (removed : Nat)
    (remaining : List ChatMessage) : Prop where
  fits    : Fits contextSize maxTokens remaining
  bounded : removed ≤ (turns messages).length
  eq      : remaining = dropTurns removed messages
  system  : remaining.filter ChatMessage.isSystem = messages.filter ChatMessage.isSystem
  last    : ∀ last ∈ messages.getLast?, remaining.getLast? = some last
  answers : 0 < removed → ∀ turn ∈ (turns messages)[removed]?, turn.isAssistant = false
  needed  : 0 < removed → ∃ before < removed, Boundary messages before ∧
    Next messages before removed ∧ ¬Fits contextSize maxTokens (dropTurns before messages)

-- An error is only returned if the last turn does not fit along with the system messages.
def Trimmed (contextSize maxTokens : UInt64) (messages : List ChatMessage) : Prop :=
  (∀ removed remaining, trimMessagesToContext messages contextSize maxTokens =
    (.ok removed, remaining) → Kept contextSize maxTokens messages removed remaining) ∧
  ∀ error remaining, trimMessagesToContext messages contextSize maxTokens =
    (.error error, remaining) →
      ¬Fits contextSize maxTokens (dropTurns ((turns messages).length - 1) messages)

-- Whether a conversation can be cut at the end of an exchange.
def Severable (messages : List ChatMessage) (n : Nat) : Prop :=
  (∀ turn ∈ (turns messages)[n]?, turn.isAssistant = false) ∧
  (n < (turns messages).length ∨ ∀ last ∈ messages.getLast?, last.isSystem = true)

theorem filter_isSystem : (dropTurns n messages).filter ChatMessage.isSystem =
    messages.filter ChatMessage.isSystem := by
  have hs : ChatMessage.isSystem = fun message => !message.isTurn := by
    funext message
    rw [ChatMessage.isTurn, Bool.not_not]
  rw [hs]
  exact filter_not_dropFirst

theorem getLast?_dropTurns (h : n < (turns messages).length ∨
    ∀ last ∈ messages.getLast?, last.isSystem = true) :
    ∀ last ∈ messages.getLast?, (dropTurns n messages).getLast? = some last := by
  intro last hl
  obtain ⟨before, rfl⟩ := List.getLast?_eq_some_iff.mp hl
  rw [dropTurns, dropFirst_concat ?_, List.getLast?_concat]
  by_cases hs : last.isTurn
  case neg => exact .inl hs
  case pos =>
    refine .inr ?_
    obtain h | h := h
    · rw [turns, List.filter_append, List.filter_cons_of_pos hs, List.length_append] at h
      exact Nat.lt_succ_iff.mp h
    · have := h last hl
      simp [ChatMessage.isTurn, this] at hs

-- If no turn is left, then the last message is only kept if it is a system message.
theorem isSystem_of_getLast? (hn : (turns messages).length ≤ n) {last : ChatMessage}
    (h : (dropTurns n messages).getLast? = some last) : last.isSystem = true := by
  have hz : turns (dropTurns n messages) = [] := by
    rw [←List.length_eq_zero_iff, length_turns_drop]
    omega
  have hl := List.filter_eq_nil_iff.mp hz last (List.mem_of_getLast? h)
  simpa [ChatMessage.isTurn] using hl

theorem not_fits_of_le (h : contextSize.toNat ≤ maxTokens.toNat + safetyTokens) :
    ¬Fits contextSize maxTokens messages := by
  rw [Fits, estimateMessageTokens]
  omega

theorem trim_eq (hr : maxTokens.toNat + safetyTokens < contextSize.toNat) :
    trimMessagesToContext messages contextSize maxTokens =
      loop contextSize maxTokens messages 0 := by
  have hc := contextSize.toNat_lt
  have hm : ¬usizeMax < maxTokens.toNat + safetyTokens := by
    rw [usizeMax]
    omega
  rw [trimMessagesToContext, if_neg hm, if_neg (Nat.not_le.mpr hr), loop, dropTurns, dropFirst_zero]

theorem trim_eq_error (hr : contextSize.toNat ≤ maxTokens.toNat + safetyTokens) :
    ∃ error, trimMessagesToContext messages contextSize maxTokens = (.error error, messages) := by
  simp only [trimMessagesToContext, if_pos hr]
  split <;> exact ⟨_, rfl⟩

-- As long as it does not fit, the loop passes every boundary.
theorem loop_of_boundary (hr : maxTokens.toNat + safetyTokens < contextSize.toNat)
    (hb : Boundary messages n) (hf : ¬Fits contextSize maxTokens (dropTurns n messages)) :
    loop contextSize maxTokens messages 0 = loop contextSize maxTokens messages n := by
  induction hb
  case zero            => rfl
  case next n m _ hn hi =>
    have hf : ¬Fits contextSize maxTokens (dropTurns n messages) := fun h => hf (h.mono hn.lt.le)
    rw [hi hf, loop_of_next hr hf hn]

def prefilled : List ChatMessage := [
  { role := "user", content := some (.text "Hello") },
  { role := "assistant", content := some (.text "Dear") }
]

end Result

end Api.Generation
