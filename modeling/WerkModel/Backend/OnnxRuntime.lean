import WerkModel.Lib.Stops

-- The decoding loop of the ONNX Runtime worker, and where its two searches for stop strings cut
-- the text.
open Stops

namespace Backend.OnnxRuntime

abbrev Text := List Char

-- What the generator does in one round: it is done, or yields no token, or a token with its piece
-- of text, which may be a token that ends the text.
inductive Draw
  | done
  | empty (isDone : Bool)
  | token (piece : Text) (eos : Bool)

def defaultStops : List Text :=
  ["<|end|>", "<|endoftext|>", "<|im_end|>", "<|eot_id|>", "<|eom_id|>", "</s>"].map String.toList

-- Empty stop strings are left out, and each other is listed once.
def stopStrings (stop : List Text) : List Text :=
  (stop ++ defaultStops).foldl (fun stops stop =>
    if stop ≠ [] ∧ stops.all (· ≠ stop) then stops ++ [stop] else stops) []

-- A length of zero is no limit.
def maxNewTokens (contextLength : Option Nat) (promptTokens requested : Nat) : Nat :=
  match contextLength with
  | none        => requested
  | some 0      => requested
  | some length => min requested (max 1 (length - promptTokens))

structure State where
  text             : Text
  completionTokens : Nat
  finishReason     : String
  deriving DecidableEq

-- The least position of a stop string, while the list is passed.
def stopMatch (candidate : Text) : Option Nat → List Text → Option Nat
  | found, []            => found
  | found, stop :: stops =>
    match Infix.position stop candidate with
    | none       => stopMatch candidate found stops
    | some index =>
      if found.all (index < ·) then
        stopMatch candidate (some index) stops
      else
        stopMatch candidate found stops

section

variable (stops : List Text)

-- One round for each token that may be drawn.
def decode : List Draw → State → State
  | [], s                       => { s with finishReason := "max_new_tokens" }
  | .done :: _, s               => { s with finishReason := "generator_done" }
  | .empty isDone :: _, s       =>
    { s with finishReason := if isDone then "generator_done" else "eos" }
  | .token piece eos :: draws, s =>
    let candidate := s.text ++ piece
    let s := { s with completionTokens := s.completionTokens + 1 }
    if eos then
      { s with text := candidate, finishReason := "eos" }
    else
      match stopMatch candidate none stops with
      | some index => { s with text := candidate.take index, finishReason := "stop_sequence" }
      | none       => decode draws { s with text := candidate }

-- The search after the loop takes the first stop string of the list that it finds.
def finish (s : State) : List Text → State
  | []            => s
  | stop :: stops =>
    match Infix.position stop s.text with
    | none       => finish s stops
    | some index =>
      { s with
        text         := s.text.take index
        finishReason := if s.finishReason ∈ ["eos", "stop_sequence"] then s.finishReason
          else "stop_sequence" }

end

def generateResult (stop : List Text) (contextLength : Option Nat) (promptTokens maxTokens : Nat)
    (draw : Nat → Draw) : State :=
  let rounds := (List.range (maxNewTokens contextLength promptTokens maxTokens)).map draw
  finish (decode (stopStrings stop) rounds ⟨[], 0, "generator_done"⟩) (stopStrings stop)

variable {stop text : Text} {stops request : List Text} {s : State} {i : Nat} {draws : List Draw}

section Search

theorem all_ne_iff : stops.all (· ≠ stop) = true ↔ stop ∉ stops := by
  simp only [List.all_eq_true, decide_eq_true_eq]
  exact ⟨fun h hm => h stop hm rfl, fun h other ho he => h (he ▸ ho)⟩

theorem mem_stopStrings :
    stop ∈ stopStrings request ↔ stop ≠ [] ∧ stop ∈ request ++ defaultStops := by
  have h (l stops : List Text) : stop ∈ l.foldl (fun stops stop =>
      if stop ≠ [] ∧ stops.all (· ≠ stop) then stops ++ [stop] else stops) stops ↔
      stop ∈ stops ∨ (stop ≠ [] ∧ stop ∈ l) := by
    induction l generalizing stops
    case nil => simp
    case cons next l hi =>
      rw [List.foldl_cons, hi]
      split
      case isTrue hn =>
        rw [List.mem_append, List.mem_singleton, List.mem_cons]
        constructor
        · rintro ((h | rfl) | h)
          · exact .inl h
          · exact .inr ⟨hn.1, .inl rfl⟩
          · exact .inr ⟨h.1, .inr h.2⟩
        · rintro (h | ⟨h, rfl | h'⟩)
          · exact .inl (.inl h)
          · exact .inl (.inr rfl)
          · exact .inr ⟨h, h'⟩
      case isFalse hn =>
        rw [List.mem_cons]
        constructor
        · rintro (h | h)
          · exact .inl h
          · exact .inr ⟨h.1, .inr h.2⟩
        · rintro (h | ⟨h, rfl | h'⟩)
          · exact .inl h
          · exact .inl (not_not.mp fun hm => hn ⟨h, all_ne_iff.mpr hm⟩)
          · exact .inr ⟨h, h'⟩
  rw [stopStrings, h]
  simp

theorem stopMatch_eq (hn : ∀ stop ∈ stops, stop ≠ []) (found : Option Nat) :
    stopMatch text found stops = (found.toList ++ positions stops text).min? := by
  induction stops generalizing found
  case nil => cases found <;> rfl
  case cons stop stops hi =>
    have ⟨hs, hn⟩ := List.forall_mem_cons.mp hn
    rw [stopMatch, positions_cons hs]
    cases Infix.position stop text
    case none => exact hi hn found
    case some index =>
      cases found
      case none => exact hi hn (some index)
      case some first =>
        simp only [Option.all_some, decide_eq_true_eq, Option.toList_some, List.singleton_append,
          List.min?_cons', List.foldl_cons]
        split
        case isTrue hlt =>
          rw [hi hn, Option.toList_some, List.singleton_append, List.min?_cons',
            min_eq_right hlt.le]
        case isFalse hge =>
          rw [hi hn, Option.toList_some, List.singleton_append, List.min?_cons',
            min_eq_left (Nat.le_of_not_lt hge)]

theorem stopMatch_none (hn : ∀ stop ∈ stops, stop ≠ []) :
    stopMatch text none stops = earliest stops text :=
  stopMatch_eq hn none

theorem finish_of_free (hn : ∀ stop ∈ stops, stop ≠ []) (h : Free stops s.text) :
    finish s stops = s := by
  induction stops
  case nil => rfl
  case cons stop stops hi =>
    have ⟨hs, hn⟩ := List.forall_mem_cons.mp hn
    have ⟨h, h'⟩ := List.forall_mem_cons.mp h
    rw [finish, (Infix.position_eq_none hs).mpr (h hs)]
    exact hi hn h'

theorem finish_of_listed (hn : ∀ stop ∈ stops, stop ≠ []) (h : firstListed stops s.text = some i) :
    (finish s stops).text = s.text.take i ∧
      (finish s stops).completionTokens = s.completionTokens := by
  induction stops
  case nil => cases h
  case cons stop stops hi =>
    have ⟨hs, hn⟩ := List.forall_mem_cons.mp hn
    rw [firstListed_cons, if_neg hs] at h
    rw [finish]
    cases hp : Infix.position stop s.text
    case none =>
      rw [hp] at h
      exact hi hn h
    case some index =>
      rw [hp] at h
      cases h
      exact ⟨rfl, rfl⟩

end Search

section Decoding

-- The pieces that are drawn, of which only the last may end the text.
def pieces : List Draw → List Text
  | .token piece false :: draws => piece :: pieces draws
  | .token piece true :: _      => [piece]
  | _                           => []

-- After the loop, the text was cut at the first stop string, or its last token ends it and
-- completes one, or there is none.
inductive Decoded (stops consumed : List Text) (draws : List Draw) (n : Nat) (s : State) : Prop
  | cut (j m : Nat) (piece : Text) : FirstAt stops consumed (n + j + 1) →
    Earliest stops (textAt consumed (n + j + 1)) m → draws[j]? = some (.token piece false) →
    s = ⟨(textAt consumed (n + j + 1)).take m, n + j + 1, "stop_sequence"⟩ →
    Decoded stops consumed draws n s
  | last (j : Nat) (piece : Text) : FirstAt stops consumed (n + j + 1) →
    draws[j]? = some (.token piece true) →
    s = ⟨textAt consumed (n + j + 1), n + j + 1, "eos"⟩ → Decoded stops consumed draws n s
  | whole : Free stops consumed.flatten → s.text = consumed.flatten →
    s.completionTokens = consumed.length → Decoded stops consumed draws n s

theorem decode_decoded (hn : ∀ stop ∈ stops, stop ≠ []) {consumed : List Text}
    (hf : Free stops s.text) (ht : s.text = consumed.flatten)
    (hc : s.completionTokens = consumed.length) :
    Decoded stops (consumed ++ pieces draws) draws consumed.length (decode stops draws s) := by
  induction draws generalizing s consumed
  case nil =>
    refine .whole ?_ ?_ ?_
    all_goals rw [show pieces [] = [] from rfl, List.append_nil]
    exacts [ht ▸ hf, ht, hc]
  case cons draw draws hi =>
    cases draw
    case done =>
      refine .whole ?_ ?_ ?_
      all_goals rw [show pieces (.done :: draws) = [] from rfl, List.append_nil]
      exacts [ht ▸ hf, ht, hc]
    case empty isDone =>
      refine .whole ?_ ?_ ?_
      all_goals rw [show pieces (.empty isDone :: draws) = [] from rfl, List.append_nil]
      exacts [ht ▸ hf, ht, hc]
    case token piece eos =>
      have hat (rest : List Text) : textAt (consumed ++ piece :: rest) (consumed.length + 1) =
          s.text ++ piece := by
        rw [textAt, List.append_cons, List.take_left' (by simp), List.flatten_append,
          List.flatten_singleton, ht]
      have hfirst (rest : List Text) (h : ¬Free stops (s.text ++ piece)) :
          FirstAt stops (consumed ++ piece :: rest) (consumed.length + 0 + 1) := by
        refine ⟨by simp, by rwa [Nat.add_zero, hat], fun j hj => ?_⟩
        have hl : textAt (consumed ++ piece :: rest) consumed.length = s.text := by
          rw [textAt, List.take_left' rfl, ht]
        exact free_of_le (hl.symm ▸ hf) (show j ≤ consumed.length by omega)
      cases eos
      case true =>
        rw [show pieces (.token piece true :: draws) = [piece] from rfl]
        by_cases hfree : Free stops (s.text ++ piece)
        case pos =>
          refine .whole ?_ ?_ ?_
          · rwa [List.flatten_append, List.flatten_singleton, ←ht]
          · rw [List.flatten_append, List.flatten_singleton, ←ht]
            rfl
          · rw [List.length_append, List.length_singleton, ←hc]
            rfl
        case neg =>
          refine .last 0 piece (hfirst [] hfree) rfl ?_
          rw [Nat.add_zero, hat, ←hc]
          rfl
      case false =>
        rw [show pieces (.token piece false :: draws) = piece :: pieces draws from rfl]
        simp only [decode, Bool.false_eq_true, if_false, stopMatch_none hn]
        cases he : earliest stops (s.text ++ piece)
        case some m =>
          have hm := earliest_eq_some_iff.mp he
          refine .cut 0 m piece (hfirst _ hm.not_free) ?_ rfl ?_
          · rwa [Nat.add_zero, hat]
          · rw [Nat.add_zero, hat, ←hc]
        case none =>
          have hfree := earliest_eq_none_iff.mp he
          have hd := @hi { s with
            text := s.text ++ piece, completionTokens := s.completionTokens + 1 }
            (consumed ++ [piece]) hfree
            (by rw [List.flatten_append, List.flatten_singleton, ht])
            (by rw [List.length_append, List.length_singleton, hc])
          have hl (j : Nat) :
              (consumed ++ [piece]).length + j + 1 = consumed.length + (j + 1) + 1 := by
            rw [List.length_append, List.length_singleton]
            omega
          rw [List.append_assoc, List.singleton_append] at hd
          cases hd
          case cut j m piece' hk hm hp hs =>
            rw [hl] at hk hm hs
            exact .cut (j + 1) m piece' hk hm hp hs
          case last j piece' hk hp hs =>
            rw [hl] at hk hs
            exact .last (j + 1) piece' hk hp hs
          case whole hw ht' hc' => exact .whole hw ht' hc'

end Decoding

-- The text ends where the first stop string begins, in the first piece that completes one, no token
-- is drawn after it, and no stop string is left in the text.
structure Exact (stops pieces : List Text) (s : State) : Prop where
  cut   : ∀ k m, FirstAt stops pieces k → Earliest stops (textAt pieces k) m →
    s.text = (textAt pieces k).take m ∧ s.completionTokens = k
  whole : Free stops pieces.flatten →
    s.text = pieces.flatten ∧ s.completionTokens = pieces.length
  free  : Free stops s.text

theorem length_pieces_le : (pieces draws).length ≤ draws.length := by
  induction draws using pieces.induct
  case case1 piece draws hi =>
    rw [pieces, List.length_cons, List.length_cons]
    omega
  case case2 => simp [pieces]
  case case3 draws h₁ h₂ =>
    rw [pieces]
    · simp
    · exact h₁
    · exact h₂

-- Only where the token that ends the text is the first to complete a stop string, the text is cut
-- too late if another stop string begins before the first of the list that occurs.
theorem generateResult_iff (stop : List Text) (contextLength : Option Nat)
    (promptTokens maxTokens : Nat) (draw : Nat → Draw) :
    let most := maxNewTokens contextLength promptTokens maxTokens
    let consumed := pieces ((List.range most).map draw)
    let s := generateResult stop contextLength promptTokens maxTokens draw
    s.completionTokens ≤ consumed.length ∧ s.completionTokens ≤ most ∧
    (Exact (stop ++ defaultStops) consumed s ↔
      ∀ k piece, FirstAt (stop ++ defaultStops) consumed (k + 1) → draw k = .token piece true →
        firstListed (stopStrings stop) (textAt consumed (k + 1)) =
          earliest (stopStrings stop) (textAt consumed (k + 1))) := by
  intro most consumed s
  have hne : ∀ stop' ∈ stopStrings stop, stop' ≠ [] := fun _ h => (mem_stopStrings.mp h).1
  have hmem : ∀ stop', stop' ≠ [] → (stop' ∈ stopStrings stop ↔ stop' ∈ stop ++ defaultStops) :=
    fun _ h => ⟨fun hm => (mem_stopStrings.mp hm).2, fun hm => mem_stopStrings.mpr ⟨h, hm⟩⟩
  have hmem' := fun stop' h => (hmem stop' h).symm
  have hlen : consumed.length ≤ most := length_pieces_le.trans (by simp)
  have hdraw {j : Nat} {next : Draw} (h : ((List.range most).map draw)[j]? = some next) :
      draw j = next := by
    rw [List.getElem?_map, Option.map_eq_some_iff] at h
    obtain ⟨j', hj, rfl⟩ := h
    have ⟨_, hj⟩ := List.getElem?_eq_some_iff.mp hj
    rw [←hj, List.getElem_range]
  have hd := @decode_decoded _ ⟨[], 0, "generator_done"⟩ ((List.range most).map draw) hne []
    (fun _ _ hn hp => hn (List.infix_nil.mp hp)) rfl rfl
  have hs : s = finish (decode (stopStrings stop) ((List.range most).map draw)
    ⟨[], 0, "generator_done"⟩) (stopStrings stop) := rfl
  rw [List.nil_append] at hd
  have hzero (j : Nat) : ([] : List Text).length + j + 1 = j + 1 := by simp
  cases hd
  case cut j m piece hk hm hp he =>
    rw [hzero] at hk hm he
    have hs : s = _ := (congrArg (finish · (stopStrings stop)) he).trans <|
      finish_of_free hne hm.free_take
    have hk' := hk.congr hmem
    refine ⟨hs ▸ hk.le, hs ▸ hk.le.trans hlen, ?_⟩
    constructor
    case mp =>
      intro _ k piece' hk₂ heos
      obtain rfl : j = k := Nat.succ.inj (hk'.unique hk₂)
      rw [hdraw hp] at heos
      simp at heos
    case mpr =>
      intro _
      refine ⟨fun k n hk₂ hn => ?_, fun hfree => absurd hfree hk'.not_free, ?_⟩
      · obtain rfl := hk₂.unique hk'
        obtain rfl := hn.unique (earliest_congr hmem hm)
        rw [hs]
        exact ⟨rfl, rfl⟩
      · rw [hs]
        exact (free_congr hmem).mp hm.free_take
  case last j piece hk hp he =>
    rw [hzero] at hk he
    have hk' := hk.congr hmem
    have ⟨m, hm⟩ := exists_earliest hk.occurs
    cases hl : firstListed (stopStrings stop) (textAt consumed (j + 1))
    case none => exact absurd (firstListed_eq_none_iff.mp hl) hk.occurs
    case some i =>
      have ⟨htext, hcount⟩ := @finish_of_listed _ ⟨textAt consumed (j + 1), j + 1, "eos"⟩ _ hne hl
      rw [he] at hs
      rw [←hs] at htext hcount
      have htext : s.text = (textAt consumed (j + 1)).take i := htext
      have hcount : s.completionTokens = j + 1 := hcount
      have hi := (starts_of_firstListed hl).lt
      refine ⟨hcount ▸ hk.le, hcount ▸ hk.le.trans hlen, ?_⟩
      constructor
      case mp =>
        intro hexact k piece' hk₂ _
        obtain rfl : j = k := Nat.succ.inj (hk'.unique hk₂)
        have hcut := (hexact.cut _ m hk' (earliest_congr hmem hm)).1
        have hcut := congrArg List.length (htext.symm.trans hcut)
        have := hm.starts.lt
        rw [List.length_take, List.length_take] at hcut
        rw [hl, earliest_eq_some_iff.mpr hm]
        exact congrArg some (by omega)
      case mpr =>
        intro h
        have h := h j piece hk' (hdraw hp)
        rw [hl, earliest_eq_some_iff.mpr hm] at h
        obtain rfl := Option.some.inj h
        refine ⟨fun k n hk₂ hn => ?_, fun hfree => absurd hfree hk'.not_free, ?_⟩
        · obtain rfl := hk₂.unique hk'
          obtain rfl := hn.unique (earliest_congr hmem hm)
          exact ⟨htext, hcount⟩
        · rw [htext]
          exact (free_congr hmem).mp hm.free_take
  case whole hw ht hc =>
    have hfree : Free (stopStrings stop) (decode (stopStrings stop) ((List.range most).map draw)
        ⟨[], 0, "generator_done"⟩).text := ht ▸ hw
    have hs : s = _ := finish_of_free hne hfree
    have htext : s.text = consumed.flatten := hs ▸ ht
    have hcount : s.completionTokens = consumed.length := hs ▸ hc
    have hw' := (free_congr hmem).mp hw
    refine ⟨hcount.le, hcount.le.trans hlen, ?_⟩
    constructor
    case mp  => exact fun _ k _ hk _ => absurd hw' hk.not_free
    case mpr =>
      exact fun _ => ⟨fun k _ hk => absurd hw' hk.not_free, fun _ => ⟨htext, hcount⟩, htext ▸ hw'⟩

-- The token that ends the text completes the second stop string in front of the first.
theorem not_exact_last :
    let s := generateResult [['b'], ['a']] none 1 1 fun _ => .token ['a', 'b'] true
    s = ⟨['a'], 1, "eos"⟩ ∧ ¬Exact ([['b'], ['a']] ++ defaultStops) [['a', 'b']] s := by
  intro s
  have hs : s = ⟨['a'], 1, "eos"⟩ := by decide +kernel
  refine ⟨hs, fun h => h.free ['a'] (by simp) (by simp) ?_⟩
  rw [hs]

end Backend.OnnxRuntime
