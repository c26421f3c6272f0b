import WerkModel.Backend.Candle

-- What is streamed is the text that is returned, and when a stop string cuts this text where the
-- first of them begins.
open Slices Stops

namespace Backend.Candle

variable {text a piece stop : Text} {stops : List Text} {start i n : Nat}

section Search

theorem le_maxStopLen (h : stop ∈ stops) : stop.length ≤ maxStopLen stops := by
  cases hm : (stops.map List.length).max?
  case none =>
    rw [List.max?_eq_none_iff, List.map_eq_nil_iff] at hm
    rw [hm] at h
    cases h
  case some m =>
    rw [maxStopLen, hm]
    exact (List.max?_eq_some_iff.mp hm).2 _ (List.mem_map_of_mem h)

-- Where nothing begins in front of the window, the window makes no difference.
theorem stopReachedIn_eq (hl : ∀ stop ∈ stops, Led stop) (hb : isCharBoundary text start = true)
    (hw : ∀ stop ∈ stops, stop ≠ [] → ∀ j < start, ¬stop <+: text.drop j) :
    stopReachedIn text start stops =
      some ((firstListed stops text).elim (false, text) fun i => (true, text.take i)) := by
  induction stops
  case nil => rfl
  case cons stop stops hi =>
    have ⟨hl, hl'⟩ := List.forall_mem_cons.mp hl
    have ⟨hw, hw'⟩ := List.forall_mem_cons.mp hw
    rw [stopReachedIn, firstListed_cons]
    by_cases hn : stop = []
    case pos => rw [if_pos hn, if_pos hn, hi hl' hw']
    case neg =>
      have hp := position_drop hn (hw hn)
      rw [if_neg hn, if_neg hn, sliceFrom, if_pos hb, ←hp]
      cases hd : Infix.position stop (text.drop start)
      case none => simpa [hd] using hi hl' hw'
      case some index =>
        rw [hd] at hp
        have ⟨hs, _⟩ := (Infix.position_eq_some_iff hn).mp hp.symm
        have hc := isCharBoundary_of_prefix hl hn hs
        have hle := le_of_isCharBoundary hc
        simp [hd, truncate, hc, Nat.not_lt.mpr hle]

-- A stop string that ends in the new piece begins in the window.
theorem stopReachedFrom_eq (hl : ∀ stop ∈ stops, Led stop) (hf : Free stops a) :
    stopReachedFrom (a ++ piece) stops (stopCheckStart a.length (maxStopLen stops)) =
      some ((firstListed stops (a ++ piece)).elim (false, a ++ piece)
        fun i => (true, (a ++ piece).take i)) := by
  refine stopReachedIn_eq hl isCharBoundary_floor fun stop hs hn j hj hp => ?_
  have hlt := hf.lt_of_starts hs hn hp
  have hm := le_maxStopLen hs
  have hfl : floorCharBoundary (a ++ piece) (stopCheckStart a.length (maxStopLen stops)) ≤ _ :=
    floorCharBoundary_le
  rw [stopCheckStart] at hj hfl
  omega

end Search

section Guard

theorem mapM_eq_some {α β : Type} {l : List α} {f : α → Option β} {g : α → β}
    (h : ∀ x ∈ l, f x = some (g x)) : l.mapM f = some (l.map g) := by
  induction l
  case nil => rfl
  case cons x l hi =>
    have ⟨hx, hl⟩ := List.forall_mem_cons.mp h
    rw [List.mapM_cons, hx, hi hl]
    rfl

-- An end of the text that a stop string begins with.
structure Held (text stop : Text) (i : Nat) : Prop where
  lt      : i < text.length
  initial : text.drop i <+: stop
  proper  : (text.drop i).length < stop.length

theorem mem_charIndices {index : Nat} :
    index ∈ charIndices text ↔ index < text.length ∧ isCharBoundary text index = true := by
  simp [charIndices]

theorem isCharBoundary_add {index : Nat} (hb : isCharBoundary text start = true)
    (hi : isCharBoundary (text.drop start) index = true) :
    isCharBoundary text (start + index) = true := by
  by_cases hz : index = 0
  case pos => rwa [hz, Nat.add_zero]
  case neg =>
    have hl := le_of_isCharBoundary hi
    have hs := le_of_isCharBoundary hb
    rw [List.length_drop] at hl
    refine isCharBoundary_of_led ?_ (by omega)
    rw [←List.drop_drop]
    exact led_of_isCharBoundary hi hz

-- The longest end of the window that a stop string begins with is found.
theorem stopPrefixSuffixLen_eq (hl : Led stop) {m : Nat} (hm : stop.length ≤ m) :
    ∃ held, stopPrefixSuffixLen m text stop = some held ∧
      (∀ l ∈ held, l ≤ text.length ∧ isCharBoundary text (text.length - l) = true) ∧
      ∀ i, Held text stop i → ∃ l ∈ held, text.length - i ≤ l := by
  let low := floorCharBoundary text (text.length - min (m - 1) text.length)
  have hb : isCharBoundary text low = true := isCharBoundary_floor
  have hle : low ≤ text.length - min (m - 1) text.length := floorCharBoundary_le
  let found := (List.range (text.drop low).length).find? fun index =>
    isCharBoundary (text.drop low) index ∧
      (text.drop (low + index)).length < stop.length ∧ text.drop (low + index) <+: stop
  have hs : stopPrefixSuffixLen m text stop =
      some (found.map fun index => text.length - (low + index)) := by
    have hmap : (charIndices (text.drop low)).mapM (fun index => sliceFrom text (low + index)) =
        some ((charIndices (text.drop low)).map fun index => text.drop (low + index)) := by
      refine mapM_eq_some fun index hi => ?_
      rw [sliceFrom, if_pos (isCharBoundary_add hb (mem_charIndices.mp hi).2)]
    have hw : sliceFrom text low = some (text.drop low) := if_pos hb
    simp only [stopPrefixSuffixLen]
    rw [hw, Option.bind_eq_bind, Option.bind_some, hmap, Option.bind_eq_bind, Option.bind_some,
      List.find?_map, charIndices, List.find?_filter, Option.map_map]
    simp [found, Function.comp_def]
  refine ⟨_, hs, ?_, ?_⟩
  · intro l h
    obtain ⟨index, hi, rfl⟩ := Option.map_eq_some_iff.mp h
    have ⟨hp, hr, _⟩ := List.find?_range_eq_some.mp hi
    have hp := (of_decide_eq_true hp).1
    have hlt := List.mem_range.mp hr
    rw [List.length_drop] at hlt
    refine ⟨by omega, ?_⟩
    rw [Nat.sub_sub_self (by omega)]
    exact isCharBoundary_add hb hp
  · rintro i ⟨hi, hp, hlen⟩
    rw [List.length_drop] at hlen
    obtain ⟨index, rfl⟩ := Nat.exists_eq_add_of_le (show low ≤ i by omega)
    have hled : Led (text.drop (low + index)) := by
      intro byte hbyte
      obtain ⟨rest, hrest⟩ := hp
      refine hl byte ?_
      rw [←hrest, List.head?_append, show (text.drop (low + index)).head? = some byte from hbyte]
      rfl
    have hbi : isCharBoundary (text.drop low) index = true :=
      isCharBoundary_of_led (by rwa [List.drop_drop]) (by rw [List.length_drop]; omega)
    cases hf : found
    case none =>
      have hr : index ∈ List.range (text.drop low).length :=
        List.mem_range.mpr (by rw [List.length_drop]; omega)
      have hn := List.find?_eq_none.mp hf index hr
      refine absurd (decide_eq_true ⟨hbi, ?_, hp⟩) hn
      rwa [List.length_drop]
    case some first =>
      refine ⟨_, rfl, ?_⟩
      have ⟨_, _, hmin⟩ := List.find?_range_eq_some.mp hf
      have hfirst : first ≤ index := by
        by_contra hlt
        have hn := hmin index (by omega)
        rw [Bool.not_eq_true', decide_eq_false_iff_not, List.length_drop] at hn
        exact hn ⟨hbi, hlen, hp⟩
      exact Nat.sub_le_sub_left (Nat.add_le_add_left hfirst _) _

-- No end of the text that a stop string begins with is streamed.
theorem stopGuardEmitLen_eq (hl : ∀ stop ∈ stops, Led stop) :
    ∃ n, stopGuardEmitLen text stops (maxStopLen stops) = some n ∧ n ≤ text.length ∧
      isCharBoundary text n = true ∧ ∀ i, ∀ stop ∈ stops, Held text stop i → n ≤ i := by
  let held (stop : Text) := (stopPrefixSuffixLen (maxStopLen stops) text stop).join
  have hspec (stop : Text) (hs : stop ∈ stops) :
      stopPrefixSuffixLen (maxStopLen stops) text stop = some (held stop) ∧
      (∀ l ∈ held stop, l ≤ text.length ∧ isCharBoundary text (text.length - l) = true) ∧
      ∀ i, Held text stop i → ∃ l ∈ held stop, text.length - i ≤ l := by
    have ⟨h, he, hrest⟩ := @stopPrefixSuffixLen_eq text stop (hl stop hs) _ (le_maxStopLen hs)
    have hh : held stop = h := by simp [held, he]
    rw [hh]
    exact ⟨he, hrest⟩
  let lengths := ((stops.filter (· ≠ [])).map held).filterMap id
  have hmem (l : Nat) : l ∈ lengths ↔ ∃ stop ∈ stops, stop ≠ [] ∧ held stop = some l := by
    simp [lengths, and_assoc]
  have hg : stopGuardEmitLen text stops (maxStopLen stops) =
      some (text.length - lengths.max?.getD 0) := by
    have hm := mapM_eq_some (f := stopPrefixSuffixLen (maxStopLen stops) text) (g := held)
      (l := stops.filter (· ≠ [])) fun stop hs => (hspec stop (List.mem_filter.mp hs).1).1
    rw [stopGuardEmitLen, hm]
    rfl
  refine ⟨_, hg, Nat.sub_le .., ?_, fun i stop hs hheld => ?_⟩
  · cases hmax : lengths.max?
    case none => exact isCharBoundary_length
    case some l =>
      have ⟨stop, hs, _, hl⟩ := (hmem l).mp (List.max?_mem hmax)
      exact ((hspec stop hs).2.1 l hl).2
  · have ⟨l, hl, hle⟩ := (hspec stop hs).2.2 i hheld
    have hn : stop ≠ [] := by
      rintro rfl
      simpa using hheld.proper
    have hin : l ∈ lengths := (hmem l).mpr ⟨stop, hs, hn, hl⟩
    cases hmax : lengths.max?
    case none =>
      rw [List.max?_eq_none_iff.mp hmax] at hin
      cases hin
    case some m =>
      have := (List.max?_eq_some_iff.mp hmax).2 l hin
      have := hheld.lt
      simp only [Option.getD_some]
      omega

end Guard

section Decoding

variable {streaming : Bool} {s s' : State} {draws : List (Option Text)}

-- The pieces that are drawn before the text ends.
def pieces (draws : List (Option Text)) : List Text :=
  (draws.takeWhile Option.isSome).reduceOption

-- What was streamed is the beginning of the text.
structure Streamed (streaming : Bool) (s : State) : Prop where
  flatten  : streaming = true → s.emitted.flatten = s.generatedText.take s.streamedLen
  nonempty : ∀ piece ∈ s.emitted, piece ≠ []
  boundary : isCharBoundary s.generatedText s.streamedLen = true

-- Nothing was found so far, and nothing was streamed that a stop string may take back.
structure Running (stops : List Text) (streaming : Bool) (s : State) : Prop
    extends Streamed streaming s where
  free      : Free stops s.generatedText
  unmatched : s.matchedStopString = false
  reason    : s.finishReason = "length"
  safe      : ∀ rest i, Starts stops (s.generatedText ++ rest) i → s.streamedLen ≤ i

theorem Running.init : Running stops streaming .init where
  flatten _ := rfl
  nonempty  := by simp [State.init]
  boundary  := rfl
  free      := by
    intro stop _ hn hp
    exact hn (List.infix_nil.mp hp)
  unmatched := rfl
  reason    := rfl
  safe _ _ _ := Nat.zero_le _

-- The text is streamed up to a boundary, unless it already was.
theorem Streamed.stream (h : Streamed streaming s) (hb : isCharBoundary s.generatedText n = true) :
    ∃ s', s.stream streaming n = some s' ∧ Streamed streaming s' ∧
      s'.streamedLen = (if streaming ∧ n > s.streamedLen then n else s.streamedLen) ∧
      s'.generatedText = s.generatedText ∧ s'.generated = s.generated ∧
      s'.finishReason = s.finishReason ∧ s'.matchedStopString = s.matchedStopString := by
  rw [State.stream]
  split
  case isFalse hc => exact ⟨s, rfl, h, rfl, rfl, rfl, rfl, rfl⟩
  case isTrue hc =>
    have hn := le_of_isCharBoundary hb
    rw [slice, if_pos ⟨hc.2.le, h.boundary, hb⟩]
    refine ⟨_, rfl, ⟨fun hs => ?_, ?_, hb⟩, rfl, rfl, rfl, rfl, rfl⟩
    · rw [List.flatten_append, h.flatten hs, List.flatten_singleton]
      have ht : s.generatedText.take s.streamedLen =
          (s.generatedText.take n).take s.streamedLen := by
        rw [List.take_take, Nat.min_eq_left hc.2.le]
      rw [ht, List.take_append_drop]
    · refine List.forall_mem_append.mpr ⟨h.nonempty, ?_⟩
      rw [List.forall_mem_singleton, ←List.length_pos_iff, List.length_drop, List.length_take]
      omega

variable (hl : ∀ stop ∈ stops, Led stop)
include hl

-- A piece that completes no stop string.
theorem decode_of_free (h : Running stops streaming s) (hp : Led piece)
    (hf : Free stops (s.generatedText ++ piece)) :
    ∃ s', decode stops streaming (maxStopLen stops) (some piece :: draws) s =
        decode stops streaming (maxStopLen stops) draws s' ∧
      Running stops streaming s' ∧ s'.generatedText = s.generatedText ++ piece ∧
      s'.generated = s.generated + 1 := by
  have hr := @stopReachedFrom_eq s.generatedText piece stops hl h.free
  rw [firstListed_eq_none_iff.mpr hf] at hr
  have ⟨n, hn, hle, hb, hheld⟩ := @stopGuardEmitLen_eq (s.generatedText ++ piece) stops hl
  have hsl := le_of_isCharBoundary h.boundary
  have h₁ : Streamed streaming { s with
      generated := s.generated + 1, generatedText := s.generatedText ++ piece } := {
    flatten  := fun hs => by rw [h.flatten hs, List.take_append_of_le_length hsl]
    nonempty := h.nonempty
    boundary := isCharBoundary_append h.boundary hp }
  have ⟨s', hs', hst, hlen, htext, hgen, hreason, hm⟩ := h₁.stream hb
  refine ⟨s', ?_, ⟨hst, ?_, hm.trans h.unmatched, hreason.trans h.reason, ?_⟩, htext, hgen⟩
  · simp only [decode, hr, Option.elim_none, Option.bind_eq_bind, Option.bind_some,
      Bool.false_eq_true, if_false, hn, hs']
  · rwa [htext]
  · rintro rest i ⟨stop, hstop, hne, hi⟩
    rw [htext] at hi
    have hlt := hf.lt_of_starts hstop hne hi
    rw [hlen]
    split
    case isTrue =>
      by_cases hit : i < (s.generatedText ++ piece).length
      case neg => omega
      case pos =>
        rw [List.drop_append_of_le_length hit.le] at hi
        refine hheld i stop hstop ⟨hit, ?_, ?_⟩
        · refine List.prefix_of_prefix_length_le (List.prefix_append ..) hi ?_
          rw [List.length_drop]
          omega
        · rw [List.length_drop]
          omega
    case isFalse =>
      rw [List.append_assoc] at hi
      exact h.safe _ i ⟨stop, hstop, hne, hi⟩

-- A piece that completes one ends the text there.
theorem decode_of_stop (h : Running stops streaming s) (hp : Led piece)
    (hf : firstListed stops (s.generatedText ++ piece) = some i) :
    ∃ s', decode stops streaming (maxStopLen stops) (some piece :: draws) s = some s' ∧
      Streamed streaming s' ∧ s'.generatedText = (s.generatedText ++ piece).take i ∧
      (streaming = true → s'.streamedLen = i) ∧ s'.generated = s.generated + 1 ∧
      s'.finishReason = "stop" ∧ s'.matchedStopString = true := by
  have hr := @stopReachedFrom_eq s.generatedText piece stops hl h.free
  rw [hf] at hr
  have hstarts := starts_of_firstListed hf
  have hlt := hstarts.lt
  have hsl := h.safe _ _ hstarts
  have hsl' := le_of_isCharBoundary h.boundary
  have hlen : ((s.generatedText ++ piece).take i).length = i := by
    rw [List.length_take]
    omega
  have h₁ : Streamed streaming { s with
      generated := s.generated + 1, generatedText := (s.generatedText ++ piece).take i } := {
    flatten  := fun hs => by
      rw [h.flatten hs, List.take_take, Nat.min_eq_left hsl, List.take_append_of_le_length hsl']
    nonempty := h.nonempty
    boundary := isCharBoundary_take (isCharBoundary_append h.boundary hp) hsl }
  have ⟨s', hs', hst, hslen, htext, hgen, _, _⟩ := h₁.stream isCharBoundary_length
  rw [hlen] at hs' hslen
  refine ⟨{ s' with finishReason := "stop", matchedStopString := true }, ?_,
    ⟨hst.flatten, hst.nonempty, hst.boundary⟩, htext, fun hs => ?_, hgen, rfl, rfl⟩
  · simp only [decode, hr, Option.elim_some, Option.bind_eq_bind, Option.bind_some, if_true, hlen,
      hs']
    rfl
  · rw [hslen]
    split <;> simp_all
    omega

omit hl in
theorem pieces_cons : pieces (some piece :: draws) = piece :: pieces draws := by
  simp [pieces, List.reduceOption_cons_of_some]

omit hl in
theorem pieces_none : pieces (none :: draws) = [] := by
  simp [pieces]

omit hl in
theorem mem_of_mem_pieces (h : piece ∈ pieces draws) : some piece ∈ draws :=
  (List.takeWhile_subset _) (List.reduceOption_mem_iff.mp h)

-- The text was cut in the first piece that completes a stop string.
structure Cut (stops consumed : List Text) (streaming : Bool) (s : State) (k i : Nat) : Prop where
  first     : FirstAt stops consumed k
  listed    : firstListed stops (textAt consumed k) = some i
  text      : s.generatedText = (textAt consumed k).take i
  streamed  : streaming = true → s.streamedLen = i
  generated : s.generated = k
  reason    : s.finishReason = "stop"
  matched   : s.matchedStopString = true

structure Whole (stops consumed : List Text) (s : State) : Prop where
  free      : Free stops consumed.flatten
  text      : s.generatedText = consumed.flatten
  generated : s.generated = consumed.length
  unmatched : s.matchedStopString = false

theorem decode_run {consumed : List Text} (h : Running stops streaming s)
    (ht : s.generatedText = consumed.flatten) (hg : s.generated = consumed.length)
    (hd : ∀ piece ∈ pieces draws, Led piece) :
    ∃ s', decode stops streaming (maxStopLen stops) draws s = some s' ∧ Streamed streaming s' ∧
      ((∃ k i, Cut stops (consumed ++ pieces draws) streaming s' k i) ∨
        Whole stops (consumed ++ pieces draws) s') := by
  induction draws generalizing s consumed
  case nil =>
    refine ⟨s, rfl, h.toStreamed, .inr ?_⟩
    rw [show pieces [] = [] from rfl, List.append_nil]
    exact ⟨ht ▸ h.free, ht, hg, h.unmatched⟩
  case cons draw draws hi =>
    cases draw
    case none =>
      refine ⟨_, rfl, ⟨h.flatten, h.nonempty, h.boundary⟩, .inr ?_⟩
      rw [pieces_none, List.append_nil]
      exact ⟨ht ▸ h.free, ht, hg, h.unmatched⟩
    case some piece =>
      rw [pieces_cons] at hd ⊢
      have ⟨hp, hd⟩ := List.forall_mem_cons.mp hd
      rw [List.append_cons]
      have htext : (consumed ++ [piece]).flatten = s.generatedText ++ piece := by
        rw [List.flatten_append, List.flatten_singleton, ht]
      cases hf : firstListed stops (s.generatedText ++ piece)
      case none =>
        have ⟨s', hs', hr, ht', hg'⟩ := @decode_of_free _ _ _ _ draws hl h hp
          (firstListed_eq_none_iff.mp hf)
        rw [hs']
        refine hi hr (ht'.trans htext.symm) ?_ hd
        rw [hg', hg, List.length_append, List.length_singleton]
      case some i =>
        have ⟨s', hs', hr, ht', hlen, hg', hreason, hm⟩ :=
          @decode_of_stop _ _ _ _ _ draws hl h hp hf
        have hat : textAt (consumed ++ [piece] ++ pieces draws) (consumed.length + 1) =
            s.generatedText ++ piece := by
          rw [textAt, List.take_left' (by simp), htext]
        have hbefore : textAt (consumed ++ [piece] ++ pieces draws) consumed.length =
            s.generatedText := by
          rw [textAt, List.append_assoc, List.take_left' rfl, ht]
        refine ⟨s', hs', hr, .inl ⟨consumed.length + 1, i, ⟨?_, ?_, ?_⟩, ?_, ?_, hlen, ?_, hreason,
          hm⟩⟩
        · simp
        · rw [hat]
          exact fun hfree => by simp [firstListed_eq_none_iff.mpr hfree] at hf
        · intro j hj
          exact free_of_le (hbefore.symm ▸ h.free) (show j ≤ consumed.length by omega)
        · rwa [hat]
        · rw [hat, ht']
        · rw [hg', hg]

theorem generate_run (hd : ∀ piece ∈ pieces draws, Led piece) :
    ∃ s, generate stops streaming draws = some s ∧
      (streaming = true → s.emitted.flatten = s.generatedText) ∧ (∀ piece ∈ s.emitted, piece ≠ []) ∧
      ((∃ k i, Cut stops (pieces draws) streaming s k i) ∨ Whole stops (pieces draws) s) := by
  have hinit : Running stops streaming .init := .init
  have ⟨s, hs, hst, hc⟩ := @decode_run _ _ _ draws hl [] hinit rfl rfl hd
  rw [List.nil_append] at hc
  rw [generate, hs]
  rcases hc with ⟨k, i, hc⟩ | hw
  case inl =>
    refine ⟨s, by simp [hc.matched], fun hstream => ?_, hst.nonempty, .inl ⟨k, i, hc⟩⟩
    rw [hst.flatten hstream, hc.streamed hstream, hc.text, List.take_take, Nat.min_self]
  case inr =>
    have ⟨s', hs', hst', hlen, htext, hgen, _, hm⟩ := hst.stream isCharBoundary_length
    have hle := le_of_isCharBoundary hst.boundary
    refine ⟨s', by simp [hw.unmatched, hs'], fun hstream => ?_, hst'.nonempty, .inr
      ⟨hw.free, htext.trans hw.text, hgen.trans hw.generated, hm.trans hw.unmatched⟩⟩
    rw [hst'.flatten hstream, List.take_of_length_le]
    rw [htext, hlen]
    split <;> simp_all

end Decoding

-- The returned text ends where the first stop string begins, at the first piece after which there
-- is one, and no piece is drawn after that.
structure Exact (stops pieces : List Text) (s : State) : Prop where
  cut   : ∀ k m, FirstAt stops pieces k → Earliest stops (textAt pieces k) m →
    s.generatedText = (textAt pieces k).take m ∧ s.finishReason = "stop" ∧ s.generated = k
  whole : Free stops pieces.flatten → s.generatedText = pieces.flatten

-- What the callback gets is what is returned. A text is cut too late if and only if another stop
-- string of the list begins before the first that is found.
theorem generate_iff (stops : List (List Char)) (draws : List (Option (List Char)))
    (streaming : Bool) : ∃ s,
      generate (stops.map Utf8.encode) streaming (draws.map (Option.map Utf8.encode)) = some s ∧
      (streaming = true → s.emitted.flatten = s.generatedText) ∧
      (∀ piece ∈ s.emitted, piece ≠ []) ∧
      (Exact (stops.map Utf8.encode) (pieces (draws.map (Option.map Utf8.encode))) s ↔
        ∀ k, FirstAt (stops.map Utf8.encode) (pieces (draws.map (Option.map Utf8.encode))) k →
          firstListed (stops.map Utf8.encode)
            (textAt (pieces (draws.map (Option.map Utf8.encode))) k) =
          earliest (stops.map Utf8.encode)
            (textAt (pieces (draws.map (Option.map Utf8.encode))) k)) := by
  have hl : ∀ stop ∈ stops.map Utf8.encode, Led stop := by
    intro stop hs
    obtain ⟨chars, _, rfl⟩ := List.mem_map.mp hs
    exact led_encode chars
  have hd : ∀ piece ∈ pieces (draws.map (Option.map Utf8.encode)), Led piece := by
    intro piece hp
    have ⟨chars, _, hc⟩ := List.mem_map.mp (mem_of_mem_pieces hp)
    obtain ⟨chars, _, rfl⟩ := Option.map_eq_some_iff.mp hc
    exact led_encode chars
  generalize stops.map Utf8.encode = stops at hl ⊢
  generalize draws.map (Option.map Utf8.encode) = draws at hd ⊢
  have ⟨s, hs, hflat, hne, hc⟩ := @generate_run stops streaming draws hl hd
  refine ⟨s, hs, hflat, hne, ?_⟩
  rcases hc with ⟨k, i, hc⟩ | hw
  case inl =>
    have ⟨m, hm⟩ := exists_earliest hc.first.occurs
    have hearliest := earliest_eq_some_iff.mpr hm
    have hi := (starts_of_firstListed hc.listed).lt
    constructor
    case mp =>
      intro hexact j hj
      obtain rfl := hj.unique hc.first
      have hcut := congrArg List.length (hc.text.symm.trans (hexact.cut j m hj hm).1)
      have := hm.starts.lt
      rw [List.length_take, List.length_take] at hcut
      rw [hc.listed, hearliest]
      exact congrArg some (by omega)
    case mpr =>
      intro h
      refine ⟨fun j n hj hn => ?_, fun hfree => ?_⟩
      · obtain rfl := hj.unique hc.first
        have he := (h j hj).symm.trans hc.listed
        rw [earliest_eq_some_iff.mpr hn, Option.some.injEq] at he
        exact ⟨he ▸ hc.text, hc.reason, hc.generated⟩
      · exact absurd hfree hc.first.not_free
  case inr =>
    have hnone (k : Nat) : ¬FirstAt stops (pieces draws) k :=
      fun hk => hk.not_free hw.free
    exact ⟨fun _ k hk => absurd hk (hnone k), fun _ => ⟨fun k _ hk => absurd hk (hnone k),
      fun _ => hw.text⟩⟩

-- The second stop string begins first, and its character is streamed and returned.
theorem not_exact_late :
    ∃ s, generate ([['b'], ['a']].map Utf8.encode) true [some (Utf8.encode ['a', 'b'])] = some s ∧
      s.emitted = [Utf8.encode ['a']] ∧
      ¬Exact ([['b'], ['a']].map Utf8.encode) (pieces [some (Utf8.encode ['a', 'b'])]) s := by
  refine ⟨⟨[97], 1, [[97]], 1, "stop", true⟩, rfl, rfl, fun h => ?_⟩
  have hm : Earliest ([['b'], ['a']].map Utf8.encode)
      (textAt (pieces [some (Utf8.encode ['a', 'b'])]) 1) 0 :=
    earliest_eq_some_iff.mp (by decide)
  have hk : FirstAt ([['b'], ['a']].map Utf8.encode)
      (pieces [some (Utf8.encode ['a', 'b'])]) 1 := by
    refine ⟨by decide, hm.not_free, fun j hj => ?_⟩
    obtain rfl : j = 0 := by omega
    exact earliest_eq_none_iff.mp (by decide)
  exact absurd (h.cut 1 0 hk hm).1 (by decide)

end Backend.Candle
