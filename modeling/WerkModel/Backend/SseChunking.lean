import WerkModel.Backend.Sse

-- The events of a stream do not depend on how the stream is cut into chunks, as long as every
-- carriage return is followed by a line feed.
namespace Backend

open Chunking

-- Streams whose lines end in some of the given terminators.
inductive Terminated (terminators : List (List UInt8)) : List UInt8 → Prop
  | nil : Terminated terminators []
  | byte {byte rest} : byte ≠ cr → byte ≠ lf → Terminated terminators rest →
    Terminated terminators (byte :: rest)
  | line {terminator rest} : terminator ∈ terminators → Terminated terminators rest →
    Terminated terminators (terminator ++ rest)

def crlf : List UInt8 := [cr, lf]

variable {σ : Type*} {onEvent : σ → String → σ × Except String Unit} {s s' : σ}
variable {byte : UInt8} {bytes rest pending start : List UInt8} {index : Nat}

namespace Terminated

abbrev Mixed := Terminated [[lf], crlf]

theorem tail (t : Mixed (byte :: rest)) : Mixed rest := by
  generalize he : byte :: rest = bytes at t
  cases t
  case nil => simp at he
  case byte t =>
    cases he
    exact t
  case line terminator rest' hm t =>
    simp only [List.mem_cons, List.not_mem_nil, or_false] at hm
    obtain hm | hm := hm
    · rw [hm] at he
      cases he
      exact t
    · rw [hm] at he
      cases he
      exact .line (by simp) t

theorem suffix (t : Mixed (start ++ rest)) : Mixed rest := by
  induction start
  case nil          => exact t
  case cons _ _ hi  => exact hi t.tail

end Terminated

section Boundary

theorem cr_ne_lf : cr ≠ lf := by
  decide

theorem lf_prefix_iff : [lf, lf] <+: lf :: rest ↔ [lf] <+: rest := by
  rw [List.cons_prefix_cons]
  exact and_iff_right rfl

theorem length_of_find (h : findSseBoundary bytes = some index) : index + 2 ≤ bytes.length := by
  have hl : 2 ≤ (bytes.drop index).length := by
    obtain hp | hp := boundary_of_find h
    · exact hp.length_le
    · exact Nat.le_trans (by simp) hp.length_le
  rw [List.length_drop] at hl
  omega

-- Bytes that arrive later do not complete an earlier boundary.
theorem findSseBoundary_append (h : findSseBoundary pending = some index) :
    findSseBoundary (pending ++ rest) = some index := by
  induction pending generalizing index
  case nil => simp [findSseBoundary_nil] at h
  case cons byte bytes hi =>
    rw [findSseBoundary_cons] at h
    rw [List.cons_append, findSseBoundary_cons]
    split at h
    case isTrue hb =>
      have hp : byte :: bytes <+: byte :: (bytes ++ rest) := List.prefix_append (byte :: bytes) rest
      rw [if_pos (hb.imp (·.trans hp) (·.trans hp)), h]
    case isFalse hb =>
      have ⟨index', hf, he⟩ := Option.map_eq_some_iff.mp h
      rw [hi hf, if_neg, ←he]
      · rfl
      have hp : byte :: bytes <+: byte :: (bytes ++ rest) := List.prefix_append (byte :: bytes) rest
      have hl := length_of_find hf
      rintro (hn | hn)
      · exact hb (.inl (List.prefix_of_prefix_length_le hn hp (by simp; omega)))
      · by_cases hl' : 3 ≤ bytes.length
        case pos => exact hb (.inr (List.prefix_of_prefix_length_le hn hp (by simp; omega)))
        case neg =>
          have ⟨a, b, hab⟩ := List.length_eq_two.mp (by omega : bytes.length = 2)
          simp only [hab, List.cons_append, List.cons_prefix_cons] at hn
          rw [hab, ←hn.2.1, ←hn.2.2.1] at hf
          simp [(by decide : findSseBoundary [lf, cr] = none)] at hf

theorem findSseBoundary_byte (hc : byte ≠ cr) (hl : byte ≠ lf) :
    findSseBoundary (byte :: rest) = (findSseBoundary rest).map (· + 1) := by
  rw [findSseBoundary_cons, if_neg]
  simp [List.cons_prefix_cons, hc.symm, hl.symm]

theorem findSseBoundary_lf (h : ¬[lf] <+: rest) :
    findSseBoundary (lf :: rest) = (findSseBoundary rest).map (· + 1) := by
  rw [findSseBoundary_cons, if_neg]
  rw [lf_prefix_iff, List.cons_prefix_cons]
  exact not_or.mpr ⟨h, fun hp => cr_ne_lf hp.1⟩

theorem findSseBoundary_crlf (h : ¬[lf] <+: rest) (h' : ¬crlf <+: rest) :
    findSseBoundary (crlf ++ rest) = (findSseBoundary rest).map (· + 2) := by
  rw [crlf, List.cons_append, findSseBoundary_cons, if_neg, List.cons_append, List.nil_append,
    findSseBoundary_lf h, Option.map_map]
  · rfl
  · simp only [List.cons_append, List.nil_append, List.cons_prefix_cons, true_and]
    exact not_or.mpr ⟨fun hp => cr_ne_lf hp.1.symm, h'⟩

theorem findSseBoundary_lf_lf : findSseBoundary (lf :: lf :: rest) = some 0 := by
  rw [findSseBoundary_cons, if_pos (.inl ⟨rest, rfl⟩)]

theorem findSseBoundary_crlf_crlf : findSseBoundary (crlf ++ (crlf ++ rest)) = some 0 :=
  findSseBoundary_cons.trans (if_pos (.inr ⟨rest, rfl⟩))

theorem findSseBoundary_crlf_lf : findSseBoundary (crlf ++ (lf :: rest)) = some 1 := by
  rw [crlf, List.cons_append, findSseBoundary_cons, if_neg, List.cons_append, List.nil_append,
    findSseBoundary_lf_lf]
  · rfl
  · simp only [List.cons_append, List.nil_append, List.cons_prefix_cons, true_and]
    exact not_or.mpr ⟨fun hp => cr_ne_lf hp.1.symm, fun hp => cr_ne_lf hp.1⟩

end Boundary

-- Bytes that only prolong the first event by blank lines do not matter.
theorem drain_skip
    (hf : findSseBoundary (start ++ rest) = (findSseBoundary rest).map (· + start.length))
    (hd : ∀ s event, dispatch onEvent s (start ++ event) = dispatch onEvent s event) :
    (drain onEvent (start ++ rest) s).2 = (drain onEvent rest s).2 := by
  cases h : findSseBoundary rest
  case none =>
    rw [h, Option.map_none] at hf
    rw [drain_of_none h, drain_of_none hf]
  case some index =>
    rw [h, Option.map_some, Nat.add_comm] at hf
    have ht : (start ++ rest).take (start.length + index) = start ++ rest.take index :=
      List.take_length_add_append _
    have hr : (start ++ rest).drop (start.length + index) = rest.drop index :=
      List.drop_length_add_append _
    rcases he : dispatch onEvent s (rest.take index) with ⟨s', error | _⟩
    · rw [drain_of_error h he, drain_of_error hf (by rw [ht, hd, he])]
    · rw [drain_of_ok h he, drain_of_ok hf (by rw [ht, hd, he]), hr]

section Newlines

variable (h : ∀ s, (drain onEvent (dropNewlines rest) s).2 = (drain onEvent rest s).2)
include h

theorem drain_lf : (drain onEvent (lf :: rest) s).2 = (drain onEvent rest s).2 := by
  by_cases hl : [lf] <+: rest
  case neg =>
    have hf : findSseBoundary ([lf] ++ rest) = (findSseBoundary rest).map (· + [lf].length) :=
      findSseBoundary_lf hl
    exact drain_skip hf fun _ _ => dispatch_lf
  case pos =>
    obtain ⟨rest, rfl⟩ := hl
    rw [←h, List.cons_append, drain_of_ok findSseBoundary_lf_lf dispatch_nil]
    rfl

theorem drain_crlf : (drain onEvent (crlf ++ rest) s).2 = (drain onEvent rest s).2 := by
  by_cases hl : [lf] <+: rest
  case pos =>
    obtain ⟨rest, rfl⟩ := hl
    rw [←h, List.cons_append, drain_of_ok findSseBoundary_crlf_lf dispatch_cr]
    rfl
  case neg =>
    by_cases hc : crlf <+: rest
    case neg =>
      have hf : findSseBoundary (crlf ++ rest) = (findSseBoundary rest).map (· + crlf.length) :=
        findSseBoundary_crlf hl hc
      exact drain_skip hf fun _ _ => dispatch_cr_lf
    case pos =>
      obtain ⟨rest, rfl⟩ := hc
      rw [←h, drain_of_ok findSseBoundary_crlf_crlf dispatch_nil]
      rfl

end Newlines

-- The newlines after an event do not matter, whether they are removed or not.
theorem drain_dropNewlines (t : Terminated.Mixed bytes) :
    (drain onEvent (dropNewlines bytes) s).2 = (drain onEvent bytes s).2 := by
  induction t generalizing s
  case nil => rfl
  case byte hc hl _ _ => rw [dropNewlines_of_byte hc hl]
  case line terminator rest hm t hi =>
    simp only [List.mem_cons, List.not_mem_nil, or_false] at hm
    obtain hm | hm := hm
    · rw [hm, dropNewlines_append (by simp [isNewline]), hi]
      exact (drain_lf fun _ => hi).symm
    · rw [hm, dropNewlines_append (by simp [isNewline, crlf]), hi]
      exact (drain_crlf fun _ => hi).symm

section Append

variable {error : String} {a : SseAccumulator}

theorem take_of_find (h : findSseBoundary pending = some index) :
    (pending ++ rest).take index = pending.take index := by
  have := length_of_find h
  exact List.take_append_of_le_length (by omega)

theorem mixed_rest (index : Nat) (t : Terminated.Mixed (pending ++ rest)) :
    Terminated.Mixed (dropNewlines (pending.drop index) ++ rest) := by
  rw [←List.take_append_drop index pending, List.append_assoc] at t
  have t := t.suffix
  rw [←List.takeWhile_append_dropWhile (p := isNewline) (l := pending.drop index),
    List.append_assoc] at t
  exact t.suffix

-- The newlines after an event are removed as far as they have arrived.
theorem drain_rest (onEvent : σ → String → σ × Except String Unit) (s : σ)
    (t : Terminated.Mixed (pending ++ rest)) (h : findSseBoundary pending = some index) :
    (drain onEvent (dropNewlines ((pending ++ rest).drop index)) s).2 =
      (drain onEvent (dropNewlines (pending.drop index) ++ rest) s).2 := by
  have hl := length_of_find h
  have t := mixed_rest index t
  rw [List.drop_append_of_le_length (by omega), dropNewlines, dropNewlines, List.dropWhile_append]
  rw [dropNewlines] at t
  split
  case isFalse   => rfl
  case isTrue he =>
    rw [List.isEmpty_iff.mp he] at t ⊢
    exact drain_dropNewlines t

theorem drain_append_of_error (t : Terminated.Mixed (pending ++ rest))
    (h : drain onEvent pending s = (a, s', .error error)) :
    (drain onEvent (pending ++ rest) s).2 = (s', .error error) := by
  induction pending, s using drain.induct onEvent
  case case1 hf =>
    rw [drain_of_none hf] at h
    simp at h
  case case2 hf s₁ error₁ hd =>
    rw [drain_of_error hf hd] at h
    cases h
    rw [drain_of_error (findSseBoundary_append hf) ((take_of_find hf).symm ▸ hd)]
  case case3 hf rest' s₁ _ hd hi =>
    rw [drain_of_ok hf hd] at h
    rw [drain_of_ok (findSseBoundary_append hf) ((take_of_find hf).symm ▸ hd),
      drain_rest onEvent s₁ t hf]
    exact hi (mixed_rest _ t) h

theorem drain_append_of_ok (t : Terminated.Mixed (pending ++ rest))
    (h : drain onEvent pending s = (a, s', .ok ())) :
    Terminated.Mixed (a.pending ++ rest) ∧ a.pending.length ≤ pending.length ∧
    findSseBoundary a.pending = none ∧
    (drain onEvent (pending ++ rest) s).2 = (drain onEvent (a.pending ++ rest) s').2 := by
  induction pending, s using drain.induct onEvent
  case case1 hf =>
    rw [drain_of_none hf] at h
    cases h
    exact ⟨t, Nat.le_refl _, hf, rfl⟩
  case case2 hf s₁ error₁ hd =>
    rw [drain_of_error hf hd] at h
    simp at h
  case case3 hf rest' s₁ _ hd hi =>
    rw [drain_of_ok hf hd] at h
    rw [drain_of_ok (findSseBoundary_append hf) ((take_of_find hf).symm ▸ hd),
      drain_rest onEvent s₁ t hf]
    have ⟨ht, hl, hs⟩ := hi (mixed_rest _ t) h
    exact ⟨ht, Nat.le_trans hl (length_dropNewlines_lt hf).le, hs⟩

end Append

-- What remains of a stream of bounded size while it is decoded.
structure Remaining (a : SseAccumulator) (rest : List UInt8) : Prop where
  drained : findSseBoundary a.pending = none
  mixed   : Terminated.Mixed (a.pending ++ rest)
  bounded : (a.pending ++ rest).length ≤ maxEventBytes

theorem resumable : Resumable (SseAccumulator.push onEvent) Remaining := by
  have hle {a : SseAccumulator} {x y : List UInt8} (r : Remaining a (x ++ y)) :
      (a.pending ++ x).length ≤ maxEventBytes := by
    have := r.bounded
    simp only [List.length_append] at this ⊢
    omega
  constructor
  case empty =>
    intro a s r
    have hd := r.drained
    rw [←List.append_nil a.pending] at hd
    rw [push_of_le r.bounded, drain_of_none hd]
  case ok =>
    intro a x y s a' s' r h
    have t := r.mixed
    rw [push_of_le (hle r)] at h
    rw [←List.append_assoc] at t
    have ⟨t', hl, hd, he⟩ := drain_append_of_ok t h
    have hb := r.bounded
    simp only [List.length_append] at hb hl
    have r' : Remaining a' y := ⟨hd, t', by rw [List.length_append]; omega⟩
    refine ⟨r', ?_⟩
    rw [push_of_le r.bounded, push_of_le r'.bounded, ←List.append_assoc, he]
  case error =>
    intro a x y s a' s' e r h
    have t := r.mixed
    rw [push_of_le (hle r)] at h
    rw [←List.append_assoc] at t
    rw [push_of_le r.bounded, ←List.append_assoc, drain_append_of_error t h]

-- All chunks together have the size of the stream, so that its bound is also theirs.
theorem run_push {chunks : List (List UInt8)} (t : Terminated.Mixed chunks.flatten)
    (h : chunks.flatten.length ≤ maxEventBytes) :
    run (SseAccumulator.push onEvent) ⟨[]⟩ chunks s =
      (SseAccumulator.push onEvent ⟨[]⟩ chunks.flatten s).2 :=
  resumable.run_eq ⟨rfl, t, h⟩

end Backend
