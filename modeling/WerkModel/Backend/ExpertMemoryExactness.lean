import WerkModel.Backend.ExpertMemory

-- Both ways of sampling count exactly the bytes of the expert weights that are resident.
open Checks Paging

namespace Backend.ExpertMemory

open ModelPrefetch

-- What the kernel tells is so. Only the lowest bit of the status of a page has a meaning.
structure Sample.Truthful (sample : Sample) (resident : Nat → Bool) (page offset length : Nat) :
    Prop where
  whole : ∀ count ∈ sample.whole,
    count = Nat.count (fun i => resident (offset / page + i)) (length / page)
  first : ∀ count ∈ sample.first, count = (resident (offset / page)).toNat
  last  : ∀ count ∈ sample.last, count = (resident ((offset + length) / page - 1)).toNat
  pages : ∀ pages ∈ sample.pages, pages.length = length / page ∧
    ∀ i (h : i < pages.length), decide (pages[i] &&& 1 ≠ 0) = resident (offset / page + i)

-- Whole pages of a range, of which only the first and the last may reach beyond it.
structure Chunked (page start stop offset length : Nat) : Prop where
  page_pos      : 0 < page
  page_dvd      : page ∣ offset
  page_dvd'     : page ∣ length
  length_pos    : 0 < length
  start_lt      : start < offset + page
  lt_stop       : offset + length < stop + page
  start_lt_stop : start < stop
  bounded       : offset + length ≤ u64Max

-- A subtraction that is exact where it does not go below zero.
def Exact (minus : Nat → Nat → Fallible Nat) : Prop :=
  ∀ a b, b ≤ a → minus a b = .ok (a - b)

def residentIn (resident : Nat → Bool) (page a b : Nat) : Nat :=
  bytesBefore resident page b - bytesBefore resident page a

variable {minus : Nat → Nat → Fallible Nat} {sample : Sample} {resident : Nat → Bool}
variable {page chunk start stop offset length : Nat} {allowed : Failure → Prop}
variable {pages : List UInt8}

theorem exact_saturating : Exact fun a b => return a - b :=
  fun _ _ _ => rfl

theorem exact_sub : Exact sub :=
  fun _ _ h => if_pos h

section Counting

-- The pages whose lowest bit is set.
def lowBits (pages : List UInt8) : Nat :=
  (pages.map fun byte => (byte &&& 1).toNat).sum

theorem toNat_and_one (byte : UInt8) : (byte &&& 1).toNat = byte.toNat % 2 := by
  rw [UInt8.toNat_and]
  exact Nat.and_one_is_mod _

-- Of the bits of a byte, only the lowest is counted.
theorem countP_testBit (bytes : List UInt8) :
    (List.range (8 * bytes.length)).countP (fun i => (fromLeBytes bytes).testBit i && i % 8 == 0) =
      lowBits bytes := by
  induction bytes
  case nil => rfl
  case cons byte bytes hi =>
    have hb := byte.toNat_lt
    have hv : fromLeBytes (byte :: bytes) = byte.toNat + 256 * fromLeBytes bytes := rfl
    have hs (i : Nat) : (fromLeBytes (byte :: bytes)).testBit (8 + i) =
        (fromLeBytes bytes).testBit i := by
      have hd : (byte.toNat + 256 * fromLeBytes bytes) / 2 ^ 8 = fromLeBytes bytes := by omega
      rw [Nat.add_comm, Nat.testBit_add, hv, hd]
    have hl : (List.range 8).countP (fun i =>
        (fromLeBytes (byte :: bytes)).testBit i && i % 8 == 0) = byte.toNat % 2 := by
      have hr : List.range 8 = [0, 1, 2, 3, 4, 5, 6, 7] := rfl
      simp [hr, List.countP_cons, Nat.testBit_zero, hv]
      split <;> omega
    rw [List.length_cons, Nat.mul_succ, Nat.add_comm, List.range_add, List.countP_append, hl,
      List.countP_map, lowBits, List.map_cons, List.sum_cons, toNat_and_one, ←lowBits, ←hi]
    congr 2
    funext i
    simp [hs]

theorem countOnes_mask (a b c d e f g h : UInt8) :
    countOnes (fromLeBytes [a, b, c, d, e, f, g, h] &&& 0x0101010101010101) =
      lowBits [a, b, c, d, e, f, g, h] := by
  have hm : ∀ i < 64, Nat.testBit 0x0101010101010101 i = (i % 8 == 0) := by decide
  rw [←countP_testBit, countOnes]
  refine List.countP_congr fun i hi => ?_
  rw [Nat.testBit_and, hm i (List.mem_range.mp hi)]

theorem countMixed_eq : countMixed pages = lowBits pages := by
  induction pages using countMixed.induct
  case case1 a b c d e f g h pages hi =>
    rw [countMixed, countOnes_mask, hi]
    simp only [lowBits, List.map_cons, List.map_nil, List.sum_cons, List.sum_nil]
    omega
  case case2 remainder hn => rw [countMixed, lowBits]; exact hn

theorem countPages_eq : countPages pages = lowBits pages := by
  rw [countPages]
  split
  case isTrue h =>
    rw [h.2, lowBits, List.length_replicate, List.map_replicate, List.sum_replicate]
    simp
  case isFalse =>
    split
    case isTrue h =>
      rw [h.2, lowBits, List.map_replicate, List.sum_replicate]
      simp
    case isFalse => exact countMixed_eq

-- The lowest bits count the pages of a set.
theorem lowBits_eq {k : Nat}
    (h : ∀ i (h : i < pages.length), decide (pages[i] &&& 1 ≠ 0) = resident (k + i)) :
    lowBits pages = Nat.count (fun i => resident (k + i)) pages.length := by
  induction pages generalizing k
  case nil => rfl
  case cons byte pages hi =>
    have hb : decide (byte &&& 1 ≠ 0) = resident k := h 0 (by simp)
    have ht := toNat_and_one byte
    have hp : ∀ i (h : i < pages.length), decide (pages[i] &&& 1 ≠ 0) = resident (k + 1 + i) := by
      intro i hl
      have := h (i + 1) (by simpa using hl)
      rwa [show k + 1 + i = k + (i + 1) by omega]
    have hr : resident k = true ↔ byte.toNat % 2 ≠ 0 := by
      rw [←hb, decide_eq_true_iff, Ne, ←UInt8.toNat_inj, ht]
      rfl
    rw [lowBits, List.map_cons, List.sum_cons, ←lowBits, hi hp, List.length_cons, Nat.count_succ']
    have hc : (fun i => resident (k + 1 + i) = true) = fun i => resident (k + (i + 1)) = true := by
      funext i
      rw [Nat.add_right_comm, Nat.add_assoc]
    simp only [hc, Nat.add_zero, hr, ht]
    split <;> omega

end Counting

section Overlap

theorem withoutPadding_meets (hm : Exact minus) {cut : Bool} {bytes n : Nat}
    {padding : Fallible Nat} (hp : cut = true → padding = .ok n) (hn : cut = true → n ≤ bytes) :
    Meets allowed (withoutPadding minus cut bytes padding)
      (· = bytes - if cut then n else 0) := by
  rw [withoutPadding]
  split
  case isTrue hc =>
    rw [hp hc]
    exact (congrArg (Meets allowed · _) (hm _ _ (hn hc))).mpr rfl
  case isFalse => exact Meets.ok rfl

namespace Chunked

variable (c : Chunked page start stop offset length)
include c

theorem offset_eq : page * (offset / page) = offset :=
  Nat.mul_div_cancel' c.page_dvd

theorem length_eq : page * (length / page) = length :=
  Nat.mul_div_cancel' c.page_dvd'

theorem page_le : page ≤ length :=
  Nat.le_of_dvd c.length_pos c.page_dvd'

-- What the chunk has in front of the range, behind it, and in all.
theorem front : start ≤ offset ∨ bytesBefore resident page start =
    bytesBefore resident page offset +
      if resident (offset / page) then start - offset else 0 := by
  by_cases hs : start ≤ offset
  case pos => exact .inl hs
  case neg =>
    have ha := @bytesBefore_add page resident (offset / page) (start - offset) c.page_pos
      (by have := c.start_lt; omega)
    rw [c.offset_eq, Nat.add_sub_cancel' (by omega)] at ha
    exact .inr ha

theorem back : offset + length ≤ stop ∨ bytesBefore resident page (offset + length) =
    bytesBefore resident page stop +
      if resident ((offset + length) / page - 1) then offset + length - stop else 0 := by
  by_cases hs : offset + length ≤ stop
  case pos => exact .inl hs
  case neg =>
    have hl := c.page_le
    have hle : page * ((offset + length) / page) = offset + length :=
      Nat.mul_div_cancel' (Nat.dvd_add c.page_dvd c.page_dvd')
    obtain ⟨k, hk⟩ : ∃ k, (offset + length) / page = k + 1 :=
      Nat.exists_eq_add_one.mpr <| Nat.div_pos (by omega) c.page_pos
    rw [hk, Nat.mul_succ] at hle
    have hb := c.lt_stop
    have hw := @bytesBefore_add page resident k page c.page_pos (Nat.le_refl _)
    have hs := @bytesBefore_add page resident k (stop - page * k) c.page_pos (by omega)
    rw [hle] at hw
    rw [Nat.add_sub_cancel' (by omega)] at hs
    rw [hk, Nat.add_sub_cancel, hw, hs]
    refine .inr ?_
    split <;> omega

theorem whole : bytesBefore resident page (offset + length) = bytesBefore resident page offset +
    page * Nat.count (fun i => resident (offset / page + i)) (length / page) := by
  have hm := @bytesBefore_mul_add page (length / page) resident (offset / page) c.page_pos
  rwa [Nat.mul_add, c.offset_eq, c.length_eq] at hm

theorem stop_eq : (offset + length) / page = offset / page + length / page :=
  Nat.add_div_of_dvd_right c.page_dvd

theorem bytes_le {n : Nat} (h : n ≤ length / page) : n * page ≤ length := by
  calc n * page ≤ length / page * page := Nat.mul_le_mul_right _ h
    _ = length := Nat.div_mul_cancel c.page_dvd'

-- The boundaries are taken off what the whole chunk counts.
theorem residentIn_eq {bytes : Nat}
    (hb : bytes = Nat.count (fun i => resident (offset / page + i)) (length / page) * page) :
    let front := if start > offset ∧ resident (offset / page) then start - offset else 0
    let back := if stop < offset + length ∧ resident ((offset + length) / page - 1) then
      offset + length - stop else 0
    front + back ≤ bytes ∧ bytes - front - back =
      residentIn resident page (max start offset) (min stop (offset + length)) := by
  have hw := @whole resident page start stop offset length c
  rw [Nat.mul_comm, ←hb] at hw
  have hf := @front resident page start stop offset length c
  have hk := @back resident page start stop offset length c
  have hm : bytesBefore resident page (max start offset) ≤
      bytesBefore resident page (min stop (offset + length)) := by
    have h₁ := c.start_lt
    have h₂ := c.lt_stop
    have h₃ := c.page_le
    have h₄ := c.start_lt_stop
    exact bytesBefore_mono (by omega)
  simp only [residentIn]
  by_cases hs : start > offset
  case pos =>
    rw [max_eq_left (by omega)] at hm ⊢
    have hf := hf.resolve_left (by omega)
    by_cases hl : stop < offset + length
    case pos =>
      have hk := hk.resolve_left (by omega)
      rw [min_eq_left (by omega)] at hm ⊢
      simp only [hs, hl, true_and]
      omega
    case neg =>
      rw [min_eq_right (by omega)] at hm ⊢
      simp only [hs, hl, true_and, false_and, if_false]
      omega
  case neg =>
    rw [max_eq_right (by omega)] at hm ⊢
    by_cases hl : stop < offset + length
    case pos =>
      have hk := hk.resolve_left (by omega)
      rw [min_eq_left (by omega)] at hm ⊢
      simp only [hs, hl, true_and, false_and, if_false]
      omega
    case neg =>
      rw [min_eq_right (by omega)] at hm ⊢
      simp only [hs, hl, false_and, if_false]
      omega

end Chunked

theorem residentIn_le {a b : Nat} : residentIn resident page a b ≤ b - a := by
  by_cases h : a ≤ b
  case pos =>
    have := @bytesBefore_le_add page a b resident h
    rw [residentIn]
    omega
  case neg =>
    have := @bytesBefore_mono page b a resident (Nat.le_of_not_le h)
    rw [residentIn]
    omega

-- The sample of a page tells whether it is resident.
theorem head_eq (c : Chunked page start stop offset length) (hl : pages.length = length / page)
    (hr : ∀ i (h : i < pages.length), decide (pages[i] &&& 1 ≠ 0) = resident (offset / page + i)) :
    pages.head?.any (· &&& 1 ≠ 0) = resident (offset / page) := by
  have hp : 0 < pages.length := by
    rw [hl]
    exact Nat.div_pos c.page_le c.page_pos
  have h := hr 0 hp
  rw [List.head?_eq_getElem?, List.getElem?_eq_getElem hp, Option.any_some, h, Nat.add_zero]

theorem getLast_eq (c : Chunked page start stop offset length) (hl : pages.length = length / page)
    (hr : ∀ i (h : i < pages.length), decide (pages[i] &&& 1 ≠ 0) = resident (offset / page + i)) :
    pages.getLast?.any (· &&& 1 ≠ 0) = resident ((offset + length) / page - 1) := by
  have hp : 0 < pages.length := by
    rw [hl]
    exact Nat.div_pos c.page_le c.page_pos
  have h := hr (pages.length - 1) (by omega)
  rw [List.getLast?_eq_getElem?, List.getElem?_eq_getElem (by omega), Option.any_some, h, c.stop_eq,
    hl, Nat.add_sub_assoc (by omega)]

-- The status of the pages of a chunk counts the resident bytes that it has of the range.
theorem residentOverlap_meets (hm : Exact minus) (c : Chunked page start stop offset length)
    (hl : pages.length = length / page)
    (hr : ∀ i (h : i < pages.length), decide (pages[i] &&& 1 ≠ 0) = resident (offset / page + i)) :
    Meets allowed (residentOverlap minus pages offset page start stop)
      (· = residentIn resident page (max start offset) (min stop (offset + length))) := by
  have hc : countPages pages =
      Nat.count (fun i => resident (offset / page + i)) (length / page) := by
    rw [countPages_eq, lowBits_eq hr, hl]
  have hle : countPages pages * page ≤ length := c.bytes_le (hc ▸ Nat.count_le _)
  have hb := c.bounded
  have ⟨hs, he⟩ := c.residentIn_eq (congrArg (· * page) hc)
  have hlen : pages.length * page = length := by
    rw [hl, Nat.div_mul_cancel c.page_dvd']
  rw [residentOverlap, head_eq c hl hr, getLast_eq c hl hr]
  refine (mul_meets (by omega)).bind fun bytes hbytes => ?_
  refine (withoutPadding_meets hm (n := start - offset) ?_ ?_).bind fun rest hrest => ?_
  · intro hcut
    have hcut := (of_decide_eq_true hcut).1
    have := c.start_lt
    rw [sub, if_pos (by omega)]
    exact congrArg Except.ok <| Nat.min_eq_left (by omega)
  · intro hcut
    rw [if_pos (of_decide_eq_true hcut)] at hs
    omega
  refine (mul_meets (by omega)).bind fun mapped hmapped => ?_
  rw [hlen] at hmapped
  rw [hmapped]
  refine (add_meets hb).bind fun high hhigh => ?_
  rw [hhigh]
  refine (withoutPadding_meets hm (n := offset + length - stop) ?_ ?_).mono fun n hn => ?_
  · intro hcut
    have hcut := (of_decide_eq_true hcut).1
    have := c.lt_stop
    rw [sub, if_pos (by omega)]
    exact congrArg Except.ok <| Nat.min_eq_left (by omega)
  · intro hcut
    rw [if_pos (of_decide_eq_true hcut)] at hs
    simp only [decide_eq_true_eq] at hrest
    omega
  · simp only [decide_eq_true_eq] at hrest hn
    omega

example : residentOverlap sub [0x81, 0x80, 1, 0, 1, 0, 1, 0, 1] 0 4096 100 (9 * 4096 - 200) =
    .ok (5 * 4096 - 300) := by decide +kernel

theorem cutAt_eq {outside : Prop} [Decidable outside] {cached : Option Nat} {cut r : Bool}
    (h : cutAt outside cached = some cut) (hr : ∀ count ∈ cached, count = r.toNat) :
    cut = decide (outside ∧ r) := by
  rw [cutAt] at h
  split at h
  case isTrue ho =>
    have ⟨count, hc, hcut⟩ := Option.map_eq_some_iff.mp h
    rw [←hcut, hr count hc]
    cases r <;> simp [ho]
  case isFalse ho =>
    rw [←Option.some.inj h]
    simp [ho]

theorem cutAt_eq_none {outside : Prop} [Decidable outside] {cached : Option Nat}
    (h : cutAt outside cached = none) : cached = none := by
  rw [cutAt] at h
  split at h
  case isTrue  => exact Option.map_eq_none_iff.mp h
  case isFalse => simp at h

-- What the kernel counts itself is the same, unless one of its calls fails.
theorem cachedOverlap_meets (hm : Exact minus) (c : Chunked page start stop offset length)
    (ht : sample.Truthful resident page offset length) :
    Meets allowed (cachedOverlap minus sample offset length page start stop) fun overlap =>
      (∀ n ∈ overlap,
        n = residentIn resident page (max start offset) (min stop (offset + length))) ∧
      (overlap = none → sample.whole = none ∨ sample.first = none ∨ sample.last = none) := by
  have hb := c.bounded
  rw [cachedOverlap]
  cases hw : sample.whole
  case none => exact ⟨by simp, fun _ => .inl rfl⟩
  case some count =>
    have hc := ht.whole count hw
    have hle : count ≤ length / page := hc ▸ Nat.count_le _
    have ⟨hs, he⟩ := c.residentIn_eq (congrArg (· * page) hc)
    refine (div_meets c.page_pos).bind fun n hn => ?_
    rw [hn, if_neg (by omega)]
    refine (mul_meets (by have := c.bytes_le hle; omega)).bind fun bytes hbytes => ?_
    cases hf : cutAt (start > offset) sample.first
    case none => exact ⟨by simp, fun _ => .inr <| .inl <| cutAt_eq_none hf⟩
    case some front =>
      have hf := cutAt_eq hf ht.first
      refine (withoutPadding_meets hm (n := start - offset) ?_ ?_).bind fun rest hrest => ?_
      · intro hcut
        rw [hf] at hcut
        have hcut := (of_decide_eq_true hcut).1
        rw [sub, if_pos (by omega)]
      · intro hcut
        rw [hf] at hcut
        rw [if_pos (of_decide_eq_true hcut)] at hs
        omega
      refine (add_meets hb).bind fun high hhigh => ?_
      rw [hhigh]
      cases hl : cutAt (stop < offset + length) sample.last
      case none => exact ⟨by simp, fun _ => .inr <| .inr <| cutAt_eq_none hl⟩
      case some back =>
        have hl := cutAt_eq hl ht.last
        simp only [hf, decide_eq_true_eq] at hrest
        refine (withoutPadding_meets hm (n := offset + length - stop) ?_ ?_).bind
          fun rest' hr' => ?_
        · intro hcut
          rw [hl] at hcut
          have hcut := (of_decide_eq_true hcut).1
          rw [sub, if_pos (by omega)]
        · intro hcut
          rw [hl] at hcut
          rw [if_pos (of_decide_eq_true hcut)] at hs
          omega
        simp only [hl, decide_eq_true_eq] at hr'
        have h₁ := c.start_lt
        have h₂ := c.lt_stop
        have h₃ := c.page_le
        have h₄ := c.start_lt_stop
        rw [hm _ _ (by omega)]
        refine Meets.ok ⟨fun n hn => ?_, by simp⟩
        have hle := @residentIn_le resident page (max start offset)
          (min stop (offset + length))
        rw [←Option.some.inj hn, Nat.min_eq_left (by omega)]
        omega

end Overlap

-- The kernel answers in time, in one of the two ways.
def Sample.Answers (sample : Sample) : Prop :=
  sample.expired = false ∧ (sample.pages.isSome ∨
    (sample.whole.isSome ∧ sample.first.isSome ∧ sample.last.isSome))

theorem sampleChunk_meets (hm : Exact minus) (c : Chunked page start stop offset length)
    (ht : sample.Truthful resident page offset length)
    (ha : ¬sample.Answers → ∀ text, allowed (.message text)) :
    Meets allowed (sampleChunk minus sample offset length page start stop)
      (· = residentIn resident page (max start offset) (min stop (offset + length))) := by
  refine Meets.ensure_bind (fun hn => ha (fun h => hn ?_) _) fun _ => ?_
  · simp [h.1]
  refine (cachedOverlap_meets hm c ht).bind fun overlap hs => ?_
  cases overlap
  case some bytes => exact Meets.ok (hs.1 bytes rfl)
  case none =>
    cases hp : sample.pages
    case none =>
      refine ha (fun h => ?_) _
      have hf := h.2.resolve_left (by simp [hp])
      obtain hw | hw | hw := hs.2 rfl
      · simp [hw] at hf
      · simp [hw] at hf
      · simp [hw] at hf
    case some pages =>
      have ⟨hl, hr⟩ := ht.pages pages hp
      exact residentOverlap_meets hm c hl hr

theorem residentIn_of_le {a b : Nat} (h : b ≤ a) : residentIn resident page a b = 0 :=
  Nat.sub_eq_zero_of_le <| bytesBefore_mono h

theorem residentIn_add {a b c : Nat} (hab : a ≤ b) (hbc : b ≤ c) :
    residentIn resident page a b + residentIn resident page b c = residentIn resident page a c := by
  have h₁ := @bytesBefore_mono page a b resident hab
  have h₂ := @bytesBefore_mono page b c resident hbc
  simp only [residentIn]
  omega

variable {alignedEnd acc : Nat} {sampler : Nat → Nat → Sample}

-- The chunks of a range count all of its resident bytes, and none of others.
theorem sampleRange_meets (hm : Exact minus) (hp : 0 < page) (hc : page ∣ chunk) (hpos : 0 < chunk)
    (ho : page ∣ offset) (he : page ∣ alignedEnd) (hs : start < stop) (hst : start < offset + page)
    (hle : stop ≤ alignedEnd) (hlt : alignedEnd < stop + page) (hb : alignedEnd ≤ u64Max)
    (hacc : acc + (stop - max start offset) ≤ u64Max)
    (ht : ∀ offset length, page ∣ offset → page ∣ length →
      (sampler offset length).Truthful resident page offset length)
    (ha : ∀ offset length, ¬(sampler offset length).Answers → ∀ text, allowed (.message text)) :
    Meets allowed (sampleRange minus page chunk sampler start stop alignedEnd offset acc)
      (· = acc + residentIn resident page (max start offset) stop) := by
  fun_induction sampleRange minus page chunk sampler start stop alignedEnd offset acc
  case case1 offset acc h length hi =>
    have hl : page ∣ min (alignedEnd - offset) chunk := by
      rcases min_choice (alignedEnd - offset) chunk with hmin | hmin
      · rw [hmin]
        exact Nat.dvd_sub he ho
      · rw [hmin]
        exact hc
    have hpl : page ≤ min (alignedEnd - offset) chunk := Nat.le_of_dvd (by omega) hl
    have c : Chunked page start stop offset (min (alignedEnd - offset) chunk) :=
      ⟨hp, ho, hl, by omega, hst, by omega, hs, by omega⟩
    refine (sampleChunk_meets hm c (ht _ _ ho hl) (ha _ _)).bind fun bytes hbytes => ?_
    have hbound := @residentIn_le resident page (max start offset)
      (min stop (offset + min (alignedEnd - offset) chunk))
    refine (add_meets (by omega)).bind fun acc' hacc' => (add_meets (by omega)).bind fun _ _ => ?_
    refine (hi acc' (Nat.dvd_add ho hl) (by omega) (by omega)).mono fun n hn => ?_
    rw [hn, hacc', hbytes, Nat.add_assoc]
    congr 1
    by_cases hlast : stop ≤ offset + min (alignedEnd - offset) chunk
    case pos =>
      have hz := @residentIn_of_le resident page
        (max start (offset + min (alignedEnd - offset) chunk)) stop (by omega)
      rw [min_eq_left hlast, hz, Nat.add_zero]
    case neg =>
      rw [min_eq_right (by omega)]
      rw [max_eq_right (a := start) (b := offset + min (alignedEnd - offset) chunk) (by omega)]
      exact residentIn_add (by omega) (by omega)
  case case2 offset acc h =>
    have hoe : alignedEnd ≤ offset := by omega
    rw [residentIn_of_le (by omega)]
    exact Meets.ok rfl

def residentRange (resident : Nat → Bool) (page : Nat) (range : Range) : Nat :=
  residentIn resident page range.offset range.stop

section Ranges

variable {fileSize totalBytes previousEnd total index : Nat} {files : List ModelFileRegions}
variable {sampler : Nat → Nat → Nat → Sample} {ranges : List Range}

theorem sampleRanges_meets (hm : Exact minus) (hp : 0 < page) (hl : page ≤ maxChunk)
    (hc : page ∣ chunk) (hpos : 0 < chunk) (hmax : totalBytes ≤ u64Max)
    (hacc : acc ≤ total) (htotal : total ≤ totalBytes)
    (ht : ∀ index offset length, page ∣ offset → page ∣ length →
      (sampler index offset length).Truthful resident page offset length)
    (ha : ¬(fileSize ≤ offMax ∧ Mappable fileSize totalBytes previousEnd total ranges ∧
      ∀ index offset length, (sampler index offset length).Answers) →
      ∀ text, allowed (.message text)) :
    Meets allowed
      (sampleRanges minus page chunk totalBytes sampler fileSize index previousEnd total acc ranges)
      fun result => result.1 = total + (ranges.map Range.length).sum ∧
        result.2 = acc + (ranges.map (residentRange resident page)).sum ∧
        result.2 ≤ result.1 ∧ result.1 ≤ totalBytes := by
  induction ranges generalizing index previousEnd total acc
  case nil => exact Meets.ok ⟨rfl, rfl, hacc, htotal⟩
  case cons range ranges hi =>
    have hu : offMax + maxChunk ≤ u64Max := by decide
    simp only [Mappable, Range.stop] at ha
    refine (Meets.checkedAdd fun hn => ha (by omega) _).bind fun stop hstop => ?_
    obtain ⟨hs, hm'⟩ := hstop
    refine Meets.ensure_bind (fun hn => ha (by omega) _) fun hfit => ?_
    obtain ⟨ho, hf⟩ := hfit
    refine (Meets.checkedAdd fun hn => ha (by omega) _).bind fun total' hsum => ?_
    obtain ⟨ht', _⟩ := hsum
    refine Meets.ensure_bind (fun hn => ha (by omega) _) fun htot => ?_
    have hr : residentRange resident page range ≤ range.length := by
      have := @residentIn_le resident page range.offset range.stop
      rwa [Range.stop, Nat.add_sub_cancel_left] at this
    have hrest : ¬(fileSize ≤ offMax ∧ Mappable fileSize totalBytes stop total' ranges ∧
        ∀ index offset length, (sampler index offset length).Answers) →
        ∀ text, allowed (.message text) := by
      intro hn
      rw [hs, ht'] at hn
      exact ha fun h => hn ⟨h.1, h.2.1.2.2.2, h.2.2⟩
    split
    case isTrue hz =>
      refine (hi (by omega) htot hrest).mono fun result hresult => ?_
      obtain ⟨h₁, h₂, h₃⟩ := hresult
      refine ⟨?_, ?_, h₃⟩
      · rw [h₁, List.map_cons, List.sum_cons]
        omega
      · rw [h₂, List.map_cons, List.sum_cons]
        omega
    case isFalse hz =>
      refine (sub_meets hp).bind fun padding hpad => ?_
      refine (Meets.checkedAdd fun hn => ha (by omega) _).bind fun padded hpadded => ?_
      obtain ⟨he, hb⟩ := hpadded
      refine (alignedDown_meets hp (by omega)).bind fun alignedEnd hend => ?_
      refine (alignedDown_meets hp (by omega)).bind fun offset hoff => ?_
      have hup : alignedEnd = alignUp stop page := by
        rw [hend, he, hpad, alignUp]
      have hle : stop ≤ alignedEnd := hup ▸ le_alignUp hp
      have hlt : alignedEnd ≤ stop + (page - 1) := by
        rw [hup]
        exact alignDown_le
      have hdown : offset ≤ range.offset := hoff ▸ alignDown_le
      have hst : range.offset < offset + page := hoff ▸ lt_alignDown_add hp
      refine (sampleRange_meets hm hp hc hpos (hoff ▸ dvd_alignDown) (hup ▸ dvd_alignUp) (by omega)
        hst hle (by omega) (by omega) (by omega) (ht index)
        fun offset length hn => ha fun h => hn (h.2.2 index offset length)).bind
        fun acc' hacc' => ?_
      rw [max_eq_left hdown, hs] at hacc'
      have hacc' : acc' = acc + residentRange resident page range := hacc'
      refine (hi (by omega) htot hrest).mono fun result hresult => ?_
      obtain ⟨h₁, h₂, h₃⟩ := hresult
      refine ⟨?_, ?_, h₃⟩
      · rw [h₁, List.map_cons, List.sum_cons]
        omega
      · rw [h₂, List.map_cons, List.sum_cons]
        omega

-- The bytes of a file that are in one of its ranges and on a resident page.
def residentFile (resident : Nat → Bool) (page : Nat) (file : ModelFileRegions) : Nat :=
  Nat.count (fun byte => (∃ range ∈ file.ranges, range.offset ≤ byte ∧ byte < range.stop) ∧
    resident (byte / page)) file.fileSize

theorem count_or {p q : Nat → Prop} [DecidablePred p] [DecidablePred q] {n : Nat}
    (h : ∀ k, p k → ¬q k) : Nat.count (fun k => p k ∨ q k) n = Nat.count p n + Nat.count q n := by
  induction n
  case zero => rfl
  case succ n hi =>
    have := h n
    simp only [Nat.count_succ, hi]
    by_cases hp : p n
    case pos => simp [hp, this hp]; omega
    case neg => simp [hp]; omega

theorem count_between {a b n : Nat} (hab : a ≤ b) (hb : b ≤ n) :
    Nat.count (fun byte => (a ≤ byte ∧ byte < b) ∧ resident (byte / page)) n =
      residentIn resident page a b := by
  have hc (n : Nat) : Nat.count (fun byte => (a ≤ byte ∧ byte < b) ∧ resident (byte / page)) n +
      bytesBefore resident page (min n a) = bytesBefore resident page (min n b) := by
    induction n
    case zero => simp [bytesBefore]
    case succ n hi =>
      have hs : bytesBefore resident page (n + 1) =
          bytesBefore resident page n + if resident (n / page) then 1 else 0 :=
        Nat.count_succ _ _
      rw [Nat.count_succ]
      by_cases hna : n < a
      case pos =>
        rw [min_eq_left (by omega), min_eq_left (by omega)] at hi
        rw [min_eq_left (by omega), min_eq_left (by omega), if_neg (by omega)]
        omega
      case neg =>
        rw [min_eq_right (by omega)] at hi ⊢
        by_cases hnb : n < b
        case pos =>
          rw [min_eq_left (by omega)] at hi ⊢
          have ha : a ≤ n := by omega
          simp only [ha, hnb, true_and]
          omega
        case neg =>
          rw [min_eq_right (by omega)] at hi ⊢
          simp only [hnb, and_false, false_and, if_false]
          omega
  have hn := hc n
  rw [min_eq_right (by omega), min_eq_right hb] at hn
  rw [residentIn]
  omega

-- Bytes on a page that several ranges share are counted for one of them only.
theorem residentFile_eq {file : ModelFileRegions}
    (hs : file.ranges.Pairwise fun a b => a.stop ≤ b.offset)
    (hi : ∀ range ∈ file.ranges, range.stop ≤ file.fileSize) :
    residentFile resident page file = (file.ranges.map (residentRange resident page)).sum := by
  rw [residentFile]
  generalize file.ranges = ranges at hs hi ⊢
  induction ranges
  case nil => simp
  case cons range ranges hr =>
    have ⟨hs, hs'⟩ := List.pairwise_cons.mp hs
    have ⟨hi, hi'⟩ := List.forall_mem_cons.mp hi
    have hle : range.offset ≤ range.stop := Nat.le_add_right ..
    simp only [List.exists_mem_cons_iff, or_and_right]
    rw [count_or, hr hs' hi', count_between hle hi, List.map_cons, List.sum_cons]
    · rfl
    · rintro byte ⟨⟨_, hb⟩, _⟩ ⟨⟨r, hm, hb', _⟩, _⟩
      have := hs r hm
      omega

-- The kernel finds the file as it was, and answers every call.
structure Shard.Answers (shard : Shard) : Prop where
  failure   : shard.failure = none
  same      : shard.same = true
  owned     : shard.owned = true
  mapped    : shard.mapped = true
  unchanged : shard.unchanged = true
  sampled   : ∀ index offset length, (shard.sample index offset length).Answers

variable {kernel : Nat → Shard} {cached : Nat → Nat → Bool}

theorem sampleShards_meets (hm : Exact minus) (hp : 0 < page) (hl : page ≤ maxChunk)
    (hc : page ∣ chunk) (hpos : 0 < chunk) (hmax : totalBytes ≤ u64Max)
    (hacc : acc ≤ total) (htotal : total ≤ totalBytes)
    (ht : ∀ i index offset length, page ∣ offset → page ∣ length →
      ((kernel i).sample index offset length).Truthful (cached i) page offset length)
    (hs : ∀ file ∈ files, (file.ranges.Pairwise fun a b => a.stop ≤ b.offset) ∧
      ∀ range ∈ file.ranges, range.stop ≤ file.fileSize)
    (ha : ¬(MappableFiles totalBytes total files ∧ (∀ file ∈ files, 0 < file.fileSize) ∧
      ∀ i, (kernel i).Answers) → ∀ text, allowed (.message text)) :
    Meets allowed (sampleShards minus page chunk totalBytes kernel index total acc files)
      fun result => result.1 = total + (files.map ModelFileRegions.length).sum ∧
        result.2 = acc + ((files.zipIdx index).map fun file =>
          residentFile (cached file.2) page file.1).sum ∧
        result.2 ≤ result.1 := by
  induction files generalizing index total acc
  case nil => exact Meets.ok ⟨rfl, rfl, hacc⟩
  case cons file files hi =>
    have ⟨⟨hsort, hin⟩, hs⟩ := List.forall_mem_cons.mp hs
    rw [sampleShards]
    cases hf : (kernel index).failure
    case some text =>
      refine ha (fun h => ?_) _
      have := (h.2.2 index).failure
      rw [hf] at this
      cases this
    case none =>
      refine Meets.ensure_bind (fun hn => ha (fun h => hn (h.2.2 index).same) _) fun _ => ?_
      refine Meets.ensure_bind (fun hn => ha (fun h => hn (h.2.2 index).owned) _) fun _ => ?_
      refine Meets.ensure_bind (fun hn => ha (fun h => hn (h.2.1 file (by simp))) _) fun _ => ?_
      refine Meets.ensure_bind (fun hn => ha (fun h => hn (h.2.2 index).mapped) _) fun _ => ?_
      refine (sampleRanges_meets hm hp hl hc hpos hmax hacc htotal (ht index) fun hn =>
        ha fun h => hn ⟨h.1.1, h.1.2.1, (h.2.2 index).sampled⟩).bind
        fun result ⟨h₁, h₂, h₃, h₄⟩ => ?_
      refine Meets.ensure_bind (fun hn => ha (fun h => hn (h.2.2 index).unchanged) _) fun _ => ?_
      refine (hi h₃ h₄ hs fun hn => ha fun h => hn ⟨?_, ?_, h.2.2⟩).mono
        fun rest ⟨h₁', h₂', h₃'⟩ => ⟨?_, ?_, h₃'⟩
      · exact h₁ ▸ h.1.2.2
      · exact fun file hf => h.2.1 file (List.mem_cons_of_mem _ hf)
      · rw [h₁', h₁, List.map_cons, List.sum_cons]
        exact Nat.add_assoc ..
      · rw [h₂', h₂, List.zipIdx_cons, List.map_cons, List.sum_cons, residentFile_eq hsort hin]
        exact Nat.add_assoc ..

end Ranges

section Plan

-- Ranges that are sorted, disjoint and in their file.
structure Sound (plan : Plan) : Prop where
  sorted : ∀ file ∈ plan.files, file.ranges.Pairwise fun a b => a.stop ≤ b.offset
  inside : ∀ file ∈ plan.files, ∀ range ∈ file.ranges, range.stop ≤ file.fileSize
  small  : ∀ file ∈ plan.files, file.fileSize < 2 ^ 63
  total  : plan.totalBytes < 2 ^ 64

-- The pages of each file, by their numbers, that are resident while the kernel is asked.
def Truthful (kernel : Nat → Shard) (cached : Nat → Nat → Bool) (page : Nat) : Prop :=
  ∀ i index offset length, page ∣ offset → page ∣ length →
    ((kernel i).sample index offset length).Truthful (cached i) page offset length

-- The sampling of a plan is not refused.
structure Answers (kernel : Nat → Shard) (plan : Plan) : Prop where
  shards : ∀ i, (kernel i).Answers
  total  : plan.totalBytes = (plan.files.map ModelFileRegions.length).sum
  pos    : ∀ file ∈ plan.files, 0 < file.fileSize

def residentPlan (cached : Nat → Nat → Bool) (page : Nat) (plan : Plan) : Nat :=
  (plan.files.zipIdx.map fun file => residentFile (cached file.2) page file.1).sum

variable {plan : Plan} {kernel : Nat → Shard} {cached : Nat → Nat → Bool}

theorem residentBytesWith_meets (hm : Exact minus) {k : Nat} (hs : Sound plan)
    (ht : Truthful kernel cached (2 ^ k))
    (ha : ¬(Answers kernel plan ∧ 2 ^ k ≤ maxChunk) → ∀ text, allowed (.message text)) :
    Meets allowed (residentBytesWith minus ((2 ^ k : Nat) : Int) kernel plan) fun n =>
      n = residentPlan cached (2 ^ k) plan ∧ n ≤ plan.totalBytes := by
  have hp : 0 < 2 ^ k := Nat.two_pow_pos k
  have hd : maxChunk ≤ u64Max := by decide
  have ho : offMax = 2 ^ 63 - 1 := rfl
  have hu : u64Max = 2 ^ 64 - 1 := rfl
  have ht64 := hs.total
  refine Meets.ensure_bind (fun hn => absurd ⟨by exact_mod_cast hp, k, rfl⟩ hn) fun _ => ?_
  refine (alignedDown_meets hp hd).bind fun chunk hc => ?_
  refine Meets.ensure_bind (fun hn => ha (fun h => hn ?_) _) fun hpos => ?_
  · rw [hc]
    exact Nat.mul_pos (Nat.div_pos h.2 hp) hp
  have hle : 2 ^ k ≤ maxChunk := by
    by_contra hn
    rw [hc, alignDown, Nat.div_eq_of_lt (by omega)] at hpos
    simp at hpos
  refine (sampleShards_meets hm hp hle (hc ▸ dvd_alignDown) hpos (by omega) (Nat.le_refl 0)
    (Nat.zero_le _) ht (fun file hf => ⟨hs.sorted file hf, hs.inside file hf⟩) fun hn =>
    ha fun h => hn ⟨?_, h.1.pos, h.1.shards⟩).bind fun result hresult => ?_
  · refine mappableFiles_of_sorted (fun file hf => ⟨?_, hs.sorted file hf, hs.inside file hf⟩) ?_
    · have := hs.small file hf
      omega
    · rw [Nat.zero_add, ←h.1.total]
  obtain ⟨h₁, h₂, h₃⟩ := hresult
  refine Meets.ensure_bind (fun hn => ha (fun h => hn ?_) _) fun he => ?_
  · rw [h₁, Nat.zero_add, ←h.1.total]
  refine Meets.ok ⟨?_, he ▸ h₃⟩
  rw [h₂, Nat.zero_add]
  rfl

def residentBetween (resident : Nat → Bool) (page a b : Nat) : Nat :=
  Nat.count (fun byte => (a ≤ byte ∧ byte < b) ∧ resident (byte / page)) b

theorem residentBetween_eq (c : Chunked page start stop offset length) :
    residentBetween resident page (max start offset) (min stop (offset + length)) =
      residentIn resident page (max start offset) (min stop (offset + length)) := by
  have h₁ := c.start_lt
  have h₂ := c.lt_stop
  have h₃ := c.page_le
  have h₄ := c.start_lt_stop
  exact count_between (by omega) (Nat.le_refl _)

theorem exists_of_meets {α : Type} {x : Fallible α} {Q : α → Prop}
    (h : Meets (fun _ => False) x Q) : ∃ a, x = .ok a ∧ Q a := by
  cases x
  case error => exact h.elim
  case ok a  => exact ⟨a, rfl, h⟩

-- A chunk holds at least one page.
theorem residentBytesWith_of_lt {k : Nat} (h : maxChunk < 2 ^ k) :
    residentBytesWith minus ((2 ^ k : Nat) : Int) kernel plan =
      .error (.message "page too large") := by
  have hp : 0 < 2 ^ k := Nat.two_pow_pos k
  have hc : alignedDown maxChunk (2 ^ k) = .ok 0 := by
    rw [alignedDown, div, if_neg hp.ne', Nat.div_eq_of_lt h]
    simp [bind, Except.bind, mul, checkedMul]
  have hs : ((2 ^ k : Nat) : Int) > 0 ∧ ((2 ^ k : Nat) : Int).toNat.isPowerOfTwo :=
    ⟨by exact_mod_cast hp, k, rfl⟩
  rw [residentBytesWith, check, ensure, if_pos hs, Int.toNat_natCast]
  simp only [bind, Except.bind, hc]
  rfl

-- Chunk by chunk and over the whole plan, both ways count the resident bytes of the ranges, and
-- nothing changes if a subtraction below zero or an overflow fails.
theorem residentBytes_exact {k : Nat} (hs : Sound plan) (ht : Truthful kernel cached (2 ^ k)) :
    (∀ minus ∈ [fun a b => return a - b, sub], ∀ (sample : Sample) (resident : Nat → Bool)
      (start stop offset length : Nat), Chunked (2 ^ k) start stop offset length →
      sample.Truthful resident (2 ^ k) offset length →
      (∃ overlap, cachedOverlap minus sample offset length (2 ^ k) start stop = .ok overlap ∧
        ∀ n ∈ overlap, n = residentBetween resident (2 ^ k) (max start offset)
          (min stop (offset + length))) ∧
      ∀ pages ∈ sample.pages, residentOverlap minus pages offset (2 ^ k) start stop =
        .ok (residentBetween resident (2 ^ k) (max start offset) (min stop (offset + length)))) ∧
    ∀ run ∈ [residentBytes, residentBytesWith sub],
      run ((2 ^ k : Nat) : Int) kernel plan ≠ .error .overflow ∧
      (∀ n, run ((2 ^ k : Nat) : Int) kernel plan = .ok n →
        n = residentPlan cached (2 ^ k) plan ∧ n ≤ plan.totalBytes) ∧
      (Answers kernel plan → 2 ^ k ≤ maxChunk →
        run ((2 ^ k : Nat) : Int) kernel plan = .ok (residentPlan cached (2 ^ k) plan)) ∧
      (maxChunk < 2 ^ k → run ((2 ^ k : Nat) : Int) kernel plan =
        .error (.message "page too large")) := by
  constructor
  case left =>
    intro minus hminus sample resident start stop offset length c hsample
    have hm : Exact minus := by
      simp only [List.mem_cons, List.not_mem_nil, or_false] at hminus
      rcases hminus with rfl | rfl
      · exact exact_saturating
      · exact exact_sub
    rw [residentBetween_eq c]
    constructor
    case left =>
      have ⟨overlap, ho, hn, _⟩ := exists_of_meets <| cachedOverlap_meets hm c hsample
      exact ⟨overlap, ho, hn⟩
    case right =>
      intro pages hpages
      have ⟨hl, hr⟩ := hsample.pages pages hpages
      have ⟨n, hn, he⟩ := exists_of_meets <| residentOverlap_meets hm c hl hr
      rw [hn, he]
  case right =>
    intro run hrun
    obtain ⟨minus, hm, rfl⟩ : ∃ minus, Exact minus ∧ run = residentBytesWith minus := by
      simp only [List.mem_cons, List.not_mem_nil, or_false] at hrun
      rcases hrun with rfl | rfl
      · exact ⟨_, exact_saturating, rfl⟩
      · exact ⟨_, exact_sub, rfl⟩
    have hmessage : Meets Failure.IsMessage _ _ :=
      residentBytesWith_meets hm hs ht fun _ _ => isMessage
    refine ⟨fun h => hmessage.failure h rfl, fun n hn => hmessage.result hn, fun h hle => ?_,
      residentBytesWith_of_lt⟩
    have ⟨n, hn, he, _⟩ := exists_of_meets <| residentBytesWith_meets hm hs ht
      fun hn => absurd ⟨h, hle⟩ hn
    rw [hn, he]

-- A kernel that tells everything, of a file whose first page only is resident.
def firstPage (page : Nat) : Bool :=
  page = 0

def tell (resident : Nat → Bool) (page : Nat) (_index offset length : Nat) : Sample where
  expired := false
  whole   := some (Nat.count (fun i => resident (offset / page + i)) (length / page))
  first   := some (resident (offset / page)).toNat
  last    := some (resident ((offset + length) / page - 1)).toNat
  pages   := some ((List.range (length / page)).map fun i => (resident (offset / page + i)).toUInt8)

def firstPageShard : Shard := ⟨none, true, true, true, true, tell firstPage 4⟩

def smallPlan : Plan := ⟨[⟨"model.gguf", 16, [⟨1, 2⟩, ⟨3, 3⟩]⟩], 5⟩

theorem tell_truthful (index : Nat) :
    (tell resident page index offset length).Truthful resident page offset length where
  whole _ h := (Option.some.inj h).symm
  first _ h := (Option.some.inj h).symm
  last _ h  := (Option.some.inj h).symm
  pages pages h := by
    obtain rfl := Option.some.inj h
    refine ⟨by simp, fun i hi => ?_⟩
    rw [List.getElem_map, List.getElem_range]
    cases resident (offset / page + i) <;> rfl

theorem residentBytes_exact_small :
    residentBytes 4 (fun _ => firstPageShard) smallPlan = .ok 3 := by
  have hs : Sound smallPlan := ⟨by decide, by decide, by decide, by decide⟩
  have ht : Truthful (fun _ => firstPageShard) (fun _ => firstPage) (2 ^ 2) :=
    fun _ index _ _ _ _ => tell_truthful index
  have ha : Answers (fun _ => firstPageShard) smallPlan := by
    refine ⟨fun _ => ⟨rfl, rfl, rfl, rfl, rfl, fun _ _ _ => ⟨rfl, .inl rfl⟩⟩, by decide, by decide⟩
  have he := ((residentBytes_exact hs ht).2 residentBytes (by simp)).2.2.1 ha (by decide)
  exact he.trans (by decide +kernel)

end Plan

end Backend.ExpertMemory
