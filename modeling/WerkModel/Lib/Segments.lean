import Mathlib

-- Sequences that are cut into segments, and the search for the segment of a position.
namespace Segments

variable {α β κ : Type*}

-- The position behind all keys that are at most `x`, in keys that are sorted.
def bisectRight [LT κ] [DecidableLT κ] (keys : List κ) (x : κ) (lo hi : Nat) : Nat :=
  if lo < hi then
    match keys[(lo + hi) / 2]? with
    | none     => lo
    | some key =>
      if x < key then bisectRight keys x lo ((lo + hi) / 2)
      else bisectRight keys x ((lo + hi) / 2 + 1) hi
  else
    lo
termination_by hi - lo

section Bisection

variable [LinearOrder κ] {keys : List κ} {x : κ} {lo hi : Nat}

-- The keys below the lower bound are at most `x`, and those from the upper bound on are greater.
structure Between (keys : List κ) (x : κ) (lo hi : Nat) : Prop where
  lower : ∀ (i : Nat) (key : κ), keys[i]? = some key → i < lo → key ≤ x
  upper : ∀ (i : Nat) (key : κ), keys[i]? = some key → hi ≤ i → x < key

theorem sorted_le (hs : keys.Pairwise (· ≤ ·)) {i j : Nat} {key key' : κ}
    (hi : keys[i]? = some key) (hj : keys[j]? = some key') (hij : i ≤ j) : key ≤ key' := by
  obtain ⟨hli, rfl⟩ := List.getElem?_eq_some_iff.mp hi
  obtain ⟨hlj, rfl⟩ := List.getElem?_eq_some_iff.mp hj
  obtain h | rfl := Nat.lt_or_eq_of_le hij
  case inl => exact List.pairwise_iff_getElem.mp hs i j hli hlj h
  case inr => exact le_refl _

theorem bisectRight_between (hs : keys.Pairwise (· ≤ ·)) (hle : lo ≤ hi) (hl : hi ≤ keys.length)
    (hb : Between keys x lo hi) :
    Between keys x (bisectRight keys x lo hi) (bisectRight keys x lo hi) ∧
      bisectRight keys x lo hi ≤ keys.length := by
  fun_induction bisectRight keys x lo hi
  case case1 hlt hn =>
    have := List.getElem?_eq_none_iff.mp hn
    omega
  case case2 lo hi hlt key hk hx hi' =>
    refine hi' (by omega) (by omega) ⟨hb.lower, fun i key' hi hm => ?_⟩
    exact lt_of_lt_of_le hx (sorted_le hs hk hi hm)
  case case3 lo hi hlt key hk hx hi' =>
    refine hi' (by omega) hl ⟨fun i key' hi hm => ?_, hb.upper⟩
    exact (sorted_le hs hi hk (by omega)).trans (not_lt.mp hx)
  case case4 hnlt =>
    obtain rfl := Nat.le_antisymm hle (Nat.le_of_not_lt hnlt)
    exact ⟨hb, hl⟩

end Bisection

variable (start stop : α → Nat) (f : α → Nat → β)

-- Each segment starts where the previous one stops, and none is empty.
def Chained : Nat → List α → Prop
  | _, []                 => True
  | offset, segment :: segments =>
    start segment = offset ∧ start segment < stop segment ∧ Chained (stop segment) segments

def contents (segments : List α) : List β :=
  segments.flatMap fun segment => (List.range (stop segment - start segment)).map (f segment)

def total (segments : List α) : Nat :=
  segments.getLast?.elim 0 stop

variable {start stop f} {segments : List α} {segment : α} {offset position : Nat}

theorem Chained.append (h : Chained start stop offset segments)
    (hs : start segment = segments.getLast?.elim offset stop) (hp : start segment < stop segment) :
    Chained start stop offset (segments ++ [segment]) := by
  induction segments generalizing offset
  case nil => exact ⟨hs, hp, trivial⟩
  case cons first segments hi =>
    refine ⟨h.1, h.2.1, hi h.2.2 ?_⟩
    rw [hs]
    cases segments <;> rfl

theorem Chained.offset_le (h : Chained start stop offset segments) (hm : segment ∈ segments) :
    offset ≤ start segment ∧ start segment < stop segment := by
  induction segments generalizing offset
  case nil => cases hm
  case cons first segments hi =>
    obtain ⟨rfl, hp, hc⟩ := h
    obtain rfl | hm := List.mem_cons.mp hm
    case inl => exact ⟨le_refl _, hp⟩
    case inr =>
      have := hi hc hm
      omega

theorem Chained.sorted (h : Chained start stop offset segments) :
    (segments.map stop).Pairwise (· ≤ ·) := by
  induction segments generalizing offset
  case nil => exact .nil
  case cons first segments hi =>
    refine List.pairwise_cons.mpr ⟨fun key hk => ?_, hi h.2.2⟩
    obtain ⟨segment, hm, rfl⟩ := List.mem_map.mp hk
    have := h.2.2.offset_le hm
    omega

theorem Chained.length_contents (h : Chained start stop offset segments) :
    offset + (contents start stop f segments).length = segments.getLast?.elim offset stop := by
  induction segments generalizing offset
  case nil => rfl
  case cons first segments hi =>
    obtain ⟨rfl, hp, hc⟩ := h
    have hi := hi hc
    rw [contents, List.flatMap_cons, ←contents, List.length_append, List.length_map,
      List.length_range]
    cases segments
    case nil =>
      simp only [contents, List.flatMap_nil, List.length_nil, List.getLast?_singleton,
        Option.elim_some]
      omega
    case cons second segments =>
      rw [List.getLast?_cons, Option.elim_some] at hi ⊢
      rw [List.getLast?_cons, Option.getD_some]
      omega

-- The position is counted from the offset.
theorem Chained.getElem?_contents (h : Chained start stop offset segments)
    (hm : segment ∈ segments) (hl : start segment ≤ position) (hu : position < stop segment) :
    (contents start stop f segments)[position - offset]? =
      some (f segment (position - start segment)) := by
  induction segments generalizing offset
  case nil => cases hm
  case cons first segments hi =>
    obtain ⟨rfl, hp, hc⟩ := h
    rw [contents, List.flatMap_cons, ←contents, List.getElem?_append]
    rw [List.length_map, List.length_range]
    obtain rfl | hm := List.mem_cons.mp hm
    case inl =>
      rw [if_pos (by omega), List.getElem?_map, List.getElem?_range (by omega)]
      rfl
    case inr =>
      have := hc.offset_le hm
      rw [if_neg (by omega), ←hi hc hm]
      congr 1
      omega

-- The segment before is the one that stops where this one starts.
theorem Chained.start_le (h : Chained start stop offset segments) {i : Nat}
    (hs : segments[i]? = some segment) (ho : offset ≤ position)
    (hl : ∀ (j : Nat) (before : α), segments[j]? = some before → j < i → stop before ≤ position) :
    start segment ≤ position := by
  induction segments generalizing offset i
  case nil => cases hs
  case cons first segments hi =>
    obtain ⟨rfl, hp, hc⟩ := h
    cases i
    case zero => exact Option.some.inj hs ▸ ho
    case succ i =>
      refine hi hc hs (hl 0 first rfl (Nat.succ_pos i)) fun j before hj hlt => ?_
      exact hl (j + 1) before hj (Nat.succ_lt_succ hlt)

theorem Chained.bisect (h : Chained start stop 0 segments) (hp : position < total stop segments) :
    ∃ segment, segments[bisectRight (segments.map stop) position 0 (segments.map stop).length]? =
        some segment ∧ segment ∈ segments ∧ start segment ≤ position ∧ position < stop segment := by
  have ⟨hb, hl⟩ := bisectRight_between (x := position) h.sorted (Nat.zero_le _) (le_refl _)
    ⟨fun _ _ _ hn => absurd hn (Nat.not_lt_zero _), fun i key hk hn => by
      have := (List.getElem?_eq_some_iff.mp hk).choose
      omega⟩
  generalize bisectRight (segments.map stop) position 0 (segments.map stop).length = i at hb hl
  obtain ⟨segment, hs⟩ | hn : (∃ segment, segments[i]? = some segment) ∨ segments[i]? = none := by
    cases segments[i]?
    case none         => exact .inr rfl
    case some segment => exact .inl ⟨segment, rfl⟩
  case inr =>
    -- All segments stop at the position or before it.
    have hlen := List.getElem?_eq_none_iff.mp hn
    rw [total] at hp
    cases hlast : segments.getLast?
    case none => simp [hlast] at hp
    case some last =>
      rw [hlast, Option.elim_some] at hp
      rw [List.getLast?_eq_getElem?] at hlast
      have hj := (List.getElem?_eq_some_iff.mp hlast).choose
      have := hb.lower (segments.length - 1) (stop last) (by simp [hlast]) (by omega)
      omega
  case inl =>
    refine ⟨segment, hs, List.mem_of_getElem? hs, ?_, ?_⟩
    · refine h.start_le hs (Nat.zero_le _) fun j before hj hlt => ?_
      exact hb.lower j (stop before) (by simp [hj]) hlt
    · exact hb.upper i (stop segment) (by simp [hs]) (le_refl _)

end Segments
