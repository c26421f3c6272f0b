import WerkModel.Lib.Infix

-- Where the first of several patterns begins in a text.
namespace Stops

variable {α : Type*} {stops : List (List α)} {text a b stop : List α} {i m : Nat}

-- A pattern begins at the position. Empty patterns are ignored.
def Starts (stops : List (List α)) (text : List α) (i : Nat) : Prop :=
  ∃ stop ∈ stops, stop ≠ [] ∧ stop <+: text.drop i

def Free (stops : List (List α)) (text : List α) : Prop :=
  ∀ stop ∈ stops, stop ≠ [] → ¬stop <:+: text

-- No pattern begins before the position.
structure Earliest (stops : List (List α)) (text : List α) (m : Nat) : Prop where
  starts : Starts stops text m
  least  : ∀ i, Starts stops text i → m ≤ i

theorem free_iff : Free stops text ↔ ∀ i, ¬Starts stops text i := by
  constructor
  case mp =>
    rintro h i ⟨stop, hs, hn, hp⟩
    exact h stop hs hn <| Infix.infix_iff_exists_drop.mpr ⟨i, hp⟩
  case mpr =>
    intro h stop hs hn hp
    have ⟨i, hi⟩ := Infix.infix_iff_exists_drop.mp hp
    exact h i ⟨stop, hs, hn, hi⟩

-- Only the patterns that are not empty matter, and how often they are listed does not.
theorem starts_congr {stops' : List (List α)}
    (h : ∀ stop, stop ≠ [] → (stop ∈ stops ↔ stop ∈ stops')) :
    Starts stops text i ↔ Starts stops' text i := by
  constructor
  case mp  => exact fun ⟨stop, hs, hn, hp⟩ => ⟨stop, (h stop hn).mp hs, hn, hp⟩
  case mpr => exact fun ⟨stop, hs, hn, hp⟩ => ⟨stop, (h stop hn).mpr hs, hn, hp⟩

theorem free_congr {stops' : List (List α)}
    (h : ∀ stop, stop ≠ [] → (stop ∈ stops ↔ stop ∈ stops')) :
    Free stops text ↔ Free stops' text := by
  rw [free_iff, free_iff]
  exact forall_congr' fun i => not_congr (starts_congr h)

theorem earliest_congr {stops' : List (List α)}
    (h : ∀ stop, stop ≠ [] → (stop ∈ stops ↔ stop ∈ stops')) (he : Earliest stops text m) :
    Earliest stops' text m where
  starts     := (starts_congr h).mp he.starts
  least i hs := he.least i ((starts_congr h).mpr hs)

theorem Starts.lt (h : Starts stops text i) : i < text.length := by
  have ⟨stop, _, hn, hp⟩ := h
  have hl := hp.length_le
  have := List.length_pos_iff.mpr hn
  rw [List.length_drop] at hl
  omega

theorem Starts.append (h : Starts stops a i) : Starts stops (a ++ b) i := by
  have hl := h.lt
  have ⟨stop, hs, hn, hp⟩ := h
  refine ⟨stop, hs, hn, ?_⟩
  rw [List.drop_append_of_le_length (by omega)]
  exact hp.trans (List.prefix_append ..)

theorem Free.of_append (h : Free stops (a ++ b)) : Free stops a :=
  free_iff.mpr fun i hs => free_iff.mp h i hs.append

-- A pattern that ends in the first part of a text is in it.
theorem prefix_drop_of_le (h : stop <+: (a ++ b).drop i) (hl : i + stop.length ≤ a.length) :
    stop <+: a.drop i := by
  rw [List.drop_append_of_le_length (by omega)] at h
  exact List.prefix_of_prefix_length_le h (List.prefix_append ..) (by rw [List.length_drop]; omega)

-- Behind a text without patterns, only such patterns begin that reach beyond it.
theorem Free.lt_of_starts (h : Free stops a) (hs : stop ∈ stops) (hn : stop ≠ [])
    (hp : stop <+: (a ++ b).drop i) : a.length < i + stop.length := by
  by_contra hl
  exact h stop hs hn <| Infix.infix_iff_exists_drop.mpr ⟨i, prefix_drop_of_le hp (by omega)⟩

theorem Earliest.unique {n : Nat} (h : Earliest stops text m) (h' : Earliest stops text n) :
    m = n :=
  Nat.le_antisymm (h.least n h'.starts) (h'.least m h.starts)

-- What is in front of the first pattern has none.
theorem Earliest.free_take (h : Earliest stops text m) : Free stops (text.take m) := by
  refine free_iff.mpr fun i hs => ?_
  have hl := hs.lt
  have hi : Starts stops (text.take m ++ text.drop m) i := hs.append
  rw [List.take_append_drop] at hi
  have := h.least i hi
  rw [List.length_take] at hl
  omega

theorem exists_earliest (h : ¬Free stops text) : ∃ m, Earliest stops text m := by
  classical
  rw [free_iff, not_forall_not] at h
  exact ⟨Nat.find h, Nat.find_spec h, fun i hi => Nat.find_min' h hi⟩

theorem Earliest.not_free (h : Earliest stops text m) : ¬Free stops text :=
  fun hf => free_iff.mp hf m h.starts

-- The text of the first of some pieces.
def textAt (pieces : List (List α)) (k : Nat) : List α :=
  (pieces.take k).flatten

-- The number of pieces after which a pattern occurs for the first time.
structure FirstAt (stops : List (List α)) (pieces : List (List α)) (k : Nat) : Prop where
  le     : k ≤ pieces.length
  occurs : ¬Free stops (textAt pieces k)
  before : ∀ j < k, Free stops (textAt pieces j)

section Pieces

variable {pieces : List (List α)} {piece : List α} {j k : Nat}

theorem textAt_append (h : k ≤ j) : ∃ rest, textAt pieces j = textAt pieces k ++ rest := by
  obtain ⟨n, rfl⟩ := Nat.exists_eq_add_of_le h
  refine ⟨((pieces.drop k).take n).flatten, ?_⟩
  rw [textAt, textAt, List.take_add, List.flatten_append]

theorem free_of_le (h : Free stops (textAt pieces j)) (hle : k ≤ j) :
    Free stops (textAt pieces k) := by
  obtain ⟨rest, hr⟩ := @textAt_append _ pieces _ _ hle
  rw [hr] at h
  exact h.of_append

theorem FirstAt.unique (h : FirstAt stops pieces j) (h' : FirstAt stops pieces k) : j = k := by
  refine Nat.le_antisymm ?_ ?_
  · by_contra hl
    exact h'.occurs (h.before k (by omega))
  · by_contra hl
    exact h.occurs (h'.before j (by omega))

theorem FirstAt.congr {stops' : List (List α)} (hk : FirstAt stops pieces k)
    (h : ∀ stop, stop ≠ [] → (stop ∈ stops ↔ stop ∈ stops')) : FirstAt stops' pieces k where
  le          := hk.le
  occurs hf   := hk.occurs ((free_congr h).mpr hf)
  before j hj := (free_congr h).mp (hk.before j hj)

theorem FirstAt.not_free (h : FirstAt stops pieces k) : ¬Free stops pieces.flatten := by
  intro hf
  have hl : textAt pieces pieces.length = pieces.flatten := by
    rw [textAt, List.take_length]
  exact h.occurs <| free_of_le (hl ▸ hf) h.le

end Pieces

section Search

variable [DecidableEq α]

-- The first position of each pattern that occurs, in the order of the patterns.
def positions (stops : List (List α)) (text : List α) : List Nat :=
  (stops.filter (· ≠ [])).filterMap (Infix.position · text)

def earliest (stops : List (List α)) (text : List α) : Option Nat :=
  (positions stops text).min?

-- The position of the first pattern of the list that occurs at all.
def firstListed (stops : List (List α)) (text : List α) : Option Nat :=
  (positions stops text).head?

theorem mem_positions : i ∈ positions stops text ↔
    ∃ stop ∈ stops, stop ≠ [] ∧ Infix.position stop text = some i := by
  simp [positions, and_assoc]

theorem starts_of_mem (h : i ∈ positions stops text) : Starts stops text i := by
  have ⟨stop, hs, hn, hp⟩ := mem_positions.mp h
  exact ⟨stop, hs, hn, ((Infix.position_eq_some_iff hn).mp hp).1⟩

theorem exists_mem_le (h : Starts stops text i) : ∃ j ∈ positions stops text, j ≤ i := by
  have ⟨stop, hs, hn, hp⟩ := h
  cases hj : Infix.position stop text
  case none =>
    exact absurd (Infix.infix_iff_exists_drop.mpr ⟨i, hp⟩) ((Infix.position_eq_none hn).mp hj)
  case some j =>
    refine ⟨j, mem_positions.mpr ⟨stop, hs, hn, hj⟩, ?_⟩
    by_contra hl
    exact ((Infix.position_eq_some_iff hn).mp hj).2 i (by omega) hp

theorem positions_eq_nil : positions stops text = [] ↔ Free stops text := by
  rw [free_iff, List.eq_nil_iff_forall_not_mem]
  constructor
  case mp =>
    intro h i hs
    have ⟨j, hj, _⟩ := exists_mem_le hs
    exact h j hj
  case mpr => exact fun h i hi => h i (starts_of_mem hi)

theorem earliest_eq_some_iff : earliest stops text = some m ↔ Earliest stops text m := by
  rw [earliest, List.min?_eq_some_iff]
  constructor
  case mp =>
    rintro ⟨hm, hl⟩
    refine ⟨starts_of_mem hm, fun i hs => ?_⟩
    have ⟨j, hj, hle⟩ := exists_mem_le hs
    exact (hl j hj).trans hle
  case mpr =>
    intro h
    have ⟨j, hj, hle⟩ := exists_mem_le h.starts
    obtain rfl := Nat.le_antisymm hle (h.least j (starts_of_mem hj))
    exact ⟨hj, fun i hi => h.least i (starts_of_mem hi)⟩

theorem earliest_eq_none_iff : earliest stops text = none ↔ Free stops text := by
  rw [earliest, List.min?_eq_none_iff, positions_eq_nil]

theorem firstListed_eq_none_iff : firstListed stops text = none ↔ Free stops text := by
  rw [firstListed, List.head?_eq_none_iff, positions_eq_nil]

theorem positions_cons (h : stop ≠ []) : positions (stop :: stops) text =
    (Infix.position stop text).toList ++ positions stops text := by
  rw [positions, List.filter_cons_of_pos (by simp [h]), List.filterMap_cons]
  cases Infix.position stop text
  case none => rfl
  case some => rfl

theorem firstListed_cons : firstListed (stop :: stops) text =
    if stop = [] then firstListed stops text
    else (Infix.position stop text).or (firstListed stops text) := by
  by_cases h : stop = []
  case pos => simp [firstListed, positions, h]
  case neg =>
    rw [if_neg h, firstListed, positions_cons h]
    cases Infix.position stop text
    case none => rfl
    case some => rfl

theorem starts_of_firstListed (h : firstListed stops text = some i) : Starts stops text i :=
  starts_of_mem <| List.mem_of_head? h

-- The beginning of a text may be left out if no pattern begins there.
theorem position_drop {pattern : List α} (hp : pattern ≠ [])
    (h : ∀ j < i, ¬pattern <+: text.drop j) :
    (Infix.position pattern (text.drop i)).map (i + ·) = Infix.position pattern text := by
  refine Option.ext fun k => ?_
  rw [Option.map_eq_some_iff, Infix.position_eq_some_iff hp]
  simp only [Infix.position_eq_some_iff hp, List.drop_drop]
  constructor
  case mp =>
    rintro ⟨j, ⟨hj, hl⟩, rfl⟩
    refine ⟨hj, fun n hn => ?_⟩
    by_cases hi : n < i
    case pos => exact h n hi
    case neg =>
      have := hl (n - i) (by omega)
      rwa [Nat.add_sub_cancel' (by omega)] at this
  case mpr =>
    rintro ⟨hk, hl⟩
    have hik : i ≤ k := by
      by_contra hn
      exact h k (by omega) hk
    refine ⟨k - i, ⟨?_, fun j hj => hl (i + j) (by omega)⟩, by omega⟩
    rwa [Nat.add_sub_cancel' hik]

end Search

end Stops
