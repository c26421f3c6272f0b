import Mathlib

-- Bytes as groups of six bits, and the texts that stand for them in either alphabet.
namespace Base64

-- The six bits of each character of a text, where the last are filled up with zeros.
def sextets : List UInt8 → List Nat
  | a :: b :: c :: rest =>
    a.toNat / 4 :: (a.toNat % 4 * 16 + b.toNat / 16) :: (b.toNat % 16 * 4 + c.toNat / 64) ::
      c.toNat % 64 :: sextets rest
  | [a, b] => [a.toNat / 4, a.toNat % 4 * 16 + b.toNat / 16, b.toNat % 16 * 4]
  | [a]    => [a.toNat / 4, a.toNat % 4 * 16]
  | []     => []

-- The bytes that are filled, without the bits of the last group that fill none.
def joined : List Nat → List UInt8
  | a :: b :: c :: d :: rest =>
    .ofNat (a * 4 + b / 16) :: .ofNat (b % 16 * 16 + c / 4) :: .ofNat (c % 4 * 64 + d) ::
      joined rest
  | [a, b, c] => [.ofNat (a * 4 + b / 16), .ofNat (b % 16 * 16 + c / 4)]
  | [a, b]    => [.ofNat (a * 4 + b / 16)]
  | [_]       => []
  | []        => []

-- Of the last group, the bits from this value on belong to a byte.
def unit (length : Nat) : Nat :=
  if length % 4 = 2 then 16 else if length % 4 = 3 then 4 else 1

-- The groups are the same, except for the bits of the last that belong to no byte.
structure Agree (s t : List Nat) : Prop where
  length : s.length = t.length
  init   : s.dropLast = t.dropLast
  last   : s.getLast?.map (· / unit s.length) = t.getLast?.map (· / unit s.length)

variable {a b c d : Nat} {s t values : List Nat} {bytes text body : List UInt8}

theorem toNat_ofNat {n : Nat} (h : n < 256) : (UInt8.ofNat n).toNat = n := by
  rw [UInt8.toNat_ofNat', Nat.mod_eq_of_lt (by simpa using h)]

theorem ofNat_eq {n : Nat} {x : UInt8} (h : n = x.toNat) : UInt8.ofNat n = x :=
  h ▸ UInt8.ofNat_toNat

theorem joined_sextets : joined (sextets bytes) = bytes := by
  induction bytes using sextets.induct
  case case1 a b c rest hi =>
    have ha := a.toNat_lt
    have hb := b.toNat_lt
    have hc := c.toNat_lt
    rw [sextets, joined, hi, ofNat_eq (x := a) (by omega), ofNat_eq (x := b) (by omega),
      ofNat_eq (x := c) (by omega)]
  case case2 a b =>
    have ha := a.toNat_lt
    have hb := b.toNat_lt
    rw [sextets, joined, ofNat_eq (x := a) (by omega), ofNat_eq (x := b) (by omega)]
  case case3 a =>
    have ha := a.toNat_lt
    rw [sextets, joined, ofNat_eq (x := a) (by omega)]
  case case4 => rfl

-- No bytes leave a single group.
theorem length_sextets : (sextets bytes).length % 4 ≠ 1 := by
  induction bytes using sextets.induct
  case case1 a b c rest hi =>
    simp only [sextets, List.length_cons]
    omega
  all_goals simp [sextets]

theorem unit_add_four {n : Nat} : unit (n + 4) = unit n := by
  rw [unit, unit, Nat.add_mod_right]

theorem Agree.ne_nil (h : Agree s t) (hs : s ≠ []) : t ≠ [] := by
  intro ht
  have hl := h.length
  rw [ht, List.length_nil, List.length_eq_zero_iff] at hl
  exact hs hl

theorem Agree.cons (h : Agree s t) (hs : s ≠ []) : Agree (a :: b :: c :: d :: s)
    (a :: b :: c :: d :: t) where
  length := by simp [h.length]
  init := by
    simp [List.dropLast_cons_of_ne_nil hs, List.dropLast_cons_of_ne_nil (h.ne_nil hs), h.init]
  last := by
    have hu : unit (a :: b :: c :: d :: s).length = unit s.length := unit_add_four
    have hl {l : List Nat} (hn : l ≠ []) : (a :: b :: c :: d :: l).getLast? = l.getLast? := by
      simp [List.getLast?_cons, List.getLast?_eq_getLast_of_ne_nil hn]
    rw [hu, hl hs, hl (h.ne_nil hs)]
    exact h.last

theorem agree_sextets_joined (hv : ∀ n ∈ values, n < 64) (hl : values.length % 4 ≠ 1) :
    Agree values (sextets (joined values)) := by
  induction values using joined.induct
  case case1 a b c d rest hi =>
    simp only [List.forall_mem_cons] at hv
    have ⟨ha, hb, hc, hd, hr⟩ := hv
    have hs : sextets (joined (a :: b :: c :: d :: rest)) =
        a :: b :: c :: d :: sextets (joined rest) := by
      simp only [joined, sextets, List.cons.injEq, and_true]
      rw [toNat_ofNat (by omega), toNat_ofNat (by omega), toNat_ofNat (by omega)]
      refine ⟨by omega, by omega, by omega, by omega⟩
    have hr := hi hr (by simp only [List.length_cons] at hl; omega)
    rw [hs]
    by_cases he : rest = []
    case pos => rw [he]; exact ⟨rfl, rfl, rfl⟩
    case neg => exact hr.cons he
  case case2 a b c =>
    simp only [List.forall_mem_cons] at hv
    have ⟨ha, hb, hc, _⟩ := hv
    simp only [joined, sextets]
    rw [toNat_ofNat (by omega), toNat_ofNat (by omega)]
    refine ⟨rfl, ?_, ?_⟩
    · simp only [List.dropLast, List.cons.injEq, and_true]
      omega
    · have hu : unit [a, b, c].length = 4 := rfl
      simp only [hu, List.getLast?_cons_cons, List.getLast?_singleton, Option.map_some,
        Option.some.injEq]
      omega
  case case3 a b =>
    simp only [List.forall_mem_cons] at hv
    have ⟨ha, hb, _⟩ := hv
    simp only [joined, sextets]
    rw [toNat_ofNat (by omega)]
    refine ⟨rfl, ?_, ?_⟩
    · simp only [List.dropLast, List.cons.injEq, and_true]
      omega
    · have hu : unit [a, b].length = 16 := rfl
      simp only [hu, List.getLast?_cons_cons, List.getLast?_singleton, Option.map_some,
        Option.some.injEq]
      omega
  case case4 => simp at hl
  case case5 => exact ⟨rfl, rfl, rfl⟩

def standard : List Char :=
  "ABCDEFGHIJKLMNOPQRSTUVWXYZabcdefghijklmnopqrstuvwxyz0123456789+/".toList

def urlSafe : List Char :=
  "ABCDEFGHIJKLMNOPQRSTUVWXYZabcdefghijklmnopqrstuvwxyz0123456789-_".toList

-- The character stands for the six bits in one of the alphabets.
def Denotes (character : UInt8) (n : Nat) : Prop :=
  (standard.map Char.toUInt8)[n]? = some character ∨ (urlSafe.map Char.toUInt8)[n]? = some character

def pad : UInt8 := '='.toUInt8

-- The characters that fill up the last four.
def padding (length : Nat) : Nat :=
  (4 - length % 4) % 4

-- A text of the groups, with full, partial or no padding.
def Spells (text : List UInt8) (values : List Nat) : Prop :=
  ∃ body k, text = body ++ List.replicate k pad ∧ k ≤ padding values.length ∧
    List.Forall₂ Denotes body values

-- A text of the groups that is filled up to whole fours.
def Filled (text : List UInt8) (values : List Nat) : Prop :=
  ∃ body, text = body ++ List.replicate (padding values.length) pad ∧
    List.Forall₂ Denotes body values

theorem Denotes.ne_pad {character : UInt8} {n : Nat} (h : Denotes character n) :
    character ≠ pad := by
  have hs : ∀ character ∈ standard.map Char.toUInt8, character ≠ pad := by decide +kernel
  have hu : ∀ character ∈ urlSafe.map Char.toUInt8, character ≠ pad := by decide +kernel
  cases h
  case inl h => exact hs _ <| List.mem_of_getElem? h
  case inr h => exact hu _ <| List.mem_of_getElem? h

theorem Denotes.lt {character : UInt8} {n : Nat} (h : Denotes character n) : n < 64 := by
  cases h
  case inl h => exact (List.getElem?_eq_some_iff.mp h).1
  case inr h => exact (List.getElem?_eq_some_iff.mp h).1

theorem pad_not_mem (h : List.Forall₂ Denotes body values) : pad ∉ body := by
  induction h
  case nil => simp
  case cons hd _ hi => simp [hi, hd.ne_pad.symm]

theorem lt_of_denotes (h : List.Forall₂ Denotes body values) : ∀ n ∈ values, n < 64 := by
  induction h
  case nil => simp
  case cons hd _ hi => exact List.forall_mem_cons.mpr ⟨hd.lt, hi⟩

-- The missing padding may be added before the text is read.
theorem spells_iff :
    Spells text values ↔ Filled (text ++ List.replicate (padding text.length) pad) values := by
  constructor
  case mp =>
    rintro ⟨body, k, rfl, hk, hb⟩
    refine ⟨body, ?_, hb⟩
    have hl : k + padding (body.length + k) = padding values.length := by
      rw [hb.length_eq]
      simp only [padding] at hk ⊢
      omega
    rw [List.append_assoc, List.replicate_append_replicate, List.length_append,
      List.length_replicate, hl]
  case mpr =>
    rintro ⟨body, he, hb⟩
    obtain ⟨front, ht, hf⟩ | ⟨back, ht, hf⟩ := List.append_eq_append_iff.mp he
    case inl =>
      -- No padding is part of the body.
      have hn : front = [] := by
        refine List.eq_nil_iff_forall_not_mem.mpr fun x hx => ?_
        have hp : x = pad := List.eq_of_mem_replicate (hf ▸ List.mem_append_left _ hx)
        exact pad_not_mem hb (ht ▸ List.mem_append_right _ (hp ▸ hx))
      rw [hn, List.append_nil] at ht
      exact ⟨body, 0, by rw [ht]; simp, Nat.zero_le _, hb⟩
    case inr =>
      have hl := congrArg List.length hf
      rw [List.length_replicate, List.length_append, List.length_replicate] at hl
      have hr : back = List.replicate back.length pad :=
        List.eq_replicate_of_mem fun x hx =>
          List.eq_of_mem_replicate (hf ▸ List.mem_append_left _ hx)
      exact ⟨body, back.length, by rw [ht, ←hr], by omega, hb⟩

-- Four characters in front of a text stand for four groups in front of its groups.
theorem filled_cons {p q r t : UInt8} : Filled (p :: q :: r :: t :: text) (a :: b :: c :: d :: s) ↔
    List.Forall₂ Denotes [p, q, r, t] [a, b, c, d] ∧ Filled text s := by
  have hl : padding (a :: b :: c :: d :: s).length = padding s.length := by
    simp only [padding, List.length_cons]
    omega
  constructor
  case mp =>
    rintro ⟨body, he, hb⟩
    simp only [List.forall₂_cons_right_iff] at hb
    obtain ⟨p', _, hp, ⟨q', _, hq, ⟨r', _, hr, ⟨t', body, ht, hb, rfl⟩, rfl⟩, rfl⟩, rfl⟩ := hb
    simp only [hl, List.cons_append, List.cons.injEq] at he
    obtain ⟨rfl, rfl, rfl, rfl, he⟩ := he
    exact ⟨.cons hp <| .cons hq <| .cons hr <| .cons ht .nil, body, he, hb⟩
  case mpr =>
    rintro ⟨hf, body, he, hb⟩
    simp only [List.forall₂_cons] at hf
    obtain ⟨hp, hq, hr, ht, -⟩ := hf
    refine ⟨p :: q :: r :: t :: body, ?_, .cons hp <| .cons hq <| .cons hr <| .cons ht hb⟩
    rw [hl, he]
    rfl

theorem Filled.length_eq (h : Filled text values) :
    text.length = values.length + padding values.length := by
  have ⟨body, he, hb⟩ := h
  rw [he, List.length_append, List.length_replicate, hb.length_eq]

end Base64
