import WerkModel.Lib.Utf8

-- Texts as their bytes, which are cut only in front of characters.
namespace Slices

def isContinuation (byte : UInt8) : Bool :=
  0x80 ≤ byte && byte < 0xC0

def isCharBoundary (text : List UInt8) (index : Nat) : Bool :=
  index = 0 || match text[index]? with
    | none      => index = text.length
    | some byte => !isContinuation byte

-- A cut within a character panics.
def sliceFrom (text : List UInt8) (start : Nat) : Option (List UInt8) :=
  if isCharBoundary text start then some (text.drop start) else none

def slice (text : List UInt8) (start stop : Nat) : Option (List UInt8) :=
  if start ≤ stop ∧ isCharBoundary text start ∧ isCharBoundary text stop then
    some ((text.take stop).drop start)
  else
    none

-- A text that is not longer stays as it is.
def truncate (text : List UInt8) (length : Nat) : Option (List UInt8) :=
  if text.length < length then
    some text
  else if isCharBoundary text length then
    some (text.take length)
  else
    none

def floorFrom (text : List UInt8) : Nat → Nat
  | 0         => 0
  | index + 1 => if isCharBoundary text (index + 1) then index + 1 else floorFrom text index

def floorCharBoundary (text : List UInt8) (index : Nat) : Nat :=
  floorFrom text (min index text.length)

-- The text does not begin within a character.
def Led (text : List UInt8) : Prop :=
  ∀ byte ∈ text.head?, isContinuation byte = false

variable {text a b stop : List UInt8} {i j n : Nat}

theorem isCharBoundary_zero : isCharBoundary text 0 = true :=
  rfl

theorem isCharBoundary_length : isCharBoundary text text.length = true := by
  simp [isCharBoundary]

theorem isCharBoundary_of_led (h : Led (text.drop i)) (hi : i ≤ text.length) :
    isCharBoundary text i = true := by
  rw [isCharBoundary]
  cases hg : text[i]?
  case none =>
    have := List.getElem?_eq_none_iff.mp hg
    simp [Nat.le_antisymm hi this]
  case some byte =>
    have hb := h byte (by rw [List.head?_drop, hg]; rfl)
    simp [hb]

theorem led_of_isCharBoundary (h : isCharBoundary text i = true) (hi : i ≠ 0) :
    Led (text.drop i) := by
  intro byte hb
  rw [List.head?_drop] at hb
  rw [isCharBoundary, show text[i]? = some byte from hb] at h
  simpa [hi] using h

theorem Led.of_prefix (h : Led stop) (hn : stop ≠ []) (hp : stop <+: text) : Led text := by
  obtain ⟨rest, rfl⟩ := hp
  obtain ⟨byte, tail, rfl⟩ := List.exists_cons_of_ne_nil hn
  exact h

theorem Led.append (ha : Led a) (hb : Led b) : Led (a ++ b) := by
  cases a
  case nil  => exact hb
  case cons => exact ha

-- A text begins in front of a character wherever it is found.
theorem isCharBoundary_of_prefix (h : Led stop) (hn : stop ≠ []) (hp : stop <+: text.drop i) :
    isCharBoundary text i = true := by
  have hl := hp.length_le
  have := List.length_pos_iff.mpr hn
  rw [List.length_drop] at hl
  exact isCharBoundary_of_led (h.of_prefix hn hp) (by omega)

theorem le_of_isCharBoundary (h : isCharBoundary text i = true) : i ≤ text.length := by
  by_contra hl
  rw [isCharBoundary, List.getElem?_eq_none (by omega)] at h
  simp only [Bool.or_eq_true, decide_eq_true_eq] at h
  omega

theorem isCharBoundary_append (h : isCharBoundary a i = true) (hb : Led b) :
    isCharBoundary (a ++ b) i = true := by
  by_cases hi : i = 0
  case pos => rw [hi, isCharBoundary_zero]
  case neg =>
    have hl := le_of_isCharBoundary h
    refine isCharBoundary_of_led ?_ (by rw [List.length_append]; omega)
    rw [List.drop_append_of_le_length hl]
    exact (led_of_isCharBoundary h hi).append hb

theorem isCharBoundary_take (h : isCharBoundary text i = true) (hi : i ≤ n) :
    isCharBoundary (text.take n) i = true := by
  by_cases hz : i = 0
  case pos => rw [hz, isCharBoundary_zero]
  case neg =>
    have hl := le_of_isCharBoundary h
    refine isCharBoundary_of_led ?_ (by rw [List.length_take]; omega)
    intro byte hb
    refine led_of_isCharBoundary h hz byte ?_
    rw [List.head?_drop] at hb ⊢
    rw [List.getElem?_take] at hb
    split at hb
    case isTrue  => exact hb
    case isFalse => simp at hb

theorem floorFrom_le : floorFrom text i ≤ i := by
  induction i
  case zero => exact Nat.le_refl 0
  case succ i hi =>
    rw [floorFrom]
    split <;> omega

theorem isCharBoundary_floorFrom : isCharBoundary text (floorFrom text i) = true := by
  induction i
  case zero => exact isCharBoundary_zero
  case succ i hi =>
    rw [floorFrom]
    split
    case isTrue h => exact h
    case isFalse  => exact hi

theorem floorCharBoundary_le : floorCharBoundary text i ≤ i :=
  floorFrom_le.trans (Nat.min_le_left ..)

theorem isCharBoundary_floor : isCharBoundary text (floorCharBoundary text i) = true :=
  isCharBoundary_floorFrom

theorem isContinuation_of_first {byte : UInt8} (h : byte.IsUTF8FirstByte) :
    isContinuation byte = false := by
  have hd : ∀ n < 256, (UInt8.ofNat n).IsUTF8FirstByte → isContinuation (.ofNat n) = false := by
    decide +kernel
  have hb := hd byte.toNat byte.toNat_lt
  rw [UInt8.ofNat_toNat] at hb
  exact hb h

-- No character is encoded with a continuation byte in front.
theorem led_encode (chars : List Char) : Led (Utf8.encode chars) := by
  cases chars
  case nil => simp [Led]
  case cons c chars =>
    have hl : 0 < (String.utf8EncodeChar c).length := by
      rw [String.length_utf8EncodeChar]
      exact c.utf8Size_pos
    intro byte hb
    rw [Utf8.encode_cons, List.head?_append, List.head?_eq_getElem?,
      List.getElem?_eq_getElem hl] at hb
    rw [←Option.some.inj hb]
    exact isContinuation_of_first <| UInt8.isUTF8FirstByte_getElem_utf8EncodeChar.mpr rfl

end Slices
