import WerkModel.RuntimeControl.Handoff.Registry

-- Texts as bytes, and the decoding that is the inverse of the URL-safe Base64 encoding without
-- padding. It rejects padding, other characters, and bits that the encoding would not have left.
namespace RuntimeControl

open Handoff

def sextetValue (c : Char) : Option Nat :=
  if 'A' ≤ c ∧ c ≤ 'Z' then
    some <| c.toNat - 'A'.toNat
  else if 'a' ≤ c ∧ c ≤ 'z' then
    some <| c.toNat - 'a'.toNat + 26
  else if '0' ≤ c ∧ c ≤ '9' then
    some <| c.toNat - '0'.toNat + 52
  else if c = '-' then
    some 62
  else if c = '_' then
    some 63
  else
    none

def decodeSextets : List Nat → Option (List UInt8)
  | a :: b :: c :: d :: rest =>
    let n := a * 262144 + b * 4096 + c * 64 + d
    (decodeSextets rest).map fun bytes =>
      .ofNat (n / 65536) :: .ofNat (n / 256) :: .ofNat n :: bytes
  | [a, b, c] =>
    let n := a * 4096 + b * 64 + c
    if n % 4 = 0 then some [.ofNat (n / 1024), .ofNat (n / 4)] else none
  | [a, b] =>
    let n := a * 64 + b
    if n % 16 = 0 then some [.ofNat (n / 16)] else none
  | [_] => none
  | []  => some []

def decodeUrlSafeNoPad (text : String) : Option (List UInt8) :=
  (text.toList.mapM sextetValue).bind decodeSextets

theorem sextetValue_sextet (n : Nat) : sextetValue (sextet n) = some (n % 64) := by
  have h : ∀ n < 64, sextetValue (sextet n) = some n := by decide +kernel
  have hn := h (n % 64) (Nat.mod_lt _ (by decide))
  rwa [sextet, Nat.mod_mod, ←sextet] at hn

-- The sextets that the bytes are encoded by.
def sextets (bytes : List UInt8) : List Nat :=
  (encodeBytes bytes).filterMap sextetValue

theorem mapM_encodeBytes (bytes : List UInt8) :
    (encodeBytes bytes).mapM sextetValue = some (sextets bytes) := by
  rw [sextets]
  induction bytes using encodeBytes.induct
  all_goals simp_all [encodeBytes, sextetValue_sextet]

theorem ofNat_eq {n : Nat} {a : UInt8} (h : n % 256 = a.toNat) : UInt8.ofNat n = a :=
  UInt8.toNat_inj.mp <| (UInt8.toNat_ofNat ..).trans h

theorem decodeSextets_sextets (bytes : List UInt8) : decodeSextets (sextets bytes) = some bytes := by
  rw [sextets]
  induction bytes using encodeBytes.induct
  case case1 a b c rest hi =>
    have ha := a.toNat_lt
    have hb := b.toNat_lt
    have hc := c.toNat_lt
    simp only [encodeBytes, List.filterMap_cons, sextetValue_sextet, decodeSextets, hi,
      Option.map_some]
    refine congrArg some ?_
    rw [ofNat_eq (a := a) (by omega), ofNat_eq (a := b) (by omega), ofNat_eq (a := c) (by omega)]
  case case2 a b =>
    have ha := a.toNat_lt
    have hb := b.toNat_lt
    simp only [encodeBytes, List.filterMap_cons, List.filterMap_nil, sextetValue_sextet,
      decodeSextets]
    rw [if_pos (by omega), ofNat_eq (a := a) (by omega), ofNat_eq (a := b) (by omega)]
  case case3 a =>
    have ha := a.toNat_lt
    simp only [encodeBytes, List.filterMap_cons, List.filterMap_nil, sextetValue_sextet,
      decodeSextets]
    rw [if_pos (by omega), ofNat_eq (a := a) (by omega)]
  case case4 => rfl

theorem decode_urlSafeNoPad (bytes : List UInt8) :
    decodeUrlSafeNoPad (urlSafeNoPad bytes) = some bytes := by
  rw [decodeUrlSafeNoPad, urlSafeNoPad, String.toList_ofList, mapM_encodeBytes]
  exact decodeSextets_sextets bytes

def utf8 (text : String) : List UInt8 :=
  text.toUTF8.data.toList

def fromUtf8 (bytes : List UInt8) : Option String :=
  String.fromUTF8? ⟨bytes.toArray⟩

theorem fromUtf8_utf8 (text : String) : fromUtf8 (utf8 text) = some text := by
  have h : ByteArray.mk (utf8 text).toArray = text.toByteArray := by
    rw [utf8, Array.toArray_toList, String.toUTF8_eq_toByteArray]
  rw [fromUtf8, h, String.fromUTF8?, dif_pos text.isValidUTF8]
  rfl

theorem length_utf8 (text : String) : (utf8 text).length = text.utf8ByteSize := by
  rw [utf8, Array.length_toList, String.toUTF8_eq_toByteArray]
  exact text.size_toByteArray

end RuntimeControl
