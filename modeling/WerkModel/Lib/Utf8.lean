import Mathlib

-- Texts as sequences of bytes, which may be cut at the bytes of ASCII characters.
namespace Utf8

def encode (text : List Char) : List UInt8 :=
  text.flatMap String.utf8EncodeChar

def decode (bytes : List UInt8) : Option (List Char) :=
  (String.fromUTF8? ⟨bytes.toArray⟩).map String.toList

-- The ASCII character of a byte.
def ascii (byte : UInt8) : Char :=
  Char.ofNat byte.toNat

variable {c : Char} {byte : UInt8} {text text' : List Char} {a b bytes : List UInt8}

@[simp]
theorem encode_nil : encode [] = [] :=
  rfl

@[simp]
theorem encode_cons : encode (c :: text) = String.utf8EncodeChar c ++ encode text :=
  rfl

@[simp]
theorem encode_append : encode (text ++ text') = encode text ++ encode text' :=
  List.flatMap_append

theorem decode_eq_some : decode bytes = some text ↔ bytes = encode text := by
  have he (text : List Char) : (encode text).toByteArray = text.utf8Encode := rfl
  have hb : (⟨bytes.toArray⟩ : ByteArray) = bytes.toByteArray := by
    simp [ByteArray.ext_iff]
  rw [decode, hb, String.fromUTF8?]
  constructor
  case mp =>
    intro h
    split at h
    case isFalse => simp at h
    case isTrue hv =>
      cases h
      have ht := he (String.fromUTF8 _ hv).toList
      rw [String.utf8Encode_toList] at ht
      have hd := congrArg (fun b => b.data.toList) ht
      simpa [String.fromUTF8] using hd.symm
  case mpr =>
    intro h
    rw [h, he, dif_pos ByteArray.isValidUTF8_utf8Encode]
    exact congrArg some String.toList_ofList

theorem encode_injective : Function.Injective encode := by
  intro text text' h
  have hd := decode_eq_some.mpr h
  rw [decode_eq_some.mpr rfl, Option.some.injEq] at hd
  exact hd

@[simp]
theorem decode_encode : decode (encode text) = some text :=
  decode_eq_some.mpr rfl

theorem ascii_val (h : byte < 128) : (ascii byte).val.toNat = byte.toNat := by
  have hb : byte.toNat < 128 := UInt8.lt_iff_toNat_lt.mp h
  rw [ascii, Char.ofNat, dif_pos (.inl (by omega))]
  rfl

-- The byte of an ASCII character occurs only in the encoding of this character.
theorem encodeChar_ascii (h : byte < 128) : String.utf8EncodeChar (ascii byte) = [byte] := by
  have hb : byte.toNat < 128 := UInt8.lt_iff_toNat_lt.mp h
  simp only [String.utf8EncodeChar, ascii_val h]
  rw [if_pos (by omega), UInt8.ofNat_toNat]

theorem encodeChar_of_mem (hb : byte < 128) (h : byte ∈ String.utf8EncodeChar c) :
    c = ascii byte := by
  have hb : byte.toNat < 128 := UInt8.lt_iff_toNat_lt.mp hb
  rw [String.utf8EncodeChar] at h
  split at h
  case isTrue hc =>
    rw [List.mem_singleton.mp h, ascii, UInt8.toNat_ofNat', Nat.mod_eq_of_lt (by omega)]
    exact (Char.ofNat_toNat c).symm
  case isFalse =>
    -- All bytes of longer encodings have their highest bit set.
    split at h
    case isTrue =>
      simp only [List.mem_cons, List.not_mem_nil, or_false, ←UInt8.toNat_inj,
        UInt8.toNat_ofNat'] at h
      omega
    case isFalse =>
      split at h
      all_goals
        simp only [List.mem_cons, List.not_mem_nil, or_false, ←UInt8.toNat_inj,
          UInt8.toNat_ofNat'] at h
        omega

-- An encoding that is cut at an ASCII character consists of two encodings.
theorem exists_of_encode (hb : byte < 128) (h : encode text = a ++ byte :: b) :
    ∃ t t', text = t ++ ascii byte :: t' ∧ a = encode t ∧ b = encode t' := by
  induction text generalizing a
  case nil => simp at h
  case cons c text hi =>
    rw [encode_cons, List.append_eq_append_iff] at h
    obtain ⟨a', ha, h⟩ | ⟨_ | ⟨x, rest⟩, hc, h⟩ := h
    case inl =>
      have ⟨t, t', ht, ha', hb'⟩ := hi h
      exact ⟨c :: t, t', by rw [ht]; rfl, by rw [ha, ha', encode_cons], hb'⟩
    case inr.nil =>
      have ⟨t, t', ht, ha', hb'⟩ := hi (a := []) h.symm
      refine ⟨c :: t, t', by rw [ht]; rfl, ?_, hb'⟩
      rw [encode_cons, ←ha', hc, List.append_nil, List.append_nil]
    case inr.cons =>
      rw [List.cons_append, List.cons.injEq] at h
      have he : c = ascii byte := encodeChar_of_mem hb (by simp [hc, h.1])
      rw [he, encodeChar_ascii hb, List.singleton_eq_append_iff] at hc
      obtain ⟨ha, hr⟩ | ⟨_, hr⟩ := hc
      · simp only [List.cons.injEq] at hr
        exact ⟨[], text, by rw [he]; rfl, ha, by simpa [hr.2] using h.2⟩
      · simp at hr

theorem decode_append_ascii (hb : byte < 128) : decode (a ++ byte :: b) =
    (decode a).bind fun t => (decode b).map fun t' => t ++ ascii byte :: t' := by
  refine Option.ext fun text => ?_
  simp only [decode_eq_some, Option.bind_eq_some_iff, Option.map_eq_some_iff]
  constructor
  case mp =>
    intro h
    have ⟨t, t', ht, ha, hb'⟩ := exists_of_encode hb h.symm
    exact ⟨t, ha, t', hb', ht.symm⟩
  case mpr =>
    rintro ⟨t, ha, t', hb', ht⟩
    rw [ha, hb', ←ht, encode_append, encode_cons, encodeChar_ascii hb]
    rfl

@[simp]
theorem decode_nil : decode [] = some [] :=
  decode_eq_some.mpr rfl

theorem decode_cons_ascii (hb : byte < 128) :
    decode (byte :: b) = (decode b).map (ascii byte :: ·) := by
  simpa using decode_append_ascii (a := []) hb

-- The ASCII characters of a text are the ones of its bytes.
theorem mem_of_decode (hb : byte < 128) (h : decode bytes = some text) (hm : ascii byte ∈ text) :
    byte ∈ bytes := by
  rw [decode_eq_some.mp h, encode, List.mem_flatMap]
  exact ⟨_, hm, by rw [encodeChar_ascii hb]; exact List.mem_singleton_self _⟩

end Utf8
