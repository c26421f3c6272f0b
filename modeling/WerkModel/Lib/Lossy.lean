import WerkModel.Lib.Slices

-- Bytes that need not be UTF-8: how far they are, and what text is made of them.
open Slices

namespace Lossy

def replacement : List UInt8 := [0xEF, 0xBF, 0xBD]

-- The bytes that may follow the first byte of a character.
def following (lead : UInt8) : Option (List (UInt8 × UInt8)) :=
  if lead < 0x80 then some []
  else if lead < 0xC2 then none
  else if lead < 0xE0 then some [(0x80, 0xBF)]
  else if lead = 0xE0 then some [(0xA0, 0xBF), (0x80, 0xBF)]
  else if lead = 0xED then some [(0x80, 0x9F), (0x80, 0xBF)]
  else if lead < 0xF0 then some [(0x80, 0xBF), (0x80, 0xBF)]
  else if lead = 0xF0 then some [(0x90, 0xBF), (0x80, 0xBF), (0x80, 0xBF)]
  else if lead < 0xF4 then some [(0x80, 0xBF), (0x80, 0xBF), (0x80, 0xBF)]
  else if lead = 0xF4 then some [(0x80, 0x8F), (0x80, 0xBF), (0x80, 0xBF)]
  else none

def broken (held : List UInt8) : List UInt8 :=
  if held = [] then [] else replacement

def fits (expected : List (UInt8 × UInt8)) (byte : UInt8) : Bool :=
  expected.head?.any fun range => range.1 ≤ byte && byte ≤ range.2

-- The longest part of a character that goes no further is replaced at once.
def scan (held : List UInt8) (expected : List (UInt8 × UInt8)) : List UInt8 → List UInt8
  | []            => broken held
  | byte :: bytes =>
    if fits expected byte then
      if expected.tail = [] then
        held ++ byte :: scan [] [] bytes
      else
        scan (held ++ [byte]) expected.tail bytes
    else
      broken held ++ match following byte with
      | none          => replacement ++ scan [] [] bytes
      | some []       => byte :: scan [] [] bytes
      | some expected => scan [byte] expected bytes

def lossy (bytes : List UInt8) : List UInt8 :=
  scan [] [] bytes

-- The length of the longest beginning that is UTF-8.
def validUpTo (bytes : List UInt8) : Nat :=
  Nat.findGreatest (fun i => (Utf8.decode (bytes.take i)).isSome) bytes.length

-- A part of a character that is not all of it.
def Incomplete (bytes : List UInt8) : Prop :=
  ∃ c, bytes <+: String.utf8EncodeChar c ∧ bytes ≠ String.utf8EncodeChar c

variable {c : Char} {chars chars' : List Char} {a b bytes held : List UInt8} {lead byte : UInt8}
variable {expected : List (UInt8 × UInt8)} {n : Nat}

theorem incomplete_nil : Incomplete [] :=
  ⟨'a', List.nil_prefix, by decide⟩

section Scanning

theorem scan_of_fits (h : fits expected byte = true) (hn : expected.tail ≠ []) :
    scan held expected (byte :: bytes) = scan (held ++ [byte]) expected.tail bytes := by
  rw [scan, if_pos h, if_neg hn]

theorem scan_of_last (h : fits expected byte = true) (hn : expected.tail = []) :
    scan held expected (byte :: bytes) = held ++ byte :: scan [] [] bytes := by
  rw [scan, if_pos h, if_pos hn]

theorem lossy_of_ascii (h : following byte = some []) :
    lossy (byte :: bytes) = byte :: lossy bytes := by
  simp [lossy, scan, fits, broken, h]

theorem lossy_of_following (h : following byte = some expected) (hn : expected ≠ []) :
    lossy (byte :: bytes) = scan [byte] expected bytes := by
  rw [lossy, scan]
  simp only [fits, List.head?_nil, Option.any_none, Bool.false_eq_true, if_false, broken, if_true,
    List.nil_append, h]

end Scanning

section Table

def Within (range : UInt8 × UInt8) (byte : UInt8) : Prop :=
  range.1 ≤ byte ∧ byte ≤ range.2

theorem within_ofNat {low high : UInt8} :
    Within (low, high) (.ofNat n) ↔ low.toNat ≤ n % 256 ∧ n % 256 ≤ high.toNat := by
  rw [Within, UInt8.le_iff_toNat_le, UInt8.le_iff_toNat_le, UInt8.toNat_ofNat']

theorem fits_cons {range : UInt8 × UInt8} :
    fits (range :: expected) byte = true ↔ Within range byte := by
  simp [fits, Within]

variable {v : Nat}

theorem following_two (h : 0x7F < v) (hv : v ≤ 0x7FF) :
    ∃ expected, following (.ofNat (v / 64 % 32 + 0xC0)) = some expected ∧
      List.Forall₂ Within expected [.ofNat (v % 64 + 0x80)] := by
  refine ⟨[(0x80, 0xBF)], ?_, ?_⟩
  · simp only [following, UInt8.lt_iff_toNat_lt, UInt8.toNat_ofNat', UInt8.reduceToNat]
    rw [if_neg (by omega), if_neg (by omega), if_pos (by omega)]
  · simp only [List.forall₂_cons, List.Forall₂.nil, and_true, within_ofNat, UInt8.reduceToNat]
    omega

-- Longer encodings of smaller characters are left out, as well as surrogates.
theorem following_three (h : 0x7FF < v) (hv : v < 0xD800 ∨ (0xDFFF < v ∧ v ≤ 0xFFFF)) :
    ∃ expected, following (.ofNat (v / 4096 % 16 + 0xE0)) = some expected ∧
      List.Forall₂ Within expected [.ofNat (v / 64 % 64 + 0x80), .ofNat (v % 64 + 0x80)] := by
  by_cases h₀ : v / 4096 = 0
  case pos =>
    refine ⟨[(0xA0, 0xBF), (0x80, 0xBF)], by rw [h₀]; rfl, ?_⟩
    simp only [List.forall₂_cons, List.Forall₂.nil, and_true, within_ofNat, UInt8.reduceToNat]
    omega
  case neg =>
    by_cases h₁ : v / 4096 = 13
    case pos =>
      refine ⟨[(0x80, 0x9F), (0x80, 0xBF)], by rw [h₁]; rfl, ?_⟩
      simp only [List.forall₂_cons, List.Forall₂.nil, and_true, within_ofNat, UInt8.reduceToNat]
      omega
    case neg =>
      refine ⟨[(0x80, 0xBF), (0x80, 0xBF)], ?_, ?_⟩
      · simp only [following, UInt8.lt_iff_toNat_lt, ←UInt8.toNat_inj, UInt8.toNat_ofNat',
          UInt8.reduceToNat]
        rw [if_neg (by omega), if_neg (by omega), if_neg (by omega), if_neg (by omega),
          if_neg (by omega), if_pos (by omega)]
      · simp only [List.forall₂_cons, List.Forall₂.nil, and_true, within_ofNat, UInt8.reduceToNat]
        omega

theorem following_four (h : 0xFFFF < v) (hv : v < 0x110000) :
    ∃ expected, following (.ofNat (v / 262144 % 8 + 0xF0)) = some expected ∧
      List.Forall₂ Within expected [.ofNat (v / 4096 % 64 + 0x80), .ofNat (v / 64 % 64 + 0x80),
        .ofNat (v % 64 + 0x80)] := by
  by_cases h₀ : v / 262144 = 0
  case pos =>
    refine ⟨[(0x90, 0xBF), (0x80, 0xBF), (0x80, 0xBF)], by rw [h₀]; rfl, ?_⟩
    simp only [List.forall₂_cons, List.Forall₂.nil, and_true, within_ofNat, UInt8.reduceToNat]
    omega
  case neg =>
    by_cases h₁ : v / 262144 = 4
    case pos =>
      refine ⟨[(0x80, 0x8F), (0x80, 0xBF), (0x80, 0xBF)], by rw [h₁]; rfl, ?_⟩
      simp only [List.forall₂_cons, List.Forall₂.nil, and_true, within_ofNat, UInt8.reduceToNat]
      omega
    case neg =>
      refine ⟨[(0x80, 0xBF), (0x80, 0xBF), (0x80, 0xBF)], ?_, ?_⟩
      · simp only [following, UInt8.lt_iff_toNat_lt, ←UInt8.toNat_inj, UInt8.toNat_ofNat',
          UInt8.reduceToNat]
        rw [if_neg (by omega), if_neg (by omega), if_neg (by omega), if_neg (by omega),
          if_neg (by omega), if_neg (by omega), if_neg (by omega), if_pos (by omega)]
      · simp only [List.forall₂_cons, List.Forall₂.nil, and_true, within_ofNat, UInt8.reduceToNat]
        omega

-- The first byte of a character is followed by as many bytes as it says, in their ranges.
theorem exists_following (c : Char) : ∃ lead rest expected,
    String.utf8EncodeChar c = lead :: rest ∧ following lead = some expected ∧
      List.Forall₂ Within expected rest := by
  have hv : c.val.toNat < 0xD800 ∨ (0xDFFF < c.val.toNat ∧ c.val.toNat < 0x110000) := c.valid
  simp only [String.utf8EncodeChar]
  split
  case isTrue h =>
    refine ⟨_, _, [], rfl, ?_, .nil⟩
    simp only [following, UInt8.lt_iff_toNat_lt, UInt8.toNat_ofNat', UInt8.reduceToNat]
    rw [if_pos (by omega)]
  case isFalse h₁ =>
    split
    case isTrue h =>
      have ⟨expected, hf, hw⟩ := following_two (Nat.lt_of_not_le h₁) h
      exact ⟨_, _, expected, rfl, hf, hw⟩
    case isFalse h₂ =>
      split
      case isTrue h =>
        have ⟨expected, hf, hw⟩ := @following_three c.val.toNat (by omega) (by omega)
        exact ⟨_, _, expected, rfl, hf, hw⟩
      case isFalse h₃ =>
        have ⟨expected, hf, hw⟩ := @following_four c.val.toNat (by omega) (by omega)
        exact ⟨_, _, expected, rfl, hf, hw⟩

theorem scan_of_within {rest : List UInt8} (h : List.Forall₂ Within expected rest)
    (hn : rest ≠ []) : scan held expected (rest ++ b) = held ++ rest ++ lossy b := by
  induction h generalizing held
  case nil => exact absurd rfl hn
  case cons range byte expected rest hw hs hi =>
    rw [List.cons_append]
    cases hs
    case nil =>
      rw [scan_of_last (fits_cons.mpr hw) rfl, List.nil_append, List.append_assoc]
      rfl
    case cons range' byte' expected rest hw' hs =>
      rw [scan_of_fits (fits_cons.mpr hw) (by simp), List.tail_cons, hi (by simp)]
      simp

theorem lossy_encodeChar_append :
    lossy (String.utf8EncodeChar c ++ b) = String.utf8EncodeChar c ++ lossy b := by
  have ⟨lead, rest, expected, hc, hf, hw⟩ := exists_following c
  rw [hc, List.cons_append]
  cases hw
  case nil => rw [List.nil_append, lossy_of_ascii hf, List.singleton_append]
  case cons range byte expected rest h hs =>
    rw [lossy_of_following hf (by simp), scan_of_within (.cons h hs) (by simp)]
    simp

theorem lossy_encode_append : lossy (Utf8.encode chars ++ b) = Utf8.encode chars ++ lossy b := by
  induction chars
  case nil => rfl
  case cons c chars hi =>
    rw [Utf8.encode_cons, List.append_assoc, lossy_encodeChar_append, hi, List.append_assoc]

theorem lossy_encode : lossy (Utf8.encode chars) = Utf8.encode chars := by
  have h := @lossy_encode_append chars []
  rwa [List.append_nil, show lossy [] = [] from rfl, List.append_nil] at h

end Table

section Boundaries

-- What begins with a character that is not held is the byte, or the replacement.
theorem head_scan {x : UInt8} : ∀ byte ∈ (scan (x :: held) expected bytes).head?,
    byte = x ∨ byte = 0xEF := by
  induction bytes generalizing held expected
  case nil => simp [scan, broken, replacement]
  case cons next bytes hi =>
    rw [scan]
    split
    case isTrue =>
      split
      case isTrue  => simp
      case isFalse => exact hi
    case isFalse => simp [broken, replacement]

theorem not_continuation_of_following (h : following lead = some expected) :
    isContinuation lead = false := by
  by_contra hc
  simp only [isContinuation, Bool.not_eq_false, Bool.and_eq_true, decide_eq_true_eq,
    UInt8.le_iff_toNat_le, UInt8.lt_iff_toNat_lt] at hc
  simp only [following, UInt8.lt_iff_toNat_lt, UInt8.reduceToNat] at h hc
  rw [if_neg (by omega), if_pos (by omega)] at h
  cases h

theorem led_lossy : Led (lossy bytes) := by
  cases bytes
  case nil => simp [lossy, scan, broken, Led]
  case cons byte bytes =>
    cases hf : following byte
    case none => simp [lossy, scan, fits, broken, hf, Led, replacement, isContinuation]
    case some expected =>
      have hb := not_continuation_of_following hf
      cases expected
      case nil => simpa [lossy_of_ascii hf, Led] using hb
      case cons range expected =>
        rw [lossy_of_following hf (by simp)]
        intro first h
        rcases head_scan first h with rfl | rfl
        case inl => exact hb
        case inr => rfl

end Boundaries

section Longest

theorem validUpTo_le : validUpTo bytes ≤ bytes.length :=
  Nat.findGreatest_le _

theorem exists_validUpTo : ∃ chars, bytes.take (validUpTo bytes) = Utf8.encode chars := by
  have h := Nat.findGreatest_spec (P := fun i => (Utf8.decode (bytes.take i)).isSome = true)
    (Nat.zero_le bytes.length) (by simp)
  have ⟨chars, hc⟩ := Option.isSome_iff_exists.mp h
  exact ⟨chars, Utf8.decode_eq_some.mp hc⟩

-- Nothing behind it is UTF-8 again.
theorem eq_nil_of_prefix (h : Utf8.encode chars <+: bytes.drop (validUpTo bytes)) : chars = [] := by
  have ⟨chars', hc⟩ := @exists_validUpTo bytes
  obtain ⟨rest, hr⟩ := h
  have hb : bytes = Utf8.encode (chars' ++ chars) ++ rest := by
    rw [Utf8.encode_append, ←hc, List.append_assoc, hr, List.take_append_drop]
  have hlen : (Utf8.encode chars').length = validUpTo bytes := by
    rw [←hc, List.length_take, Nat.min_eq_left validUpTo_le]
  have hle : (Utf8.encode (chars' ++ chars)).length ≤ validUpTo bytes := by
    refine Nat.le_findGreatest ?_ ?_
    · conv_rhs => rw [hb]
      simp
    · conv_lhs => rw [hb]
      rw [List.take_left' rfl, Utf8.decode_encode]
      rfl
  rw [Utf8.encode_append, List.length_append, hlen] at hle
  have hz : Utf8.encode chars = Utf8.encode [] := List.length_eq_zero_iff.mp (by omega)
  exact Utf8.encode_injective hz

theorem encodeChar_append_inj {c' : Char}
    (h : String.utf8EncodeChar c ++ a = String.utf8EncodeChar c' ++ b) : c = c' := by
  have h := congrArg (fun bytes => ByteArray.utf8DecodeChar? bytes.toByteArray 0) h
  simp only [List.toByteArray_append, ByteArray.utf8DecodeChar?_utf8EncodeChar_append,
    Option.some.injEq] at h
  exact h

-- A text that begins with another one goes on with a text.
theorem exists_of_append (h : Utf8.encode chars ++ a <+: Utf8.encode chars') :
    ∃ rest, a <+: Utf8.encode rest := by
  induction chars generalizing chars'
  case nil => exact ⟨chars', h⟩
  case cons c chars hi =>
    obtain ⟨b, hb⟩ := h
    rw [Utf8.encode_cons, List.append_assoc, List.append_assoc] at hb
    cases chars'
    case nil =>
      have hn := (List.append_eq_nil_iff.mp hb).1
      exact absurd hn String.utf8EncodeChar_ne_nil
    case cons c' chars' =>
      rw [Utf8.encode_cons] at hb
      obtain rfl := encodeChar_append_inj hb
      have hb := List.append_cancel_left hb
      rw [←List.append_assoc] at hb
      exact hi ⟨b, hb⟩

-- The beginning of a text that begins with no character is incomplete.
theorem incomplete_of_prefix (h : a <+: Utf8.encode chars)
    (hn : ∀ chars', Utf8.encode chars' <+: a → chars' = []) : Incomplete a := by
  cases chars
  case nil =>
    rw [List.prefix_nil.mp h]
    exact incomplete_nil
  case cons c chars =>
    have hc : ¬String.utf8EncodeChar c <+: a := by
      intro hp
      have := hn [c] (by simpa [Utf8.encode] using hp)
      cases this
    refine ⟨c, ?_, fun he => hc (he ▸ List.prefix_rfl)⟩
    rcases List.prefix_or_prefix_of_prefix h (List.prefix_append ..) with hp | hp
    case inl => exact hp
    case inr => exact absurd hp hc

end Longest

end Lossy
