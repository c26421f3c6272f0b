import WerkModel.Lib.Base64
import WerkModel.Lib.Checks
import WerkModel.Lib.Utf8

-- The decoding of media that a request carries inline.
open Checks Base64

namespace InferenceService

def isAsciiWhitespace (byte : UInt8) : Bool :=
  byte = ' '.toUInt8 || byte = '\t'.toUInt8 || byte = '\n'.toUInt8 || byte = 0x0C ||
    byte = '\r'.toUInt8

def sextet (byte : UInt8) : Except String UInt8 :=
  if 'A'.toUInt8 ≤ byte ∧ byte ≤ 'Z'.toUInt8 then
    pure <| byte - 'A'.toUInt8
  else if 'a'.toUInt8 ≤ byte ∧ byte ≤ 'z'.toUInt8 then
    pure <| byte - 'a'.toUInt8 + 26
  else if '0'.toUInt8 ≤ byte ∧ byte ≤ '9'.toUInt8 then
    pure <| byte - '0'.toUInt8 + 52
  else if byte = '+'.toUInt8 ∨ byte = '-'.toUInt8 then
    pure 62
  else if byte = '/'.toUInt8 ∨ byte = '_'.toUInt8 then
    pure 63
  else if byte = '='.toUInt8 then
    pure 0
  else
    throw "invalid base64 character"

-- The number of '=' at the end of four characters.
def chunkPadding (chunk : List UInt8) : Nat :=
  (chunk.reverse.takeWhile (· = '='.toUInt8)).length

def decodeChunk (last : Bool) (a b c d : UInt8) : Except String (List UInt8) := do
  let chunk := [a, b, c, d]
  let padding := chunkPadding chunk
  ensure (¬(padding > 2 ∨ (!last ∧ padding > 0) ∨
    (chunk.take (chunk.length - padding)).contains '='.toUInt8)) "invalid base64 padding"
  let a ← sextet a
  let b ← sextet b
  let c ← sextet c
  let d ← sextet d
  pure <| ((a <<< 2) ||| (b >>> 4)) ::
    ((if padding < 2 then [(b <<< 4) ||| (c >>> 2)] else []) ++
      if padding = 0 then [(c <<< 6) ||| d] else [])

-- A chunk is the last if no four characters follow it.
def decodeChunks : List UInt8 → Except String (List UInt8)
  | a :: b :: c :: d :: rest => do
    let output ← decodeChunk (rest.length / 4 = 0) a b c d
    let others ← decodeChunks rest
    pure <| output ++ others
  | _ => pure []

def withoutWhitespace (data : String) : List UInt8 :=
  (Utf8.encode data.toList).filter (!isAsciiWhitespace ·)

def decodeBase64 (data : String) : Except String (List UInt8) := do
  let encoded := withoutWhitespace data
  ensure (encoded.length % 4 ≠ 1) "invalid base64 input length"
  decodeChunks <| encoded ++ List.replicate (padding encoded.length) '='.toUInt8

variable {byte v a b c d : UInt8} {n : Nat} {body bytes encoded : List UInt8} {values : List Nat}
variable {last : Bool} {data : String}

theorem sextet_pad : sextet pad = .ok 0 := by
  decide

-- The characters of both alphabets stand for their position.
theorem sextet_of_denotes (h : Denotes byte n) : sextet byte = .ok (.ofNat n) := by
  have hs : ∀ c ∈ (standard.map Char.toUInt8).zipIdx, sextet c.1 = .ok (.ofNat c.2) := by
    decide +kernel
  have hu : ∀ c ∈ (urlSafe.map Char.toUInt8).zipIdx, sextet c.1 = .ok (.ofNat c.2) := by
    decide +kernel
  cases h
  case inl h => exact hs (byte, n) <| List.mem_zipIdx_iff_getElem?.mpr h
  case inr h => exact hu (byte, n) <| List.mem_zipIdx_iff_getElem?.mpr h

theorem denotes_of_sextet (h : sextet byte = .ok v) (hp : byte ≠ pad) : Denotes byte v.toNat := by
  have hd : ∀ n < 256, (sextet (.ofNat n)).toOption.all fun v => UInt8.ofNat n = pad ∨
      (standard.map Char.toUInt8)[v.toNat]? = some (UInt8.ofNat n) ∨
        (urlSafe.map Char.toUInt8)[v.toNat]? = some (UInt8.ofNat n) := by decide +kernel
  have hb := hd byte.toNat byte.toNat_lt
  rw [UInt8.ofNat_toNat, h] at hb
  exact (of_decide_eq_true hb).resolve_left hp

theorem or_eq_ofNat {x y : UInt8} {m n : Nat} (i : Nat) (hx : x.toNat = m * 2 ^ i)
    (hy : y.toNat = n) (hn : n < 2 ^ i) : x ||| y = .ofNat (m * 2 ^ i + n) := by
  rw [←Nat.shiftLeft_eq] at hx ⊢
  rw [Nat.shiftLeft_add_eq_or_of_lt hn, ←hx, ←hy, ←UInt8.toNat_or, UInt8.ofNat_toNat]

-- The shifts of the groups join their bits.
theorem shifted_eq {v w : Nat} (hv : v < 64) (hw : w < 64) :
    (UInt8.ofNat v <<< 2 ||| UInt8.ofNat w >>> 4 = .ofNat (v * 4 + w / 16)) ∧
    (UInt8.ofNat v <<< 4 ||| UInt8.ofNat w >>> 2 = .ofNat (v % 16 * 16 + w / 4)) ∧
    (UInt8.ofNat v <<< 6 ||| UInt8.ofNat w = .ofNat (v % 4 * 64 + w)) := by
  have hv' : (UInt8.ofNat v).toNat = v := toNat_ofNat (by omega)
  have hw' : (UInt8.ofNat w).toNat = w := toNat_ofNat (by omega)
  have hl (i : UInt8) : (UInt8.ofNat v <<< i).toNat = v * 2 ^ (i.toNat % 8) % 256 := by
    rw [UInt8.toNat_shiftLeft, hv', Nat.shiftLeft_eq]
  have hr (i : UInt8) : (UInt8.ofNat w >>> i).toNat = w / 2 ^ (i.toNat % 8) := by
    rw [UInt8.toNat_shiftRight, hw', Nat.shiftRight_eq_div_pow]
  have h₂ : (UInt8.ofNat v <<< 2).toNat = v * 4 % 256 := hl 2
  have h₄ : (UInt8.ofNat v <<< 4).toNat = v * 16 % 256 := hl 4
  have h₆ : (UInt8.ofNat v <<< 6).toNat = v * 64 % 256 := hl 6
  have h₂' : (UInt8.ofNat w >>> 2).toNat = w / 4 := hr 2
  have h₄' : (UInt8.ofNat w >>> 4).toNat = w / 16 := hr 4
  exact ⟨or_eq_ofNat 2 (by omega) h₄' (by omega),
    or_eq_ofNat 4 (by omega) h₂' (by omega), or_eq_ofNat 6 (by omega) hw' (by omega)⟩

theorem chunkPadding_of_ne (hd : d ≠ pad) : chunkPadding [a, b, c, d] = 0 := by
  have hd : d ≠ '='.toUInt8 := hd
  simp [chunkPadding, hd]

theorem chunkPadding_one (hc : c ≠ pad) : chunkPadding [a, b, c, pad] = 1 := by
  have hc : c ≠ '='.toUInt8 := hc
  simp [chunkPadding, pad, hc]

theorem chunkPadding_two (hb : b ≠ pad) : chunkPadding [a, b, pad, pad] = 2 := by
  have hb : b ≠ '='.toUInt8 := hb
  simp [chunkPadding, pad, hb]

theorem chunkPadding_lt : 2 < chunkPadding [a, pad, pad, pad] := by
  by_cases ha : a = '='.toUInt8
  case pos => simp [chunkPadding, pad, ha]
  case neg => simp [chunkPadding, pad, ha]

theorem contains_eq_false : encoded.contains '='.toUInt8 = false ↔ ∀ x ∈ encoded, x ≠ pad := by
  rw [←Bool.not_eq_true, List.contains_iff_mem]
  exact ⟨fun h x hx he => h (show pad ∈ encoded from he ▸ hx), fun h hx => h _ hx rfl⟩

-- Two to four characters of the alphabets, which only at the end are filled up to four.
structure Chunk (last : Bool) (chunk : List UInt8) (values : List Nat) : Prop where
  filled  : Filled chunk values
  two_le  : 2 ≤ values.length
  le_four : values.length ≤ 4
  whole   : last = true ∨ values.length = 4

theorem Chunk.decode_eq (h : Chunk last [a, b, c, d] values) :
    decodeChunk last a b c d = .ok (joined values) := by
  have ⟨⟨body, he, hd⟩, h₂, h₄, hw⟩ := h
  obtain _ | ⟨v, _ | ⟨w, _ | ⟨x, _ | ⟨y, _ | ⟨z, rest⟩⟩⟩⟩⟩ := values
  case nil                     => simp at h₂
  case cons.nil                => simp at h₂
  case cons.cons.cons.cons.cons =>
    simp only [List.length_cons] at h₄
    omega
  case cons.cons.nil =>
    simp only [List.forall₂_cons_right_iff, List.forall₂_nil_right_iff] at hd
    obtain ⟨p, _, hp, ⟨q, _, hq, rfl, rfl⟩, rfl⟩ := hd
    simp only [padding, List.length_cons, List.length_nil, List.replicate, List.cons_append,
      List.nil_append, List.cons.injEq, and_true] at he hw
    obtain ⟨rfl, rfl, rfl, rfl⟩ := he
    have hv := hp.lt
    have hpn := hp.ne_pad
    have hps := sextet_of_denotes hp
    have hw' := hq.lt
    have hqn := hq.ne_pad
    have hqs := sextet_of_denotes hq
    have hpn : '='.toUInt8 ≠ a := fun h => hpn h.symm
    have hqn' : '='.toUInt8 ≠ b := fun h => hqn h.symm
    have hl : last = true := by simpa using hw
    simp [decodeChunk, chunkPadding_two hqn, ensure, hps, hqs, sextet_pad, hl, hpn, hqn', bind,
      Except.bind, joined, shifted_eq hv hw', pure, Except.pure]
  case cons.cons.cons.nil =>
    simp only [List.forall₂_cons_right_iff, List.forall₂_nil_right_iff] at hd
    obtain ⟨p, _, hp, ⟨q, _, hq, ⟨r, _, hr, rfl, rfl⟩, rfl⟩, rfl⟩ := hd
    simp only [padding, List.length_cons, List.length_nil, List.replicate, List.cons_append,
      List.nil_append, List.cons.injEq, and_true] at he hw
    obtain ⟨rfl, rfl, rfl, rfl⟩ := he
    have hv := hp.lt
    have hpn := hp.ne_pad
    have hps := sextet_of_denotes hp
    have hw' := hq.lt
    have hqn := hq.ne_pad
    have hqs := sextet_of_denotes hq
    have hx := hr.lt
    have hrn := hr.ne_pad
    have hrs := sextet_of_denotes hr
    have hpn : '='.toUInt8 ≠ a := fun h => hpn h.symm
    have hqn : '='.toUInt8 ≠ b := fun h => hqn h.symm
    have hrn' : '='.toUInt8 ≠ c := fun h => hrn h.symm
    have hl : last = true := by simpa using hw
    simp [decodeChunk, chunkPadding_one hrn, ensure, hps, hqs, hrs, sextet_pad, hl, hpn, hqn, hrn',
      bind, Except.bind, joined, shifted_eq hv hw', shifted_eq hw' hx, pure, Except.pure]
  case cons.cons.cons.cons.nil =>
    simp only [List.forall₂_cons_right_iff, List.forall₂_nil_right_iff] at hd
    obtain ⟨p, _, hp, ⟨q, _, hq, ⟨r, _, hr, ⟨t, _, ht, rfl, rfl⟩, rfl⟩, rfl⟩, rfl⟩ := hd
    obtain ⟨rfl, rfl, rfl, rfl, -⟩ : a = p ∧ b = q ∧ c = r ∧ d = t ∧ True := by
      simpa [padding] using he
    have hv := hp.lt
    have hpn := hp.ne_pad
    have hps := sextet_of_denotes hp
    have hw' := hq.lt
    have hqn := hq.ne_pad
    have hqs := sextet_of_denotes hq
    have hx := hr.lt
    have hrn := hr.ne_pad
    have hrs := sextet_of_denotes hr
    have hy := ht.lt
    have htn := ht.ne_pad
    have hts := sextet_of_denotes ht
    have hpn : '='.toUInt8 ≠ a := fun h => hpn h.symm
    have hqn : '='.toUInt8 ≠ b := fun h => hqn h.symm
    have hrn : '='.toUInt8 ≠ c := fun h => hrn h.symm
    have htn' : '='.toUInt8 ≠ d := fun h => htn h.symm
    simp [decodeChunk, chunkPadding_of_ne htn, ensure, hps, hqs, hrs, hts, hpn, hqn, hrn, htn',
      bind, Except.bind, joined, shifted_eq hv hw', shifted_eq hw' hx, shifted_eq hx hy, pure,
      Except.pure]

theorem exists_chunk (h : decodeChunk last a b c d = .ok bytes) :
    ∃ values, Chunk last [a, b, c, d] values := by
  simp only [decodeChunk] at h
  rw [ensure_bind_eq_ok] at h
  simp only [bind_eq_ok] at h
  obtain ⟨hp, va, ha, vb, hb, vc, hc, vd, hd, -⟩ := h
  simp only [not_or, gt_iff_lt, not_lt, Bool.not_eq_true] at hp
  obtain ⟨hp, hl, hn⟩ := hp
  by_cases hdp : d = pad
  case neg =>
    rw [chunkPadding_of_ne hdp, contains_eq_false] at hn
    have hap := hn a (by simp)
    have hbp := hn b (by simp)
    have hcp := hn c (by simp)
    exact ⟨[va.toNat, vb.toNat, vc.toNat, vd.toNat], ⟨[a, b, c, d], by simp [padding],
      .cons (denotes_of_sextet ha hap) <| .cons (denotes_of_sextet hb hbp) <|
      .cons (denotes_of_sextet hc hcp) <| .cons (denotes_of_sextet hd hdp) .nil⟩,
      by simp, by simp, .inr rfl⟩
  case pos =>
    subst hdp
    by_cases hcp : c = pad
    case neg =>
      rw [chunkPadding_one hcp] at hn hl
      have hn := contains_eq_false.mp hn
      have hap := hn a (by simp)
      have hbp := hn b (by simp)
      exact ⟨[va.toNat, vb.toNat, vc.toNat], ⟨[a, b, c], rfl,
        .cons (denotes_of_sextet ha hap) <| .cons (denotes_of_sextet hb hbp) <|
        .cons (denotes_of_sextet hc hcp) .nil⟩, by simp, by simp, .inl (by simpa using hl)⟩
    case pos =>
      subst hcp
      by_cases hbp : b = pad
      case neg =>
        rw [chunkPadding_two hbp] at hn hl
        have hap := contains_eq_false.mp hn a (by simp)
        exact ⟨[va.toNat, vb.toNat], ⟨[a, b], rfl, .cons (denotes_of_sextet ha hap) <|
          .cons (denotes_of_sextet hb hbp) .nil⟩, by simp, by simp, .inl (by simpa using hl)⟩
      case pos =>
        subst hbp
        exact absurd (chunkPadding_lt (a := a)) (by omega)

theorem decodeChunk_eq_ok : decodeChunk last a b c d = .ok bytes ↔
    ∃ values, Chunk last [a, b, c, d] values ∧ bytes = joined values := by
  constructor
  case mp =>
    intro h
    have ⟨values, hc⟩ := exists_chunk h
    exact ⟨values, hc, Except.ok.inj <| h.symm.trans hc.decode_eq⟩
  case mpr =>
    rintro ⟨values, hc, rfl⟩
    exact hc.decode_eq

theorem eq_of_length (h : values.length = 4) : ∃ v w x y, values = [v, w, x, y] := by
  obtain _ | ⟨v, _ | ⟨w, _ | ⟨x, _ | ⟨y, _ | ⟨z, rest⟩⟩⟩⟩⟩ := values
  case cons.cons.cons.cons.nil => exact ⟨v, w, x, y, rfl⟩
  all_goals simp at h

-- A chunk with another behind it has no padding.
theorem decodeChunks_eq_ok (hl : encoded.length % 4 = 0) : decodeChunks encoded = .ok bytes ↔
    ∃ values, Filled encoded values ∧ values.length % 4 ≠ 1 ∧ bytes = joined values := by
  induction encoded using decodeChunks.induct generalizing bytes
  case case1 a b c d rest hi =>
    have hr : rest.length % 4 = 0 := by
      simp only [List.length_cons] at hl
      omega
    have hnil (h : rest.length < 4) : rest = [] := List.length_eq_zero_iff.mp (by omega)
    simp only [decodeChunks, bind_eq_ok, decodeChunk_eq_ok, hi hr]
    constructor
    case mp =>
      rintro ⟨_, ⟨values, hc, rfl⟩, _, ⟨s, hs, hn, rfl⟩, hb⟩
      cases hb
      by_cases h₄ : values.length = 4
      case pos =>
        obtain ⟨v, w, x, y, rfl⟩ := eq_of_length h₄
        refine ⟨v :: w :: x :: y :: s, filled_cons.mpr ⟨(filled_cons.mp hc.filled).1, hs⟩, ?_, rfl⟩
        simp only [List.length_cons]
        omega
      case neg =>
        have h := hc.whole
        simp only [h₄, or_false, decide_eq_true_eq, Nat.div_eq_zero_iff] at h
        obtain rfl := hnil (by omega)
        have hs : s = [] := List.length_eq_zero_iff.mp (by
          have := hs.length_eq
          simp only [List.length_nil] at this
          omega)
        have h₂ := hc.two_le
        have h₄' := hc.le_four
        exact ⟨values, hc.filled, by omega, by rw [hs]; simp [joined]⟩
    case mpr =>
      rintro ⟨values, hf, hn, rfl⟩
      by_cases h₄ : values.length < 4
      case pos =>
        have hle := hf.length_eq
        simp only [List.length_cons, padding] at hle
        obtain rfl := hnil (by omega)
        refine ⟨_, ⟨values, ⟨hf, ?_, by omega, .inl rfl⟩, rfl⟩, [],
          ⟨[], ⟨[], rfl, .nil⟩, by simp, rfl⟩, congrArg _ (List.append_nil _)⟩
        simp only [List.length_nil] at hle
        omega
      case neg =>
        obtain _ | ⟨v, _ | ⟨w, _ | ⟨x, _ | ⟨y, s⟩⟩⟩⟩ := values
        case cons.cons.cons.cons =>
          obtain ⟨hc, hs⟩ := filled_cons.mp hf
          refine ⟨_, ⟨[v, w, x, y], ⟨filled_cons.mpr ⟨hc, [], rfl, .nil⟩, by simp, by simp,
            .inr rfl⟩, rfl⟩, _, ⟨s, hs, ?_, rfl⟩, rfl⟩
          simp only [List.length_cons] at hn
          omega
        all_goals simp at h₄
  case case2 encoded hn =>
    obtain rfl : encoded = [] := by
      obtain _ | ⟨a, _ | ⟨b, _ | ⟨c, _ | ⟨d, rest⟩⟩⟩⟩ := encoded
      case nil                 => rfl
      case cons.cons.cons.cons => exact absurd rfl (hn a b c d rest)
      all_goals simp at hl
    constructor
    case mp =>
      intro h
      cases h
      exact ⟨[], ⟨[], rfl, .nil⟩, by simp, rfl⟩
    case mpr =>
      rintro ⟨values, hf, -, rfl⟩
      have hle := hf.length_eq
      rw [List.length_nil] at hle
      obtain rfl : values = [] := List.length_eq_zero_iff.mp (by omega)
      rfl

-- What the decoder accepts, and as which bytes.
theorem decodeBase64_eq_ok : decodeBase64 data = .ok bytes ↔
    ∃ values, Spells (withoutWhitespace data) values ∧ values.length % 4 ≠ 1 ∧
      bytes = joined values := by
  have hl (h : (withoutWhitespace data).length % 4 ≠ 1) : (withoutWhitespace data ++
      List.replicate (padding (withoutWhitespace data).length) pad).length % 4 = 0 := by
    rw [List.length_append, List.length_replicate, padding]
    omega
  rw [decodeBase64, ensure_bind_eq_ok]
  constructor
  case mp =>
    rintro ⟨hn, h⟩
    obtain ⟨values, hf, hv⟩ := (decodeChunks_eq_ok (hl hn)).mp h
    exact ⟨values, spells_iff.mpr hf, hv⟩
  case mpr =>
    rintro ⟨values, hs, hv⟩
    have hn : (withoutWhitespace data).length % 4 ≠ 1 := by
      obtain ⟨body, k, he, hk, hb⟩ := hs
      rw [he, List.length_append, List.length_replicate, hb.length_eq]
      have := hv.1
      simp only [padding] at hk
      omega
    exact ⟨hn, (decodeChunks_eq_ok (hl hn)).mpr ⟨values, spells_iff.mp hs, hv⟩⟩

-- Each text of some bytes is decoded to them, and what is decoded at all is such a text of the
-- result, but for the bits of its last character that belong to no byte.
theorem decodeBase64_exact :
    (∀ (data : String) (bytes : List UInt8), Spells (withoutWhitespace data) (sextets bytes) →
      decodeBase64 data = .ok bytes) ∧
    (∀ (data : String) (bytes : List UInt8), decodeBase64 data = .ok bytes →
      ∃ values, Spells (withoutWhitespace data) values ∧ Agree values (sextets bytes)) := by
  constructor
  case left =>
    intro data bytes h
    exact decodeBase64_eq_ok.mpr ⟨_, h, length_sextets, joined_sextets.symm⟩
  case right =>
    intro data bytes h
    obtain ⟨values, hs, hn, rfl⟩ := decodeBase64_eq_ok.mp h
    have ⟨body, k, _, _, hb⟩ := hs
    exact ⟨values, hs, agree_sextets_joined (lt_of_denotes hb) hn⟩

theorem decodeBase64_exact_hi : decodeBase64 "a Gk=\n" = .ok [104, 105] ∧
    ∃ values, Spells (withoutWhitespace "aGl") values ∧ Agree values (sextets [104, 105]) := by
  have h : Spells (withoutWhitespace "a Gk=\n") (sextets [104, 105]) := by
    refine ⟨['a'.toUInt8, 'G'.toUInt8, 'k'.toUInt8], 1, by decide +kernel, by decide, ?_⟩
    exact .cons (.inl rfl) <| .cons (.inl rfl) <| .cons (.inl rfl) .nil
  exact ⟨decodeBase64_exact.1 _ _ h, decodeBase64_exact.2 _ _ (by decide +kernel)⟩

end InferenceService
