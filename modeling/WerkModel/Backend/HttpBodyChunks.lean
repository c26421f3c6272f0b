import WerkModel.Backend.HttpBody

-- The encoding of a body in chunks, of which a reader either gets everything or notices that
-- something is missing, however the bytes arrive.
open Reading

namespace Backend.HttpBody

-- The line before a chunk, whose size is written in any number of hexadecimal digits.
structure SizeLine where
  digits    : List Char
  extension : Option (List Char)

namespace SizeLine

variable {l : SizeLine} {n : Nat}

def text (l : SizeLine) : List Char :=
  l.digits ++ (l.extension.elim [] (';' :: ·) ++ ['\r', '\n'])

def encode (l : SizeLine) : List UInt8 :=
  Utf8.encode l.text

structure Denotes (l : SizeLine) (n : Nat) : Prop where
  digits    : ∃ values, l.digits.mapM (digit? 16) = some values ∧ values ≠ [] ∧
    digitsValue 16 values = n
  extension : ∀ text ∈ l.extension, '\r' ∉ text ∧ '\n' ∉ text
  bound     : n ≤ usizeMax

end SizeLine

structure Chunk where
  line : SizeLine
  data : List UInt8

namespace Chunk

def encode (chunk : Chunk) : List UInt8 :=
  chunk.line.encode ++ (chunk.data ++ [13, 10])

structure WellFormed (chunk : Chunk) : Prop where
  line : chunk.line.Denotes chunk.data.length
  data : chunk.data ≠ []

end Chunk

-- The trailer is not read.
structure Body where
  chunks  : List Chunk
  last    : SizeLine
  trailer : List UInt8

namespace Body

def data (body : Body) : List UInt8 :=
  body.chunks.flatMap Chunk.data

-- Everything up to the end of the line with size zero.
def framed (body : Body) : List UInt8 :=
  body.chunks.flatMap Chunk.encode ++ body.last.encode

def encode (body : Body) : List UInt8 :=
  body.framed ++ body.trailer

structure WellFormed (body : Body) : Prop where
  chunks : ∀ chunk ∈ body.chunks, chunk.WellFormed
  last   : body.last.Denotes 0

end Body

section SizeLine

variable {l : SizeLine} {n : Nat} {c : Char} {text : List Char} {more : List UInt8}

theorem digit?_range {digit : Nat} (h : digit? 16 c = some digit) :
    (48 ≤ c.toNat ∧ c.toNat ≤ 57) ∨ (65 ≤ c.toNat ∧ c.toNat ≤ 70) ∨
    (97 ≤ c.toNat ∧ c.toNat ≤ 102) := by
  have ⟨hd, hl⟩ := Option.filter_eq_some_iff.mp h
  have hl := of_decide_eq_true hl
  have h0 : '0'.val.toNat = 48 := rfl
  have ha : 'a'.val.toNat = 97 ∧ 'A'.val.toNat = 65 := ⟨rfl, rfl⟩
  simp only [Char.isDigit, Bool.and_eq_true, decide_eq_true_eq, Char.le_def,
    UInt32.le_iff_toNat_le, Char.toNat] at hd hl ⊢
  split at hd
  case isTrue hc => exact .inl hc
  case isFalse =>
    split at hd
    case isTrue hc =>
      cases hd
      omega
    case isFalse =>
      split at hd
      case isTrue hc =>
        cases hd
        omega
      case isFalse => cases hd

-- A hexadecimal digit has no other role in the line.
structure Plain (c : Char) : Prop where
  space     : RuntimeControl.Experts.isWhitespace c = false
  semicolon : c ≠ ';'
  plus      : c ≠ '+'
  newline   : c ≠ '\n'

theorem digit?_plain {digit : Nat} (h : digit? 16 c = some digit) : Plain c := by
  have hr := digit?_range h
  have hn (d : Char) (hd : d.toNat < 48 ∨ d.toNat = 59) : c ≠ d := by
    intro he
    rw [he] at hr
    omega
  refine ⟨?_, hn ';' (by decide), hn '+' (by decide), hn '\n' (by decide)⟩
  simp only [RuntimeControl.Experts.isWhitespace, Bool.or_eq_false_iff, Bool.and_eq_false_iff,
    decide_eq_false_iff_not]
  omega

theorem mapM_plain {digits : List Char} {values : List Nat}
    (h : digits.mapM (digit? 16) = some values) : ∀ c ∈ digits, Plain c := by
  induction digits generalizing values
  case nil => exact List.forall_mem_nil _
  case cons d digits hi =>
    rw [List.mapM_cons, Option.bind_eq_bind, Option.bind_eq_some_iff] at h
    have ⟨value, hd, h⟩ := h
    have ⟨_, hs, _⟩ := Option.bind_eq_some_iff.mp h
    exact List.forall_mem_cons.mpr ⟨digit?_plain hd, hi hs⟩

theorem SizeLine.Denotes.plain (h : l.Denotes n) : ∀ c ∈ l.digits, Plain c := by
  have ⟨_, hv, _⟩ := h.digits
  exact mapM_plain hv

-- Every size can be written.

theorem digit?_digitChar : ∀ digit < 16, digit? 16 (Nat.digitChar digit) = some digit := by
  decide

theorem mapM_digitChar {digits : List Nat} (h : ∀ digit ∈ digits, digit < 16) :
    (digits.map Nat.digitChar).mapM (digit? 16) = some digits := by
  induction digits
  case nil => rfl
  case cons digit digits hi =>
    have ⟨hd, h⟩ := List.forall_mem_cons.mp h
    rw [List.map_cons, List.mapM_cons, digit?_digitChar digit hd, hi h]
    rfl

theorem digitsValue_reverse {radix : Nat} {digits : List Nat} :
    digitsValue radix digits.reverse = Nat.ofDigits radix digits := by
  rw [digitsValue, List.foldl_reverse, Nat.ofDigits_eq_foldr]
  simp only [Nat.cast_id, Nat.add_comm, Nat.mul_comm]

theorem exists_denotes {extension : Option (List Char)} (hn : n ≤ usizeMax)
    (he : ∀ text ∈ extension, '\r' ∉ text ∧ '\n' ∉ text) :
    ∃ l : SizeLine, l.extension = extension ∧ l.Denotes n := by
  -- A zero makes the number of digits positive.
  refine ⟨⟨((Nat.digits 16 n) ++ [0]).reverse.map Nat.digitChar, extension⟩, rfl,
    ⟨_, mapM_digitChar fun digit hd => ?_, by simp, ?_⟩, he, hn⟩
  · cases List.mem_append.mp (List.mem_reverse.mp hd)
    case inl hd => exact Nat.digits_lt_base (by decide) hd
    case inr hd => rw [List.mem_singleton.mp hd]; decide
  · rw [digitsValue_reverse, Nat.ofDigits_append, Nat.ofDigits_digits]
    rfl

theorem SizeLine.Denotes.ne_nil (h : l.Denotes n) : l.digits ≠ [] := by
  have ⟨values, hv, hn, _⟩ := h.digits
  intro he
  rw [he] at hv
  exact hn (Option.some.inj hv).symm

theorem fromStrRadix_digits (h : l.Denotes n) : fromStrRadix 16 l.digits = some n := by
  have ⟨values, hv, hn, hd⟩ := h.digits
  have hp : l.digits.head? ≠ some '+' := fun hp =>
    (h.plain '+' <| List.mem_of_mem_head? hp).plus rfl
  have hb := h.bound
  rw [fromStrRadix, if_neg hp, hv]
  simp only [Option.bind_eq_bind, Option.bind_some, hd]
  exact if_neg (by simp only [hn, false_or]; omega)

theorem dropWhile_append_cons {p : Char → Bool} {a b : List Char} (h : p c = false) :
    (a ++ c :: b).dropWhile p = a.dropWhile p ++ c :: b := by
  rw [List.dropWhile_append, List.dropWhile_cons_of_neg (by simp [h])]
  split
  case isTrue hn => rw [List.isEmpty_iff.mp hn, List.nil_append]
  case isFalse   => rfl

theorem takeWhile_digits (h : l.Denotes n) : l.digits.takeWhile (· ≠ ';') = l.digits :=
  List.takeWhile_eq_self_iff.mpr fun c hc => decide_eq_true (h.plain c hc).semicolon

theorem trimStart_text (h : l.Denotes n) : trimStart l.text = l.text := by
  have ⟨d, ds, hd⟩ := List.exists_cons_of_ne_nil h.ne_nil
  have hs := (h.plain d <| hd ▸ List.mem_cons_self).space
  rw [SizeLine.text, hd, List.cons_append, trimStart, List.dropWhile_cons_of_neg (by simp [hs])]

theorem sizeText_text (h : l.Denotes n) : sizeText l.text = l.digits := by
  rw [sizeText, trim, trimStart_text h, SizeLine.text]
  cases l.extension
  case none =>
    obtain ⟨d, ds, hd⟩ := List.exists_cons_of_ne_nil <| List.reverse_ne_nil_iff.mpr h.ne_nil
    have hs := (h.plain d <| List.mem_reverse.mp <| hd ▸ List.mem_cons_self).space
    have ht : trimStart (['\n', '\r'] ++ d :: ds) = d :: ds :=
      trimStart_append (by simp [Blank, RuntimeControl.Experts.isWhitespace]) hs
    rw [Option.elim_none, List.nil_append, List.reverse_append, hd]
    exact (congrArg _ <| (congrArg List.reverse <| ht.trans hd.symm).trans
      l.digits.reverse_reverse).trans <| takeWhile_digits h
  case some text =>
    -- The semicolon stays, and what is in front of it.
    rw [Option.elim_some, List.cons_append, List.reverse_append, List.reverse_cons,
      List.append_assoc, List.singleton_append, trimStart, dropWhile_append_cons (by decide),
      List.reverse_append, List.reverse_cons, List.reverse_reverse, List.append_assoc,
      List.takeWhile_append_of_pos fun c hc => decide_eq_true (h.plain c hc).semicolon]
    exact List.append_nil _

theorem encode_eq (l : SizeLine) : l.encode =
    Utf8.encode (l.digits ++ (l.extension.elim [] (';' :: ·) ++ ['\r'])) ++ [newline] := by
  rw [SizeLine.encode, SizeLine.text]
  simp only [Utf8.encode_append, List.append_assoc]
  rfl

theorem newline_not_mem (h : l.Denotes n) :
    newline ∉ Utf8.encode (l.digits ++ (l.extension.elim [] (';' :: ·) ++ ['\r'])) := by
  intro hm
  have ⟨c, hc, hb⟩ := List.mem_flatMap.mp hm
  have he : c = '\n' := Utf8.encodeChar_of_mem (by decide) hb
  rw [he, List.mem_append, List.mem_append] at hc
  rcases hc with hc | hc | hc
  · exact (h.plain _ hc).newline rfl
  · cases hx : l.extension
    case none => simp [hx] at hc
    case some text =>
      rw [hx, Option.elim_some, List.mem_cons] at hc
      exact (h.extension text hx).2 <| hc.resolve_left (by decide)
  · exact absurd hc (by decide)

theorem lineLength_encode (h : l.Denotes n) :
    Reader.lineLength (· = newline) (l.encode ++ more) = l.encode.length := by
  have hn := newline_not_mem h
  rw [encode_eq, List.append_assoc, List.singleton_append, List.length_append]
  refine Reader.lineLength_eq ?_ (by decide)
  exact List.any_eq_false.mpr fun byte hb he => hn (of_decide_eq_true he ▸ hb)

theorem takeLine_encode (h : l.Denotes n) : takeLine (l.encode ++ more) = l.encode := by
  rw [takeLine, lineLength_encode h, List.take_left]

theorem dropLine_encode (h : l.Denotes n) : dropLine (l.encode ++ more) = more := by
  rw [dropLine, lineLength_encode h, List.drop_left]

-- A part of the line has no end.
theorem newline_not_mem_of_prefix (h : l.Denotes n) (hp : more <+: l.encode)
    (hl : more ≠ l.encode) : newline ∉ more := by
  rw [encode_eq, List.prefix_concat_iff, ←encode_eq] at hp
  exact fun hm => newline_not_mem h <| (hp.resolve_left hl).subset hm

end SizeLine

section Operations

variable {deadline : Option HttpDeadline} {onBytes : List (List UInt8) → Except String Unit}
variable {c : Connection} {more : List UInt8} {count received n : Nat} {l : SizeLine}

-- An operation fails with only part of some bytes delivered.
def Fails {α : Type} (c : Connection) (x : Outcome α) (bytes : List UInt8) : Prop :=
  ∃ error c' part, x = (.error error, c') ∧ part <+: bytes ∧
    c'.slices.flatten = c.slices.flatten ++ part

theorem Fails.of_keeps {α : Type} {error : String} {c' : Connection} {bytes : List UInt8}
    (h : c'.slices = c.slices) : Fails (α := α) c (.error error, c') bytes :=
  ⟨error, c', [], rfl, List.nil_prefix, by rw [h, List.append_nil]⟩

theorem Fails.andThen {α β : Type} {x : Outcome α} {f : α → Connection → Outcome β}
    {bytes : List UInt8} (h : Fails c x bytes) : Fails c (andThen x f) bytes := by
  have ⟨error, c', part, hx, h⟩ := h
  rw [hx]
  exact ⟨error, c', part, rfl, h⟩

theorem Fails.context {α : Type} {x : Outcome α} {text : String} {bytes : List UInt8}
    (h : Fails c x bytes) : Fails c (context text x) bytes := by
  have ⟨error, c', part, hx, h⟩ := h
  rw [hx]
  exact ⟨text, c', part, rfl, h⟩

theorem readHttpExact_step (hl : Live deadline) (filled : List UInt8) (hc : count ≠ 0)
    (h : c.rest ≠ []) : ∃ byte bytes c', Took c c' count (byte :: bytes) ∧
      readHttpExact deadline count filled c =
        readHttpExact deadline (count - (bytes.length + 1)) (filled ++ byte :: bytes) c' := by
  rw [readHttpExact, if_neg hc]
  obtain ⟨_, _, hn, _⟩ | ⟨bytes, c', hr, ht⟩ := readHttpBytes_cases deadline count c
  case inl => exact absurd hl hn
  case inr =>
    rw [hr]
    cases bytes
    case nil             => exact absurd ((ht.empty (Nat.pos_of_ne_zero hc)).mp rfl) h
    case cons byte bytes => exact ⟨byte, bytes, c', ht, rfl⟩

theorem readHttpExact_ok (hl : Live deadline) (filled : List UInt8) (h : count ≤ c.rest.length) :
    ∃ c', readHttpExact deadline count filled c = (.ok (filled ++ c.rest.take count), c') ∧
      Keeps c c' (c.rest.drop count) := by
  induction count using Nat.strong_induction_on generalizing filled c
  case h count hi =>
    by_cases hc : count = 0
    case pos =>
      rw [readHttpExact, if_pos hc, hc, List.take_zero, List.append_nil]
      exact ⟨c, rfl, rfl, rfl⟩
    case neg =>
      have hn : c.rest ≠ [] := List.ne_nil_of_length_pos <| (Nat.pos_of_ne_zero hc).trans_le h
      have ⟨byte, bytes, c', ht, hs⟩ := readHttpExact_step hl filled hc hn
      have ha := congrArg List.length ht.append
      simp only [List.length_append, List.length_cons] at ha
      have hm : bytes.length + 1 ≤ count := ht.length
      have ⟨c'', hr, hk⟩ := hi (count - (bytes.length + 1)) (by omega) (c := c')
        (filled ++ byte :: bytes) (by omega)
      have hb : (byte :: bytes).length ≤ count := hm
      refine ⟨c'', ?_, hk.rest.trans ?_, hk.slices.trans ht.slices⟩
      · rw [hs, hr, ←ht.append, List.take_append, List.take_of_length_le hb, List.append_assoc]
        rfl
      · rw [←ht.append, List.drop_append, List.drop_of_length_le hb]
        rfl

theorem readHttpExact_fails (hl : Live deadline) (filled bytes : List UInt8)
    (h : c.rest.length < count) : Fails c (readHttpExact deadline count filled c) bytes := by
  induction count using Nat.strong_induction_on generalizing filled c
  case h count hi =>
    have hc : count ≠ 0 := Nat.ne_zero_of_lt h
    by_cases hn : c.rest = []
    case pos =>
      rw [readHttpExact, if_neg hc]
      obtain ⟨_, _, hd, _⟩ | ⟨part, c', hr, ht⟩ := readHttpBytes_cases deadline count c
      case inl => exact absurd hl hd
      case inr =>
        rw [hr, (ht.empty (Nat.pos_of_ne_zero hc)).mpr hn]
        exact .of_keeps ht.slices
    case neg =>
      have ⟨byte, part, c', ht, hs⟩ := readHttpExact_step hl filled hc hn
      have hb := ht.length
      have ha := congrArg List.length ht.append
      simp only [List.length_append, List.length_cons] at ha hb
      have ⟨error, c'', part', hr, hp, hf⟩ := hi (count - (part.length + 1)) (by omega) (c := c')
        (filled ++ byte :: part) (by omega)
      exact ⟨error, c'', part', hs.trans hr, hp, ht.slices ▸ hf⟩

theorem live_none : Live none :=
  nofun

theorem readHttpLine_eq (c : Connection) (hl : Live deadline) : ∃ c' text,
    readHttpLine deadline c = (decodeLine text (takeLine c.rest), c') ∧
    Keeps c c' (dropLine c.rest) := by
  obtain ⟨_, _, hn, _⟩ | h := readHttpLine_cases deadline c
  case inl => exact absurd hl hn
  case inr => exact h

-- The data of a chunk, piece by piece.

theorem readChunkData_of_ne (hn : n ≠ 0) : readChunkData deadline onBytes n received c =
    andThen (context "OpenAI backend HTTP chunk body interrupted; response incomplete" <|
        readHttpExact deadline (min n bufferBytes) [] c) fun bytes c =>
      andThen (deliver onBytes bytes c) fun _ c => readChunkData deadline onBytes
        (n - min n bufferBytes) (min usizeMax (received + min n bufferBytes)) c := by
  rw [readChunkData, if_neg hn]

theorem readChunkData_step (received : Nat) (hl : Live deadline)
    (ho : ∀ slices, onBytes slices = .ok ())
    (hn : n ≠ 0) (h : min n bufferBytes ≤ c.rest.length) : ∃ received' c',
      readChunkData deadline onBytes n received c =
        readChunkData deadline onBytes (n - min n bufferBytes) received' c' ∧
      c'.rest = c.rest.drop (min n bufferBytes) ∧
      c'.slices.flatten = c.slices.flatten ++ c.rest.take (min n bufferBytes) := by
  have ⟨c', hr, hk⟩ := readHttpExact_ok hl [] h
  rw [readChunkData_of_ne hn, hr]
  simp only [context, andThen, deliver, ho]
  refine ⟨_, _, rfl, hk.rest, ?_⟩
  rw [List.flatten_append, hk.slices, List.flatten_singleton, List.nil_append]

theorem sub_piece_lt (hn : n ≠ 0) : n - min n bufferBytes < n := by
  rw [bufferBytes]
  omega

theorem readChunkData_ok (received : Nat) (hl : Live deadline)
    (ho : ∀ slices, onBytes slices = .ok ())
    (h : n ≤ c.rest.length) : ∃ total c',
      readChunkData deadline onBytes n received c = (.ok total, c') ∧ c'.rest = c.rest.drop n ∧
      c'.slices.flatten = c.slices.flatten ++ c.rest.take n := by
  induction n using Nat.strong_induction_on generalizing received c
  case h n hi =>
    by_cases hn : n = 0
    case pos =>
      rw [readChunkData, if_pos hn, hn, List.take_zero, List.append_nil]
      exact ⟨received, c, rfl, rfl, rfl⟩
    case neg =>
      have hm : min n bufferBytes ≤ n := Nat.min_le_left ..
      obtain ⟨received', c', hs, hr, hf⟩ := readChunkData_step received hl ho hn (hm.trans h)
      have hl' : n - min n bufferBytes ≤ c'.rest.length := by
        rw [hr, List.length_drop]
        omega
      obtain ⟨total, c'', hs', hr', hf'⟩ := @hi _ (sub_piece_lt hn) c' received' hl'
      refine ⟨total, c'', hs.trans hs', ?_, ?_⟩
      · rw [hr', hr, List.drop_drop, Nat.add_sub_cancel' hm]
      · rw [hf', hf, hr, List.append_assoc, ←List.take_add, Nat.add_sub_cancel' hm]

theorem readChunkData_fails (received : Nat) (hl : Live deadline)
    (ho : ∀ slices, onBytes slices = .ok ())
    (h : c.rest.length < n) :
    Fails c (readChunkData deadline onBytes n received c) c.rest := by
  induction n using Nat.strong_induction_on generalizing received c
  case h n hi =>
    have hn : n ≠ 0 := Nat.ne_zero_of_lt h
    by_cases hm : min n bufferBytes ≤ c.rest.length
    case neg =>
      rw [readChunkData_of_ne hn]
      exact (readHttpExact_fails hl [] _ (lt_of_not_ge hm)).context.andThen
    case pos =>
      have ⟨received', c', hs, hr, hf⟩ := readChunkData_step received hl ho hn hm
      have hl' : c'.rest.length < n - min n bufferBytes := by
        rw [hr, List.length_drop]
        omega
      have ⟨error, c'', part, hs', hp, hf'⟩ := @hi _ (sub_piece_lt hn) c' received' hl'
      refine ⟨error, c'', c.rest.take (min n bufferBytes) ++ part, hs.trans hs', ?_, ?_⟩
      · have ht := (List.prefix_append_right_inj (c.rest.take (min n bufferBytes))).mpr (hr ▸ hp)
        rwa [List.take_append_drop] at ht
      · rw [hf', hf, List.append_assoc]

theorem readChunkSize_ok (received : Nat) (hl : Live deadline) (hd : l.Denotes n)
    (h : c.rest = l.encode ++ more) :
    ∃ c', readChunkSize deadline received c = (.ok n, c') ∧ Keeps c c' more := by
  have ⟨c', text, hr, hk⟩ := readHttpLine_eq c hl
  have hn : l.text ≠ [] := by simp [SizeLine.text]
  have hs : ['\r', '\n'] <:+ l.text := by
    rw [SizeLine.text, ←List.append_assoc]
    exact List.suffix_append ..
  refine ⟨c', ?_, ?_, hk.slices⟩
  · rw [readChunkSize, hr, h, takeLine_encode hd, SizeLine.encode, decodeLine, Utf8.decode_encode]
    simp only [Option.elim_some, andThen, if_neg hn, hs, not_true, if_false,
      sizeText_text hd, fromStrRadix_digits hd]
  · rw [hk.rest, h, dropLine_encode hd]

theorem decode_of_decodeLine {bytes : List UInt8} {text : String} {line : List Char}
    (h : decodeLine text bytes = .ok line) : Utf8.decode bytes = some line := by
  rw [decodeLine] at h
  cases hd : Utf8.decode bytes
  case none   => rw [hd] at h; cases h
  case some t => rw [hd] at h; exact congrArg _ (Except.ok.inj h)

-- A line that is not complete has no size.
theorem readChunkSize_fails (received : Nat) (hl : Live deadline) (bytes : List UInt8)
    (h : newline ∉ c.rest) :
    Fails c (readChunkSize deadline received c) bytes := by
  have ⟨c', text, hr, hk⟩ := readHttpLine_eq c hl
  rw [readChunkSize, hr]
  cases hd : decodeLine text (takeLine c.rest)
  case error => exact .of_keeps hk.slices
  case ok line =>
    -- The decoded line does not end in a newline.
    have hs : ¬['\r', '\n'] <:+ line := by
      intro hs
      have hm : Utf8.ascii newline ∈ line := hs.subset <| by decide
      have hm := Utf8.mem_of_decode (by decide) (decode_of_decodeLine hd) hm
      exact h <| List.mem_of_mem_take hm
    simp only [andThen, hs, not_false_eq_true, if_true]
    split
    case isTrue  => exact .of_keeps hk.slices
    case isFalse => exact .of_keeps hk.slices

end Operations

section Chunks

variable {deadline : Option HttpDeadline} {onBytes : List (List UInt8) → Except String Unit}
variable {c : Connection} {more : List UInt8} {received : Nat} {chunk : Chunk} {body : Body}

-- A beginning of two joined lists is one of the first, or goes on in the second.
theorem prefix_append_cases {α : Type} {p a b : List α} (h : p <+: a ++ b) :
    (p <+: a ∧ p ≠ a) ∨ ∃ q, p = a ++ q ∧ q <+: b := by
  by_cases hl : a.length ≤ p.length
  case pos =>
    have ⟨q, hq⟩ := List.prefix_of_prefix_length_le (List.prefix_append a b) h hl
    rw [←hq, List.prefix_append_right_inj] at h
    exact .inr ⟨q, hq.symm, h⟩
  case neg =>
    have hp := List.prefix_of_prefix_length_le h (List.prefix_append a b) (by omega)
    exact .inl ⟨hp, fun he => hl (he ▸ Nat.le_refl _)⟩

theorem readChunk_ok (received : Nat) (hl : Live deadline)
    (ho : ∀ slices, onBytes slices = .ok ())
    (hw : chunk.WellFormed) (h : c.rest = chunk.encode ++ more) : ∃ total c',
      readChunk deadline onBytes received c = (.ok (some total), c') ∧ c'.rest = more ∧
      c'.slices.flatten = c.slices.flatten ++ chunk.data := by
  rw [Chunk.encode, List.append_assoc, List.append_assoc] at h
  have ⟨c₁, h₁, hk₁⟩ := readChunkSize_ok received hl hw.line h
  have hn : chunk.data.length ≠ 0 := List.length_eq_zero_iff.not.mpr hw.data
  have hd : chunk.data.length ≤ c₁.rest.length := by simp [hk₁.rest]
  have ⟨total, c₂, h₂, hr₂, hf₂⟩ := readChunkData_ok received hl ho hd
  rw [hk₁.rest, List.drop_left] at hr₂
  rw [hk₁.rest, List.take_left, hk₁.slices] at hf₂
  have he : 2 ≤ c₂.rest.length := by simp [hr₂]
  have ⟨c₃, h₃, hk₃⟩ := readHttpExact_ok hl [] he
  rw [hr₂] at h₃ hk₃
  refine ⟨total, c₃, ?_, hk₃.rest, hk₃.slices ▸ hf₂⟩
  rw [readChunk, h₁]
  simp only [andThen, if_neg hn, h₂, h₃, context]
  rfl

theorem Fails.trans {α : Type} {c' : Connection} {x : Outcome α} {bytes bytes' : List UInt8}
    (hf : c'.slices.flatten = c.slices.flatten ++ bytes) (h : Fails c' x bytes') :
    Fails c x (bytes ++ bytes') := by
  have ⟨error, c'', part, hx, hp, hs⟩ := h
  refine ⟨error, c'', bytes ++ part, hx, (List.prefix_append_right_inj bytes).mpr hp, ?_⟩
  rw [hs, hf, List.append_assoc]

theorem Fails.of_slices {α : Type} {c' : Connection} {x : Outcome α} {bytes : List UInt8}
    (hs : c'.slices = c.slices) (h : Fails c' x bytes) : Fails c x bytes := by
  have ⟨error, c'', part, hx, hp, hf⟩ := h
  exact ⟨error, c'', part, hx, hp, hs ▸ hf⟩

theorem Fails.mono {α : Type} {x : Outcome α} {bytes bytes' : List UInt8}
    (h : Fails c x bytes) (hp : bytes <+: bytes') : Fails c x bytes' := by
  have ⟨error, c', part, hx, hp', hs⟩ := h
  exact ⟨error, c', part, hx, hp'.trans hp, hs⟩

theorem length_lt_of_prefix {α : Type} {p a : List α} (hp : p <+: a) (hn : p ≠ a) :
    p.length < a.length :=
  lt_of_le_of_ne hp.length_le fun he => hn (hp.eq_of_length he)

-- What is missing is the rest of the line, of the data, or of the delimiter.
theorem readChunk_fails (received : Nat) (hl : Live deadline)
    (ho : ∀ slices, onBytes slices = .ok ()) (hw : chunk.WellFormed) (h : c.rest <+: chunk.encode)
    (hn : c.rest ≠ chunk.encode) : Fails c (readChunk deadline onBytes received c) chunk.data := by
  rw [Chunk.encode] at h hn
  obtain ⟨hp, hne⟩ | ⟨q, hq, hp⟩ := prefix_append_cases h
  case inl =>
    exact (readChunkSize_fails _ hl _ <| newline_not_mem_of_prefix hw.line hp hne).andThen
  case inr =>
    have ⟨c₁, h₁, hk₁⟩ := readChunkSize_ok received hl hw.line hq
    have hz : chunk.data.length ≠ 0 := List.length_eq_zero_iff.not.mpr hw.data
    rw [readChunk, h₁]
    simp only [andThen, if_neg hz]
    refine Fails.of_slices hk₁.slices ?_
    obtain ⟨hp, hne⟩ | ⟨q', hq', hp'⟩ := prefix_append_cases hp
    case inl =>
      have hd := length_lt_of_prefix hp hne
      exact ((readChunkData_fails _ hl ho (hk₁.rest ▸ hd)).mono (hk₁.rest ▸ hp)).andThen
    case inr =>
      have hd : chunk.data.length ≤ c₁.rest.length := by simp [hk₁.rest, hq']
      have ⟨total, c₂, h₂, hr₂, hf₂⟩ := readChunkData_ok received hl ho hd
      rw [hk₁.rest, hq', List.drop_left] at hr₂
      rw [hk₁.rest, hq', List.take_left] at hf₂
      have hne : q' ≠ [13, 10] := fun he => hn <| by rw [hq, hq', he]
      have hd' : c₂.rest.length < 2 := hr₂ ▸ length_lt_of_prefix hp' hne
      rw [h₂]
      rw [←List.append_nil chunk.data]
      exact Fails.trans hf₂ (readHttpExact_fails hl [] [] hd').context.andThen

-- The whole body is delivered, or the reader fails with a beginning of it.

theorem streamChunks_of_ok {received' : Nat} {c' : Connection}
    (h : readChunk deadline onBytes received c = (.ok (some received'), c')) :
    streamChunks deadline onBytes received c = streamChunks deadline onBytes received' c' := by
  rw [streamChunks]
  split
  case h_1 h' => cases h.symm.trans h'
  case h_2 h' => cases h.symm.trans h'
  case h_3 h' =>
    cases h.symm.trans h'
    rfl

theorem streamChunks_of_last {c' : Connection}
    (h : readChunk deadline onBytes received c = (.ok none, c')) :
    streamChunks deadline onBytes received c = (.ok (), c') := by
  rw [streamChunks]
  split
  case h_1 h' => cases h.symm.trans h'
  case h_2 h' =>
    cases h.symm.trans h'
    rfl
  case h_3 h' => cases h.symm.trans h'

theorem streamChunks_of_fails {bytes : List UInt8}
    (h : Fails c (readChunk deadline onBytes received c) bytes) :
    Fails c (streamChunks deadline onBytes received c) bytes := by
  have ⟨error, c', part, hr, h⟩ := h
  rw [streamChunks]
  split
  case h_1 h' =>
    cases hr.symm.trans h'
    exact ⟨error, c', part, rfl, h⟩
  case h_2 h' => cases hr.symm.trans h'
  case h_3 h' => cases hr.symm.trans h'

theorem streamChunks_ok {chunks : List Chunk} {last : SizeLine} (received : Nat)
    (hl : Live deadline) (ho : ∀ slices, onBytes slices = .ok ())
    (hw : ∀ chunk ∈ chunks, chunk.WellFormed) (hz : last.Denotes 0)
    (h : c.rest = chunks.flatMap Chunk.encode ++ (last.encode ++ more)) : ∃ c',
      streamChunks deadline onBytes received c = (.ok (), c') ∧
      c'.slices.flatten = c.slices.flatten ++ chunks.flatMap Chunk.data := by
  induction chunks generalizing c received
  case nil =>
    have ⟨c', hs, hk⟩ := readChunkSize_ok received hl hz h
    have hr : readChunk deadline onBytes received c = (.ok none, c') := by
      rw [readChunk, hs]
      rfl
    refine ⟨c', streamChunks_of_last hr, ?_⟩
    rw [hk.slices, List.flatMap_nil, List.append_nil]
  case cons chunk chunks hi =>
    have ⟨hc, hw⟩ := List.forall_mem_cons.mp hw
    rw [List.flatMap_cons, List.append_assoc] at h
    have ⟨total, c', hr, hr', hf⟩ := readChunk_ok received hl ho hc h
    have ⟨c'', hs, hf'⟩ := hi total hw hr'
    refine ⟨c'', (streamChunks_of_ok hr).trans hs, ?_⟩
    rw [hf', hf, List.flatMap_cons, List.append_assoc]

theorem streamChunks_fails {chunks : List Chunk} {last : SizeLine} (received : Nat)
    (hl : Live deadline) (ho : ∀ slices, onBytes slices = .ok ())
    (hw : ∀ chunk ∈ chunks, chunk.WellFormed) (hz : last.Denotes 0)
    (h : c.rest <+: chunks.flatMap Chunk.encode ++ last.encode)
    (hn : c.rest ≠ chunks.flatMap Chunk.encode ++ last.encode) :
    Fails c (streamChunks deadline onBytes received c) (chunks.flatMap Chunk.data) := by
  induction chunks generalizing c received
  case nil =>
    exact streamChunks_of_fails <| Fails.andThen <|
      readChunkSize_fails _ hl _ <| newline_not_mem_of_prefix hz h hn
  case cons chunk chunks hi =>
    have ⟨hc, hw⟩ := List.forall_mem_cons.mp hw
    rw [List.flatMap_cons, List.append_assoc] at h hn
    rw [List.flatMap_cons]
    obtain ⟨hp, hne⟩ | ⟨q, hq, hp⟩ := prefix_append_cases h
    case inl =>
      exact (streamChunks_of_fails <| readChunk_fails _ hl ho hc hp hne).mono <|
        List.prefix_append ..
    case inr =>
      have ⟨total, c', hr, hr', hf⟩ := readChunk_ok received hl ho hc hq
      rw [streamChunks_of_ok hr]
      exact Fails.trans hf <| hi total hw (hr' ▸ hp) fun he => hn (by rw [hq, ←he, hr'])

end Chunks

theorem decode_ascii {bytes : List UInt8} (h : ∀ byte ∈ bytes, byte < 128) :
    Utf8.decode bytes = some (bytes.map Utf8.ascii) := by
  induction bytes
  case nil => exact Utf8.decode_nil
  case cons byte bytes hi =>
    have ⟨hb, h⟩ := List.forall_mem_cons.mp h
    rw [Utf8.decode_cons_ascii hb, hi h]
    rfl

def smallBody : Body where
  chunks  := [⟨⟨['3'], some "ext=yes".toList⟩, [97, 98, 99]⟩, ⟨⟨['0', '2'], none⟩, [100, 101]⟩]
  last    := ⟨['0'], none⟩
  trailer := [13, 10]

theorem smallBody_wellFormed : smallBody.WellFormed where
  chunks := List.forall_mem_cons.mpr
    ⟨⟨⟨⟨[3], rfl, by decide, rfl⟩, by decide, by decide⟩, by decide⟩,
      List.forall_mem_singleton.mpr
        ⟨⟨⟨[0, 2], rfl, by decide, rfl⟩, nofun, by decide⟩, by decide⟩⟩
  last   := ⟨⟨[0], rfl, by decide, rfl⟩, nofun, by decide⟩

def connectionOf (bytes : List UInt8) (pace : List Nat) : Connection where
  reader := ⟨[], ⟨bytes, pace⟩⟩
  checks := 0
  slices := []

theorem live_small : Live (some ⟨fun _ => false⟩) := by
  intro d hd _
  cases hd
  rfl

-- An extension may hold bytes that are no text.
def foreignBytes : List UInt8 :=
  [49, 59, 255, 13, 10, 97, 13, 10, 48, 13, 10, 13, 10]

end Backend.HttpBody
