import WerkModel.Backend.SseChunking

-- The framing of event streams: the lines of a stream form blocks that end in a blank line, and
-- each of these blocks is an event.
namespace Backend

open Chunking

section Framing

-- The lines of a stream that have ended, where `line` is the start of the first one.
def splitLines (line : List UInt8) : List UInt8 → List (List UInt8)
  | []            => []
  | byte :: bytes =>
    if byte = lf then
      (if line.getLast? = some cr then line.dropLast else line) :: splitLines [] bytes
    else
      splitLines (line ++ [byte]) bytes

-- The blocks that have ended, where `block` is the start of the first one.
def blocks (block : List (List UInt8)) : List (List UInt8) → List (List (List UInt8))
  | []            => []
  | line :: lines => if line = [] then block :: blocks [] lines else blocks (block ++ [line]) lines

variable {σ : Type*} (onEvent : σ → String → σ × Except String Unit)

def dispatchBlock (s : σ) (block : List (List UInt8)) : σ × Except String Unit :=
  match block.mapM Utf8.decode with
  | none       => (s, .error "OpenAI SSE event is not UTF-8")
  | some lines => dispatchLines onEvent s lines

def dispatchBlocks (s : σ) : List (List (List UInt8)) → σ × Except String Unit
  | []              => (s, .ok ())
  | block :: blocks =>
    match dispatchBlock onEvent s block with
    | (s, .ok _)        => dispatchBlocks s blocks
    | (s, .error error) => (s, .error error)

def frame (s : σ) (stream : List UInt8) : σ × Except String Unit :=
  dispatchBlocks onEvent s (blocks [] (splitLines [] stream))

end Framing

-- A stream with one terminator throughout is a sequence of terminated lines with an open end.
def Plain (line : List UInt8) : Prop :=
  ∀ byte ∈ line, byte ≠ cr ∧ byte ≠ lf

def render (terminator : List UInt8) (lines : List (List UInt8)) (tail : List UInt8) : List UInt8 :=
  (lines.map (· ++ terminator)).flatten ++ tail

variable {σ : Type*} {onEvent : σ → String → σ × Except String Unit} {s s' : σ}
variable {t line tail rest stream : List UInt8} {lines block : List (List UInt8)}

section Render

@[simp]
theorem render_nil : render t [] tail = tail :=
  rfl

theorem render_cons : render t (line :: lines) tail = line ++ (t ++ render t lines tail) := by
  simp [render]

theorem render_append : render t (block ++ lines) tail = render t block (render t lines tail) := by
  simp [render]

theorem exists_render (h : Terminated [t] stream) :
    ∃ lines tail, (∀ line ∈ lines, Plain line) ∧ Plain tail ∧ stream = render t lines tail := by
  induction h
  case nil => exact ⟨[], [], by simp [Plain]⟩
  case byte byte _ hc hl _ hi =>
    have ⟨lines, tail, hp, ht, he⟩ := hi
    rw [he]
    cases lines
    case nil =>
      refine ⟨[], byte :: tail, by simp, ?_, rfl⟩
      exact List.forall_mem_cons.mpr ⟨⟨hc, hl⟩, ht⟩
    case cons line lines =>
      rw [List.forall_mem_cons] at hp
      refine ⟨(byte :: line) :: lines, tail, List.forall_mem_cons.mpr ⟨?_, hp.2⟩, ht, ?_⟩
      · exact List.forall_mem_cons.mpr ⟨⟨hc, hl⟩, hp.1⟩
      · rw [render_cons, render_cons, List.cons_append]
  case line hm _ hi =>
    have ⟨lines, tail, hp, ht, he⟩ := hi
    rw [List.mem_singleton.mp hm, he]
    refine ⟨[] :: lines, tail, List.forall_mem_cons.mpr ⟨by simp [Plain], hp⟩, ht, ?_⟩
    rw [render_cons, List.nil_append]

theorem splitLines_open (h : Plain tail) : splitLines line tail = [] := by
  induction tail generalizing line
  case nil => rfl
  case cons byte tail hi =>
    rw [Plain, List.forall_mem_cons] at h
    rw [splitLines, if_neg h.1.2, hi h.2]

theorem splitLines_plain {start : List UInt8} (h : Plain line) :
    splitLines start (line ++ rest) = splitLines (start ++ line) rest := by
  induction line generalizing start
  case nil => simp
  case cons byte line hi =>
    rw [Plain, List.forall_mem_cons] at h
    rw [List.cons_append, splitLines, if_neg h.1.2, hi h.2, List.append_assoc]
    rfl

theorem splitLines_terminator (ht : t = [lf] ∨ t = crlf) (h : Plain line) :
    splitLines line (t ++ rest) = line :: splitLines [] rest := by
  obtain rfl | rfl := ht
  · rw [List.singleton_append, splitLines, if_pos rfl, if_neg]
    exact fun hc => (h cr (List.mem_of_getLast? hc)).1 rfl
  · rw [crlf, List.cons_append, splitLines, if_neg cr_ne_lf, List.singleton_append, splitLines,
      if_pos rfl, if_pos (by simp), List.dropLast_concat]

theorem splitLines_render (ht : t = [lf] ∨ t = crlf) (h : ∀ line ∈ lines, Plain line)
    (hp : Plain tail) : splitLines [] (render t lines tail) = lines := by
  induction lines
  case nil => exact splitLines_open hp
  case cons line lines hi =>
    rw [List.forall_mem_cons] at h
    rw [render_cons, splitLines_plain h.1, List.nil_append, splitLines_terminator ht h.1, hi h.2]

theorem mixed_render (ht : t = [lf] ∨ t = crlf) (h : ∀ line ∈ lines, Plain line)
    (hp : Plain tail) : Terminated.Mixed (render t lines tail) := by
  have plain {line rest : List UInt8} (h : Plain line) (hr : Terminated.Mixed rest) :
      Terminated.Mixed (line ++ rest) := by
    induction line
    case nil => exact hr
    case cons _ _ hi =>
      rw [Plain, List.forall_mem_cons] at h
      exact .byte h.1.1 h.1.2 (hi h.2)
  induction lines
  case nil =>
    have hm := plain hp .nil
    rwa [List.append_nil] at hm
  case cons line lines hi =>
    rw [List.forall_mem_cons] at h
    rw [render_cons]
    exact plain h.1 (.line (by simpa using ht) (hi h.2))

end Render

-- Blocks have lines that are plain and not blank.
def Filled (block : List (List UInt8)) : Prop :=
  ∀ line ∈ block, Plain line ∧ line ≠ []

theorem filled_nil : Filled [] := by
  simp [Filled]

-- The bytes of a block, without the terminator of its last line.
def joined (t : List UInt8) (line : List UInt8) : List (List UInt8) → List UInt8
  | []           => line
  | next :: rest => line ++ (t ++ joined t next rest)

section Boundary

theorem findSseBoundary_plain (h : Plain line) :
    findSseBoundary (line ++ rest) = (findSseBoundary rest).map (· + line.length) := by
  induction line
  case nil => simp
  case cons byte line hi =>
    rw [Plain, List.forall_mem_cons] at h
    rw [List.cons_append, findSseBoundary_byte h.1.1 h.1.2, hi h.2, Option.map_map]
    rfl

theorem not_newline_of_filled (rest : List UInt8) (h : Plain line) (hn : line ≠ []) :
    ¬[lf] <+: line ++ rest ∧ ¬crlf <+: line ++ rest := by
  have ⟨byte, line', he⟩ := List.exists_cons_of_ne_nil hn
  have ⟨hc, hl⟩ := h byte (he ▸ List.mem_cons_self)
  simp [he, crlf, List.cons_prefix_cons, hc.symm, hl.symm]

theorem not_newline_render (h : Filled block) (hp : Plain tail) :
    ¬[lf] <+: render t block tail ∧ ¬crlf <+: render t block tail := by
  cases block
  case nil =>
    by_cases hn : tail = []
    case pos => simp [hn, crlf]
    case neg => simpa using not_newline_of_filled [] hp hn
  case cons line block =>
    have h := h line List.mem_cons_self
    rw [render_cons]
    exact not_newline_of_filled _ h.1 h.2

theorem findSseBoundary_terminator (ht : t = [lf] ∨ t = crlf) (h : ¬[lf] <+: rest ∧ ¬crlf <+: rest) :
    findSseBoundary (t ++ rest) = (findSseBoundary rest).map (· + t.length) := by
  obtain rfl | rfl := ht
  · exact findSseBoundary_lf h.1
  · exact findSseBoundary_crlf h.1 h.2

theorem findSseBoundary_blank (ht : t = [lf] ∨ t = crlf) :
    findSseBoundary (t ++ (t ++ rest)) = some 0 := by
  obtain rfl | rfl := ht
  · exact findSseBoundary_lf_lf
  · exact findSseBoundary_crlf_crlf

theorem findSseBoundary_open (ht : t = [lf] ∨ t = crlf) (h : Filled block) (hp : Plain tail) :
    findSseBoundary (render t block tail) = none := by
  induction block
  case nil =>
    have hf : findSseBoundary (tail ++ []) = _ := findSseBoundary_plain hp
    rwa [List.append_nil, findSseBoundary_nil] at hf
  case cons line block hi =>
    have hb : Filled block := fun line hl => h line (List.mem_cons_of_mem _ hl)
    rw [render_cons, findSseBoundary_plain (h line List.mem_cons_self).1,
      findSseBoundary_terminator ht (not_newline_render hb hp), hi hb]
    rfl

theorem render_block : render t (line :: block) tail = joined t line block ++ (t ++ tail) := by
  induction block generalizing line
  case nil => rw [render_cons, render_nil, joined]
  case cons next block hi => rw [render_cons, hi, joined, List.append_assoc, List.append_assoc]

-- The boundary of a block is its last terminator, which a blank line follows.
theorem findSseBoundary_block (ht : t = [lf] ∨ t = crlf) (h : Filled (line :: block)) :
    findSseBoundary (joined t line block ++ (t ++ (t ++ rest))) =
      some (joined t line block).length := by
  induction block generalizing line
  case nil =>
    rw [joined, findSseBoundary_plain (h line List.mem_cons_self).1, findSseBoundary_blank ht]
    simp
  case cons next block hi =>
    have hb : Filled (next :: block) := fun line hl => h line (List.mem_cons_of_mem _ hl)
    have hn : ¬[lf] <+: joined t next block ++ (t ++ (t ++ rest)) ∧
        ¬crlf <+: joined t next block ++ (t ++ (t ++ rest)) := by
      rw [←render_block, render_cons]
      exact not_newline_of_filled _ (hb next List.mem_cons_self).1 (hb next List.mem_cons_self).2
    rw [joined, List.append_assoc, findSseBoundary_plain (h line List.mem_cons_self).1,
      List.append_assoc, findSseBoundary_terminator ht hn, hi hb]
    simp only [Option.map_some, List.length_append]
    congr 1
    omega

end Boundary

section Dispatch

theorem newline_notMem {text : List Char} (h : Plain line) (hd : Utf8.decode line = some text) :
    '\n' ∉ text ∧ '\r' ∉ text :=
  have hl : lf < 128 := by decide
  have hc : cr < 128 := by decide
  ⟨fun hm => (h lf (Utf8.mem_of_decode hl hd hm)).2 rfl,
    fun hm => (h cr (Utf8.mem_of_decode hc hd hm)).1 rfl⟩

theorem stripCr_of_notMem {text : List Char} (h : '\r' ∉ text) : stripCr text = text :=
  if_neg fun hl => h (List.mem_of_getLast? hl)

theorem decode_terminator (ht : t = [lf] ∨ t = crlf) : Utf8.decode (line ++ (t ++ rest)) =
    (Utf8.decode line).bind fun text => (Utf8.decode rest).map fun text' =>
      text ++ (t.map Utf8.ascii ++ text') := by
  obtain rfl | rfl := ht
  · exact Utf8.decode_append_ascii (by decide)
  · rw [crlf, List.cons_append, List.singleton_append, Utf8.decode_append_ascii (by decide),
      Utf8.decode_cons_ascii (by decide)]
    simp [Function.comp_def]

theorem lines_terminator {text text' : List Char} (ht : t = [lf] ∨ t = crlf) (hn : '\n' ∉ text)
    (hr : '\r' ∉ text) : Backend.lines (text ++ (t.map Utf8.ascii ++ text')) =
      text :: Backend.lines text' := by
  obtain rfl | rfl := ht
  · refine (linesFrom_terminated hn).trans ?_
    rw [List.nil_append, stripCr_of_notMem hr]
    rfl
  · have he : text ++ (crlf.map Utf8.ascii ++ text') = (text ++ ['\r']) ++ '\n' :: text' := by
      rw [List.append_assoc]
      rfl
    rw [he]
    refine (linesFrom_terminated (by simp [hn])).trans ?_
    rw [List.nil_append, stripCr, if_pos (by simp), List.dropLast_concat]

-- The lines of a block as texts.
theorem lines_joined (ht : t = [lf] ∨ t = crlf) (h : Filled (line :: block)) :
    (Utf8.decode (joined t line block)).map Backend.lines =
      (line :: block).mapM Utf8.decode := by
  have ⟨hp, hne⟩ := h line List.mem_cons_self
  induction block generalizing line
  case nil =>
    rw [joined, List.mapM_cons, List.mapM_nil]
    cases hd : Utf8.decode line
    case none      => rfl
    case some text =>
      have hn : text ≠ [] := fun he => hne (by rw [Utf8.decode_eq_some.mp hd, he]; rfl)
      refine congrArg some ((linesFrom_unterminated (newline_notMem hp hd).1).trans ?_)
      rw [List.nil_append, if_neg hn]
  case cons next block hi =>
    have hb : Filled (next :: block) := fun line hl => h line (List.mem_cons_of_mem _ hl)
    have ⟨hp', hne'⟩ := hb next List.mem_cons_self
    rw [joined, decode_terminator ht, List.mapM_cons, ←hi hb hp' hne']
    cases hd : Utf8.decode line
    case none      => rfl
    case some text =>
      have ⟨hn, hr⟩ := newline_notMem hp hd
      cases Utf8.decode (joined t next block)
      case none => rfl
      case some => exact congrArg some (lines_terminator ht hn hr)

theorem dispatch_joined (ht : t = [lf] ∨ t = crlf) (h : Filled (line :: block)) :
    dispatch onEvent s (joined t line block) = dispatchBlock onEvent s (line :: block) := by
  rw [dispatch, dispatchBlock, ←lines_joined ht h]
  cases Utf8.decode (joined t line block)
  case none => rfl
  case some => rfl

end Dispatch

theorem drain_terminator (ht : t = [lf] ∨ t = crlf) (hm : Terminated.Mixed rest) :
    (drain onEvent (t ++ rest) s).2 = (drain onEvent rest s).2 := by
  obtain rfl | rfl := ht
  · exact drain_lf fun _ => drain_dropNewlines hm
  · exact drain_crlf fun _ => drain_dropNewlines hm

theorem dropNewlines_terminator (ht : t = [lf] ∨ t = crlf) :
    dropNewlines (t ++ rest) = dropNewlines rest := by
  obtain rfl | rfl := ht
  · exact dropNewlines_append (by simp [isNewline])
  · exact dropNewlines_append (by simp [isNewline, crlf])

-- By induction on the lines that follow a block which has not ended yet.
theorem drain_render (ht : t = [lf] ∨ t = crlf) (h : ∀ line ∈ lines, Plain line)
    (hb : Filled block) (hp : Plain tail) :
    (drain onEvent (render t (block ++ lines) tail) s).2 =
      dispatchBlocks onEvent s (blocks block lines) := by
  induction lines generalizing block s
  case nil =>
    rw [List.append_nil, drain_of_none (findSseBoundary_open ht hb hp)]
    rfl
  case cons line lines hi =>
    rw [List.forall_mem_cons] at h
    have hm := mixed_render ht h.2 hp
    by_cases hl : line = []
    case neg =>
      rw [blocks, if_neg hl, ←hi h.2 (List.forall_mem_append.mpr ⟨hb, by simp [h.1, hl]⟩)]
      rw [List.append_assoc, List.singleton_append]
    case pos =>
      rw [blocks, if_pos hl, hl, render_append, render_cons, List.nil_append]
      cases block
      case nil =>
        rw [render_nil, drain_terminator ht hm, dispatchBlocks]
        exact hi h.2 filled_nil
      case cons first block =>
        rw [render_block, dispatchBlocks, ←dispatch_joined ht hb]
        rcases hd : dispatch onEvent s (joined t first block) with ⟨s', error | _⟩
        · rw [drain_of_error (findSseBoundary_block ht hb) (by rw [List.take_left, hd])]
        · rw [drain_of_ok (findSseBoundary_block ht hb) (by rw [List.take_left, hd]), List.drop_left,
            dropNewlines_terminator ht, dropNewlines_terminator ht, drain_dropNewlines hm]
          exact hi h.2 filled_nil

theorem drain_eq_frame (ht : t = [lf] ∨ t = crlf) (h : Terminated [t] stream) :
    (drain onEvent stream s).2 = frame onEvent s stream := by
  have ⟨lines, tail, hl, hp, he⟩ := exists_render h
  rw [frame, he, splitLines_render ht hl hp]
  exact drain_render ht hl filled_nil hp

-- The callback and its state are arbitrary, so that it may record the payloads that it receives.
theorem sse_decoding {chunks : List (List UInt8)} (hm : Terminated.Mixed chunks.flatten)
    (hb : chunks.flatten.length ≤ maxEventBytes) :
    run (SseAccumulator.push onEvent) ⟨[]⟩ chunks s =
      (SseAccumulator.push onEvent ⟨[]⟩ chunks.flatten s).2 ∧
    ∀ t, t = [lf] ∨ t = crlf → Terminated [t] chunks.flatten →
      run (SseAccumulator.push onEvent) ⟨[]⟩ chunks s = frame onEvent s chunks.flatten := by
  have he : run (SseAccumulator.push onEvent) ⟨[]⟩ chunks s = _ := run_push hm hb
  refine ⟨he, ?_⟩
  intro t ht h
  rw [he, push_of_le hb]
  exact drain_eq_frame ht h

section Examples

def record (payloads : List String) (payload : String) : List String × Except String Unit :=
  (payloads ++ [payload], .ok ())

def smallChunks : List (List UInt8) :=
  [[100, 97, 116, 97], [58, 97, 10], [10, 100]]

theorem smallChunks_terminated {terminators : List (List UInt8)} (h : [lf] ∈ terminators) :
    Terminated terminators smallChunks.flatten := by
  have line {rest : List UInt8} (t : Terminated terminators rest) :
    Terminated terminators (lf :: rest) := @Terminated.line _ [lf] _ h t
  have byte {byte : UInt8} {rest : List UInt8} (hn : byte ≠ cr ∧ byte ≠ lf)
    (t : Terminated terminators rest) : Terminated terminators (byte :: rest) := .byte hn.1 hn.2 t
  exact byte (by decide) <| byte (by decide) <| byte (by decide) <| byte (by decide) <|
    byte (by decide) <| byte (by decide) <| line <| line <| byte (by decide) .nil

theorem sse_decoding_small :
    run (SseAccumulator.push record) ⟨[]⟩ smallChunks [] = (["a"], .ok ()) := by
  have ⟨_, h⟩ : _ ∧ ∀ t, t = [lf] ∨ t = crlf → Terminated [t] smallChunks.flatten →
      run (SseAccumulator.push record) ⟨[]⟩ smallChunks [] =
        frame record [] smallChunks.flatten :=
    sse_decoding (smallChunks_terminated (by decide)) (by decide)
  rw [h [lf] (.inl rfl) (smallChunks_terminated (by decide))]
  decide +kernel

end Examples
end Backend
