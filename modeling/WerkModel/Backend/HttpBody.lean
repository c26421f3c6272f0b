import WerkModel.Backend.Text
import WerkModel.Lib.Reading
import WerkModel.Lib.Saturating
import WerkModel.Lib.Utf8

-- The body of an HTTP response, which is streamed from a buffered socket.
open Reading

namespace Backend.HttpBody

def usizeMax : Nat := 2 ^ 64 - 1

def bufferBytes : Nat := 8192

-- Whether a deadline has expired when it is checked for the given number of times before.
structure HttpDeadline where
  expired : Nat → Bool

-- The state of a connection, with the slices that its consumer was handed.
structure Connection where
  reader : Reader UInt8
  checks : Nat
  slices : List (List UInt8)

namespace Connection

-- The bytes that are still to come.
def rest (c : Connection) : List UInt8 :=
  c.reader.rest

def fillBuf (c : Connection) : Connection :=
  { c with reader := c.reader.fillBuf bufferBytes }

def consume (count : Nat) (c : Connection) : Connection :=
  { c with reader := c.reader.consume count }

end Connection

-- A failed operation changes the connection as well.
abbrev Outcome (α : Type) := Except String α × Connection

def andThen {α β : Type} (x : Outcome α) (f : α → Connection → Outcome β) : Outcome β :=
  match x with
  | (.ok a, c)        => f a c
  | (.error error, c) => (.error error, c)

def context {α : Type} (text : String) (x : Outcome α) : Outcome α :=
  match x with
  | (.ok a, c)    => (.ok a, c)
  | (.error _, c) => (.error text, c)

section Operations

variable (deadline : Option HttpDeadline)

-- The read timeout of the socket is what remains until the deadline.
def setReadTimeout (c : Connection) : Outcome Unit :=
  match deadline with
  | none          => (.ok (), c)
  | some deadline =>
    let c' := { c with checks := c.checks + 1 }
    if deadline.expired c.checks then
      (.error "OpenAI backend HTTP probe timed out", c')
    else
      (.ok (), c')

theorem rest_setReadTimeout (c : Connection) : (setReadTimeout deadline c).2.rest = c.rest := by
  cases deadline
  case none => rfl
  case some =>
    rw [setReadTimeout]
    split <;> rfl

def newline : UInt8 := 10

def decodeLine (error : String) (bytes : List UInt8) : Except String (List Char) :=
  (Utf8.decode bytes).elim (.error error) .ok

-- The line reader of the standard library.
def readLine (c : Connection) : Outcome (List Char) :=
  let (bytes, reader) := c.reader.readUntil (· = newline) bufferBytes []
  (decodeLine "stream did not contain valid UTF-8" bytes, { c with reader })

-- The line reader that checks the deadline whenever the buffer is filled.
def readTimedLine (c : Connection) (bytes : List UInt8) : Outcome (List Char) :=
  match _h : setReadTimeout deadline c with
  | (.error error, c) => (.error error, c)
  | (.ok (), c)       =>
    let buffer := c.fillBuf.reader.buffer
    let count := Reader.lineLength (· = newline) buffer
    let line := bytes ++ buffer.take count
    if _h : buffer = [] then
      (decodeLine "OpenAI backend returned a non-UTF-8 HTTP header" bytes, c.fillBuf)
    else if (buffer.take count).getLast? = some newline then
      (decodeLine "OpenAI backend returned a non-UTF-8 HTTP header" line, c.fillBuf.consume count)
    else
      readTimedLine (c.fillBuf.consume count) line
termination_by c.rest.length
decreasing_by
  have hr := (congrArg (·.2.rest) ‹setReadTimeout deadline _ = _›).symm.trans
    (rest_setReadTimeout deadline _)
  exact (Reader.length_rest_line_lt _ ‹_›).trans_eq (congrArg _ hr)

def readHttpLine (c : Connection) : Outcome (List Char) :=
  match deadline with
  | none   => readLine c
  | some _ => readTimedLine deadline c []

def readHttpBytes (count : Nat) (c : Connection) : Outcome (List UInt8) :=
  andThen (setReadTimeout deadline c) fun _ c =>
    let (bytes, reader) := c.reader.read bufferBytes count
    (.ok bytes, { c with reader })

-- The number of bytes that are left to fill, and what was filled.
def readHttpExact (count : Nat) (filled : List UInt8) (c : Connection) : Outcome (List UInt8) :=
  if count = 0 then
    (.ok filled, c)
  else
    match readHttpBytes deadline count c with
    | (.error error, c)        => (.error error, c)
    | (.ok [], c)              => (.error "OpenAI backend HTTP response ended unexpectedly", c)
    | (.ok (byte :: bytes), c) =>
      readHttpExact (count - (bytes.length + 1)) (filled ++ byte :: bytes) c
termination_by count

end Operations

def digit? (radix : Nat) (c : Char) : Option Nat :=
  let digit :=
    if c.isDigit then some (c.toNat - '0'.toNat)
    else if 'a' ≤ c ∧ c ≤ 'z' then some (c.toNat - 'a'.toNat + 10)
    else if 'A' ≤ c ∧ c ≤ 'Z' then some (c.toNat - 'A'.toNat + 10)
    else none
  digit.filter (· < radix)

def digitsValue (radix : Nat) (digits : List Nat) : Nat :=
  digits.foldl (fun value digit => value * radix + digit) 0

-- Numbers may have a sign, and must fit into a word.
def fromStrRadix (radix : Nat) (text : List Char) : Option Nat := do
  let digits ← (if text.head? = some '+' then text.tail else text).mapM (digit? radix)
  if digits = [] ∨ usizeMax < digitsValue radix digits then
    none
  else
    return digitsValue radix digits

-- The size is followed by the extension, if there is one.
def sizeText (line : List Char) : List Char :=
  (trim line).takeWhile (· ≠ ';')

section Bodies

-- The consumer of a body, from the slices that it was handed, sees the last one.
variable (deadline : Option HttpDeadline) (onBytes : List (List UInt8) → Except String Unit)

def readChunkSize (received : Nat) (c : Connection) : Outcome Nat :=
  andThen (readHttpLine deadline c) fun line c =>
    if line = [] then
      (.error <| "OpenAI backend connection closed before the terminating HTTP chunk (" ++
        toString received ++ " body bytes received); response incomplete", c)
    else if ¬['\r', '\n'] <:+ line then
      (.error "OpenAI backend returned an incomplete HTTP chunk-size line", c)
    else
      match fromStrRadix 16 (sizeText line) with
      | none      => (.error "OpenAI backend returned an invalid HTTP chunk-size line", c)
      | some size => (.ok size, c)

def deliver (bytes : List UInt8) (c : Connection) : Outcome Unit :=
  let c := { c with slices := c.slices ++ [bytes] }
  (onBytes c.slices, c)

def readChunkData (remaining received : Nat) (c : Connection) : Outcome Nat :=
  if remaining = 0 then
    (.ok received, c)
  else
    let count := min remaining bufferBytes
    andThen (context "OpenAI backend HTTP chunk body interrupted; response incomplete" <|
        readHttpExact deadline count [] c) fun bytes c =>
      andThen (deliver onBytes bytes c) fun _ c =>
        readChunkData (remaining - count) (min usizeMax (received + count)) c
termination_by remaining
decreasing_by
  rw [bufferBytes]
  omega

-- The bytes that were received with this chunk, or none for the last chunk.
def readChunk (received : Nat) (c : Connection) : Outcome (Option Nat) :=
  andThen (readChunkSize deadline received c) fun size c =>
    if size = 0 then
      (.ok none, c)
    else
      andThen (readChunkData deadline onBytes size received c) fun received c =>
        andThen (context "OpenAI backend HTTP chunk delimiter interrupted; response incomplete" <|
            readHttpExact deadline 2 [] c) fun crlf c =>
          if crlf = [13, 10] then
            (.ok (some received), c)
          else
            (.error "invalid OpenAI HTTP chunk delimiter", c)

end Bodies

-- No operation puts bytes back, and a line takes some.
section Rest

variable {deadline : Option HttpDeadline} {onBytes : List (List UInt8) → Except String Unit}
variable {c c' : Connection} {count : Nat} {bytes : List UInt8} {line : List Char} {α β : Type}

def Reads (c : Connection) (x : Outcome α) : Prop :=
  x.2.rest <:+ c.rest

theorem Reads.refl {x : Outcome α} (h : x.2 = c) : Reads c x :=
  h ▸ List.suffix_rfl

theorem Reads.andThen {x : Outcome α} {f : α → Connection → Outcome β} (h : Reads c x)
    (hf : ∀ a c', x = (.ok a, c') → Reads c' (f a c')) : Reads c (andThen x f) := by
  obtain ⟨_ | a, c'⟩ := x
  case error => exact h
  case ok    => exact (hf a c' rfl).trans h

theorem Reads.context {text : String} {x : Outcome α} (h : Reads c x) :
    Reads c (context text x) := by
  obtain ⟨_ | a, c'⟩ := x
  case error => exact h
  case ok    => exact h

theorem andThen_eq_ok {x : Outcome α} {f : α → Connection → Outcome β} {b : β} :
    andThen x f = (.ok b, c) ↔ ∃ a c', x = (.ok a, c') ∧ f a c' = (.ok b, c) := by
  obtain ⟨_ | a, c'⟩ := x
  case error => exact iff_of_false nofun nofun
  case ok    => exact ⟨fun h => ⟨a, c', rfl, h⟩, fun ⟨_, _, he, h⟩ => by cases he; exact h⟩

theorem reads_setReadTimeout : Reads c (setReadTimeout deadline c) := by
  rw [Reads, rest_setReadTimeout]

theorem reads_readHttpBytes : Reads c (readHttpBytes deadline count c) := by
  refine reads_setReadTimeout.andThen fun _ c' _ => ?_
  exact ⟨_, Reader.read_append⟩

theorem Reads.suffix {x : Outcome α} {r : Except String α} (hx : Reads c x) (h : x = (r, c')) :
    c'.rest <:+ c.rest := by
  rwa [Reads, h] at hx

theorem reads_readHttpExact {filled : List UInt8} :
    Reads c (readHttpExact deadline count filled c) := by
  fun_induction readHttpExact deadline count filled c
  case case1      => exact .refl rfl
  case case2 h    => exact reads_readHttpBytes.suffix h
  case case3 h    => exact reads_readHttpBytes.suffix h
  case case4 h hi => exact hi.trans <| reads_readHttpBytes.suffix h

theorem reads_readChunkData {remaining received : Nat} :
    Reads c (readChunkData deadline onBytes remaining received c) := by
  induction remaining using Nat.strong_induction_on generalizing received c
  case h remaining hi =>
    rw [readChunkData]
    split
    case isTrue => exact .refl rfl
    case isFalse hr =>
      refine reads_readHttpExact.context.andThen fun bytes c' _ => ?_
      refine Reads.andThen List.suffix_rfl fun _ c' _ => hi _ ?_
      rw [bufferBytes]
      omega

-- A deadline that does not expire.
def Live (deadline : Option HttpDeadline) : Prop :=
  ∀ d ∈ deadline, ∀ checks, d.expired checks = false

def takeLine (bytes : List UInt8) : List UInt8 :=
  bytes.take (Reader.lineLength (· = newline) bytes)

def dropLine (bytes : List UInt8) : List UInt8 :=
  bytes.drop (Reader.lineLength (· = newline) bytes)

-- What an operation leaves alone when the deadline does not expire.
structure Keeps (c c' : Connection) (rest : List UInt8) : Prop where
  rest   : c'.rest = rest
  slices : c'.slices = c.slices

theorem setReadTimeout_cases (deadline : Option HttpDeadline) (c : Connection) :
    (∃ c', setReadTimeout deadline c = (.error "OpenAI backend HTTP probe timed out", c') ∧
      ¬Live deadline ∧ c'.slices = c.slices) ∨
    ∃ c', setReadTimeout deadline c = (.ok (), c') ∧ Keeps c c' c.rest := by
  cases deadline
  case none => exact .inr ⟨c, rfl, rfl, rfl⟩
  case some d =>
    rw [setReadTimeout]
    split
    case isTrue h  => exact .inl ⟨_, rfl, fun hl => absurd (h.symm.trans (hl d rfl _)) nofun, rfl⟩
    case isFalse h => exact .inr ⟨_, rfl, rfl, rfl⟩

theorem readLine_eq (c : Connection) : ∃ c', readLine c =
    (decodeLine "stream did not contain valid UTF-8" (takeLine c.rest), c') ∧
    Keeps c c' (dropLine c.rest) := by
  have ⟨reader, hr, he⟩ : ∃ reader, c.reader.readUntil (· = newline) bufferBytes [] = _ ∧ _ :=
    Reader.readUntil_eq (by decide) []
  rw [readLine, hr]
  exact ⟨_, rfl, he, rfl⟩

theorem readTimedLine_cases (deadline : Option HttpDeadline) (c : Connection) (bytes : List UInt8) :
    (∃ c', readTimedLine deadline c bytes =
      (.error "OpenAI backend HTTP probe timed out", c') ∧ ¬Live deadline ∧
      c'.slices = c.slices) ∨
    ∃ c', readTimedLine deadline c bytes = (decodeLine
      "OpenAI backend returned a non-UTF-8 HTTP header" (bytes ++ takeLine c.rest), c') ∧
      Keeps c c' (dropLine c.rest) := by
  fun_induction readTimedLine deadline c bytes
  case case1 c _ error c' h =>
    obtain ⟨_, h', hl⟩ | ⟨_, h', _⟩ := setReadTimeout_cases deadline c
    all_goals cases h.symm.trans h'
    exact .inl ⟨_, rfl, hl⟩
  case case2 c bytes c' h buffer he =>
    obtain ⟨_, h', hl⟩ | ⟨_, h', hk⟩ := setReadTimeout_cases deadline c
    all_goals cases h.symm.trans h'
    have hr : c.rest = [] := hk.rest.symm.trans <| (Reader.fillBuf_eq_nil (by decide)).mp he
    have hf : c'.fillBuf.rest = c'.rest := Reader.rest_fillBuf
    rw [hr, takeLine, dropLine, List.take_nil, List.drop_nil, List.append_nil]
    exact .inr ⟨_, rfl, hf.trans (hk.rest.trans hr), hk.slices⟩
  case case3 c bytes c' h buffer count line _ he =>
    obtain ⟨_, h', hl⟩ | ⟨_, h', hk⟩ := setReadTimeout_cases deadline c
    all_goals cases h.symm.trans h'
    have hf : c'.fillBuf.rest = c.rest := Reader.rest_fillBuf.trans hk.rest
    have hl : takeLine c'.fillBuf.rest = buffer.take count ∧
        dropLine c'.fillBuf.rest = (c'.fillBuf.consume count).rest :=
      Reader.take_line_of_any <| Reader.getLast?_line.mp he
    rw [←hf, hl.1, hl.2]
    exact .inr ⟨_, rfl, rfl, hk.slices⟩
  case case4 c bytes c' h buffer count line _ he hi =>
    obtain ⟨_, h', hl⟩ | ⟨_, h', hk⟩ := setReadTimeout_cases deadline c
    all_goals cases h.symm.trans h'
    have hf : c'.fillBuf.rest = c.rest := Reader.rest_fillBuf.trans hk.rest
    have hl : takeLine c'.fillBuf.rest =
          buffer.take count ++ takeLine (c'.fillBuf.consume count).rest ∧
        dropLine c'.fillBuf.rest = dropLine (c'.fillBuf.consume count).rest :=
      Reader.take_line_of_not_any <| Bool.eq_false_iff.mpr fun ha =>
        he <| Reader.getLast?_line.mpr ha
    rw [←hf, hl.1, hl.2, ←List.append_assoc]
    exact hi.imp (fun ⟨c'', hr, hl, hs⟩ => ⟨c'', hr, hl, hs.trans hk.slices⟩)
      fun ⟨c'', hr, hk'⟩ => ⟨c'', hr, hk'.rest, hk'.slices.trans hk.slices⟩

theorem readHttpLine_cases (deadline : Option HttpDeadline) (c : Connection) :
    (∃ c', readHttpLine deadline c = (.error "OpenAI backend HTTP probe timed out", c') ∧
      ¬Live deadline ∧ c'.slices = c.slices) ∨
    ∃ c' text, readHttpLine deadline c = (decodeLine text (takeLine c.rest), c') ∧
      Keeps c c' (dropLine c.rest) := by
  cases deadline
  case none =>
    have ⟨c', h⟩ := readLine_eq c
    exact .inr ⟨c', _, h⟩
  case some d =>
    exact (readTimedLine_cases _ c []).imp_right fun ⟨c', h⟩ => ⟨c', _, h⟩

theorem readHttpLine_lt (h : readHttpLine deadline c = (.ok line, c')) (hl : line ≠ []) :
    c'.rest.length < c.rest.length := by
  obtain ⟨_, h', _⟩ | ⟨_, text, h', hk⟩ := readHttpLine_cases deadline c
  case inl => cases h.symm.trans h'
  case inr =>
    have ⟨hd, hc⟩ := Prod.mk.inj <| h.symm.trans h'
    -- Without a line, there is nothing left to read.
    have hr : c.rest ≠ [] := by
      intro hr
      rw [hr, takeLine, List.take_nil] at hd
      exact hl (Except.ok.inj hd)
    rw [hc, hk.rest, dropLine, List.length_drop]
    exact Nat.sub_lt (List.length_pos_of_ne_nil hr) (Reader.lineLength_pos hr)

theorem readChunkSize_lt {size received : Nat}
    (h : readChunkSize deadline received c = (.ok size, c')) :
    c'.rest.length < c.rest.length := by
  have ⟨line, c'', hl, h⟩ := andThen_eq_ok.mp h
  split at h
  case isTrue => cases h
  case isFalse hn =>
    split at h
    case isTrue => cases h
    case isFalse =>
      split at h
      case h_1 => cases h
      case h_2 =>
        cases h
        exact readHttpLine_lt hl hn

theorem readChunk_lt {received received' : Nat}
    (h : readChunk deadline onBytes received c = (.ok (some received'), c')) :
    c'.rest.length < c.rest.length := by
  have ⟨size, c₁, hs, h⟩ := andThen_eq_ok.mp h
  split at h
  case isTrue => cases h
  case isFalse =>
    have ⟨_, c₂, hd, h⟩ := andThen_eq_ok.mp h
    have ⟨_, c₃, he, h⟩ := andThen_eq_ok.mp h
    have hr := readChunkSize_lt hs
    have hr' := (reads_readChunkData.suffix hd).length_le
    have hr'' := (reads_readHttpExact.context.suffix he).length_le
    split at h
    case isTrue =>
      cases h
      omega
    case isFalse => cases h

-- What a read returns is the beginning of what is left, and it returns something if it can.
structure Took (c c' : Connection) (count : Nat) (bytes : List UInt8) : Prop where
  append : bytes ++ c'.rest = c.rest
  length : bytes.length ≤ count
  empty  : 0 < count → (bytes = [] ↔ c.rest = [])
  slices : c'.slices = c.slices

theorem readHttpBytes_cases (deadline : Option HttpDeadline) (count : Nat) (c : Connection) :
    (∃ c', readHttpBytes deadline count c = (.error "OpenAI backend HTTP probe timed out", c') ∧
      ¬Live deadline ∧ c'.slices = c.slices) ∨
    ∃ bytes c', readHttpBytes deadline count c = (.ok bytes, c') ∧ Took c c' count bytes := by
  obtain ⟨c', h, hl⟩ | ⟨c', h, hk⟩ := setReadTimeout_cases deadline c
  case inl =>
    rw [readHttpBytes, h]
    exact .inl ⟨c', rfl, hl⟩
  case inr =>
    rw [readHttpBytes, h]
    refine .inr ⟨_, _, rfl, Reader.read_append.trans hk.rest, Reader.length_read, fun hc => ?_,
      hk.slices⟩
    rw [←hk.rest]
    exact Reader.read_eq_nil (by decide) hc

theorem readHttpBytes_lt {byte : UInt8}
    (h : readHttpBytes deadline count c = (.ok (byte :: bytes), c')) :
    c'.rest.length < c.rest.length := by
  obtain ⟨_, h', _⟩ | ⟨_, _, h', ht⟩ := readHttpBytes_cases deadline count c
  all_goals cases h.symm.trans h'
  rw [←ht.append, List.length_append, List.length_cons]
  omega

end Rest

section Bodies

variable (deadline : Option HttpDeadline) (onBytes : List (List UInt8) → Except String Unit)

def streamChunks (received : Nat) (c : Connection) : Outcome Unit :=
  match _h : readChunk deadline onBytes received c with
  | (.error error, c)       => (.error error, c)
  | (.ok none, c)           => (.ok (), c)
  | (.ok (some received), c) => streamChunks received c
termination_by c.rest.length
decreasing_by exact readChunk_lt ‹_›

def streamLength (remaining : Nat) (c : Connection) : Outcome Unit :=
  if remaining = 0 then
    (.ok (), c)
  else
    match readHttpBytes deadline (min remaining bufferBytes) c with
    | (.error error, c)        => (.error error, c)
    | (.ok [], c)              =>
      (.error "OpenAI backend HTTP response ended before Content-Length bytes were received", c)
    | (.ok (byte :: bytes), c) =>
      andThen (deliver onBytes (byte :: bytes) c) fun _ c =>
        streamLength (remaining - (bytes.length + 1)) c
termination_by remaining

def streamToEnd (c : Connection) : Outcome Unit :=
  match _h : readHttpBytes deadline bufferBytes c with
  | (.error error, c)        => (.error error, c)
  | (.ok [], c)              => (.ok (), c)
  | (.ok (byte :: bytes), c) =>
    match onBytes (c.slices ++ [byte :: bytes]) with
    | .error error => (.error error, { c with slices := c.slices ++ [byte :: bytes] })
    | .ok ()       => streamToEnd { c with slices := c.slices ++ [byte :: bytes] }
termination_by c.rest.length
decreasing_by
  have h := readHttpBytes_lt ‹readHttpBytes _ _ _ = _›
  exact h

-- Header names are compared without regard to the case of ASCII letters.

def asciiLower (text : String) : List Char :=
  text.toList.map Char.toLower

def headerContains (headers : List (String × String)) (name needle : String) : Bool :=
  headers.any fun (header, value) =>
    asciiLower header = asciiLower name ∧ needle.toList <:+: asciiLower value

def contentLength (headers : List (String × String)) : Option Nat :=
  (headers.find? fun (name, _) => asciiLower name = asciiLower "content-length").bind
    fun (_, value) => fromStrRadix 10 value.toList

def streamBody (headers : List (String × String)) (c : Connection) : Outcome Unit :=
  if headerContains headers "transfer-encoding" "chunked" then
    streamChunks deadline onBytes 0 c
  else
    match contentLength headers with
    | some length => streamLength deadline onBytes length c
    | none        => streamToEnd deadline onBytes c

end Bodies

end Backend.HttpBody
