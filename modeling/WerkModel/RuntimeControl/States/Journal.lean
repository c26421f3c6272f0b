import WerkModel.Lib.Checks
import WerkModel.Lib.Lines
import WerkModel.Lib.Utf8
import WerkModel.RuntimeControl.States.Listing

-- The journal of the states that have to make room for a new one.
open Checks

namespace RuntimeControl.States

abbrev Bytes := List UInt8

def corrupt : ProtocolError :=
  .new .corruptState "runtime state failed integrity verification"

def resource (message : String) : ProtocolError :=
  .new .resourceExhausted message

def quotaEvictionsHeader : Bytes :=
  Utf8.encode "werk-quota-evictions-v1\n".toList

def maxQuotaEvictionsBytes : Nat := 1024 * 1024

def checkStateId (id : String) : ProtocolResult PUnit :=
  ensure (validateStateId id = .ok ()) corrupt

section Codec

def newline : UInt8 := 10

def carriageReturn : UInt8 := 13

def encodeFrom (encoded : Bytes) (seen : List String) : List String → ProtocolResult Bytes
  | []            => .ok encoded
  | stateId :: rest => do
    checkStateId stateId
    ensure (stateId ∉ seen) corrupt
    let encoded := encoded ++ Utf8.encode stateId.toList ++ [newline]
    ensure (encoded.length ≤ maxQuotaEvictionsBytes) <|
      resource "runtime state quota journal exceeds its bound"
    encodeFrom encoded (stateId :: seen) rest

def encodeQuotaEvictions (evictions : List String) : ProtocolResult Bytes := do
  let encoded ← encodeFrom quotaEvictionsHeader [] evictions
  ensure (evictions ≠ []) corrupt
  return encoded

def stripSuffix (c : Char) (text : List Char) : Option (List Char) :=
  if text.getLast? = some c then some text.dropLast else none

-- A line without its end, which may consist of two characters.
def stripLine (line : List Char) : List Char :=
  match stripSuffix '\n' line with
  | none      => line
  | some line => (stripSuffix '\r' line).getD line

def lines (text : List Char) : List String :=
  (Lines.cut (· = '\n') text).map fun line => String.ofList (stripLine line)

def readVictims (seen : List String) : List String → ProtocolResult (List String)
  | []              => .ok []
  | stateId :: rest => do
    checkStateId stateId
    ensure (stateId ∉ seen) corrupt
    let victims ← readVictims (stateId :: seen) rest
    return stateId :: victims

def stripPrefix (start bytes : Bytes) : Option Bytes :=
  if start <+: bytes then some (bytes.drop start.length) else none

-- The journal may be missing.
def readQuotaEvictions : Option Bytes → ProtocolResult (Option (List String))
  | none       => .ok none
  | some bytes => do
    ensure (bytes.length ≤ maxQuotaEvictionsBytes) corrupt
    match stripPrefix quotaEvictionsHeader bytes with
    | none      => .error corrupt
    | some body => do
      ensure (body ≠ [] ∧ body.getLast? = some newline) corrupt
      match Utf8.decode body with
      | none      => .error corrupt
      | some body => do
        let victims ← readVictims [] (lines body)
        ensure (victims ≠ []) corrupt
        return some victims

end Codec

-- A journal, with the ends of its lines as they are.
def journal (entries : List (String × Bool)) : Bytes :=
  quotaEvictionsHeader ++ entries.flatMap fun entry =>
    Utf8.encode entry.1.toList ++ (if entry.2 then [carriageReturn] else []) ++ [newline]

structure ValidVictims (victims : List String) : Prop where
  nonempty : victims ≠ []
  distinct : victims.Nodup
  valid    : ∀ stateId ∈ victims, validateStateId stateId = .ok ()

-- Some line ends in a carriage return as well.
def Carried (bytes : Bytes) : Prop :=
  ∃ entries : List (String × Bool), bytes = journal entries ∧ ValidVictims (entries.map Prod.fst) ∧
    ∃ entry ∈ entries, entry.2 = true

section Encoding

variable {victims seen : List String} {encoded bytes : Bytes}

def lineOf (stateId : String) : Bytes :=
  Utf8.encode stateId.toList ++ [newline]

theorem encodeFrom_ok (hb : encoded.length ≤ maxQuotaEvictionsBytes) :
    encodeFrom encoded seen victims = .ok bytes ↔
      bytes = encoded ++ victims.flatMap lineOf ∧ bytes.length ≤ maxQuotaEvictionsBytes ∧
      victims.Nodup ∧ ∀ stateId ∈ victims, validateStateId stateId = .ok () ∧ stateId ∉ seen := by
  induction victims generalizing encoded seen
  case nil =>
    simp only [encodeFrom, Except.ok.injEq, List.flatMap_nil, List.append_nil, List.nodup_nil,
      List.not_mem_nil, false_implies, implies_true, and_true]
    exact ⟨fun h => ⟨h.symm, h ▸ hb⟩, fun h => h.1.symm⟩
  case cons stateId rest hi =>
    have he : encoded ++ Utf8.encode stateId.toList ++ [newline] = encoded ++ lineOf stateId :=
      List.append_assoc ..
    rw [encodeFrom, checkStateId, ensure_bind_eq_ok, ensure_bind_eq_ok]
    dsimp only
    rw [ensure_bind_eq_ok, he, List.flatMap_cons, ←List.append_assoc, List.nodup_cons,
      List.forall_mem_cons]
    constructor
    case mp =>
      intro ⟨hv, hs, hl, h⟩
      have ⟨hb, hl, hn, hr⟩ := (hi hl).mp h
      have hseen {other} (ho : other ∈ rest) := not_or.mp (mt List.mem_cons.mpr (hr other ho).2)
      exact ⟨hb, hl, ⟨fun hm => (hseen hm).1 rfl, hn⟩, ⟨hv, hs⟩,
        fun other ho => ⟨(hr other ho).1, (hseen ho).2⟩⟩
    case mpr =>
      intro ⟨hb, hl, ⟨hm, hn⟩, ⟨hv, hs⟩, hr⟩
      have hle : (encoded ++ lineOf stateId).length ≤ maxQuotaEvictionsBytes := by
        rw [hb, List.length_append] at hl
        omega
      refine ⟨hv, hs, hle, (hi hle).mpr ⟨hb, hl, hn, fun other ho => ⟨(hr other ho).1, ?_⟩⟩⟩
      exact mt List.mem_cons.mp <| not_or.mpr ⟨fun he => hm (he ▸ ho), (hr other ho).2⟩

theorem encode_ok : encodeQuotaEvictions victims = .ok bytes ↔
    bytes = quotaEvictionsHeader ++ victims.flatMap lineOf ∧
      bytes.length ≤ maxQuotaEvictionsBytes ∧ ValidVictims victims := by
  have hh : quotaEvictionsHeader.length ≤ maxQuotaEvictionsBytes := by decide
  rw [encodeQuotaEvictions, bind_eq_ok]
  simp only [ensure_bind_eq_ok, encodeFrom_ok hh, pure, Except.pure, Except.ok.injEq]
  constructor
  case mp =>
    rintro ⟨_, ⟨hb, hl, hn, hv⟩, hne, rfl⟩
    exact ⟨hb, hl, hne, hn, fun stateId hm => (hv stateId hm).1⟩
  case mpr =>
    rintro ⟨hb, hl, hv⟩
    exact ⟨bytes, ⟨hb, hl, hv.distinct, fun stateId hm => ⟨hv.valid stateId hm, List.not_mem_nil⟩⟩,
      hv.nonempty, rfl⟩

end Encoding

section Decoding

variable {victims seen : List String} {bytes : Bytes} {entries : List (String × Bool)}
variable {stateId : String} {text line : List Char}

theorem readVictims_ok {ids : List String} : readVictims seen ids = .ok victims ↔
    victims = ids ∧ ids.Nodup ∧ ∀ stateId ∈ ids, validateStateId stateId = .ok () ∧
      stateId ∉ seen := by
  induction ids generalizing seen victims
  case nil => simp [readVictims, eq_comm]
  case cons stateId rest hi =>
    rw [readVictims, checkStateId, ensure_bind_eq_ok, ensure_bind_eq_ok, bind_eq_ok,
      List.nodup_cons, List.forall_mem_cons]
    simp only [hi, pure, Except.pure, Except.ok.injEq]
    constructor
    case mp =>
      intro ⟨hv, hs, victims, ⟨he, hn, hr⟩, hc⟩
      have hseen {other} (ho : other ∈ rest) := not_or.mp (mt List.mem_cons.mpr (hr other ho).2)
      exact ⟨by rw [←hc, he], ⟨fun hm => (hseen hm).1 rfl, hn⟩, ⟨hv, hs⟩,
        fun other ho => ⟨(hr other ho).1, (hseen ho).2⟩⟩
    case mpr =>
      rintro ⟨rfl, ⟨hm, hn⟩, ⟨hv, hs⟩, hr⟩
      refine ⟨hv, hs, rest, ⟨rfl, hn, fun other ho => ⟨(hr other ho).1, ?_⟩⟩, rfl⟩
      exact mt List.mem_cons.mp <| not_or.mpr ⟨fun he => hm (he ▸ ho), (hr other ho).2⟩

-- Identifiers contain no ends of lines.
theorem notMem_of_valid {c : Char} (h : validateStateId stateId = .ok ())
    (hc : Experts.isOpaqueIdChar c = false) : c ∉ stateId.toList := fun hm =>
  absurd ((validateStateId_ok h).2.2.2 c hm) (by simp [hc])

-- A line of a journal as a text, and what it was written from.
def textOf (entry : String × Bool) : List Char :=
  entry.1.toList ++ (if entry.2 then ['\r'] else []) ++ ['\n']

def entryOf (line : List Char) : String × Bool :=
  (String.ofList (stripLine line), line.dropLast.getLast? = some '\r')

theorem stripSuffix_concat {c : Char} : stripSuffix c (text ++ [c]) = some text := by
  simp [stripSuffix]

theorem entryOf_textOf {entry : String × Bool} (h : '\r' ∉ entry.1.toList) :
    entryOf (textOf entry) = entry := by
  have ⟨stateId, carried⟩ := entry
  have hl : stateId.toList.getLast? ≠ some '\r' := fun he => h (List.mem_of_getLast? he)
  cases carried
  case false => simp [entryOf, textOf, stripLine, stripSuffix, hl]
  case true  => simp [entryOf, textOf, stripLine, stripSuffix]

theorem textOf_entryOf (h : Lines.IsLine (· = '\n') line) : textOf (entryOf line) = line := by
  obtain ⟨content, a, rfl, ha, -⟩ := h
  rw [decide_eq_true_eq] at ha
  rw [ha, entryOf, stripLine, stripSuffix_concat, List.dropLast_concat]
  by_cases hc : content.getLast? = some '\r'
  case pos =>
    have ⟨content', he⟩ := List.getLast?_eq_some_iff.mp hc
    simp [textOf, he, stripSuffix]
  case neg => simp [textOf, hc, stripSuffix]

theorem journal_eq : journal entries =
    quotaEvictionsHeader ++ Utf8.encode (entries.flatMap textOf) := by
  rw [journal, Utf8.encode, List.flatMap_assoc]
  congr 2
  funext entry
  obtain ⟨stateId, carried⟩ := entry
  cases carried
  all_goals simp [textOf, Utf8.encode]; rfl

theorem isLine_textOf {entry : String × Bool} (h : validateStateId entry.1 = .ok ()) :
    Lines.IsLine (· = '\n') (textOf entry) := by
  refine ⟨_, '\n', rfl, by decide, fun c hc => decide_eq_false fun he => ?_⟩
  rw [List.mem_append, he] at hc
  cases hc
  case inl hc => exact notMem_of_valid h (by decide) hc
  case inr hc => split at hc <;> simp at hc

theorem lines_eq : lines text = ((Lines.cut (· = '\n') text).map entryOf).map Prod.fst := by
  rw [List.map_map]
  rfl

theorem map_entryOf_cut (h : ∀ entry ∈ entries, validateStateId entry.1 = .ok ()) :
    (Lines.cut (· = '\n') (entries.flatMap textOf)).map entryOf = entries := by
  have hl : ∀ line ∈ entries.map textOf, Lines.IsLine (· = '\n') line :=
    List.forall_mem_map.mpr fun entry he => isLine_textOf (h entry he)
  rw [List.flatMap_def, Lines.cut_flatten hl, List.map_map]
  refine (List.map_congr_left fun entry he => ?_).trans (List.map_id _)
  exact entryOf_textOf (notMem_of_valid (h entry he) (by decide))

theorem flatMap_textOf_cut (h : Lines.Ended (· = '\n') text) :
    ((Lines.cut (· = '\n') text).map entryOf).flatMap textOf = text := by
  have hc : (Lines.cut (· = '\n') text).map (textOf ∘ entryOf) = Lines.cut (· = '\n') text :=
    (List.map_congr_left fun line hl => textOf_entryOf (h.isLine hl)).trans (List.map_id _)
  rw [List.flatMap_def, List.map_map, hc, Lines.flatten_cut]

theorem getLast?_of_encode (h : (Utf8.encode text).getLast? = some newline) :
    text.getLast? = some '\n' := by
  have ⟨start, he⟩ := List.getLast?_eq_some_iff.mp h
  have ⟨t, t', ht, _, hn⟩ := Utf8.exists_of_encode (by decide) he
  have ht' : t' = [] := Utf8.encode_injective hn.symm
  rw [ht, ht', List.getLast?_concat]
  rfl

theorem exists_encode_flatMap (h : entries ≠ []) :
    ∃ start, Utf8.encode (entries.flatMap textOf) = start ++ [newline] := by
  have ⟨front, entry, he⟩ := List.eq_nil_or_concat entries |>.resolve_left h
  let content := entry.1.toList ++ if entry.2 then ['\r'] else []
  refine ⟨Utf8.encode (front.flatMap textOf ++ content), ?_⟩
  have ht : entries.flatMap textOf = front.flatMap textOf ++ content ++ ['\n'] := by
    rw [he, List.concat_eq_append, List.flatMap_append, List.flatMap_singleton]
    exact (List.append_assoc ..).symm
  rw [ht, Utf8.encode_append]
  rfl

theorem stripPrefix_eq_some {start body : Bytes} :
    stripPrefix start bytes = some body ↔ bytes = start ++ body := by
  rw [stripPrefix]
  split
  case isTrue h =>
    have ⟨rest, h⟩ := h
    simp [←h, eq_comm]
  case isFalse h =>
    exact iff_of_false (Option.some_ne_none _ ·.symm) fun he => h ⟨body, he.symm⟩

-- The journals that are read are those whose identifiers are listed, whatever ends their lines.
theorem readQuotaEvictions_ok : readQuotaEvictions (some bytes) = .ok (some victims) ↔
    bytes.length ≤ maxQuotaEvictionsBytes ∧ ValidVictims victims ∧
      ∃ entries, bytes = journal entries ∧ entries.map Prod.fst = victims := by
  rw [readQuotaEvictions, ensure_bind_eq_ok, and_congr_right_iff]
  intro _
  constructor
  case mp =>
    intro h
    cases hs : stripPrefix quotaEvictionsHeader bytes
    case none => simp [hs] at h
    case some body =>
      simp only [hs, ensure_bind_eq_ok] at h
      obtain ⟨⟨_, hb⟩, h⟩ := h
      cases hd : Utf8.decode body
      case none => simp [hd] at h
      case some text =>
        simp only [hd] at h
        obtain ⟨_, hr, h⟩ := bind_eq_ok.mp h
        obtain ⟨hne, h⟩ := ensure_bind_eq_ok.mp h
        obtain ⟨hl, hn, hv⟩ := readVictims_ok.mp hr
        cases h
        rw [Utf8.decode_eq_some] at hd
        have ht : Lines.Ended (· = '\n') text := fun c hc => by
          rw [getLast?_of_encode (hd ▸ hb), Option.mem_some_iff] at hc
          exact decide_eq_true hc.symm
        refine ⟨⟨hne, hl ▸ hn, fun stateId hm => (hv stateId (hl ▸ hm)).1⟩, ?_⟩
        refine ⟨(Lines.cut (· = '\n') text).map entryOf, ?_, by rw [hl, lines_eq]⟩
        rw [journal_eq, flatMap_textOf_cut ht, stripPrefix_eq_some.mp hs, hd]
  case mpr =>
    rintro ⟨hl, entries, hb, he⟩
    have hv : ∀ entry ∈ entries, validateStateId entry.1 = .ok () := fun entry hm =>
      hl.valid entry.1 (he ▸ List.mem_map_of_mem hm)
    have hlines : lines (entries.flatMap textOf) = victims := by
      rw [lines_eq, map_entryOf_cut hv, he]
    have hvictims : readVictims [] victims = .ok victims :=
      readVictims_ok.mpr ⟨rfl, hl.distinct, fun stateId hm =>
        ⟨hl.valid stateId hm, List.not_mem_nil⟩⟩
    have hne : entries ≠ [] := fun hn => hl.nonempty (by rw [←he, hn, List.map_nil])
    obtain ⟨start, hs⟩ := exists_encode_flatMap hne
    rw [journal_eq] at hb
    simp only [stripPrefix_eq_some.mpr hb, Utf8.decode_encode, hlines]
    rw [ensure_bind_eq_ok, bind_eq_ok]
    refine ⟨⟨by simp [hs], by rw [hs, List.getLast?_concat]⟩, victims, hvictims, ?_⟩
    exact ensure_bind_eq_ok.mpr ⟨hl.nonempty, rfl⟩

end Decoding

section Exactness

variable {victims : List String} {bytes : Bytes} {entries : List (String × Bool)}

theorem length_journal : (journal entries).length =
    (quotaEvictionsHeader ++ (entries.map Prod.fst).flatMap lineOf).length +
      entries.countP Prod.snd := by
  rw [journal, List.length_append, List.length_append, Nat.add_assoc, Nat.add_left_cancel_iff]
  induction entries
  case nil => rfl
  case cons entry entries hi =>
    have ⟨stateId, carried⟩ := entry
    rw [List.flatMap_cons, List.map_cons, List.flatMap_cons, List.length_append, hi,
      List.length_append, List.countP_cons, lineOf]
    cases carried
    all_goals simp only [List.length_append, List.length_singleton, if_true]
    case false => exact (Nat.add_assoc ..).symm
    case true  => omega

theorem journal_of_not (h : ∀ entry ∈ entries, entry.2 ≠ true) :
    journal entries = quotaEvictionsHeader ++ (entries.map Prod.fst).flatMap lineOf := by
  rw [journal, List.flatMap_map]
  refine congrArg (quotaEvictionsHeader ++ ·) (List.flatMap_congr fun entry he => ?_)
  rw [if_neg (h entry he), List.append_nil, lineOf]

-- What was encoded is read again.
theorem read_of_encode (h : encodeQuotaEvictions victims = .ok bytes) :
    readQuotaEvictions (some bytes) = .ok (some victims) := by
  have ⟨hb, hl, hv⟩ := encode_ok.mp h
  let entries := victims.map (·, false)
  have he : entries.map Prod.fst = victims := by
    rw [List.map_map]
    exact List.map_id _
  refine readQuotaEvictions_ok.mpr ⟨hl, hv, entries, ?_, he⟩
  rw [journal_of_not (by simp [entries]), he, hb]

-- The check that binds a journal to the metadata of its state.
def checkEvictions (sha256 : Bytes → String) (quotaEvictionsSha256 : Option String)
    (evictions : Option (List String)) : ProtocolResult PUnit :=
  match evictions with
  | none           => .ok ⟨⟩
  | some evictions => do
    let encoded ← encodeQuotaEvictions evictions
    ensure (quotaEvictionsSha256 = some (sha256 encoded)) corrupt

-- The codec is exact for a sequence of bytes.
structure Exact (sha256 : Bytes → String) (bytes : Bytes) : Prop where
  accepted : ∀ victims, readQuotaEvictions (some bytes) = .ok (some victims) ↔
    encodeQuotaEvictions victims = .ok bytes
  single : ∀ victims encoded digest, readQuotaEvictions (some bytes) = .ok (some victims) →
    encodeQuotaEvictions victims = .ok encoded →
    checkEvictions sha256 digest (some victims) = .ok ⟨⟩ → encoded = bytes

-- A journal is read as what it was encoded from unless a line ends in a carriage return as well.
theorem quota_evictions_exact {sha256 : Bytes → String} (h : bytes.length ≤ maxQuotaEvictionsBytes) :
    Exact sha256 bytes ↔ ¬Carried bytes := by
  constructor
  case mp =>
    intro ⟨ha, _⟩ ⟨entries, hb, hl, entry, hm, hc⟩
    have hr := readQuotaEvictions_ok.mpr ⟨h, hl, entries, hb, rfl⟩
    have ⟨he, _⟩ := encode_ok.mp <| (ha _).mp hr
    have hlen : (journal entries).length = _ := length_journal
    rw [←he, ←hb] at hlen
    have : 0 < entries.countP Prod.snd := List.countP_pos_iff.mpr ⟨entry, hm, hc⟩
    omega
  case mpr =>
    intro hn
    have ha (victims) (hr : readQuotaEvictions (some bytes) = .ok (some victims)) :
        encodeQuotaEvictions victims = .ok bytes := by
      have ⟨_, hl, entries, hb, he⟩ := readQuotaEvictions_ok.mp hr
      have hc : ∀ entry ∈ entries, entry.2 ≠ true := fun entry hm hc =>
        hn ⟨entries, hb, he ▸ hl, entry, hm, hc⟩
      exact encode_ok.mpr ⟨by rw [hb, journal_of_not hc, he], h, hl⟩
    refine ⟨fun victims => ⟨ha victims, read_of_encode⟩, fun victims encoded _ hr he _ => ?_⟩
    rw [ha victims hr] at he
    exact (Except.ok.inj he).symm

def sampleEvictions (lineEnd : String) : Bytes :=
  quotaEvictionsHeader ++ Utf8.encode ("st_a" ++ lineEnd).toList

theorem validVictims_sample : ValidVictims ["st_a"] where
  nonempty := List.cons_ne_nil _ _
  distinct := List.nodup_singleton _
  valid    := by decide

theorem quota_evictions_exact_sample :
    Exact (fun _ => "") (sampleEvictions "\n") ↔ ¬Carried (sampleEvictions "\n") :=
  quota_evictions_exact (by decide)

-- A second sequence of bytes is read as the same states, and passes the check of their digest.
theorem carriage_return_read :
    let encoded := sampleEvictions "\n"
    let carried := sampleEvictions "\r\n"
    carried.length ≤ maxQuotaEvictionsBytes ∧ carried ≠ encoded ∧
    encodeQuotaEvictions ["st_a"] = .ok encoded ∧
    readQuotaEvictions (some carried) = .ok (some ["st_a"]) ∧
    (∀ sha256, checkEvictions sha256 (some (sha256 encoded)) (some ["st_a"]) = .ok ⟨⟩) ∧
    ∀ sha256, ¬Exact sha256 carried := by
  have hl : (sampleEvictions "\r\n").length ≤ maxQuotaEvictionsBytes := by decide
  have he : encodeQuotaEvictions ["st_a"] = .ok (sampleEvictions "\n") :=
    encode_ok.mpr ⟨by decide, by decide, validVictims_sample⟩
  have hj : sampleEvictions "\r\n" = journal [("st_a", true)] := by decide
  refine ⟨hl, by decide, he, readQuotaEvictions_ok.mpr ⟨hl, validVictims_sample, _, hj, rfl⟩,
    fun sha256 => ?_, fun sha256 hx => ?_⟩
  · simp [checkEvictions, he, bind, Except.bind, ensure_eq_ok]
  · have hr := readQuotaEvictions_ok.mpr ⟨hl, validVictims_sample, _, hj, rfl⟩
    have hc := (hx.accepted _).mp hr
    rw [he] at hc
    exact absurd (Except.ok.inj hc) (by decide)

end Exactness
end RuntimeControl.States
