import WerkModel.Backend.Text
import WerkModel.Lib.Chunks
import WerkModel.Lib.Infix
import WerkModel.Lib.Utf8

-- The decoder of server-sent events, which an upstream server streams as blocks of lines.
open Infix

namespace Backend

def cr : UInt8 := 13

def lf : UInt8 := 10

def findSseBoundary (bytes : List UInt8) : Option Nat :=
  let lf2   := position [lf, lf] bytes
  let crlf2 := position [cr, lf, cr, lf] bytes
  (lf2.toList ++ crlf2.toList).min?

theorem findSseBoundary_nil : findSseBoundary [] = none :=
  rfl

theorem min?_succ (i j : Option Nat) :
    ((i.map (· + 1)).toList ++ (j.map (· + 1)).toList).min? =
      (i.toList ++ j.toList).min?.map (· + 1) := by
  cases i <;> cases j <;> simp [List.min?_cons, Nat.succ_min_succ]

theorem min?_zero (i : Option Nat) :
    (0 :: i.toList).min? = some 0 ∧ (i.toList ++ [0]).min? = some 0 := by
  cases i <;> simp [List.min?_cons]

theorem findSseBoundary_cons {byte : UInt8} {bytes : List UInt8} :
    findSseBoundary (byte :: bytes) =
      if [lf, lf] <+: byte :: bytes ∨ [cr, lf, cr, lf] <+: byte :: bytes then
        some 0
      else
        (findSseBoundary bytes).map (· + 1) := by
  by_cases h : [lf, lf] <+: byte :: bytes
  case pos =>
    have hw : position [lf, lf] (byte :: bytes) = some 0 := position_cons_of_prefix h
    rw [if_pos (Or.inl h), findSseBoundary, hw]
    exact (min?_zero _).1
  case neg =>
    by_cases h' : [cr, lf, cr, lf] <+: byte :: bytes
    case pos =>
      have hw : position [cr, lf, cr, lf] (byte :: bytes) = some 0 := position_cons_of_prefix h'
      rw [if_pos (Or.inr h'), findSseBoundary, hw]
      exact (min?_zero _).2
    case neg =>
      simp only [findSseBoundary, position_cons_of_not h, position_cons_of_not h']
      rw [if_neg (by tauto)]
      exact min?_succ ..

-- A terminated line drops a carriage return before its line feed.
def stripCr (line : List Char) : List Char :=
  if line.getLast? = some '\r' then line.dropLast else line

-- The lines of a text, where `line` is the start of the first one.
def linesFrom (line : List Char) : List Char → List (List Char)
  | []        => if line = [] then [] else [line]
  | c :: text => if c = '\n' then stripCr line :: linesFrom [] text else linesFrom (line ++ [c]) text

def lines (text : List Char) : List (List Char) :=
  linesFrom [] text

def isErrorLine (line : List Char) : Bool :=
  (stripPrefix "event:".toList line).any fun name => trim name = "error".toList

def dataOf (line : List Char) : Option (List Char) :=
  (stripPrefix "data:".toList line).map fun value => (stripPrefix [' '] value).getD value

structure SseAccumulator where
  pending : List UInt8

section Push

variable {σ : Type*} (onEvent : σ → String → σ × Except String Unit)

def dispatchLines (s : σ) (lines : List (List Char)) : σ × Except String Unit :=
  let data := lines.filterMap dataOf
  let text := String.ofList (['\n'].intercalate data)
  if lines.any isErrorLine then
    (s, .error <| "OpenAI upstream SSE error: " ++ text)
  else if data = [] then
    (s, .ok ())
  else
    onEvent s text

def dispatch (s : σ) (event : List UInt8) : σ × Except String Unit :=
  match Utf8.decode event with
  | none      => (s, .error "OpenAI SSE event is not UTF-8")
  | some text => dispatchLines onEvent s (lines text)

def isNewline (byte : UInt8) : Bool :=
  byte = cr || byte = lf

def dropNewlines (bytes : List UInt8) : List UInt8 :=
  bytes.dropWhile isNewline

theorem dropNewlines_of_byte {byte : UInt8} {bytes : List UInt8} (hc : byte ≠ cr) (hl : byte ≠ lf) :
    dropNewlines (byte :: bytes) = byte :: bytes :=
  List.dropWhile_cons_of_neg (by simp [isNewline, hc, hl])

theorem dropNewlines_append {newlines bytes : List UInt8} (h : ∀ byte ∈ newlines, isNewline byte) :
    dropNewlines (newlines ++ bytes) = dropNewlines bytes :=
  List.dropWhile_append_of_pos h

theorem boundary_of_find {pending : List UInt8} {index : Nat}
    (h : findSseBoundary pending = some index) :
    [lf, lf] <+: pending.drop index ∨ [cr, lf, cr, lf] <+: pending.drop index := by
  induction pending generalizing index
  case nil => simp [findSseBoundary_nil] at h
  case cons byte bytes hi =>
    rw [findSseBoundary_cons] at h
    split at h
    case isTrue hb =>
      cases h
      exact hb
    case isFalse =>
      have ⟨_, hs, he⟩ := Option.map_eq_some_iff.mp h
      rw [←he]
      exact hi hs

theorem length_dropNewlines_lt {pending : List UInt8} {index : Nat}
    (h : findSseBoundary pending = some index) :
    (dropNewlines (pending.drop index)).length < pending.length := by
  have ⟨byte, rest, hr, hn⟩ : ∃ byte rest, pending.drop index = byte :: rest ∧ isNewline byte := by
    obtain ⟨rest, hr⟩ | ⟨rest, hr⟩ := boundary_of_find h
    · exact ⟨lf, _, hr.symm, rfl⟩
    · exact ⟨cr, _, hr.symm, rfl⟩
  have hd : (dropNewlines rest).length ≤ rest.length := (List.dropWhile_sublist _).length_le
  have hl := congrArg List.length hr
  rw [List.length_drop, List.length_cons] at hl
  rw [hr, dropNewlines, List.dropWhile_cons_of_pos hn]
  exact Nat.lt_of_le_of_lt hd (by omega)

def drain (pending : List UInt8) (s : σ) : SseAccumulator × σ × Except String Unit :=
  match _h : findSseBoundary pending with
  | none       => (⟨pending⟩, s, .ok ())
  | some index =>
    let rest := dropNewlines (pending.drop index)
    match dispatch onEvent s (pending.take index) with
    | (s, .error error) => (⟨rest⟩, s, .error error)
    | (s, .ok _)        => drain rest s
termination_by pending.length
decreasing_by exact length_dropNewlines_lt ‹_›

def maxEventBytes : Nat := 4 * 1024 * 1024

def SseAccumulator.push (accumulator : SseAccumulator) (bytes : List UInt8) (s : σ) :
    SseAccumulator × σ × Except String Unit :=
  let pending := accumulator.pending ++ bytes
  if maxEventBytes < pending.length then
    (⟨pending⟩, s, .error "OpenAI SSE event exceeds 4 MiB")
  else
    drain onEvent pending s

section Lemmas

variable {onEvent} {s s' : σ} {line text text' : List Char} {texts : List (List Char)}
variable {pending event : List UInt8} {index : Nat} {error : String}

theorem linesFrom_terminated (h : '\n' ∉ text) :
    linesFrom line (text ++ '\n' :: text') = stripCr (line ++ text) :: lines text' := by
  induction text generalizing line
  case nil => rw [List.nil_append, linesFrom, if_pos rfl, List.append_nil, lines]
  case cons c text hi =>
    rw [List.mem_cons, not_or] at h
    rw [List.cons_append, linesFrom, if_neg (Ne.symm h.1), hi h.2, List.append_assoc]
    rfl

theorem linesFrom_unterminated (h : '\n' ∉ text) :
    linesFrom line text = if line ++ text = [] then [] else [line ++ text] := by
  induction text generalizing line
  case nil => rw [linesFrom, List.append_nil]
  case cons c text hi =>
    rw [List.mem_cons, not_or] at h
    rw [linesFrom, if_neg (Ne.symm h.1), hi h.2, List.append_assoc]
    rfl

@[simp]
theorem lines_lf : lines ('\n' :: text) = [] :: lines text :=
  rfl

@[simp]
theorem lines_cr_lf : lines ('\r' :: '\n' :: text) = [] :: lines text :=
  rfl

theorem dispatch_nil : dispatch onEvent s [] = (s, .ok ()) := by
  rw [dispatch, Utf8.decode_nil]
  rfl

theorem dispatch_cr : dispatch onEvent s [cr] = (s, .ok ()) := by
  rw [dispatch, Utf8.decode_cons_ascii (by decide), Utf8.decode_nil]
  rfl

theorem dispatch_lf : dispatch onEvent s (lf :: event) = dispatch onEvent s event := by
  rw [dispatch, dispatch, Utf8.decode_cons_ascii (by decide)]
  cases Utf8.decode event
  case none => rfl
  case some => rfl

theorem dispatch_cr_lf : dispatch onEvent s (cr :: lf :: event) = dispatch onEvent s event := by
  rw [dispatch, dispatch, Utf8.decode_cons_ascii (by decide), Utf8.decode_cons_ascii (by decide)]
  cases Utf8.decode event
  case none => rfl
  case some => rfl

theorem drain_of_none (h : findSseBoundary pending = none) :
    drain onEvent pending s = (⟨pending⟩, s, .ok ()) := by
  rw [drain]
  split
  case h_1     => rfl
  case h_2 h'  => simp [h] at h'

theorem drain_of_error (h : findSseBoundary pending = some index)
    (hd : dispatch onEvent s (pending.take index) = (s', .error error)) :
    drain onEvent pending s = (⟨dropNewlines (pending.drop index)⟩, s', .error error) := by
  rw [drain]
  split
  case h_1 h' => simp [h] at h'
  case h_2 h' =>
    cases h.symm.trans h'
    rw [hd]

theorem drain_of_ok (h : findSseBoundary pending = some index)
    (hd : dispatch onEvent s (pending.take index) = (s', .ok ())) :
    drain onEvent pending s = drain onEvent (dropNewlines (pending.drop index)) s' := by
  rw [drain]
  split
  case h_1 h' => simp [h] at h'
  case h_2 h' =>
    cases h.symm.trans h'
    rw [hd]

theorem push_of_le {accumulator : SseAccumulator} {bytes : List UInt8}
    (h : (accumulator.pending ++ bytes).length ≤ maxEventBytes) :
    accumulator.push onEvent bytes s = drain onEvent (accumulator.pending ++ bytes) s :=
  if_neg (Nat.not_lt.mpr h)

end Lemmas
end Push
end Backend
