import Mathlib

-- Buffered reading from a source that returns what it has in pieces of any size. What is read does
-- not depend on the pieces.
namespace Reading

variable {α : Type*}

-- A number in the pace bounds what the next read may return. Later reads return all that fits.
structure Source (α : Type*) where
  data : List α
  pace : List Nat

namespace Source

variable {source : Source α} {n : Nat}

def read (source : Source α) (n : Nat) : List α × Source α :=
  let count := min n <| max 1 <| source.pace.headD n
  (source.data.take count, ⟨source.data.drop count, source.pace.tail⟩)

theorem read_append : (source.read n).1 ++ (source.read n).2.data = source.data :=
  List.take_append_drop ..

theorem length_read : (source.read n).1.length ≤ n := by
  simp only [read, List.length_take]
  omega

theorem read_eq_nil (hn : 0 < n) : (source.read n).1 = [] ↔ source.data = [] := by
  rw [read, List.take_eq_nil_iff]
  exact or_iff_right (by omega)

end Source

structure Reader (α : Type*) where
  buffer : List α
  source : Source α

namespace Reader

variable {reader : Reader α} {capacity n : Nat} {ends : α → Bool}

-- What is left to read.
def rest (reader : Reader α) : List α :=
  reader.buffer ++ reader.source.data

-- The buffer is only filled when it is empty.
def fillBuf (capacity : Nat) (reader : Reader α) : Reader α :=
  match reader.buffer with
  | []     => ⟨(reader.source.read capacity).1, (reader.source.read capacity).2⟩
  | _ :: _ => reader

def consume (count : Nat) (reader : Reader α) : Reader α :=
  { reader with buffer := reader.buffer.drop count }

-- A read that is as large as the buffer passes it by.
def read (capacity n : Nat) (reader : Reader α) : List α × Reader α :=
  if reader.buffer = [] ∧ capacity ≤ n then
    ((reader.source.read n).1, { reader with source := (reader.source.read n).2 })
  else
    ((reader.fillBuf capacity).buffer.take n, (reader.fillBuf capacity).consume n)

@[simp]
theorem rest_fillBuf : (reader.fillBuf capacity).rest = reader.rest := by
  rw [fillBuf]
  split
  case h_1 h => rw [rest, rest, h, List.nil_append, Source.read_append]
  case h_2   => rfl

theorem fillBuf_eq_nil (hc : 0 < capacity) :
    (reader.fillBuf capacity).buffer = [] ↔ reader.rest = [] := by
  rw [fillBuf, rest]
  split
  case h_1 h => rw [Source.read_eq_nil hc, h, List.nil_append]
  case h_2 h => simp [h]

theorem rest_consume :
    reader.buffer.take n ++ (reader.consume n).rest = reader.rest := by
  rw [rest, consume, ←List.append_assoc, List.take_append_drop, rest]

theorem read_append : (reader.read capacity n).1 ++ (reader.read capacity n).2.rest =
    reader.rest := by
  rw [read]
  split
  case isTrue h =>
    rw [rest, rest, h.1, List.nil_append, List.nil_append]
    exact Source.read_append
  case isFalse => exact rest_consume.trans rest_fillBuf

theorem length_read : (reader.read capacity n).1.length ≤ n := by
  rw [read]
  split
  case isTrue  => exact Source.length_read
  case isFalse => exact List.length_take_le ..

theorem read_eq_nil (hc : 0 < capacity) (hn : 0 < n) :
    (reader.read capacity n).1 = [] ↔ reader.rest = [] := by
  rw [read]
  split
  case isTrue h  => rw [Source.read_eq_nil hn, rest, h.1, List.nil_append]
  case isFalse   =>
    rw [List.take_eq_nil_iff, or_iff_right (by omega), fillBuf_eq_nil hc]

-- How much of some data belongs to its first line, with the end of the line if there is one.
def lineLength (ends : α → Bool) : List α → Nat
  | []        => 0
  | a :: data => if ends a then 1 else lineLength ends data + 1

section Line

variable {data more : List α} {a : α}

theorem lineLength_le : lineLength ends data ≤ data.length := by
  induction data
  case nil => exact Nat.le_refl _
  case cons a data hi =>
    rw [lineLength, List.length_cons]
    split <;> omega

theorem lineLength_pos (h : data ≠ []) : 0 < lineLength ends data := by
  cases data
  case nil  => exact absurd rfl h
  case cons =>
    rw [lineLength]
    split <;> omega

theorem lineLength_of_any (h : data.any ends) :
    lineLength ends (data ++ more) = lineLength ends data := by
  induction data
  case nil => cases h
  case cons a data hi =>
    rw [List.any_cons, Bool.or_eq_true] at h
    rw [List.cons_append, lineLength, lineLength]
    split
    case isTrue     => rfl
    case isFalse hn => rw [hi (h.resolve_left hn)]

theorem lineLength_of_not_any (h : data.any ends = false) :
    lineLength ends (data ++ more) = data.length + lineLength ends more := by
  induction data
  case nil => rw [List.nil_append, List.length_nil, Nat.zero_add]
  case cons a data hi =>
    rw [List.any_cons, Bool.or_eq_false_iff] at h
    rw [List.cons_append, lineLength, h.1, if_neg Bool.false_ne_true, hi h.2, List.length_cons]
    omega

theorem lineLength_eq (h : data.any ends = false) (ha : ends a) :
    lineLength ends (data ++ a :: more) = data.length + 1 := by
  rw [lineLength_of_not_any h, lineLength, if_pos ha]

theorem lineLength_eq_length (h : data.any ends = false) :
    lineLength ends data = data.length := by
  have hl : lineLength ends (data ++ []) = _ := lineLength_of_not_any h
  rwa [List.append_nil] at hl

-- Whether a line is complete shows at its end.
theorem getLast?_line [DecidableEq α] :
    (data.take (lineLength (· = a) data)).getLast? = some a ↔ data.any (· = a) := by
  induction data
  case nil => exact iff_of_false nofun nofun
  case cons b data hi =>
    rw [lineLength, List.any_cons, Bool.or_eq_true]
    split
    case isTrue h =>
      rw [List.take_succ_cons, List.take_zero, List.getLast?_singleton, Option.some.injEq]
      exact iff_of_true (of_decide_eq_true h) (.inl h)
    case isFalse h =>
      rw [List.take_succ_cons, or_iff_right h, ←hi, List.getLast?_cons]
      cases (data.take (lineLength (· = a) data)).getLast?
      case none   => exact iff_of_false (fun he => h (decide_eq_true (Option.some.inj he))) nofun
      case some d => rfl

end Line

theorem length_rest_line_lt (ends : α → Bool) (h : (reader.fillBuf capacity).buffer ≠ []) :
    ((reader.fillBuf capacity).consume
      (lineLength ends (reader.fillBuf capacity).buffer)).rest.length < reader.rest.length := by
  have hp : 0 < lineLength ends (reader.fillBuf capacity).buffer := lineLength_pos h
  have hb : lineLength ends (reader.fillBuf capacity).buffer ≤ _ := lineLength_le
  have hr : _ = (reader.fillBuf capacity).rest :=
    rest_consume (n := lineLength ends (reader.fillBuf capacity).buffer)
  have hl := congrArg List.length <| hr.trans rest_fillBuf
  rw [List.length_append, List.length_take] at hl
  omega

-- All lines are read in this way, from one filling of the buffer to the next.
def readUntil (ends : α → Bool) (capacity : Nat) (reader : Reader α) (line : List α) :
    List α × Reader α :=
  let filled := reader.fillBuf capacity
  let count := lineLength ends filled.buffer
  if _h : filled.buffer = [] then
    (line, filled)
  else if filled.buffer.any ends then
    (line ++ filled.buffer.take count, filled.consume count)
  else
    readUntil ends capacity (filled.consume count) (line ++ filled.buffer.take count)
termination_by reader.rest.length
decreasing_by exact length_rest_line_lt ends ‹_›

-- A line that ends in the buffer, and one that goes on behind it.

theorem take_line_of_any (h : reader.buffer.any ends) :
    reader.rest.take (lineLength ends reader.rest) =
      reader.buffer.take (lineLength ends reader.buffer) ∧
    reader.rest.drop (lineLength ends reader.rest) =
      (reader.consume (lineLength ends reader.buffer)).rest := by
  rw [rest, lineLength_of_any h, List.take_append_of_le_length lineLength_le,
    List.drop_append_of_le_length lineLength_le]
  exact ⟨rfl, rfl⟩

theorem take_line_of_not_any (h : reader.buffer.any ends = false) :
    reader.rest.take (lineLength ends reader.rest) =
      reader.buffer.take (lineLength ends reader.buffer) ++
      (reader.consume (lineLength ends reader.buffer)).rest.take
        (lineLength ends (reader.consume (lineLength ends reader.buffer)).rest) ∧
    reader.rest.drop (lineLength ends reader.rest) =
      (reader.consume (lineLength ends reader.buffer)).rest.drop
        (lineLength ends (reader.consume (lineLength ends reader.buffer)).rest) := by
  have hc : (reader.consume reader.buffer.length).rest = reader.source.data := by
    rw [rest, consume, List.drop_length, List.nil_append]
  rw [lineLength_eq_length h, hc, rest, lineLength_of_not_any h, List.take_length,
    List.take_length_add_append, List.drop_length_add_append]
  exact ⟨rfl, rfl⟩

theorem readUntil_eq (hc : 0 < capacity) (line : List α) :
    ∃ reader', readUntil ends capacity reader line =
        (line ++ reader.rest.take (lineLength ends reader.rest), reader') ∧
      reader'.rest = reader.rest.drop (lineLength ends reader.rest) := by
  induction hl : reader.rest.length using Nat.strong_induction_on generalizing reader line
  case h length hi =>
    have hf : (reader.fillBuf capacity).rest = reader.rest := rest_fillBuf
    rw [readUntil, ←hf]
    split
    case isTrue h =>
      rw [fillBuf_eq_nil hc, ←hf] at h
      rw [h, List.take_nil, List.drop_nil, List.append_nil]
      exact ⟨_, rfl, h⟩
    case isFalse h =>
      split
      case isTrue ha =>
        have ⟨ht, hd⟩ := take_line_of_any ha
        exact ⟨_, by rw [ht], hd.symm⟩
      case isFalse ha =>
        have ⟨ht, hd⟩ := take_line_of_not_any <| Bool.eq_false_iff.mpr ha
        have ⟨reader', hr, hr'⟩ := hi _ (hl ▸ length_rest_line_lt ends h) (line ++
          (reader.fillBuf capacity).buffer.take (lineLength ends (reader.fillBuf capacity).buffer))
          rfl
        exact ⟨reader', by rw [hr, ht, List.append_assoc], by rw [hr', hd]⟩

end Reader

end Reading
