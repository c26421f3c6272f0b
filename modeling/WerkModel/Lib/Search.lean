import Mathlib

-- The occurrences of a literal, and of a regular expression without anchors, in a text.
namespace Search

variable {α : Type*} {text literal before number rest tail : List α} {c x : α}

-- A text in which some part matches.
def Found (regex : RegularExpression α) (text : List α) : Prop :=
  ∃ part ∈ regex.matches', part <:+: text

def lit : List α → RegularExpression α
  | []     => 1
  | x :: l => .char x * lit l

-- A regular expression that matches the given words only.
def Exact (regex : RegularExpression α) (words : List (List α)) : Prop :=
  ∀ part, part ∈ regex.matches' ↔ part ∈ words

section Exact

variable {regex regex' : RegularExpression α} {words words' : List (List α)}

theorem Exact.add (h : Exact regex words) (h' : Exact regex' words') :
    Exact (regex + regex') (words ++ words') := by
  intro part
  rw [RegularExpression.matches'_add, Language.mem_add, h, h', List.mem_append]

theorem Exact.mul (h : Exact regex words) (h' : Exact regex' words') :
    Exact (regex * regex') (words.flatMap fun word => words'.map (word ++ ·)) := by
  intro part
  simp only [RegularExpression.matches'_mul, Language.mem_mul, h _, h' _, List.mem_flatMap,
    List.mem_map]

theorem exact_lit (l : List α) : Exact (lit l) [l] := by
  induction l
  case nil          => exact fun part => List.mem_singleton.symm
  case cons x l hi =>
    have hx : Exact (.char x) [[x]] := fun part => List.mem_singleton.symm
    exact hx.mul hi

theorem Exact.perm (h : Exact regex words) (hp : words.Perm words') : Exact regex words' :=
  fun part => (h part).trans hp.mem_iff

end Exact

theorem found_iff {regex : RegularExpression α} :
    Found regex text ↔ ∃ part ∈ regex.matches', ∃ before rest, text = before ++ (part ++ rest) := by
  simp only [Found, List.IsInfix, List.append_assoc, eq_comm (a := text)]

theorem prefix_cons_iff_of_ne (h : x ≠ c) : ¬c :: tail <+: x :: text := by
  rw [List.cons_prefix_cons]
  exact fun hp => h hp.1.symm

theorem exists_cons_append_iff {seen : List α} :
    (∃ front rest, x :: text = front ++ (literal ++ rest) ∧ before = seen ++ front) ↔
    (literal <+: x :: text ∧ before = seen) ∨
    ∃ front rest, text = front ++ (literal ++ rest) ∧ before = seen ++ [x] ++ front := by
  constructor
  case mp =>
    intro ⟨front, rest, he, hb⟩
    cases front
    case nil => exact .inl ⟨⟨rest, he.symm⟩, by rw [hb, List.append_nil]⟩
    case cons y front =>
      have ⟨hx, ht⟩ := List.cons.inj he
      exact .inr ⟨front, rest, ht, by rw [hb, hx, List.append_cons]⟩
  case mpr =>
    intro h
    cases h
    case inl h =>
      have ⟨⟨rest, hr⟩, hb⟩ := h
      exact ⟨[], rest, hr.symm, by rw [hb, List.append_nil]⟩
    case inr h =>
      have ⟨front, rest, ht, hb⟩ := h
      exact ⟨x :: front, rest, by rw [ht, List.cons_append], by rw [hb, ←List.append_cons]⟩

section Scan

variable [DecidableEq α]

-- What precedes the occurrences that a search from the left finds, which goes on behind an
-- occurrence. The first argument counts the elements to go until then.
def scanFrom (literal : List α) : Nat → List α → List α → List (List α)
  | _, _, []               => []
  | skip + 1, seen, x :: l => scanFrom literal skip (seen ++ [x]) l
  | 0, seen, x :: l        =>
    if literal <+: x :: l then
      seen :: scanFrom literal (literal.length - 1) (seen ++ [x]) l
    else
      scanFrom literal 0 (seen ++ [x]) l

def scan (literal text : List α) : List (List α) :=
  scanFrom literal 0 [] text

-- Nothing is skipped when the first element of the literal occurs nowhere else in it.
theorem mem_scanFrom_iff (hc : c ∉ tail) {skip : Nat} {seen : List α} (hs : c ∉ text.take skip) :
    before ∈ scanFrom (c :: tail) skip seen text ↔
    ∃ front rest, text = front ++ (c :: tail ++ rest) ∧ before = seen ++ front := by
  induction text generalizing skip seen
  case nil => simp [scanFrom]
  case cons x text hi =>
    rw [exists_cons_append_iff]
    cases skip
    case succ skip =>
      rw [List.take_succ_cons, List.mem_cons, not_or] at hs
      rw [scanFrom, hi hs.2]
      exact (or_iff_right fun h => prefix_cons_iff_of_ne (Ne.symm hs.1) h.1).symm
    case zero =>
      rw [scanFrom]
      split
      case isTrue hp =>
        have ⟨rest, hr⟩ := (List.cons_prefix_cons.mp hp).2
        have ht : c ∉ text.take ((c :: tail).length - 1) := by
          rwa [List.length_cons, Nat.add_sub_cancel, ←hr, List.take_left]
        rw [List.mem_cons, hi ht, and_iff_right hp]
      case isFalse hp =>
        rw [hi (by simp), or_iff_right fun h => hp h.1]

theorem mem_scan_iff (hc : c ∉ tail) :
    before ∈ scan (c :: tail) text ↔ ∃ rest, text = before ++ (c :: tail ++ rest) := by
  rw [scan, mem_scanFrom_iff hc (by simp)]
  constructor
  case mp =>
    intro ⟨front, rest, he, hb⟩
    exact ⟨rest, by rw [hb, List.nil_append, he]⟩
  case mpr => exact fun ⟨rest, he⟩ => ⟨before, rest, he, rfl⟩

end Scan

end Search
