import WerkModel.RuntimeControl.Experts.Config

-- Operations on texts as lists of characters.
open RuntimeControl.Experts (isWhitespace)

namespace Backend

def stripPrefix (start text : List Char) : Option (List Char) :=
  if start <+: text then some (text.drop start.length) else none

def trimStart (text : List Char) : List Char :=
  text.dropWhile isWhitespace

def trim (text : List Char) : List Char :=
  (trimStart (trimStart text).reverse).reverse

def Blank (text : List Char) : Prop :=
  ∀ c ∈ text, isWhitespace c

variable {text rest : List Char} {c : Char}

theorem trimStart_append (h : Blank text) (hc : isWhitespace c = false) :
    trimStart (text ++ c :: rest) = c :: rest := by
  rw [trimStart, List.dropWhile_append_of_pos h, List.dropWhile_cons_of_neg (by simp [hc])]

-- Trimming removes whitespace.
theorem exists_blank (text : List Char) : ∃ ws, Blank ws ∧ text = ws ++ trimStart text :=
  ⟨text.takeWhile isWhitespace, fun _ => List.mem_takeWhile_imp,
    List.takeWhile_append_dropWhile.symm⟩

theorem length_trimStart_le (text : List Char) : (trimStart text).length ≤ text.length :=
  (List.dropWhile_sublist _).length_le

theorem trimStart_eq_nil : trimStart text = [] ↔ Blank text :=
  List.dropWhile_eq_nil_iff

theorem trim_eq_nil : trim text = [] ↔ Blank text := by
  rw [trim, List.reverse_eq_nil_iff, trimStart_eq_nil]
  constructor
  case mp =>
    intro h
    have ⟨ws, hw, he⟩ := exists_blank text
    intro c hc
    rw [he, List.mem_append] at hc
    exact hc.elim (hw c) fun hc => h c (List.mem_reverse.mpr hc)
  case mpr =>
    intro h c hc
    exact h c ((List.dropWhile_sublist _).mem (List.mem_reverse.mp hc))

end Backend
