import Mathlib

-- Texts that are cut after each of their separators. A line ends in its only separator, and what
-- follows the last separator is cut off as well.
namespace Lines

variable {α : Type*} (ends : α → Bool)

def cut : List α → List (List α)
  | []         => []
  | a :: text  =>
    if ends a then
      [a] :: cut text
    else
      match cut text with
      | []            => [[a]]
      | line :: lines => (a :: line) :: lines

def IsLine (line : List α) : Prop :=
  ∃ content a, line = content ++ [a] ∧ ends a = true ∧ ∀ b ∈ content, ends b = false

-- Either empty, or its last line is complete.
def Ended (text : List α) : Prop :=
  ∀ a ∈ text.getLast?, ends a = true

variable {ends} {text text' line : List α} {a : α}

theorem cut_eq_nil : cut ends text = [] ↔ text = [] := by
  cases text
  case nil  => exact iff_of_true rfl rfl
  case cons =>
    refine iff_of_false ?_ (List.cons_ne_nil _ _)
    rw [cut]
    split
    · exact List.cons_ne_nil _ _
    · split <;> exact List.cons_ne_nil _ _

theorem cut_singleton : cut ends [a] = [[a]] := by
  simp [cut]

theorem flatten_cut : (cut ends text).flatten = text := by
  induction text
  case nil => rfl
  case cons a text hi =>
    rw [cut]
    split
    case isTrue  => rw [List.flatten_cons, hi, List.singleton_append]
    case isFalse =>
      split
      case h_1 h => rw [cut_eq_nil.mp h]; rfl
      case h_2 line lines h =>
        rw [h, List.flatten_cons] at hi
        rw [List.flatten_cons, List.cons_append, hi]

theorem Ended.nil : Ended ends ([] : List α) := by
  simp [Ended]

theorem Ended.append (h : Ended ends text) (h' : Ended ends text') :
    Ended ends (text ++ text') := by
  intro a ha
  rw [List.getLast?_append] at ha
  cases hl : text'.getLast?
  case none   => rw [hl, Option.none_or] at ha; exact h a ha
  case some b => rw [hl, Option.some_or] at ha; exact h' a (hl ▸ ha)

theorem IsLine.ended (h : IsLine ends line) : Ended ends line := by
  obtain ⟨content, a, rfl, ha, -⟩ := h
  intro b hb
  rw [List.getLast?_concat, Option.mem_some_iff] at hb
  exact hb ▸ ha

-- A text that is cut where a line ends is cut in two.
theorem cut_append (h : Ended ends text) :
    cut ends (text ++ text') = cut ends text ++ cut ends text' := by
  induction text
  case nil => rfl
  case cons a text hi =>
    by_cases ht : text = []
    case pos =>
      subst ht
      have ha : ends a = true := h a rfl
      simp [cut, ha]
    case neg =>
      have he : Ended ends text := fun b hb => h b (by rwa [List.getLast?_cons_of_ne_nil ht])
      obtain ⟨line, lines, hl⟩ := List.exists_cons_of_ne_nil (mt cut_eq_nil.mp ht)
      rw [List.cons_append, cut, cut, hi he, hl]
      split <;> rfl

theorem IsLine.cut_eq (h : IsLine ends line) : cut ends line = [line] := by
  obtain ⟨content, a, rfl, ha, hn⟩ := h
  induction content
  case nil => exact cut_singleton
  case cons b content hi =>
    have hb := hn b List.mem_cons_self
    rw [List.cons_append, cut, hi fun c hc => hn c (List.mem_cons_of_mem _ hc)]
    simp [hb]

theorem Ended.flatten {texts : List (List α)} (h : ∀ text ∈ texts, Ended ends text) :
    Ended ends texts.flatten := by
  induction texts
  case nil => exact .nil
  case cons text texts hi =>
    exact (h text List.mem_cons_self).append (hi fun text ht => h text (List.mem_cons_of_mem _ ht))

theorem cut_flatten {lines : List (List α)} (h : ∀ line ∈ lines, IsLine ends line) :
    cut ends lines.flatten = lines := by
  induction lines
  case nil => rfl
  case cons line lines hi =>
    have hl := h line List.mem_cons_self
    have ht := hi fun line hm => h line (List.mem_cons_of_mem _ hm)
    rw [List.flatten_cons, cut_append hl.ended, hl.cut_eq, ht, List.singleton_append]

-- Only the last line of a text may lack its end.
theorem Ended.isLine (h : Ended ends text) (hl : line ∈ cut ends text) : IsLine ends line := by
  induction text generalizing line
  case nil => rw [cut] at hl; cases hl
  case cons a text hi =>
    have ht : Ended ends text := fun b hb => h b <| by
      rwa [List.getLast?_cons_of_ne_nil (List.ne_nil_of_mem <| List.mem_of_getLast? hb)]
    rw [cut] at hl
    split at hl
    case isTrue ha =>
      rw [List.mem_cons] at hl
      cases hl
      case inl hl => exact ⟨[], a, hl, ha, List.forall_mem_nil _⟩
      case inr hl => exact hi ht hl
    case isFalse ha =>
      split at hl
      case h_1 hc =>
        rw [cut_eq_nil.mp hc] at h
        exact absurd (h a rfl) ha
      case h_2 first lines hc =>
        rw [List.mem_cons] at hl
        cases hl
        case inl hl =>
          have ⟨content, b, he, hb, hn⟩ := hi ht (hc ▸ List.mem_cons_self)
          have ha := Bool.eq_false_of_not_eq_true ha
          exact ⟨a :: content, b, by rw [hl, he]; rfl, hb, List.forall_mem_cons.mpr ⟨ha, hn⟩⟩
        case inr hl => exact hi ht (hc ▸ List.mem_cons_of_mem _ hl)

end Lines
