import Mathlib

-- Patterns that are replaced by a marker, one after the other.
namespace Redaction

variable {α : Type*}

-- A pattern that is not in a marker, and does not reach into it.
structure Apart (marker pattern : List α) : Prop where
  outside : ¬pattern <:+: marker
  front   : ∀ front back, front ≠ [] → back ≠ [] → pattern = front ++ back → ¬front <:+ marker
  back    : ∀ front back, front ≠ [] → back ≠ [] → pattern = front ++ back → ¬back <+: marker

-- The marker is not in the pattern either.
structure Clear (marker pattern : List α) : Prop extends Apart marker pattern where
  inside : ¬marker <:+: pattern

-- The text with its leftmost matches replaced, where the elements of a match are skipped.
inductive Replaced (pattern marker : List α) : List α → List α → Prop
  | keep {l} : ¬pattern <:+: l → Replaced pattern marker l l
  | mark {a l r} : ¬pattern <:+: a → Replaced pattern marker l r →
    Replaced pattern marker (a ++ pattern ++ l) (a ++ marker ++ r)

variable {marker pattern word a b l r : List α} {patterns : List (List α)} {n : Nat}

theorem Apart.of_take (ho : ¬pattern <:+: marker) (h : ∀ n < pattern.length, 0 < n →
    ¬pattern.take n <:+ marker ∧ ¬pattern.drop n <+: marker) : Apart marker pattern where
  outside := ho
  front front back hf hb he hs := by
    have hl := congrArg List.length he
    rw [List.length_append] at hl
    have hn := h front.length (by have := List.length_pos_iff.mpr hb; omega)
      (List.length_pos_iff.mpr hf)
    rw [he, List.take_left] at hn
    exact hn.left hs
  back front back hf hb he hp := by
    have hl := congrArg List.length he
    rw [List.length_append] at hl
    have hn := h front.length (by have := List.length_pos_iff.mpr hb; omega)
      (List.length_pos_iff.mpr hf)
    rw [he, List.drop_left] at hn
    exact hn.right hp

-- A clear word does not cross the borders of a marker.
theorem Clear.infix_append (hc : Clear marker word) (h : word <:+: a ++ marker ++ b) :
    word <:+: a ∨ word <:+: b := by
  have hmarked {l : List α} (h : word <:+: marker ++ l) : word <:+: l := by
    obtain h | h | ⟨front, back, hf, hb, he, hs, -⟩ := List.infix_append_iff_ne_nil.mp h
    · exact absurd h hc.outside
    · exact h
    · exact absurd hs (hc.front front back hf hb he)
  rw [List.append_assoc] at h
  obtain h | h | ⟨front, back, hf, hb, he, -, hp⟩ := List.infix_append_iff_ne_nil.mp h
  · exact .inl h
  · exact .inr (hmarked h)
  · obtain hp | hp := List.prefix_or_prefix_of_prefix hp (List.prefix_append marker b)
    · exact absurd hp (hc.back front back hf hb he)
    · exact absurd (he ▸ hp.isInfix.trans (List.suffix_append front back).isInfix) hc.inside

theorem Replaced.reflects (hc : Clear marker word) (hr : Replaced pattern marker l r)
    (h : word <:+: r) : word <:+: l := by
  induction hr
  case keep => exact h
  case mark a l r _ _ hi =>
    obtain h | h := hc.infix_append h
    · exact h.trans ((List.prefix_append a pattern).trans (List.prefix_append _ l)).isInfix
    · exact (hi h).trans (List.suffix_append _ l).isInfix

theorem Replaced.absent (hc : Clear marker pattern) (hr : Replaced pattern marker l r) :
    ¬pattern <:+: r := by
  induction hr
  case keep hn => exact hn
  case mark ha _ hi => exact fun h => (hc.infix_append h).elim ha hi

section Replace

variable [DecidableEq α]

def replaceFrom (pattern marker : List α) : Nat → List α → List α
  | _, []         => []
  | n + 1, _ :: l => replaceFrom pattern marker n l
  | 0, x :: l     =>
    if pattern <+: x :: l then marker ++ replaceFrom pattern marker (pattern.length - 1) l
    else x :: replaceFrom pattern marker 0 l

-- Patterns are not empty.
def replace (pattern marker l : List α) : List α :=
  replaceFrom pattern marker 0 l

def redact (marker : List α) (patterns : List (List α)) (l : List α) : List α :=
  patterns.foldl (fun l pattern => replace pattern marker l) l

theorem replaceFrom_eq : replaceFrom pattern marker n l = replace pattern marker (l.drop n) := by
  induction l generalizing n
  case nil => simp [replaceFrom, replace]
  case cons x l hi =>
    cases n
    case zero   => rfl
    case succ n => exact hi

theorem replace_append (hp : pattern ≠ []) :
    replace pattern marker (pattern ++ l) = marker ++ replace pattern marker l := by
  obtain ⟨x, tail, rfl⟩ := List.exists_cons_of_ne_nil hp
  have hm : x :: tail <+: x :: (tail ++ l) := List.prefix_append (x :: tail) l
  rw [List.cons_append, replace, replaceFrom, if_pos hm, replaceFrom_eq, List.length_cons,
    Nat.add_sub_cancel, List.drop_left]

theorem replaced_replace (hp : pattern ≠ []) :
    Replaced pattern marker l (replace pattern marker l) := by
  induction hn : l.length using Nat.strong_induction_on generalizing l
  case h n hi =>
    subst hn
    cases l
    case nil => exact .keep fun h => hp (List.infix_nil.mp h)
    case cons x l =>
      by_cases hm : pattern <+: x :: l
      case pos =>
        obtain ⟨rest, hr⟩ := hm
        rw [←hr, replace_append hp]
        have hlt : rest.length < (x :: l).length := by
          have := List.length_pos_iff.mpr hp
          rw [←hr, List.length_append]
          omega
        exact .mark (a := []) (fun h => hp (List.infix_nil.mp h)) (hi _ hlt rfl)
      case neg =>
        have he : replace pattern marker (x :: l) = x :: replace pattern marker l := by
          rw [replace, replaceFrom, if_neg hm, replace]
        rw [he]
        have hl := hi l.length (Nat.lt_succ_self _) rfl
        generalize replace pattern marker l = r at hl ⊢
        have hcons {tail : List α} (ht : tail <+: l) (h : ¬pattern <:+: tail) :
            ¬pattern <:+: x :: tail := by
          rw [List.infix_cons_iff, not_or]
          exact ⟨fun hp => hm (hp.trans ((List.prefix_cons_inj x).mpr ht)), h⟩
        cases hl
        case keep h => exact .keep (hcons (List.prefix_refl l) h)
        case mark a l r h ht =>
          exact .mark (a := x :: a) (hcons ⟨pattern ++ l, by simp⟩ h) ht

theorem infix_of_infix_redact (hc : Clear marker word) (hp : ∀ pattern ∈ patterns, pattern ≠ [])
    (h : word <:+: redact marker patterns l) : word <:+: l := by
  induction patterns generalizing l
  case nil => exact h
  case cons pattern patterns hi =>
    obtain ⟨hh, ht⟩ := List.forall_mem_cons.mp hp
    exact (replaced_replace hh).reflects hc (hi ht h)

-- Patterns that are replaced later do not bring back those that have been replaced.
theorem not_infix_redact (hp : ∀ pattern ∈ patterns, pattern ≠ [])
    (hc : ∀ pattern ∈ patterns, Clear marker pattern) (hw : word ∈ patterns) :
    ¬word <:+: redact marker patterns l := by
  induction patterns generalizing l
  case nil => nomatch hw
  case cons pattern patterns hi =>
    obtain ⟨hh, ht⟩ := List.forall_mem_cons.mp hp
    obtain ⟨hch, hct⟩ := List.forall_mem_cons.mp hc
    obtain rfl | hw := List.mem_cons.mp hw
    · exact fun h => (replaced_replace hh).absent hch (infix_of_infix_redact hch ht h)
    · exact hi ht hct hw

theorem replace_eq_self (hp : pattern ≠ []) (h : ¬pattern <:+: l) :
    replace pattern marker l = l := by
  have hr : Replaced pattern marker l (replace pattern marker l) := replaced_replace hp
  generalize replace pattern marker l = r at hr ⊢
  cases hr
  case keep => rfl
  case mark a l r _ _ => exact absurd ⟨a, l, rfl⟩ h

-- A text without the patterns stays as it is.
theorem redact_eq_self (hp : ∀ pattern ∈ patterns, pattern ≠ [])
    (h : ∀ pattern ∈ patterns, ¬pattern <:+: l) : redact marker patterns l = l := by
  induction patterns
  case nil => rfl
  case cons pattern patterns hi =>
    have ⟨hh, ht⟩ := List.forall_mem_cons.mp hp
    have ⟨ha, hb⟩ := List.forall_mem_cons.mp h
    rw [redact, List.foldl_cons, replace_eq_self hh ha]
    exact hi ht hb

end Replace

end Redaction
