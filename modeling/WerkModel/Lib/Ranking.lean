import Mathlib

-- Lists that are sorted by a comparison, and what comes first in them.
open Std

namespace Ranking

variable {α : Type*} {cmp : α → α → Ordering} {l l' : List α} {p : α → Bool} {a b : α}

def sortBy (cmp : α → α → Ordering) (l : List α) : List α :=
  l.mergeSort fun a b => (cmp a b).isLE

theorem perm_sortBy : (sortBy cmp l).Perm l :=
  List.mergeSort_perm ..

@[simp] theorem mem_sortBy : a ∈ sortBy cmp l ↔ a ∈ l :=
  perm_sortBy.mem_iff

variable [TransCmp cmp]

theorem pairwise_sortBy : (sortBy cmp l).Pairwise fun a b => (cmp a b).isLE = true := by
  refine List.pairwise_mergeSort (fun _ _ _ => TransCmp.isLE_trans) (fun a b => ?_) l
  have hs : cmp b a = (cmp a b).swap := OrientedCmp.eq_swap
  rw [hs]
  cases cmp a b <;> rfl

-- The order of a list does not matter for elements that can be told apart.
theorem sortBy_congr (h : l.Perm l') (he : ∀ a ∈ l, ∀ b ∈ l, cmp a b = .eq → a = b) :
    sortBy cmp l = sortBy cmp l' := by
  refine List.Perm.eq_of_pairwise (fun a b ha hb hab hba => ?_) pairwise_sortBy pairwise_sortBy
    (perm_sortBy.trans (h.trans perm_sortBy.symm))
  refine he a (mem_sortBy.mp ha) b (h.mem_iff.mpr (mem_sortBy.mp hb)) ?_
  exact OrientedCmp.isLE_antisymm hab hba

-- What is found first comes before all others of its kind.
theorem isLE_of_find? (h : (sortBy cmp l).find? p = some a) :
    a ∈ l ∧ p a = true ∧ ∀ b ∈ l, p b = true → (cmp a b).isLE = true := by
  obtain ⟨hp, before, after, hs, hb⟩ := List.find?_eq_some_iff_append.mp h
  have hm : a ∈ sortBy cmp l := List.mem_of_find?_eq_some h
  refine ⟨mem_sortBy.mp hm, hp, fun b hbl hpb => ?_⟩
  have hsorted : (before ++ a :: after).Pairwise fun a b => (cmp a b).isLE = true :=
    hs ▸ pairwise_sortBy
  have hbl : b ∈ before ++ a :: after := hs ▸ mem_sortBy.mpr hbl
  obtain hbl | hbl := List.mem_append.mp hbl
  case inl =>
    have hn := hb b hbl
    rw [hpb] at hn
    nomatch hn
  case inr =>
    obtain rfl | hbl := List.mem_cons.mp hbl
    · exact ReflCmp.isLE_rfl
    · exact List.rel_of_pairwise_cons (List.pairwise_append.mp hsorted).right.left hbl

-- What is passed before an element comes before it.
theorem isLE_of_mem_takeWhile (hb : b ∈ (sortBy cmp l).takeWhile p) (ha : a ∈ l)
    (hp : p a = false) : (cmp b a).isLE = true := by
  have hsorted : (sortBy cmp l).Pairwise fun a b => (cmp a b).isLE = true := pairwise_sortBy
  have ha : a ∈ sortBy cmp l := mem_sortBy.mpr ha
  rw [←List.takeWhile_append_dropWhile (p := p) (l := sortBy cmp l)] at hsorted ha
  obtain ha | ha := List.mem_append.mp ha
  case inl =>
    have ht := List.mem_takeWhile_imp ha
    rw [hp] at ht
    nomatch ht
  case inr => exact (List.pairwise_append.mp hsorted).right.right b hb a ha

end Ranking
