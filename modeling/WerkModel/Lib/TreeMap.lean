import Mathlib

-- The values of an ordered map in the order of its keys, and sums over them. The lemmas about sums
-- follow from `valueSum_erase`, which splits off the summand of one key.
open Std

-- An injective projection to a lawfully ordered type orders the keys lawfully.
theorem Std.LawfulEqCmp.of_injective {α β : Type*} [Ord β] [LawfulEqOrd β] {f : α → β}
    (h : Function.Injective f) : LawfulEqCmp (compareOn f) where
  compare_self {a}        := (ReflCmp.compare_self : compare (f a) (f a) = .eq)
  eq_of_compare {_ _} hab := h (LawfulEqCmp.eq_of_compare hab)

namespace Std.ExtTreeMap

variable {α β γ : Type*} {cmp : α → α → Ordering} [TransCmp cmp] [LawfulEqCmp cmp]
variable {m : ExtTreeMap α β cmp} {k : α} {v w : β} {f g : β → Nat}

def valueList (m : ExtTreeMap α β cmp) : List β :=
  m.toList.map Prod.snd

def valueSum (m : ExtTreeMap α β cmp) (f : β → Nat) : Nat :=
  (m.valueList.map f).sum

omit [LawfulEqCmp cmp] in
theorem mem_of_lookup (h : m[k]? = some v) : k ∈ m := by
  simp [mem_iff_isSome_getElem?, h]

omit [LawfulEqCmp cmp] in
theorem exists_lookup (h : k ∈ m) : ∃ v, m[k]? = some v :=
  Option.isSome_iff_exists.mp <| mem_iff_isSome_getElem?.mp h

theorem mem_valueList_iff : v ∈ m.valueList ↔ ∃ k : α, m[k]? = some v := by
  simp [valueList, mem_toList_iff_getElem?_eq_some]

-- A map whose values know their keys.
theorem map_valueList_of_keyed {f : β → α} (h : ∀ (k : α) v, m[k]? = some v → f v = k) :
    m.valueList.map f = m.keys := by
  rw [valueList, List.map_map, ←map_fst_toList_eq_keys]
  exact List.map_congr_left fun entry he => h _ _ (mem_toList_iff_getElem?_eq_some.mp he)

theorem valueSum_eq_keys_sum :
    m.valueSum f = (m.keys.map fun k => (m[k]?).elim 0 f).sum := by
  rw [valueSum, valueList, ←map_fst_toList_eq_keys, List.map_map, List.map_map]
  congr 1
  apply List.map_congr_left
  intro ⟨k, v⟩ h
  simp [mem_toList_iff_getElem?_eq_some.mp h]

-- The key set of a map as a finite set, so that sums over maps are finite sums.
def keySet [DecidableEq α] (m : ExtTreeMap α β cmp) : Finset α :=
  m.keys.toFinset

theorem mem_keySet_iff [DecidableEq α] : k ∈ m.keySet ↔ k ∈ m := by
  simp [keySet]

theorem valueSum_eq_sum [DecidableEq α] : m.valueSum f = ∑ k ∈ m.keySet, (m[k]?).elim 0 f := by
  rw [valueSum_eq_keys_sum, keySet, List.sum_toFinset _ nodup_keys]

theorem valueSum_erase (m : ExtTreeMap α β cmp) (k : α) (f : β → Nat) :
    m.valueSum f = (m[k]?).elim 0 f + (m.erase k).valueSum f := by
  classical
  have he : (m.erase k).keySet = m.keySet.erase k := by
    ext i
    have hc : cmp k i ≠ .eq ↔ i ≠ k := by
      rw [ne_eq, LawfulEqCmp.compare_eq_iff_eq, ne_comm]
    rw [mem_keySet_iff, mem_erase, Finset.mem_erase, hc, mem_keySet_iff]
  have hr : ∑ i ∈ m.keySet.erase k, ((m.erase k)[i]?).elim 0 f =
      ∑ i ∈ m.keySet.erase k, (m[i]?).elim 0 f := by
    apply Finset.sum_congr rfl
    intro i hi
    simp [getElem?_erase, (Finset.ne_of_mem_erase hi).symm]
  rw [valueSum_eq_sum, valueSum_eq_sum, he, hr]
  by_cases hm : k ∈ m
  case pos => exact (Finset.add_sum_erase _ _ (mem_keySet_iff.mpr hm)).symm
  case neg =>
    rw [Finset.erase_eq_of_notMem (mem_keySet_iff.not.mpr hm), getElem?_eq_none hm]
    simp

-- The value that an updated entry was before.
theorem lookup_modify [DecidableEq α] {u : β → β} {i : α} (h : (m.modify k u)[i]? = some w) :
    ∃ v, m[i]? = some v ∧ w = if k = i then u v else v := by
  rw [getElem?_modify] at h
  by_cases hk : k = i
  case pos =>
    rw [if_pos (LawfulEqCmp.compare_eq_iff_eq.mpr hk)] at h
    have ⟨v, hv, he⟩ := Option.map_eq_some_iff.mp h
    exact ⟨v, hk ▸ hv, by rw [if_pos hk, he]⟩
  case neg =>
    rw [if_neg (LawfulEqCmp.compare_eq_iff_eq.not.mpr hk)] at h
    exact ⟨w, h, (if_neg hk).symm⟩

theorem erase_insert (m : ExtTreeMap α β cmp) : (m.insert k v).erase k = m.erase k := by
  ext1 i
  simp only [getElem?_erase, getElem?_insert]
  split <;> simp_all

theorem erase_modify (m : ExtTreeMap α β cmp) (f : β → β) :
    (m.modify k f).erase k = m.erase k := by
  ext1 i
  simp only [getElem?_erase, getElem?_modify]
  split <;> simp_all

theorem valueSum_insert : (m.insert k v).valueSum f = f v + (m.erase k).valueSum f := by
  rw [valueSum_erase _ k, erase_insert]
  simp

theorem valueSum_insert_of_none (h : m[k]? = none) :
    (m.insert k v).valueSum f = f v + m.valueSum f := by
  rw [valueSum_insert, valueSum_erase m k, h]
  simp

theorem valueSum_modify (h : m[k]? = some v) (u : β → β) :
    (m.modify k u).valueSum f = f (u v) + (m.erase k).valueSum f := by
  rw [valueSum_erase _ k, erase_modify, getElem?_modify]
  simp [h]

theorem modify_of_none (h : m[k]? = none) (u : β → β) : m.modify k u = m := by
  ext1 i
  rw [getElem?_modify]
  split
  case isTrue he => simp_all
  case isFalse   => rfl

-- A projection of the values commutes with the updates of a map.
theorem map_modify {g : β → γ} {u : β → β} {u' : γ → γ} (h : ∀ v, g (u v) = u' (g v)) :
    (m.modify k u).map (fun _ => g) = (m.map fun _ => g).modify k u' := by
  ext1 i
  simp only [getElem?_map, getElem?_modify]
  split
  case isTrue  => cases m[k]? <;> simp [h]
  case isFalse => rfl

theorem map_insert {g : β → γ} :
    (m.insert k v).map (fun _ => g) = (m.map fun _ => g).insert k (g v) := by
  ext1 i
  simp only [getElem?_map, getElem?_insert]
  split <;> rfl

theorem map_erase {g : β → γ} :
    (m.erase k).map (fun _ => g) = (m.map fun _ => g).erase k := by
  ext1 i
  simp only [getElem?_map, getElem?_erase]
  split <;> rfl

theorem map_map_of_eq {g : β → γ} {u : α → β → β} (h : ∀ k v, g (u k v) = g v) :
    (m.map u).map (fun _ => g) = m.map fun _ => g := by
  ext1 i
  simp only [getElem?_map, Option.map_map]
  cases m[i]? <;> simp [h]

theorem map_modify_of_eq {g : β → γ} {u : β → β} (h : ∀ v, g (u v) = g v) :
    (m.modify k u).map (fun _ => g) = m.map fun _ => g := by
  ext1 i
  simp only [getElem?_map, getElem?_modify]
  split
  case isTrue he => rw [LawfulEqCmp.compare_eq_iff_eq.mp he]; cases m[i]? <;> simp [h]
  case isFalse   => rfl

-- Updates of one value that do not change its summand do not change the sum.
theorem valueSum_modify_of_eq {u : β → β} (h : ∀ v, f (u v) = f v) :
    (m.modify k u).valueSum f = m.valueSum f := by
  cases hk : m[k]?
  case none   => rw [modify_of_none hk]
  case some v => rw [valueSum_modify hk, valueSum_erase m k, hk, h]; rfl

theorem le_valueSum (h : m[k]? = some v) : f v ≤ m.valueSum f := by
  rw [valueSum_erase m k, h]
  exact Nat.le_add_right ..

omit [LawfulEqCmp cmp] in
theorem valueList_map (u : α → β → γ) :
    (m.map u).valueList = m.toList.map fun p => u p.1 p.2 := by
  simp [valueList]

omit [LawfulEqCmp cmp] in
theorem valueSum_map {u : α → β → γ} {f' : γ → Nat} (h : ∀ k v, f' (u k v) = f v) :
    (m.map u).valueSum f' = m.valueSum f := by
  simp [valueSum, valueList, Function.comp_def, h]

theorem valueSum_congr (h : ∀ (k : α) v, m[k]? = some v → f v = g v) :
    m.valueSum f = m.valueSum g := by
  rw [valueSum, valueSum]
  congr 1
  apply List.map_congr_left
  intro v hv
  have ⟨k, hk⟩ := mem_valueList_iff.mp hv
  exact h k v hk

omit [LawfulEqCmp cmp] in
theorem valueSum_add : m.valueSum (fun v => f v + g v) = m.valueSum f + m.valueSum g :=
  List.sum_map_add

-- Maps that agree in what is read from their values have the same list of it.
theorem valueList_map_congr {m' : ExtTreeMap α β cmp} {g g' : β → γ}
    (h : ∀ k : α, (m[k]?).map g = (m'[k]?).map g') :
    m.valueList.map g = m'.valueList.map g' := by
  have he : m.map (fun _ => g) = m'.map fun _ => g' := by
    ext1 k
    rw [getElem?_map, getElem?_map, h]
  have hm (m : ExtTreeMap α β cmp) (g : β → γ) :
      (m.map fun _ => g).valueList = m.valueList.map g := by
    rw [valueList_map, valueList, List.map_map]
    rfl
  rw [←hm, ←hm, he]

theorem valueSum_eq_zero (h : ∀ (k : α) v, m[k]? = some v → f v = 0) : m.valueSum f = 0 := by
  rw [valueSum_congr (g := fun _ => 0) h]
  simp [valueSum]

omit [LawfulEqCmp cmp] in
theorem size_eq_valueSum : m.size = m.valueSum fun _ => 1 := by
  simp [valueSum, valueList, ←length_toList, Function.comp_def]

omit [LawfulEqCmp cmp] in
theorem count_eq_valueSum {p : β → Bool} :
    (m.valueList.filter p).length = m.valueSum fun v => if p v then 1 else 0 := by
  rw [valueSum, ←List.countP_eq_length_filter]
  induction m.valueList
  case nil         => rfl
  case cons hd tl hi => rw [List.countP_cons, hi, List.map_cons, List.sum_cons, Nat.add_comm]

omit [LawfulEqCmp cmp] in
theorem valueSum_filter_le {p : α → β → Bool} : (m.filter p).valueSum f ≤ m.valueSum f := by
  rw [valueSum, valueSum, valueList, valueList, toList_filter]
  apply List.Sublist.sum_le_sum
  · exact (List.filter_sublist.map _).map _
  · simp

-- Values that do not count may be filtered out.
omit [LawfulEqCmp cmp] in
theorem valueSum_filter_of_zero {p : α → β → Bool} (h : ∀ k v, p k v = false → f v = 0) :
    (m.filter p).valueSum f = m.valueSum f := by
  rw [valueSum, valueSum, valueList, valueList, toList_filter]
  induction m.toList
  case nil           => rfl
  case cons hd tl hi =>
    rw [List.filter_cons]
    split
    case isTrue     => simpa using hi
    case isFalse hp => simpa [h _ _ (Bool.eq_false_iff.mpr hp)] using hi

theorem valueSum_empty : (∅ : ExtTreeMap α β cmp).valueSum f = 0 :=
  valueSum_eq_zero fun k v h => by simp at h

end Std.ExtTreeMap
