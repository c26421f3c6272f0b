import Mathlib

-- Dictionaries that keep their keys in the order of insertion. A key that is set again keeps its
-- place.
structure OrderedDict (κ α : Type*) where
  items : List (κ × α)
  nodup : (items.map Prod.fst).Nodup

namespace OrderedDict

variable {κ α : Type*} [DecidableEq κ]

def empty : OrderedDict κ α where
  items := []
  nodup := List.nodup_nil

def keys (d : OrderedDict κ α) : List κ :=
  d.items.map Prod.fst

def keySet (d : OrderedDict κ α) : Finset κ :=
  d.keys.toFinset

omit [DecidableEq κ] in
theorem keys_nodup (d : OrderedDict κ α) : d.keys.Nodup :=
  d.nodup

instance : Membership κ (OrderedDict κ α) where
  mem d key := key ∈ d.keys

instance (key : κ) (d : OrderedDict κ α) : Decidable (key ∈ d) :=
  inferInstanceAs <| Decidable (key ∈ d.keys)

def get? (d : OrderedDict κ α) (key : κ) : Option α :=
  (d.items.find? (·.1 = key)).map Prod.snd

def erase (d : OrderedDict κ α) (key : κ) : OrderedDict κ α where
  items := d.items.filter (·.1 ≠ key)
  nodup := d.nodup.sublist (List.filter_sublist.map _)

def set (d : OrderedDict κ α) (key : κ) (value : α) : OrderedDict κ α :=
  if h : key ∈ d then {
    items := d.items.map fun item => (item.1, if item.1 = key then value else item.2)
    nodup := by
      rw [List.map_map]
      exact d.nodup
  }
  else {
    items := d.items ++ [(key, value)]
    nodup := by
      rw [List.map_append, List.map_singleton, ←List.concat_eq_append, List.nodup_concat]
      exact ⟨h, d.nodup⟩
  }

def moveToEnd (d : OrderedDict κ α) (key : κ) : OrderedDict κ α :=
  match d.get? key with
  | none       => d
  | some value => (d.erase key).set key value

def total (d : OrderedDict κ α) (f : κ × α → Nat) : Nat :=
  (d.items.map f).sum

variable {d : OrderedDict κ α} {key other : κ} {value : α} {item : κ × α} {f : κ × α → Nat}

section Members

omit [DecidableEq κ] in
theorem mem_iff : key ∈ d ↔ ∃ value, (key, value) ∈ d.items :=
  List.mem_map.trans ⟨fun ⟨(_, value), h, he⟩ => ⟨value, he ▸ h⟩, fun ⟨_, h⟩ => ⟨_, h, rfl⟩⟩

omit [DecidableEq κ] in
theorem mem_of_item (h : item ∈ d.items) : item.1 ∈ d :=
  List.mem_map_of_mem h

@[simp]
theorem mem_keySet : key ∈ d.keySet ↔ key ∈ d :=
  List.mem_toFinset

omit [DecidableEq κ] in
theorem item_unique {item' : κ × α} (h : item ∈ d.items) (h' : item' ∈ d.items)
    (he : item.1 = item'.1) : item = item' :=
  List.inj_on_of_nodup_map d.nodup h h' he

theorem get?_eq_some : d.get? key = some value ↔ (key, value) ∈ d.items := by
  rw [get?, Option.map_eq_some_iff]
  constructor
  case mp =>
    intro ⟨item, h, he⟩
    have hk : item.1 = key := by simpa using List.find?_some h
    rw [←hk, ←he]
    exact List.mem_of_find?_eq_some h
  case mpr =>
    intro h
    have ⟨item, hf⟩ : ∃ item, d.items.find? (·.1 = key) = some item :=
      Option.isSome_iff_exists.mp <| List.find?_isSome.mpr ⟨_, h, by simp⟩
    have hk : item.1 = key := by simpa using List.find?_some hf
    exact ⟨item, hf, by rw [item_unique (List.mem_of_find?_eq_some hf) h hk]⟩

theorem get?_eq_none : d.get? key = none ↔ key ∉ d := by
  rw [Option.eq_none_iff_forall_ne_some, mem_iff, not_exists]
  exact forall_congr' fun _ => get?_eq_some.not

theorem mem_iff_get? : key ∈ d ↔ ∃ value, d.get? key = some value := by
  simp only [mem_iff, get?_eq_some]

theorem mem_items_erase : item ∈ (d.erase key).items ↔ item ∈ d.items ∧ item.1 ≠ key := by
  simp [erase]

@[simp]
theorem mem_erase : other ∈ d.erase key ↔ other ∈ d ∧ other ≠ key := by
  simp [mem_iff, mem_items_erase]

theorem mem_items_set : item ∈ (d.set key value).items ↔
    item = (key, value) ∨ item ∈ d.items ∧ item.1 ≠ key := by
  rw [set]
  split
  case isTrue h =>
    have ⟨old, ho⟩ := mem_iff.mp h
    simp only [List.mem_map]
    constructor
    case mp =>
      rintro ⟨item, hm, rfl⟩
      by_cases hk : item.1 = key
      case pos => exact .inl (by simp [hk])
      case neg => exact .inr (by simp [hk, hm])
    case mpr =>
      rintro (rfl | ⟨hm, hk⟩)
      case inl => exact ⟨_, ho, by simp⟩
      case inr => exact ⟨_, hm, by simp [hk]⟩
  case isFalse h =>
    have hk : item ∈ d.items → item.1 ≠ key := fun hm he => h (he ▸ mem_of_item hm)
    rw [List.mem_append, List.mem_singleton, or_comm]
    exact or_congr_right ⟨fun hm => ⟨hm, hk hm⟩, And.left⟩

@[simp]
theorem mem_set : other ∈ d.set key value ↔ other = key ∨ other ∈ d := by
  simp only [mem_iff, mem_items_set, Prod.mk.injEq]
  by_cases h : other = key
  case pos => simp [h]
  case neg => simp [h]

@[simp]
theorem keySet_erase : (d.erase key).keySet = d.keySet.erase key := by
  ext other
  simp [and_comm]

@[simp]
theorem keySet_set : (d.set key value).keySet = insert key d.keySet := by
  ext other
  simp

theorem get?_set_self : (d.set key value).get? key = some value :=
  get?_eq_some.mpr <| mem_items_set.mpr <| .inl rfl

theorem get?_set_of_ne (h : other ≠ key) : (d.set key value).get? other = d.get? other := by
  ext value'
  simp [get?_eq_some, mem_items_set, h]

theorem get?_erase_of_ne (h : other ≠ key) : (d.erase key).get? other = d.get? other := by
  ext value'
  simp [get?_eq_some, mem_items_erase, h]

theorem get?_erase_self : (d.erase key).get? key = none :=
  get?_eq_none.mpr <| by simp

theorem mem_items_moveToEnd : item ∈ (d.moveToEnd key).items ↔ item ∈ d.items := by
  rw [moveToEnd]
  split
  case h_1 => rfl
  case h_2 value h =>
    rw [mem_items_set, mem_items_erase]
    have hm := get?_eq_some.mp h
    by_cases hk : item.1 = key
    case pos =>
      simp only [hk, ne_eq, not_true_eq_false, and_false, or_false]
      exact ⟨fun he => he ▸ hm, fun hi => item_unique hi hm hk⟩
    case neg =>
      have : item ≠ (key, value) := fun he => hk (congrArg Prod.fst he)
      simp [hk, this]

@[simp]
theorem mem_moveToEnd : other ∈ d.moveToEnd key ↔ other ∈ d := by
  simp only [mem_iff, mem_items_moveToEnd]

@[simp]
theorem keySet_moveToEnd : (d.moveToEnd key).keySet = d.keySet := by
  ext other
  simp

theorem get?_moveToEnd : (d.moveToEnd key).get? other = d.get? other := by
  ext value'
  simp [get?_eq_some, mem_items_moveToEnd]

end Members

section Totals

omit [DecidableEq κ] in
theorem items_nodup (d : OrderedDict κ α) : d.items.Nodup :=
  .of_map _ d.nodup

theorem perm_erase (h : (key, value) ∈ d.items) :
    d.items.Perm ((key, value) :: (d.erase key).items) := by
  have hn : (key, value) ∉ (d.erase key).items := by simp [mem_items_erase]
  refine (List.perm_ext_iff_of_nodup d.items_nodup (.cons hn (d.erase key).items_nodup)).mpr ?_
  intro item
  rw [List.mem_cons, mem_items_erase]
  by_cases hk : item.1 = key
  case pos =>
    simp only [hk, ne_eq, not_true_eq_false, and_false, or_false]
    exact ⟨fun hi => item_unique hi h hk, fun he => he ▸ h⟩
  case neg =>
    have : item ≠ (key, value) := fun he => hk (congrArg Prod.fst he)
    simp [hk, this]

theorem length_erase_lt (h : key ∈ d) : (d.erase key).items.length < d.items.length := by
  have ⟨_, hi⟩ := mem_iff.mp h
  rw [(perm_erase hi).length_eq, List.length_cons]
  omega

theorem erase_last {items : List (κ × α)} (h : d.items = items ++ [(key, value)]) :
    (d.erase key).items = items := by
  have hn := d.nodup
  rw [h, List.map_append, List.map_singleton, ←List.concat_eq_append, List.nodup_concat] at hn
  have hk : ∀ item ∈ items, item.1 ≠ key := fun item hi he =>
    hn.1 (List.mem_map.mpr ⟨item, hi, he⟩)
  change d.items.filter _ = items
  rw [h, List.filter_append, List.filter_eq_self.mpr (by simpa using hk)]
  simp

theorem items_set_of_not_mem (h : key ∉ d) : (d.set key value).items = d.items ++ [(key, value)] := by
  simp [set, h]

theorem perm_moveToEnd : (d.moveToEnd key).items.Perm d.items :=
  (List.perm_ext_iff_of_nodup (items_nodup _) d.items_nodup).mpr fun _ => mem_items_moveToEnd

theorem total_erase (f : κ × α → Nat) (h : (key, value) ∈ d.items) :
    (d.erase key).total f + f (key, value) = d.total f := by
  rw [total, total, ((perm_erase h).map f).sum_eq, List.map_cons, List.sum_cons, Nat.add_comm]

theorem total_set (value : α) (f : κ × α → Nat) (h : key ∉ d) :
    (d.set key value).total f = d.total f + f (key, value) := by
  simp [total, set, h]

theorem total_moveToEnd : (d.moveToEnd key).total f = d.total f := by
  rw [total, total, (perm_moveToEnd.map f).sum_eq]

omit [DecidableEq κ] in
theorem total_le_total {g : κ × α → Nat} (h : ∀ item ∈ d.items, f item ≤ g item) :
    d.total f ≤ d.total g :=
  List.sum_le_sum h

omit [DecidableEq κ] in
@[simp]
theorem total_empty : (empty : OrderedDict κ α).total f = 0 :=
  rfl

-- Sums over a dictionary are sums over its set of keys.
theorem total_eq_sum (f : κ × α → Nat) :
    d.total f = ∑ key ∈ d.keySet, (d.get? key).elim 0 fun value => f (key, value) := by
  rw [keySet, List.sum_toFinset _ d.keys_nodup, keys, List.map_map, total]
  refine congrArg List.sum <| List.map_congr_left fun item hi => ?_
  rw [Function.comp_apply, get?_eq_some.mpr hi, Option.elim_some]

end Totals
end OrderedDict
