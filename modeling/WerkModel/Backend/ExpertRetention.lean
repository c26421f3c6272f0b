import WerkModel.Lib.OrderedDict

-- The order in which experts are evicted: least recently used first, in two segments. An expert is
-- on probation until it is used again. The protected experts take four fifths of the budget at
-- most, and the oldest of them return to probation.
namespace Backend

structure ExpertRetention (κ : Type) where
  probation      : OrderedDict κ Nat
  protectedKeys  : OrderedDict κ Nat
  protectedBytes : Nat
  limit          : Nat

namespace ExpertRetention

variable {κ : Type} [DecidableEq κ]

def balance (r : ExpertRetention κ) : ExpertRetention κ :=
  match _h : r.protectedKeys.items with
  | []               => r
  | (key, size) :: _ =>
    if r.limit < r.protectedBytes then
      balance {
        probation      := r.probation.set key size
        protectedKeys  := r.protectedKeys.erase key
        protectedBytes := r.protectedBytes - size
        limit          := r.limit }
    else
      r
termination_by r.protectedKeys.items.length
decreasing_by
  exact OrderedDict.length_erase_lt (OrderedDict.mem_iff.mpr ⟨size, _h ▸ List.mem_cons_self⟩)

variable (r : ExpertRetention κ) (key : κ) (size budget : Nat) (excluded : Finset κ)

def resize : ExpertRetention κ :=
  balance { r with limit := budget * 4 / 5 }

def new (budget : Nat) : ExpertRetention κ :=
  resize ⟨.empty, .empty, 0, 0⟩ budget

def touch : ExpertRetention κ :=
  if key ∈ r.protectedKeys then
    { r with protectedKeys := r.protectedKeys.moveToEnd key }
  else if key ∈ r.probation then
    balance {
      probation      := r.probation.erase key
      protectedKeys  := r.protectedKeys.set key size
      protectedBytes := r.protectedBytes + size
      limit          := r.limit }
  else
    { r with probation := r.probation.set key size }

-- Protected experts are evicted when no other expert is left.
def victim : Option κ :=
  (r.probation.keys.find? (· ∉ excluded)).or (r.protectedKeys.keys.find? (· ∉ excluded))

def discard : ExpertRetention κ :=
  { r with
    probation      := r.probation.erase key
    protectedKeys  := r.protectedKeys.erase key
    protectedBytes := r.protectedBytes - (r.protectedKeys.get? key).getD 0 }

def clear : ExpertRetention κ :=
  { r with probation := .empty, protectedKeys := .empty, protectedBytes := 0 }

instance : Membership κ (ExpertRetention κ) where
  mem r key := key ∈ r.probation ∨ key ∈ r.protectedKeys

variable {r : ExpertRetention κ} {key other : κ} {size budget : Nat} {excluded : Finset κ}

section Members

omit [DecidableEq κ] in
theorem mem_def : key ∈ r ↔ key ∈ r.probation ∨ key ∈ r.protectedKeys :=
  Iff.rfl

@[simp]
theorem mem_balance : key ∈ r.balance ↔ key ∈ r := by
  fun_induction balance r
  case case1 => rfl
  case case2 r first size rest h _ hi =>
    have hm : first ∈ r.protectedKeys := OrderedDict.mem_iff.mpr ⟨size, h ▸ List.mem_cons_self⟩
    rw [hi, mem_def, mem_def, OrderedDict.mem_set, OrderedDict.mem_erase]
    by_cases he : key = first
    case pos => simp [he, hm]
    case neg => simp [he]
  case case3 => rfl

@[simp]
theorem limit_balance : r.balance.limit = r.limit := by
  fun_induction balance r
  case case1    => rfl
  case case2 hi => exact hi
  case case3    => rfl

@[simp]
theorem mem_resize : key ∈ r.resize budget ↔ key ∈ r :=
  mem_balance

theorem limit_resize : (r.resize budget).limit = budget * 4 / 5 :=
  limit_balance

theorem limit_touch : (r.touch key size).limit = r.limit := by
  rw [touch]
  split
  case isTrue => rfl
  case isFalse =>
    split
    case isTrue  => exact limit_balance
    case isFalse => rfl

theorem mem_touch : other ∈ r.touch key size ↔ other = key ∨ other ∈ r := by
  rw [touch]
  split
  case isTrue h =>
    simp only [mem_def, OrderedDict.mem_moveToEnd]
    refine ⟨.inr, fun ho => ho.elim (fun he => .inr (he ▸ h)) id⟩
  case isFalse =>
    split
    case isTrue h =>
      rw [mem_balance, mem_def, mem_def, OrderedDict.mem_erase, OrderedDict.mem_set]
      by_cases he : other = key
      case pos => simp [he]
      case neg => simp [he]
    case isFalse =>
      simp only [mem_def, OrderedDict.mem_set, or_assoc]

theorem mem_discard : other ∈ r.discard key ↔ other ∈ r ∧ other ≠ key := by
  simp only [mem_def, discard, OrderedDict.mem_erase, or_and_right]

omit [DecidableEq κ] in
theorem not_mem_clear : key ∉ r.clear :=
  fun h => h.elim List.not_mem_nil List.not_mem_nil

end Members

section Victims

theorem victim_eq_some (h : r.victim excluded = some key) : key ∈ r ∧ key ∉ excluded := by
  obtain h | ⟨-, h⟩ := Option.or_eq_some_iff.mp h
  case inl => exact ⟨.inl (List.mem_of_find?_eq_some h), by simpa using List.find?_some h⟩
  case inr => exact ⟨.inr (List.mem_of_find?_eq_some h), by simpa using List.find?_some h⟩

theorem victim_eq_none (h : r.victim excluded = none) (hm : key ∈ r) : key ∈ excluded := by
  obtain ⟨hp, hq⟩ := Option.or_eq_none_iff.mp h
  obtain hm | hm := hm
  case inl => simpa using List.find?_eq_none.mp hp key hm
  case inr => simpa using List.find?_eq_none.mp hq key hm

end Victims

section Soundness

-- An expert is in one segment, and the size of the protected ones is known.
structure Counted (sizes : κ → Nat) (r : ExpertRetention κ) : Prop where
  disjoint : ∀ key ∈ r.probation, key ∉ r.protectedKeys
  bytes    : r.protectedBytes = r.protectedKeys.total Prod.snd
  sizes    : ∀ item ∈ r.protectedKeys.items, item.2 = sizes item.1

structure Sound (sizes : κ → Nat) (r : ExpertRetention κ) : Prop extends Counted sizes r where
  le : r.protectedBytes ≤ r.limit

variable {sizes : κ → Nat}

theorem Counted.balance (h : r.Counted sizes) : r.balance.Sound sizes := by
  fun_induction ExpertRetention.balance r
  case case1 r hi =>
    refine ⟨h, ?_⟩
    rw [h.bytes, OrderedDict.total, hi]
    exact Nat.zero_le _
  case case2 r first size rest he _ hi =>
    have hm : (first, size) ∈ r.protectedKeys.items := he ▸ List.mem_cons_self
    refine hi ⟨fun key hk hp => ?_, ?_, fun item hk => ?_⟩
    case refine_1 =>
      obtain ⟨hp, hne⟩ := OrderedDict.mem_erase.mp hp
      exact h.disjoint key ((OrderedDict.mem_set.mp hk).resolve_left hne) hp
    case refine_2 =>
      have ht := OrderedDict.total_erase Prod.snd hm
      have hb := h.bytes
      dsimp only at ht ⊢
      omega
    case refine_3 => exact h.sizes item (OrderedDict.mem_items_erase.mp hk).1
  case case3 r _ _ _ _ hl => exact ⟨h, not_lt.mp hl⟩

theorem Sound.resize (h : r.Sound sizes) : (r.resize budget).Sound sizes :=
  Counted.balance ⟨h.disjoint, h.bytes, h.sizes⟩

theorem new_sound : (new budget : ExpertRetention κ).Sound sizes :=
  Counted.balance ⟨fun _ h => absurd h List.not_mem_nil, rfl, fun _ h => absurd h List.not_mem_nil⟩

theorem not_mem_new : key ∉ (new budget : ExpertRetention κ) := by
  rw [new, mem_resize]
  exact fun h => h.elim List.not_mem_nil List.not_mem_nil

theorem Sound.touch (h : r.Sound sizes) : (r.touch key (sizes key)).Sound sizes := by
  rw [ExpertRetention.touch]
  split
  case isTrue =>
    refine ⟨⟨fun other ho hp => ?_, ?_, fun item hi => ?_⟩, h.le⟩
    case refine_1 => exact h.disjoint other ho (OrderedDict.mem_moveToEnd.mp hp)
    case refine_2 => exact h.bytes.trans OrderedDict.total_moveToEnd.symm
    case refine_3 => exact h.sizes item (OrderedDict.mem_items_moveToEnd.mp hi)
  case isFalse hn =>
    split
    case isTrue =>
      refine Counted.balance ⟨fun other ho hp => ?_, ?_, fun item hi => ?_⟩
      case refine_1 =>
        obtain ⟨ho, hne⟩ := OrderedDict.mem_erase.mp ho
        exact h.disjoint other ho ((OrderedDict.mem_set.mp hp).resolve_left hne)
      case refine_2 =>
        exact (congrArg (· + sizes key) h.bytes).trans
          (OrderedDict.total_set (sizes key) Prod.snd hn).symm
      case refine_3 =>
        obtain rfl | ⟨hi, -⟩ := OrderedDict.mem_items_set.mp hi
        case inl => rfl
        case inr => exact h.sizes item hi
    case isFalse =>
      refine ⟨⟨fun other ho hp => ?_, h.bytes, h.sizes⟩, h.le⟩
      obtain rfl | ho := OrderedDict.mem_set.mp ho
      case inl => exact hn hp
      case inr => exact h.disjoint other ho hp

theorem Sound.discard (h : r.Sound sizes) : (r.discard key).Sound sizes where
  disjoint := fun other ho hp =>
    h.disjoint other (OrderedDict.mem_erase.mp ho).1 (OrderedDict.mem_erase.mp hp).1
  bytes    := by
    have hb := h.bytes
    rw [ExpertRetention.discard]
    cases hg : r.protectedKeys.get? key
    case none =>
      have hn := OrderedDict.get?_eq_none.mp hg
      have he : (r.protectedKeys.erase key).items = r.protectedKeys.items :=
        List.filter_eq_self.mpr fun item hi =>
          decide_eq_true fun hk => hn (hk ▸ OrderedDict.mem_of_item hi)
      rw [Option.getD_none, Nat.sub_zero, hb, OrderedDict.total, OrderedDict.total, he]
    case some size =>
      have ht := OrderedDict.total_erase Prod.snd (OrderedDict.get?_eq_some.mp hg)
      rw [Option.getD_some]
      dsimp only at ht ⊢
      omega
  sizes    := fun item hi => h.sizes item (OrderedDict.mem_items_erase.mp hi).1
  le       := (Nat.sub_le ..).trans h.le

omit [DecidableEq κ] in
theorem clear_sound : r.clear.Sound sizes :=
  ⟨⟨fun _ h => absurd h List.not_mem_nil, rfl, fun _ h => absurd h List.not_mem_nil⟩, Nat.zero_le _⟩

end Soundness

end ExpertRetention
end Backend
