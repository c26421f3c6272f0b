import Mathlib

-- Tables that count, for every key, how many holders it has. Each key has one owner.
namespace Tally

structure Entry (κ α : Type*) where
  key   : κ
  owner : α
  count : Nat

variable {κ α : Type*} [DecidableEq κ]

-- The first entry of a key, with its index.
def locate (key : κ) : List (Entry κ α) → Option (Nat × Entry κ α)
  | []             => none
  | entry :: table =>
    if entry.key = key then some (0, entry)
    else (locate key table).map fun found => (found.1 + 1, found.2)

-- The number of holders of a key.
def held (holders : Multiset (κ × α)) (key : κ) : Nat :=
  holders.countP (·.1 = key)

-- What is left of an entry after one of its holders is gone.
def shrink (entry : Entry κ α) (table : List (Entry κ α)) : List (Entry κ α) :=
  if entry.count - 1 = 0 then table else { entry with count := entry.count - 1 } :: table

structure Holds (table : List (Entry κ α)) (holders : Multiset (κ × α)) : Prop where
  unique   : (table.map Entry.key).Nodup
  positive : ∀ entry ∈ table, 0 < entry.count
  counted  : ∀ entry ∈ table, entry.count = held holders entry.key
  owned    : ∀ holder ∈ holders, ∃ entry ∈ table, entry.key = holder.1 ∧ entry.owner = holder.2

variable {key : κ} {owner : α} {i : Nat} {entry entry' : Entry κ α}
variable {table table' : List (Entry κ α)} {holders : Multiset (κ × α)}

theorem held_cons_self : held ((key, owner) ::ₘ holders) key = held holders key + 1 :=
  Multiset.countP_cons_of_pos (p := fun holder : κ × α => holder.1 = key) holders rfl

theorem held_cons_of_ne {key' : κ} (h : key' ≠ key) :
    held ((key', owner) ::ₘ holders) key = held holders key :=
  Multiset.countP_cons_of_neg (p := fun holder : κ × α => holder.1 = key) holders h

theorem held_eq_zero : held holders key = 0 ↔ ∀ holder ∈ holders, holder.1 ≠ key :=
  Multiset.countP_eq_zero

theorem locate_eq_none : locate key table = none ↔ ∀ entry ∈ table, entry.key ≠ key := by
  induction table
  case nil => simp [locate]
  case cons entry table hi =>
    rw [locate, List.forall_mem_cons, ←hi]
    split
    case isTrue h  => simp [h]
    case isFalse h => simp [h]

theorem locate_eq_some (h : locate key table = some (i, entry)) :
    entry.key = key ∧ table.Perm (entry :: table.eraseIdx i) ∧
      ∀ f, (table.modify i f).Perm (f entry :: table.eraseIdx i) := by
  induction table generalizing i
  case nil => cases h
  case cons head table hi =>
    rw [locate] at h
    split at h
    case isTrue hk =>
      cases h
      exact ⟨hk, .refl _, fun f => .refl _⟩
    case isFalse hk =>
      obtain ⟨⟨j, found⟩, hl, he⟩ := Option.map_eq_some_iff.mp h
      cases he
      obtain ⟨hf, hp, hm⟩ := hi hl
      refine ⟨hf, ?_, fun f => ?_⟩
      · exact (hp.cons head).trans (.swap ..)
      · rw [List.modify_succ_cons, List.eraseIdx_cons_succ]
        exact ((hm f).cons head).trans (.swap ..)

namespace Holds

theorem perm (h : Holds table holders) (hp : table.Perm table') : Holds table' holders where
  unique                := (hp.map Entry.key).nodup_iff.mp h.unique
  positive entry he     := h.positive entry (hp.mem_iff.mpr he)
  counted entry he      := h.counted entry (hp.mem_iff.mpr he)
  owned holder hh       :=
    have ⟨entry, he, ho⟩ := h.owned holder hh
    ⟨entry, hp.mem_iff.mp he, ho⟩

theorem empty : Holds ([] : List (Entry κ α)) 0 where
  unique       := List.nodup_nil
  positive _ h := absurd h List.not_mem_nil
  counted _ h  := absurd h List.not_mem_nil
  owned _ h    := absurd h (Multiset.notMem_zero _)

-- The holders of a key that has an entry agree on its owner.
theorem owner_eq (h : Holds (entry :: table) holders) {holder : κ × α} (hh : holder ∈ holders)
    (hk : holder.1 = entry.key) : holder.2 = entry.owner := by
  have ⟨entry', he, hk', ho⟩ := h.owned holder hh
  cases List.mem_cons.mp he
  case inl he => rw [←ho, he]
  case inr he =>
    have hn := (List.nodup_cons.mp h.unique).1
    exact absurd (List.mem_map.mpr ⟨entry', he, hk'.trans hk⟩) hn

theorem ne_of_mem (h : Holds (entry :: table) holders) (he : entry' ∈ table) :
    entry'.key ≠ entry.key := by
  intro hk
  exact (List.nodup_cons.mp h.unique).1 (hk ▸ List.mem_map_of_mem he)

-- A new key has one holder.
theorem push (h : Holds table holders) (hk : ∀ entry ∈ table, entry.key ≠ key) :
    Holds (⟨key, owner, 1⟩ :: table) ((key, owner) ::ₘ holders) where
  unique := by
    refine List.nodup_cons.mpr ⟨fun hm => ?_, h.unique⟩
    obtain ⟨entry, he, heq⟩ := List.mem_map.mp hm
    exact hk entry he heq
  positive := List.forall_mem_cons.mpr ⟨Nat.one_pos, h.positive⟩
  counted := by
    refine List.forall_mem_cons.mpr ⟨?_, fun entry he => ?_⟩
    · have hz : held holders key = 0 := by
        refine held_eq_zero.mpr fun holder hh heq => ?_
        have ⟨entry, he, hk', _⟩ := h.owned holder hh
        exact hk entry he (hk'.trans heq)
      simp only [held_cons_self, hz]
    · rw [held_cons_of_ne fun heq => hk entry he heq.symm]
      exact h.counted entry he
  owned := by
    intro holder hh
    cases Multiset.mem_cons.mp hh
    case inl he => exact ⟨_, List.mem_cons_self, by rw [he], by rw [he]⟩
    case inr he =>
      have ⟨entry, hm, ho⟩ := h.owned holder he
      exact ⟨entry, List.mem_cons_of_mem _ hm, ho⟩

theorem add (h : Holds (entry :: table) holders) :
    Holds ({ entry with count := entry.count + 1 } :: table)
      ((entry.key, entry.owner) ::ₘ holders) where
  unique   := h.unique
  positive := List.forall_mem_cons.mpr
    ⟨Nat.succ_pos _, fun entry he => h.positive entry (List.mem_cons_of_mem _ he)⟩
  counted := by
    refine List.forall_mem_cons.mpr ⟨?_, fun entry' he => ?_⟩
    · simp only [held_cons_self, ←h.counted entry List.mem_cons_self]
    · rw [held_cons_of_ne fun heq => h.ne_of_mem he heq.symm]
      exact h.counted entry' (List.mem_cons_of_mem _ he)
  owned := by
    intro holder hh
    cases Multiset.mem_cons.mp hh
    case inl he => exact ⟨_, List.mem_cons_self, by rw [he], by rw [he]⟩
    case inr he =>
      have ⟨entry', hm, ho⟩ := h.owned holder he
      cases List.mem_cons.mp hm
      case inl heq => exact ⟨_, List.mem_cons_self, heq ▸ ho.1, heq ▸ ho.2⟩
      case inr hm  => exact ⟨entry', List.mem_cons_of_mem _ hm, ho⟩

theorem remove (h : Holds (entry :: table) ((entry.key, owner) ::ₘ holders)) :
    Holds (shrink entry table) holders := by
  have hc : entry.count = held holders entry.key + 1 := by
    rw [h.counted entry List.mem_cons_self, held_cons_self]
  have hrest : ∀ entry' ∈ table, entry'.count = held holders entry'.key := by
    intro entry' he
    rw [h.counted entry' (List.mem_cons_of_mem _ he)]
    exact held_cons_of_ne fun heq => h.ne_of_mem he heq.symm
  have hpositive : ∀ entry' ∈ table, 0 < entry'.count :=
    fun entry' he => h.positive entry' (List.mem_cons_of_mem _ he)
  have howned {holder : κ × α} (hh : holder ∈ holders) :=
    h.owned holder (Multiset.mem_cons_of_mem hh)
  rw [shrink]
  split
  case isTrue hz =>
    have hn : held holders entry.key = 0 := by omega
    refine ⟨(List.nodup_cons.mp h.unique).2, hpositive, hrest, fun holder hh => ?_⟩
    have ⟨entry', he, ho⟩ := howned hh
    cases List.mem_cons.mp he
    case inl heq => exact absurd (heq ▸ ho.1.symm) (held_eq_zero.mp hn holder hh)
    case inr he  => exact ⟨entry', he, ho⟩
  case isFalse hz =>
    refine ⟨h.unique, List.forall_mem_cons.mpr ⟨Nat.pos_of_ne_zero hz, hpositive⟩,
      List.forall_mem_cons.mpr ⟨by simp only; omega, hrest⟩, fun holder hh => ?_⟩
    have ⟨entry', he, ho⟩ := howned hh
    cases List.mem_cons.mp he
    case inl heq => exact ⟨_, List.mem_cons_self, heq ▸ ho.1, heq ▸ ho.2⟩
    case inr he  => exact ⟨entry', List.mem_cons_of_mem _ he, ho⟩

end Holds
end Tally
