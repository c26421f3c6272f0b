import Mathlib

-- Linear tokens that each claim a finite set of keys. A set of claimed keys is held by the tokens
-- if every claimed key is claimed by exactly one of them.
namespace Tokens

variable {τ κ : Type*} [DecidableEq κ] {keys : τ → Finset κ} {tokens : Multiset τ}
variable {claimed : Finset κ} {t t' : τ} {k : κ}

def Hold (keys : τ → Finset κ) (tokens : Multiset τ) (claimed : Finset κ) : Prop :=
  (tokens.bind fun t => (keys t).val) = claimed.val

namespace Hold

omit [DecidableEq κ] in
theorem zero : Hold keys 0 ∅ :=
  rfl

omit [DecidableEq κ] in
theorem mem_iff (h : Hold keys tokens claimed) : k ∈ claimed ↔ ∃ t ∈ tokens, k ∈ keys t := by
  rw [←Finset.mem_val, ←h, Multiset.mem_bind]
  rfl

omit [DecidableEq κ] in
theorem subset (h : Hold keys tokens claimed) (ht : t ∈ tokens) : keys t ⊆ claimed :=
  fun _ hk => h.mem_iff.mpr ⟨t, ht, hk⟩

theorem add (h : Hold keys tokens claimed) (hd : Disjoint (keys t) claimed) :
    Hold keys (t ::ₘ tokens) (keys t ∪ claimed) := by
  rw [Hold, Multiset.cons_bind, h, ←Finset.disjUnion_eq_union _ _ hd]
  rfl

theorem add_singleton (h : Hold keys tokens claimed) (hk : keys t = {k}) (hc : k ∉ claimed) :
    Hold keys (t ::ₘ tokens) (insert k claimed) := by
  have ha := h.add (t := t) (by simp [hk, hc])
  rwa [hk, ←Finset.insert_eq] at ha

omit [DecidableEq κ] in
theorem cons_disjoint (h : Hold keys (t ::ₘ tokens) claimed) (ht' : t' ∈ tokens) :
    Disjoint (keys t) (keys t') := by
  have hn : ((t ::ₘ tokens).bind fun t => (keys t).val).Nodup := h ▸ claimed.nodup
  rw [Multiset.cons_bind, Multiset.nodup_add] at hn
  rw [Finset.disjoint_left]
  intro k hk hk'
  exact Multiset.disjoint_left.mp hn.2.2 hk <| Multiset.mem_bind.mpr ⟨t', ht', hk'⟩

section Remove

variable [DecidableEq τ]

theorem remove (h : Hold keys tokens claimed) (ht : t ∈ tokens) :
    Hold keys (tokens.erase t) (claimed \ keys t) := by
  have hb := h
  rw [Hold, ←Multiset.cons_erase ht, Multiset.cons_bind] at hb
  rw [Hold, Finset.sdiff_val, ←hb, add_tsub_cancel_left]

theorem remove_singleton (h : Hold keys tokens claimed) (ht : t ∈ tokens) (hk : keys t = {k}) :
    Hold keys (tokens.erase t) (claimed.erase k) := by
  have hr := h.remove ht
  rwa [hk, Finset.sdiff_singleton_eq_erase] at hr

omit [DecidableEq κ] in
theorem disjoint (h : Hold keys tokens claimed) (ht : t ∈ tokens) (ht' : t' ∈ tokens.erase t) :
    Disjoint (keys t) (keys t') := by
  rw [←Multiset.cons_erase ht] at h
  exact h.cons_disjoint ht'

end Remove
end Hold
end Tokens
