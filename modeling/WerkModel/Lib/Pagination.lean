import Mathlib

-- Pages over rows that are ordered by a key, where the next page starts after the last key of the
-- page before it. The rows may change between the requests of the pages.
namespace Pagination

variable {ρ κ : Type*} [LinearOrder κ] {key : ρ → κ} {limit : Nat} {after : Option κ}
variable {rows : List ρ} {r : ρ} {k : κ}

def IsAfter (after : Option κ) (k : κ) : Prop :=
  ∀ a ∈ after, a < k

instance : DecidablePred (IsAfter after) :=
  fun k => inferInstanceAs <| Decidable (∀ a ∈ after, a < k)

-- The rows that are still to come, in the order of their keys.
def remaining (key : ρ → κ) (after : Option κ) (rows : List ρ) : List ρ :=
  (rows.filter fun r => IsAfter after (key r)).insertionSort <| Order.Preimage key (· ≤ ·)

def page (key : ρ → κ) (limit : Nat) (after : Option κ) (rows : List ρ) : List ρ :=
  (remaining key after rows).take limit

-- The key after which the next page starts, if there are more rows than on this page.
def next (key : ρ → κ) (limit : Nat) (after : Option κ) (rows : List ρ) : Option κ :=
  if limit < (remaining key after rows).length then
    (page key limit after rows).getLast?.map key
  else
    none

theorem mem_remaining : r ∈ remaining key after rows ↔ r ∈ rows ∧ IsAfter after (key r) := by
  simp [remaining]

theorem mem_of_mem_page (h : r ∈ page key limit after rows) : r ∈ rows ∧ IsAfter after (key r) :=
  mem_remaining.mp <| List.mem_of_mem_take h

theorem pairwise_remaining_le : (remaining key after rows).Pairwise fun a b => key a ≤ key b :=
  List.pairwise_insertionSort (Order.Preimage key (· ≤ ·)) _

-- Rows in the strict order of their keys are determined by their members.
theorem eq_of_mem_iff {rows' : List ρ} (h : rows.Pairwise fun a b => key a < key b)
    (h' : rows'.Pairwise fun a b => key a < key b) (hm : ∀ r, r ∈ rows ↔ r ∈ rows') :
    rows = rows' := by
  refine ((List.perm_ext_iff_of_nodup ?_ ?_).mpr hm).eq_of_pairwise ?_ h h'
  · exact h.imp fun h he => h.ne (congrArg key he)
  · exact h'.imp fun h he => h.ne (congrArg key he)
  · exact fun _ _ _ _ h h' => absurd h' h.asymm

theorem nodup_remaining (after : Option κ) (h : (rows.map key).Nodup) :
    ((remaining key after rows).map key).Nodup :=
  ((List.perm_insertionSort _ _).map key).nodup_iff.mpr <| h.sublist <| List.filter_sublist.map key

-- Rows with distinct keys are strictly ordered.
theorem pairwise_remaining (h : (rows.map key).Nodup) :
    (remaining key after rows).Pairwise fun a b => key a < key b := by
  have hp := List.pairwise_map.mp <| nodup_remaining after h
  exact (pairwise_remaining_le.and hp).imp fun h => lt_of_le_of_ne h.1 h.2

-- The rows may also be sorted first.
theorem filter_remaining (h : (rows.map key).Nodup) :
    (remaining key none rows).filter (fun r => IsAfter after (key r)) =
      remaining key after rows := by
  have hp : (remaining key none rows).Pairwise fun a b => key a < key b := pairwise_remaining h
  refine eq_of_mem_iff (hp.filter _) (pairwise_remaining h) fun r => ?_
  simp [mem_remaining, IsAfter]

theorem pairwise_page (h : (rows.map key).Nodup) :
    (page key limit after rows).Pairwise fun a b => key a < key b :=
  (pairwise_remaining h).take

theorem next_eq_some (h : next key limit after rows = some k) :
    ∃ r ∈ page key limit after rows, key r = k ∧
      (page key limit after rows).getLast? = some r := by
  rw [next] at h
  split at h
  case isFalse => cases h
  case isTrue  =>
    have ⟨r, hr, hk⟩ := Option.map_eq_some_iff.mp h
    exact ⟨r, List.mem_of_getLast? hr, hk, hr⟩

theorem isAfter_next (h : next key limit after rows = some k) : IsAfter after k :=
  have ⟨_, hr, hk, _⟩ := next_eq_some h
  hk ▸ (mem_of_mem_page hr).2

-- The rows of a page come up to the key of its last row.
theorem le_next (hn : (rows.map key).Nodup) (h : next key limit after rows = some k)
    (hr : r ∈ page key limit after rows) : key r ≤ k := by
  have ⟨l, _, hk, hl⟩ := next_eq_some h
  have ⟨init, hi⟩ := List.getLast?_eq_some_iff.mp hl
  have hp : (page key limit after rows).Pairwise fun a b => key a < key b := pairwise_page hn
  rw [hi] at hr hp
  cases List.mem_append.mp hr
  case inl hr => exact hk ▸ ((List.pairwise_append.mp hp).2.2 _ hr _ List.mem_cons_self).le
  case inr hr => exact (List.mem_singleton.mp hr) ▸ hk.le

-- The rows after the next key are those after the page.
theorem remaining_next (hn : (rows.map key).Nodup) (h : next key limit after rows = some k) :
    remaining key (some k) rows = (remaining key after rows).drop limit := by
  have hp : (remaining key after rows).Pairwise fun a b => key a < key b := pairwise_remaining hn
  refine eq_of_mem_iff (pairwise_remaining hn) hp.drop fun r => ?_
  rw [mem_remaining]
  constructor
  case mp =>
    intro ⟨hr, ha⟩
    have hk : k < key r := ha k rfl
    have hm : r ∈ remaining key after rows :=
      mem_remaining.mpr ⟨hr, fun a hm => (isAfter_next h a hm).trans hk⟩
    rw [←List.take_append_drop limit (remaining key after rows)] at hm
    exact (List.mem_append.mp hm).resolve_left fun hm => absurd (le_next hn h hm) hk.not_ge
  case mpr =>
    intro hr
    have ⟨l, hl, hk, _⟩ := next_eq_some h
    have hlt : key l < key r := hp.rel_of_mem_take_of_mem_drop hl hr
    refine ⟨(mem_remaining.mp <| List.mem_of_mem_drop hr).1, fun a ha => ?_⟩
    cases ha
    exact hk ▸ hlt

theorem next_eq (hl : 0 < limit) : next key limit after rows =
    if limit < (remaining key after rows).length then
      (remaining key after rows)[limit - 1]?.map key
    else
      none := by
  rw [next, page]
  split
  case isFalse  => rfl
  case isTrue h =>
    rw [List.getLast?_eq_getElem?, List.length_take, min_eq_left h.le, List.getElem?_take,
      if_pos (by omega)]

-- A row that is still to come and is not on the page comes after it.
theorem mem_page_or_next_lt (hl : 0 < limit) (hn : (rows.map key).Nodup) (hr : r ∈ rows)
    (ha : IsAfter after (key r)) :
    r ∈ page key limit after rows ∨ ∃ k, next key limit after rows = some k ∧ k < key r := by
  have hm := mem_remaining.mpr ⟨hr, ha⟩
  rw [←List.take_append_drop limit (remaining key after rows)] at hm
  cases List.mem_append.mp hm
  case inl hm => exact .inl hm
  case inr hm =>
    have hd : limit < (remaining key after rows).length := by
      by_contra hd
      rw [List.drop_eq_nil_of_le (not_lt.mp hd)] at hm
      cases hm
    have hp : (page key limit after rows) ≠ [] := by
      rw [page, ne_eq, List.take_eq_nil_iff, not_or]
      exact ⟨hl.ne', List.ne_nil_of_length_pos <| Nat.zero_lt_of_lt hd⟩
    refine .inr ⟨key <| (page key limit after rows).getLast hp, ?_, ?_⟩
    · rw [next, if_pos hd, List.getLast?_eq_some_getLast hp]
      rfl
    · exact (pairwise_remaining hn).rel_of_mem_take_of_mem_drop (List.getLast_mem hp) hm

section Traversal

-- A traversal is given by the rows that its requests find, the latest request first.
variable (key) (limit)

def cursor : List (List ρ) → Option κ
  | []              => none
  | rows :: earlier => next key limit (cursor earlier) rows

-- All rows that the requests return, in the order in which they do.
def returned : List (List ρ) → List ρ
  | []              => []
  | rows :: earlier => returned earlier ++ page key limit (cursor key limit earlier) rows

-- Every request but the first one uses the cursor of the request before it.
def Follows : List (List ρ) → Prop
  | []              => True
  | [_]             => True
  | _ :: earlier    => (∃ k, cursor key limit earlier = some k) ∧ Follows earlier

end Traversal

@[simp]
theorem cursor_nil : cursor key limit [] = none :=
  rfl

@[simp]
theorem cursor_cons {earlier} : cursor key limit (rows :: earlier) =
    next key limit (cursor key limit earlier) rows :=
  rfl

@[simp]
theorem returned_nil : returned key limit [] = [] :=
  rfl

@[simp]
theorem returned_cons {earlier} : returned key limit (rows :: earlier) =
    returned key limit earlier ++ page key limit (cursor key limit earlier) rows :=
  rfl

variable {sources : List (List ρ)} {earlier : List (List ρ)}

theorem Follows.tail (h : Follows key limit (rows :: earlier)) : Follows key limit earlier := by
  cases earlier
  case nil  => trivial
  case cons => exact h.2

theorem Follows.cons (hf : Follows key limit earlier) (h : cursor key limit earlier = some k) :
    Follows key limit (rows :: earlier) := by
  cases earlier
  case nil  => trivial
  case cons => exact ⟨⟨k, h⟩, hf⟩

-- The rows that were returned come up to the cursor.
theorem le_cursor (hf : Follows key limit sources) (hn : ∀ rows ∈ sources, (rows.map key).Nodup)
    (h : cursor key limit sources = some k) (hr : r ∈ returned key limit sources) : key r ≤ k := by
  induction sources generalizing k
  case nil                  => cases h
  case cons rows earlier hi =>
    have ⟨hh, ht⟩ := List.forall_mem_cons.mp hn
    cases List.mem_append.mp hr
    case inr hr => exact le_next hh h hr
    case inl hr =>
      cases earlier
      case nil  => cases hr
      case cons =>
        have ⟨c, hc⟩ := hf.1
        exact (hi hf.2 ht hc hr).trans (isAfter_next h c hc).le

-- The traversal returns rows in the strict order of their keys.
theorem pairwise_returned (hf : Follows key limit sources)
    (hn : ∀ rows ∈ sources, (rows.map key).Nodup) :
    (returned key limit sources).Pairwise fun a b => key a < key b := by
  induction sources
  case nil                  => exact .nil
  case cons rows earlier hi =>
    have ⟨hh, ht⟩ := List.forall_mem_cons.mp hn
    refine List.pairwise_append.mpr ⟨hi hf.tail ht, pairwise_page hh, fun a ha b hb => ?_⟩
    cases earlier
    case nil  => cases ha
    case cons =>
      have ⟨c, hc⟩ := hf.1
      exact lt_of_le_of_lt (le_cursor hf.2 ht hc ha) <| (mem_of_mem_page hb).2 c hc

theorem nodup_returned (hf : Follows key limit sources)
    (hn : ∀ rows ∈ sources, (rows.map key).Nodup) :
    ((returned key limit sources).map key).Nodup :=
  List.pairwise_map.mpr <| (pairwise_returned hf hn).imp ne_of_lt

-- A row that every request finds was returned, or is still to come.
theorem mem_returned_or_cursor_lt (hl : 0 < limit) (hf : Follows key limit sources)
    (hn : ∀ rows ∈ sources, (rows.map key).Nodup) (hs : sources ≠ [])
    (hk : ∀ rows ∈ sources, ∃ r ∈ rows, key r = k) :
    (∃ r ∈ returned key limit sources, key r = k) ∨ ∃ c, cursor key limit sources = some c ∧ c < k := by
  induction sources
  case nil                  => exact absurd rfl hs
  case cons rows earlier hi =>
    have ⟨hh, ht⟩ := List.forall_mem_cons.mp hn
    have ⟨⟨r, hr, he⟩, hk⟩ := List.forall_mem_cons.mp hk
    have hp : (∃ r ∈ returned key limit earlier, key r = k) ∨
        IsAfter (cursor key limit earlier) k := by
      cases earlier
      case nil  => exact .inr nofun
      case cons =>
        refine (hi hf.2 ht (by simp) hk).imp_right fun ⟨c, hc, hlt⟩ a ha => ?_
        exact Option.some.inj (hc.symm.trans ha) ▸ hlt
    cases hp
    case inl hp =>
      have ⟨r, hr, he⟩ := hp
      exact .inl ⟨r, List.mem_append_left _ hr, he⟩
    case inr hp =>
      cases mem_page_or_next_lt hl hh hr (he ▸ hp)
      case inl hm => exact .inl ⟨r, List.mem_append_right _ hm, he⟩
      case inr hm => exact .inr <| he ▸ hm

-- A traversal that has ended returned every row that all of its requests found.
theorem mem_returned (hl : 0 < limit) (hf : Follows key limit sources)
    (hn : ∀ rows ∈ sources, (rows.map key).Nodup) (hs : sources ≠ [])
    (hc : cursor key limit sources = none) (hk : ∀ rows ∈ sources, ∃ r ∈ rows, key r = k) :
    ∃ r ∈ returned key limit sources, key r = k := by
  cases mem_returned_or_cursor_lt hl hf hn hs hk
  case inl h => exact h
  case inr h =>
    have ⟨_, hn, _⟩ := h
    exact absurd (hc.symm.trans hn) nofun

theorem exists_source (h : r ∈ returned key limit sources) : ∃ rows ∈ sources, r ∈ rows := by
  induction sources
  case nil                  => cases h
  case cons rows earlier hi =>
    cases List.mem_append.mp h
    case inl h =>
      have ⟨rows, hm, hr⟩ := hi h
      exact ⟨rows, List.mem_cons_of_mem _ hm, hr⟩
    case inr h => exact ⟨rows, List.mem_cons_self, (mem_of_mem_page h).1⟩

theorem exists_of_cursor (h : cursor key limit sources = some k) :
    ∃ rows ∈ sources, ∃ r ∈ rows, key r = k := by
  cases sources
  case nil            => cases h
  case cons rows tail =>
    have ⟨r, hr, hk, _⟩ := next_eq_some h
    exact ⟨rows, List.mem_cons_self, r, (mem_of_mem_page hr).1, hk⟩

-- Every request that another one follows has returned a row.
theorem length_le_returned (hf : Follows key limit sources) :
    sources.length ≤ (returned key limit sources).length + 1 ∧
    ((∃ k, cursor key limit sources = some k) →
      sources.length ≤ (returned key limit sources).length) := by
  induction sources
  case nil                  => exact ⟨Nat.zero_le _, fun _ => Nat.zero_le _⟩
  case cons rows earlier hi =>
    have he : earlier.length ≤ (returned key limit earlier).length := by
      cases earlier
      case nil  => exact Nat.le_refl _
      case cons => exact (hi hf.2).2 hf.1
    refine ⟨?_, fun ⟨k, hk⟩ => ?_⟩
    · simp only [returned, List.length_cons, List.length_append]
      omega
    · have ⟨_, hr, _⟩ := next_eq_some hk
      have := List.length_pos_of_mem hr
      simp only [returned, List.length_cons, List.length_append]
      omega

-- A traversal ends, because its keys are finite.
theorem length_le_card [Finite κ] (hf : Follows key limit sources)
    (hn : ∀ rows ∈ sources, (rows.map key).Nodup) : sources.length ≤ Nat.card κ + 1 := by
  have := Fintype.ofFinite κ
  have hc := (nodup_returned hf hn).length_le_card
  rw [List.length_map, ←Nat.card_eq_fintype_card] at hc
  exact (length_le_returned hf).1.trans <| Nat.succ_le_succ hc

-- While the rows stay the same, the requests run through them page by page.
theorem remaining_of_constant (hn : (rows.map key).Nodup) (hf : Follows key limit sources)
    (hr : ∀ s ∈ sources, s = rows) (hc : sources ≠ [] → ∃ k, cursor key limit sources = some k) :
    remaining key (cursor key limit sources) rows =
      (remaining key none rows).drop (sources.length * limit) := by
  induction sources
  case nil                 => simp
  case cons head tail hi =>
    have ⟨hh, ht⟩ := List.forall_mem_cons.mp hr
    have ⟨k, hk⟩ := hc (by simp)
    have hi := hi hf.tail ht fun hne => by
      cases tail
      case nil  => exact absurd rfl hne
      case cons => exact hf.1
    have hd : remaining key (some k) rows = _ := remaining_next hn (hh ▸ hk)
    rw [hk, hd, hi, List.drop_drop, List.length_cons, Nat.succ_mul]

-- The cursors are the keys of the rows at the ends of the pages.
theorem cursor_of_constant (hl : 0 < limit) (hn : (rows.map key).Nodup)
    (hf : Follows key limit sources) (hr : ∀ s ∈ sources, s = rows) (hs : sources ≠ []) :
    cursor key limit sources =
      if sources.length * limit < (remaining key none rows).length then
        (remaining key none rows)[sources.length * limit - 1]?.map key
      else
        none := by
  cases sources
  case nil            => exact absurd rfl hs
  case cons head tail =>
    have ⟨hh, ht⟩ := List.forall_mem_cons.mp hr
    have hd := remaining_of_constant hn hf.tail ht fun hne => by
      cases tail
      case nil  => exact absurd rfl hne
      case cons => exact hf.1
    have hi : tail.length * limit + (limit - 1) = (tail.length + 1) * limit - 1 := by
      rw [Nat.succ_mul, Nat.add_sub_assoc hl]
    have hc : limit < (remaining key none rows).length - tail.length * limit ↔
        (tail.length + 1) * limit < (remaining key none rows).length := by
      rw [Nat.succ_mul]
      omega
    simp only [cursor_cons, hh, next_eq hl, hd, List.length_drop, List.getElem?_drop,
      List.length_cons, hi, hc]

-- While the rows stay the same, the traversal returns each of them once.
theorem returned_of_constant (hl : 0 < limit) (hn : (rows.map key).Nodup)
    (hf : Follows key limit sources) (hs : sources ≠ []) (hr : ∀ s ∈ sources, s = rows)
    (hc : cursor key limit sources = none) :
    returned key limit sources = remaining key none rows := by
  have hn' : ∀ s ∈ sources, (s.map key).Nodup := fun s hm => hr s hm ▸ hn
  have hp := pairwise_returned hf hn'
  have hq : (remaining key none rows).Pairwise fun a b => key a < key b := pairwise_remaining hn
  have hm : ∀ r, r ∈ returned key limit sources ↔ r ∈ remaining key none rows := by
    intro r
    rw [mem_remaining]
    constructor
    case mp =>
      intro h
      have ⟨s, hs, h⟩ := exists_source h
      exact ⟨hr s hs ▸ h, nofun⟩
    case mpr =>
      intro ⟨h, _⟩
      have ⟨r', h', hk⟩ := mem_returned hl hf hn' hs hc fun s hm => ⟨r, (hr s hm).symm ▸ h, rfl⟩
      have ⟨s, hs, hi⟩ := exists_source h'
      exact List.inj_on_of_nodup_map hn (hr s hs ▸ hi) h hk ▸ h'
  exact eq_of_mem_iff hp hq hm

end Pagination

-- Requests that return the pages of a list, each with the cursor of the next request.
namespace Cursors

variable {α κ : Type*}

-- The pages from a cursor on, up to one that is followed by no other.
inductive Traversal (request : κ → Option (List α × Option κ)) : κ → List (List α) → Prop
  | last {cursor page} : request cursor = some (page, none) → Traversal request cursor [page]
  | next {cursor page cursor' pages} : request cursor = some (page, some cursor') →
    Traversal request cursor' pages → Traversal request cursor (page :: pages)

variable {request : κ → Option (List α × Option κ)} {cursor : κ} {list : List α} {limit i : Nat}
variable {pages pages' : List (List α)}

theorem Traversal.unique (h : Traversal request cursor pages)
    (h' : Traversal request cursor pages') : pages = pages' := by
  induction h generalizing pages'
  case last hr =>
    cases h'
    case last hr' => simpa [hr] using hr'
    case next hr' => simp [hr] at hr'
  case next hr _ hi =>
    cases h'
    case last hr'    => simp [hr] at hr'
    case next ht hr' =>
      simp only [hr, Option.some.injEq, Prod.mk.injEq] at hr'
      obtain ⟨rfl, rfl⟩ := hr'
      rw [hi ht]

-- Pages that take up where the page before them ends return all of the list.
theorem exists_traversal (At : κ → Nat → Prop) (hl : 0 < limit) (hr : ∀ cursor i, At cursor i →
      request cursor = some ((list.drop i).take limit, none) ∧ list.length ≤ i + limit ∨
      ∃ cursor', request cursor = some ((list.drop i).take limit, some cursor') ∧
        i + limit < list.length ∧ At cursor' (i + limit))
    (h : At cursor i) : ∃ pages, Traversal request cursor pages ∧ pages.flatten = list.drop i := by
  induction hm : list.length - i using Nat.strong_induction_on generalizing cursor i
  case h n hi =>
    obtain ⟨hc, hn⟩ | ⟨cursor', hc, hn, ht⟩ := hr cursor i h
    case inl =>
      refine ⟨_, .last hc, ?_⟩
      rw [List.flatten_singleton, List.take_of_length_le]
      rw [List.length_drop]
      omega
    case inr =>
      obtain ⟨pages, hp, hf⟩ := hi _ (by omega) ht rfl
      refine ⟨_, .next hc hp, ?_⟩
      rw [List.flatten_cons, hf, ←List.drop_drop, List.take_append_drop]

end Cursors
