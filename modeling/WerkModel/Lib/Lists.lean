import Mathlib

-- The shortest initial segment of a list that is enough.
namespace Prefixes

variable {α : Type*}

structure Shortest (enough : List α → Prop) (l a : List α) : Prop where
  initial : a <+: l
  reaches : enough a
  minimal : ∀ b, b <+: l → enough b → a <+: b

variable {enough : List α → Prop} {x : α} {l a b : List α}

theorem Shortest.nil (h : enough []) : Shortest enough l [] :=
  ⟨List.nil_prefix, h, fun _ _ _ => List.nil_prefix⟩

theorem Shortest.unique (ha : Shortest enough l a) (hb : Shortest enough l b) : a = b :=
  (ha.minimal b hb.initial hb.reaches).eq_of_length_le
    (hb.minimal a ha.initial ha.reaches).length_le

theorem Shortest.eq_nil (ha : Shortest enough l a) (h : enough []) : a = [] :=
  ha.unique (.nil h)

theorem shortest_cons (h : ¬enough []) :
    Shortest enough (x :: l) a ↔ ∃ b, a = x :: b ∧ Shortest (fun b => enough (x :: b)) l b := by
  constructor
  case mp =>
    intro ⟨hi, hr, hm⟩
    cases a
    case nil => exact absurd hr h
    case cons y b =>
      obtain ⟨rfl, hb⟩ := List.cons_prefix_cons.mp hi
      refine ⟨b, rfl, hb, hr, fun c hc he => ?_⟩
      exact (List.cons_prefix_cons.mp <| hm (y :: c) (List.cons_prefix_cons.mpr ⟨rfl, hc⟩) he).2
  case mpr =>
    rintro ⟨b, rfl, hi, hr, hm⟩
    refine ⟨List.cons_prefix_cons.mpr ⟨rfl, hi⟩, hr, fun c hc he => ?_⟩
    cases c
    case nil => exact absurd he h
    case cons y c =>
      obtain ⟨rfl, ht⟩ := List.cons_prefix_cons.mp hc
      exact List.cons_prefix_cons.mpr ⟨rfl, hm c ht he⟩

theorem Shortest.congr {enough' : List α → Prop} (h : Shortest enough l a)
    (he : ∀ b, b <+: l → (enough b ↔ enough' b)) : Shortest enough' l a where
  initial := h.initial
  reaches := (he a h.initial).mp h.reaches
  minimal b hb hr := h.minimal b hb ((he b hb).mpr hr)

theorem exists_shortest (h : enough l) : ∃ a, Shortest enough l a := by
  induction l generalizing enough
  case nil => exact ⟨[], .nil h⟩
  case cons x l hi =>
    by_cases hn : enough []
    case pos => exact ⟨[], .nil hn⟩
    case neg =>
      have ⟨a, ha⟩ := @hi (fun a => enough (x :: a)) h
      exact ⟨x :: a, (shortest_cons hn).mpr ⟨a, rfl, ha⟩⟩

end Prefixes

-- Lists without the first elements of a kind.
namespace Omission

variable {α : Type*} {p : α → Bool} {l : List α} {a : α} {n m i : Nat}

def dropFirst (p : α → Bool) : Nat → List α → List α
  | 0, l          => l
  | _ + 1, []     => []
  | n + 1, a :: l => if p a then dropFirst p n l else a :: dropFirst p (n + 1) l

@[simp] theorem dropFirst_zero : dropFirst p 0 l = l := by
  cases l <;> rfl

@[simp] theorem dropFirst_nil : dropFirst p n [] = [] := by
  cases n <;> rfl

theorem dropFirst_cons_of_pos (h : p a = true) : dropFirst p (n + 1) (a :: l) = dropFirst p n l :=
  if_pos h

theorem dropFirst_cons_of_neg (h : ¬p a = true) :
    dropFirst p n (a :: l) = a :: dropFirst p n l := by
  cases n
  case zero => simp
  case succ => exact if_neg h

theorem dropFirst_dropFirst : dropFirst p m (dropFirst p n l) = dropFirst p (n + m) l := by
  induction l generalizing n
  case nil => simp
  case cons a l hi =>
    by_cases h : p a
    case neg => rw [dropFirst_cons_of_neg h, dropFirst_cons_of_neg h, dropFirst_cons_of_neg h, hi]
    case pos =>
      cases n
      case zero => simp
      case succ n => rw [dropFirst_cons_of_pos h, hi, Nat.succ_add, dropFirst_cons_of_pos h]

theorem filter_dropFirst : (dropFirst p n l).filter p = (l.filter p).drop n := by
  induction l generalizing n
  case nil => simp
  case cons a l hi =>
    by_cases h : p a
    case neg => simp [dropFirst_cons_of_neg h, h, hi]
    case pos =>
      cases n
      case zero => simp
      case succ n => simp [dropFirst_cons_of_pos h, h, hi]

-- Elements of other kinds are kept.
theorem filter_not_dropFirst :
    ((dropFirst p n l).filter fun a => !p a) = l.filter fun a => !p a := by
  induction l generalizing n
  case nil => simp
  case cons a l hi =>
    by_cases h : p a
    case neg => simp [dropFirst_cons_of_neg h, h, hi]
    case pos =>
      cases n
      case zero => simp
      case succ n => simp [dropFirst_cons_of_pos h, h, hi]

theorem dropFirst_sublist : (dropFirst p n l).Sublist l := by
  induction l generalizing n
  case nil => simp
  case cons a l hi =>
    by_cases h : p a
    case neg => exact dropFirst_cons_of_neg h ▸ hi.cons_cons a
    case pos =>
      cases n
      case zero   => simp
      case succ n =>
        rw [dropFirst_cons_of_pos h]
        exact hi.cons a

theorem dropFirst_sublist_of_le (h : n ≤ m) : (dropFirst p m l).Sublist (dropFirst p n l) := by
  obtain ⟨k, rfl⟩ := Nat.exists_eq_add_of_le h
  exact dropFirst_dropFirst ▸ dropFirst_sublist

-- The first element of the kind is taken out of its place.
theorem dropFirst_eq_append (h : l.findIdx? p = some i) :
    dropFirst p (n + 1) l = l.take i ++ dropFirst p n (l.drop (i + 1)) := by
  induction l generalizing i
  case nil => simp at h
  case cons a l hi =>
    rw [List.findIdx?_cons] at h
    by_cases hp : p a
    case pos =>
      rw [if_pos hp, Option.some.injEq] at h
      subst h
      simp [dropFirst_cons_of_pos hp]
    case neg =>
      rw [if_neg hp] at h
      obtain ⟨j, hj, rfl⟩ := Option.map_eq_some_iff.mp h
      rw [dropFirst_cons_of_neg hp, hi hj]
      rfl

-- Also together with the one that follows it directly.
theorem dropFirst_eq_append_of_next (h : l.findIdx? p = some i) (hn : l[i + 1]?.any p = true) :
    dropFirst p 2 l = l.take i ++ l.drop (i + 2) := by
  obtain ⟨a, ha, hp⟩ := (Option.any_eq_true ..).mp hn
  obtain ⟨hl, rfl⟩ := List.getElem?_eq_some_iff.mp ha
  rw [dropFirst_eq_append h, List.drop_eq_getElem_cons hl, dropFirst_cons_of_pos hp,
    dropFirst_zero]

theorem length_filter_pos (h : l.findIdx? p = some i) : 1 ≤ (l.filter p).length := by
  obtain ⟨hi, hp, -⟩ := List.findIdx?_eq_some_iff_getElem.mp h
  exact List.length_pos_of_mem (List.mem_filter.mpr ⟨List.getElem_mem hi, hp⟩)

theorem two_le_length_filter (h : l.findIdx? p = some i) (hn : l[i + 1]?.any p = true) :
    2 ≤ (l.filter p).length := by
  obtain ⟨hi, hp, -⟩ := List.findIdx?_eq_some_iff_getElem.mp h
  obtain ⟨a, ha, hpa⟩ := (Option.any_eq_true ..).mp hn
  obtain ⟨hl, rfl⟩ := List.getElem?_eq_some_iff.mp ha
  have hs : [l[i], l[i + 1]].Sublist l := by
    refine List.Sublist.trans ?_ (List.drop_sublist i l)
    rw [List.drop_eq_getElem_cons hi, List.drop_eq_getElem_cons hl]
    exact ((List.nil_sublist _).cons_cons _).cons_cons _
  have hf := hs.filter p
  rw [List.filter_cons_of_pos hp, List.filter_cons_of_pos hpa, List.filter_nil] at hf
  exact hf.length_le

-- If none follows the first element of the kind, then it is the only one.
theorem dropFirst_last (h : l.findIdx? p = some i) (hl : l.length ≤ i + 1) :
    (l.filter p).length = 1 := by
  obtain ⟨hi, hp, hn⟩ := List.findIdx?_eq_some_iff_getElem.mp h
  have hbefore : (l.take i).filter p = [] := by
    refine List.filter_eq_nil_iff.mpr fun a ha => ?_
    obtain ⟨j, hj, rfl⟩ := List.mem_take_iff_getElem.mp ha
    exact hn j (by omega)
  have hl : l = l.take i ++ [l[i]] := by
    rw [List.take_append_getElem, List.take_of_length_le hl]
  rw [hl, List.filter_append, hbefore, List.filter_singleton, hp]
  rfl

-- The last element stays if there are enough others.
theorem dropFirst_concat (h : ¬p a = true ∨ n ≤ (l.filter p).length) :
    dropFirst p n (l ++ [a]) = dropFirst p n l ++ [a] := by
  induction l generalizing n
  case nil =>
    obtain h | h := h
    · rw [List.nil_append, dropFirst_cons_of_neg h, dropFirst_nil, List.nil_append]
    · simp_all
  case cons b l hi =>
    by_cases hb : p b
    case neg =>
      rw [List.filter_cons_of_neg hb] at h
      rw [List.cons_append, dropFirst_cons_of_neg hb, dropFirst_cons_of_neg hb, hi h,
        List.cons_append]
    case pos =>
      cases n
      case zero   => simp
      case succ n =>
        rw [List.filter_cons_of_pos hb, List.length_cons, Nat.add_le_add_iff_right] at h
        rw [List.cons_append, dropFirst_cons_of_pos hb, dropFirst_cons_of_pos hb, hi h]

end Omission

-- A text that is sent anew each time it changes: only the difference if it was extended, and all of
-- it if it was replaced.
namespace Differences

variable {α : Type*} [DecidableEq α] {previous text : List α} {texts : List (List α)}

-- What is received in total. A text that the next one replaces stays in front of it.
def received (previous : List α) : List (List α) → List α
  | []            => previous
  | text :: texts =>
    if previous <+: text then received text texts else previous ++ received text texts

theorem received_of_extended (h : previous <+: text) :
    received previous (text :: texts) = received text texts :=
  if_pos h

theorem received_of_replaced (h : ¬previous <+: text) :
    received previous (text :: texts) = previous ++ received text texts :=
  if_neg h

theorem length_getLastD_le :
    (texts.getLastD previous).length ≤ (received previous texts).length := by
  induction texts generalizing previous
  case nil => rfl
  case cons text texts hi =>
    rw [List.getLastD_cons, received]
    split
    case isTrue  => exact hi
    case isFalse =>
      rw [List.length_append]
      exact hi.trans (Nat.le_add_left ..)

-- The last text alone is received if and only if no text was replaced.
theorem received_eq_getLastD_iff :
    received previous texts = texts.getLastD previous ↔
      (previous :: texts).IsChain (· <+: ·) := by
  induction texts generalizing previous
  case nil => simp [received]
  case cons text texts hi =>
    rw [List.getLastD_cons, List.isChain_cons_cons]
    by_cases h : previous <+: text
    case pos => rw [received_of_extended h, hi, and_iff_right h]
    case neg =>
      have hn : previous ≠ [] := by
        rintro rfl
        exact h List.nil_prefix
      rw [received_of_replaced h]
      refine iff_of_false (fun he => ?_) (fun hc => h hc.1)
      have hl := congrArg List.length he
      have := @length_getLastD_le _ _ text texts
      have := List.length_pos_iff.mpr hn
      rw [List.length_append] at hl
      omega

omit [DecidableEq α] in
theorem isChain_nil_cons : ([] :: texts).IsChain (· <+: ·) ↔ texts.IsChain (· <+: ·) := by
  cases texts
  case nil  => simp
  case cons => rw [List.isChain_cons_cons, and_iff_right List.nil_prefix]

end Differences

-- Lists of keys in the order of their last uses, the key whose last use is longest ago first.
namespace Recency

variable {κ : Type*} [DecidableEq κ]

def touch (recency : List κ) (key : κ) : List κ :=
  recency.erase key ++ [key]

-- The last use of a key is longer ago than that of another key. The latest use comes first.
def Older (uses : List κ) (key other : κ) : Prop :=
  uses.idxOf other < uses.idxOf key

def Ordered (uses recency : List κ) : Prop :=
  recency.Pairwise (Older uses)

variable {uses recency recency' : List κ} {key other used : κ}

theorem Older.ne (h : Older uses key other) : key ≠ other := by
  rintro rfl
  exact lt_irrefl _ h

theorem older_cons_self (h : key ≠ used) : Older (used :: uses) key used := by
  rw [Older, List.idxOf_cons_self, List.idxOf_cons_ne _ h.symm]
  exact Nat.succ_pos _

theorem Older.cons (h : Older uses key other) (hk : key ≠ used) :
    Older (used :: uses) key other := by
  by_cases ho : other = used
  case pos => subst ho; exact older_cons_self hk
  case neg =>
    rw [Older, List.idxOf_cons_ne _ (Ne.symm ho), List.idxOf_cons_ne _ hk.symm]
    exact Nat.succ_lt_succ h

theorem mem_touch : other ∈ touch recency key ↔ other = key ∨ other ∈ recency := by
  rw [touch, List.mem_append, List.mem_singleton, or_comm]
  by_cases h : other = key
  case pos => simp [h]
  case neg => rw [List.mem_erase_of_ne h]

theorem Ordered.nodup (h : Ordered uses recency) : recency.Nodup :=
  h.imp Older.ne

theorem Ordered.touch (h : Ordered uses recency) :
    Ordered (key :: uses) (touch recency key) := by
  have hk : ∀ other ∈ recency.erase key, other ≠ key :=
    fun other hm he => absurd (he ▸ hm) h.nodup.not_mem_erase
  refine List.pairwise_append.mpr ⟨?_, List.pairwise_singleton .., fun other hm last hl => ?_⟩
  case refine_1 =>
    have he : (recency.erase key).Pairwise (Older uses) := h.sublist List.erase_sublist
    exact he.imp_of_mem fun ha _ ho => ho.cons (hk _ ha)
  case refine_2 =>
    obtain rfl := List.mem_singleton.mp hl
    exact older_cons_self (hk other hm)

-- The keys that are taken from the front are older than those that are left.
theorem Ordered.older (h : Ordered uses (recency ++ recency')) (hk : key ∈ recency)
    (ho : other ∈ recency') : Older uses key other :=
  (List.pairwise_append.mp h).2.2 key hk other ho

end Recency

-- Values that are added up at the positions of an output.
namespace Scatter

variable {ι α : Type*} [DecidableEq ι]

-- The values at each position after some more have been added.
def add (output : ι → List α) (additions : List (ι × α)) : ι → List α :=
  fun i => output i ++ (additions.filter (·.1 = i)).map Prod.snd

variable {output : ι → List α} {additions more : List (ι × α)} {i : ι} {a : α}

theorem add_nil : add output [] = output := by
  funext i
  exact List.append_nil _

theorem add_append : add (add output additions) more = add output (additions ++ more) := by
  funext i
  rw [add, add, add, List.filter_append, List.map_append, List.append_assoc]

-- A position that is added to once has this value only.
theorem add_of_nodup (hn : (additions.map Prod.fst).Nodup) (hm : (i, a) ∈ additions) :
    add (fun _ => []) additions i = [a] := by
  rw [add, List.nil_append]
  induction additions
  case nil => nomatch hm
  case cons addition additions hi =>
    rw [List.map_cons, List.nodup_cons] at hn
    obtain ⟨hne, hn⟩ := hn
    obtain rfl | hm := List.mem_cons.mp hm
    case inl =>
      have hfilter : additions.filter (·.1 = i) = [] := by
        refine List.filter_eq_nil_iff.mpr fun other ho he => hne ?_
        exact List.mem_map.mpr ⟨other, ho, of_decide_eq_true he⟩
      rw [List.filter_cons, if_pos (by simp), hfilter]
      rfl
    case inr =>
      have hk : addition.1 ≠ i := fun h => hne (h ▸ List.mem_map_of_mem hm)
      rw [List.filter_cons, if_neg (by simpa using hk)]
      exact hi hn hm

end Scatter
