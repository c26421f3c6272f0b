import Mathlib

-- Lists in consecutive chunks of a positive size, of which only the last one may be smaller.
namespace Chunks

variable {α : Type*}

def ofFuel (size : Nat) : Nat → List α → List (List α)
  | 0, _               => []
  | _ + 1, []          => []
  | fuel + 1, a :: rest => (a :: rest).take size :: ofFuel size fuel ((a :: rest).drop size)

def of (size : Nat) (list : List α) : List (List α) :=
  ofFuel size list.length list

variable {size fuel : Nat} {list chunk : List α}

theorem flatten_ofFuel (hs : 0 < size) (hf : list.length ≤ fuel) :
    (ofFuel size fuel list).flatten = list := by
  induction fuel generalizing list
  case zero =>
    rw [List.eq_nil_of_length_eq_zero (Nat.le_zero.mp hf)]
    rfl
  case succ fuel hi =>
    cases list
    case nil => rfl
    case cons a rest =>
      have hl : ((a :: rest).drop size).length ≤ fuel := by
        rw [List.length_drop]
        rw [List.length_cons] at hf ⊢
        omega
      rw [ofFuel, List.flatten_cons, hi hl, List.take_append_drop]

theorem flatten_of (hs : 0 < size) : (of size list).flatten = list :=
  flatten_ofFuel hs le_rfl

theorem mem_ofFuel (hs : 0 < size) (h : chunk ∈ ofFuel size fuel list) :
    chunk ≠ [] ∧ chunk.length ≤ size := by
  induction fuel generalizing list
  case zero => nomatch h
  case succ fuel hi =>
    cases list
    case nil => nomatch h
    case cons a rest =>
      obtain rfl | h := List.mem_cons.mp h
      case inr => exact hi h
      case inl =>
        refine ⟨fun hn => ?_, List.length_take_le _ _⟩
        have hn := congrArg List.length hn
        rw [List.length_take, List.length_cons, List.length_nil] at hn
        omega

theorem mem_of (hs : 0 < size) (h : chunk ∈ of size list) : chunk ≠ [] ∧ chunk.length ≤ size :=
  mem_ofFuel hs h

-- The i-th chunk exists if there are elements from its first position on.
theorem lt_length_ofFuel (hs : 0 < size) (hf : list.length ≤ fuel) {i : Nat} :
    i < (ofFuel size fuel list).length ↔ i * size < list.length := by
  induction fuel generalizing list i
  case zero =>
    rw [List.eq_nil_of_length_eq_zero (Nat.le_zero.mp hf)]
    simp [ofFuel]
  case succ fuel hi =>
    cases list
    case nil => simp [ofFuel]
    case cons a rest =>
      have hl : ((a :: rest).drop size).length ≤ fuel := by
        rw [List.length_drop]
        rw [List.length_cons] at hf ⊢
        omega
      rw [ofFuel, List.length_cons]
      cases i
      case zero => simp
      case succ i =>
        rw [Nat.succ_lt_succ_iff, hi hl, List.length_drop, Nat.succ_mul, Nat.lt_sub_iff_add_lt]

theorem lt_length_of (hs : 0 < size) {i : Nat} :
    i < (of size list).length ↔ i * size < list.length :=
  lt_length_ofFuel hs le_rfl

end Chunks

-- Decoders that receive their input in chunks. A decoder is resumable if it does not matter for
-- its results where its input is cut.
namespace Chunking

variable {α π σ ε : Type*} {push : π → List α → σ → π × σ × Except ε PUnit}
variable {Valid : π → List α → Prop} {a : π} {chunks : List (List α)} {s : σ}

-- The results for a sequence of chunks, up to the first error.
def run (push : π → List α → σ → π × σ × Except ε PUnit) (a : π) :
    List (List α) → σ → σ × Except ε PUnit
  | [], s => (s, .ok ⟨⟩)
  | chunk :: chunks, s =>
    match push a chunk s with
    | (a, s, .ok _)    => run push a chunks s
    | (_, s, .error e) => (s, .error e)

-- The decoder `a` may assume that the rest of its input is valid.
structure Resumable (push : π → List α → σ → π × σ × Except ε PUnit)
    (Valid : π → List α → Prop) : Prop where
  empty : ∀ a s, Valid a [] → (push a [] s).2 = (s, .ok ⟨⟩)
  ok    : ∀ a x y s a' s', Valid a (x ++ y) → push a x s = (a', s', .ok ⟨⟩) →
    Valid a' y ∧ (push a (x ++ y) s).2 = (push a' y s').2
  error : ∀ a x y s a' s' e, Valid a (x ++ y) → push a x s = (a', s', .error e) →
    (push a (x ++ y) s).2 = (s', .error e)

theorem Resumable.run_eq (r : Resumable push Valid) (v : Valid a chunks.flatten) :
    run push a chunks s = (push a chunks.flatten s).2 := by
  induction chunks generalizing a s
  case nil => exact (r.empty a s v).symm
  case cons chunk chunks hi =>
    rw [List.flatten_cons] at v ⊢
    rw [run]
    split
    case h_1 a' s' _ h =>
      have ⟨v', he⟩ := r.ok _ _ _ _ _ _ v h
      rw [hi v', he]
    case h_2 h => exact (r.error _ _ _ _ _ _ _ v h).symm

end Chunking
