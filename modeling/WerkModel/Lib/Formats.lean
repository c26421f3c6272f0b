import Mathlib

-- Readers of bytes, and the formats that they accept.
namespace Formats

-- The bytes that stand for a value.
abbrev Format (α : Type) := List UInt8 → α → Prop

namespace Format

variable {α β : Type}

def pure (a : α) : Format α :=
  fun bytes b => bytes = [] ∧ b = a

def bind (F : Format α) (G : α → Format β) : Format β :=
  fun bytes b => ∃ first rest a, bytes = first ++ rest ∧ F first a ∧ G a rest b

def iterate (F : β → Format β) : Nat → β → Format β
  | 0, b     => pure b
  | n + 1, b => (F b).bind (iterate F n)

-- A loop reads a list, of which each element is valid for what was gathered before it.
inductive Listed {γ : Type} (valid : β → γ → Prop) (next : β → γ → β) : β → List γ → β → Prop
  | nil {b : β} : Listed valid next b [] b
  | cons {b b' : β} {c : γ} {cs : List γ} : valid b c → Listed valid next (next b c) cs b' →
    Listed valid next b (c :: cs) b'

theorem mem_listed_iff {γ : Type} {P : γ → Prop} {next : β → γ → β} {b b' : β} {cs : List γ} :
    Listed (fun _ c => P c) next b cs b' ↔ (∀ c ∈ cs, P c) ∧ b' = cs.foldl next b := by
  induction cs generalizing b
  case nil =>
    constructor
    case mp =>
      intro h
      cases h
      exact ⟨by simp, rfl⟩
    case mpr =>
      rintro ⟨-, rfl⟩
      exact .nil
  case cons c cs hi =>
    rw [List.forall_mem_cons, List.foldl_cons, and_assoc, ← hi]
    constructor
    case mp =>
      intro h
      cases h
      case cons hc hs => exact ⟨hc, hs⟩
    case mpr => exact fun h => .cons h.left h.right

theorem iterate_listed {γ : Type} {valid : β → γ → Prop} {next : β → γ → β}
    {encode : γ → List UInt8} {n : Nat} {b b' : β} {bytes : List UInt8} :
    iterate (fun b bytes b' => ∃ c, valid b c ∧ bytes = encode c ∧ b' = next b c) n b bytes b' ↔
      ∃ cs, cs.length = n ∧ Listed valid next b cs b' ∧ bytes = cs.flatMap encode := by
  induction n generalizing b bytes
  case zero =>
    constructor
    case mp =>
      rintro ⟨rfl, rfl⟩
      exact ⟨[], rfl, .nil, rfl⟩
    case mpr =>
      rintro ⟨cs, hl, hs, rfl⟩
      cases List.length_eq_zero_iff.mp hl
      cases hs
      exact ⟨rfl, rfl⟩
  case succ n hi =>
    constructor
    case mp =>
      rintro ⟨first, rest, m, rfl, hf, hr⟩
      obtain ⟨c, hc, rfl, rfl⟩ := hf
      obtain ⟨cs, hl, hs, rfl⟩ := hi.mp hr
      exact ⟨c :: cs, by rw [List.length_cons, hl], .cons hc hs, by rw [List.flatMap_cons]⟩
    case mpr =>
      rintro ⟨cs, hl, hs, rfl⟩
      cases hs
      case nil => cases hl
      case cons c cs hc hs =>
        exact ⟨encode c, cs.flatMap encode, next b c, List.flatMap_cons .., ⟨c, hc, rfl, rfl⟩,
          hi.mpr ⟨cs, Nat.succ.inj hl, hs, rfl⟩⟩

end Format

-- A state that bytes are read from, and what is left of it by a reader that fails.
class Cursor (ε σ : Type) where
  Inside : σ → Prop
  Moves  : σ → List UInt8 → σ → Prop
  Stops  : σ → ε → σ → Prop
  inside_of_moves {s s' : σ} {bytes : List UInt8} : Inside s → Moves s bytes s' → Inside s'
  moves_nil {s s' : σ} : Inside s → (Moves s [] s' ↔ s' = s)
  moves_append {s s' : σ} {first rest : List UInt8} : Inside s →
    (Moves s (first ++ rest) s' ↔ ∃ m, Moves s first m ∧ Moves m rest s')
  stops_of_moves {s s' s'' : σ} {e : ε} {bytes : List UInt8} : Inside s → Moves s bytes s' →
    Stops s' e s'' → Stops s e s''

open Cursor

variable {ε σ α β : Type} [Cursor ε σ]

-- What is read is what the format says, and no failure leaves what failures may leave.
structure Reads (p : EStateM ε σ α) (F : Format α) : Prop where
  ok    : ∀ s a s', Inside ε s → (p s = .ok a s' ↔ ∃ bytes, F bytes a ∧ Moves ε s bytes s')
  error : ∀ s (e : ε) s', Inside ε s → p s = .error e s' → Stops s e s'

section Readers

def check (c : Prop) [Decidable c] (e : ε) : EStateM ε σ Unit :=
  if c then pure () else throw e

def orThrow (o : Option α) (e : ε) : EStateM ε σ α :=
  match o with
  | some a => pure a
  | none   => throw e

def iterate (step : β → EStateM ε σ β) : Nat → β → EStateM ε σ β
  | 0, b     => pure b
  | n + 1, b => do
    let b ← step b
    iterate step n b

end Readers

section Rules

variable {p q : EStateM ε σ α} {f : α → EStateM ε σ β} {F F' : Format α} {G : α → Format β}

theorem Reads.congr (h : Reads p F) (hf : ∀ bytes a, F bytes a ↔ F' bytes a) : Reads p F' where
  ok s a s' hs := by simp only [h.ok s a s' hs, hf]
  error        := h.error

theorem Reads.pure {a : α} : Reads (pure a : EStateM ε σ α) (Format.pure a) where
  ok s b s' hs := by
    constructor
    case mp =>
      intro h
      cases h
      exact ⟨[], ⟨rfl, rfl⟩, (moves_nil hs).mpr rfl⟩
    case mpr =>
      rintro ⟨bytes, ⟨rfl, rfl⟩, hm⟩
      cases (moves_nil hs).mp hm
      rfl
  error s e s' hs h := by cases h

theorem Reads.throw {e : ε} (h : ∀ s : σ, Inside ε s → Stops s e s) :
    Reads (throw e : EStateM ε σ α) fun _ _ => False where
  ok s a s' hs := by
    constructor
    case mp =>
      intro he
      cases he
    case mpr =>
      rintro ⟨bytes, ⟨⟩, hm⟩
  error s e' s' hs he := by
    cases he
    exact h s hs

theorem Reads.bind (hp : Reads p F) (hf : ∀ a bytes, F bytes a → Reads (f a) (G a)) :
    Reads (p >>= f) (F.bind G) where
  ok s b s' hs := by
    constructor
    case mp =>
      intro h
      cases hr : p s
      case error e m =>
        rw [show (p >>= f) s = .error e m from by simp only [Bind.bind, EStateM.bind, hr]] at h
        cases h
      case ok a m =>
        rw [show (p >>= f) s = f a m from by simp only [Bind.bind, EStateM.bind, hr]] at h
        obtain ⟨first, ha, hm⟩ := (hp.ok s a m hs).mp hr
        obtain ⟨rest, hb, hm'⟩ := ((hf a first ha).ok m b s' (inside_of_moves hs hm)).mp h
        exact ⟨first ++ rest, ⟨first, rest, a, rfl, ha, hb⟩, (moves_append hs).mpr ⟨m, hm, hm'⟩⟩
    case mpr =>
      rintro ⟨bytes, ⟨first, rest, a, rfl, ha, hb⟩, hm⟩
      obtain ⟨m, hm, hm'⟩ := (moves_append hs).mp hm
      have hr := (hp.ok s a m hs).mpr ⟨first, ha, hm⟩
      have he : (p >>= f) s = f a m := by simp only [Bind.bind, EStateM.bind, hr]
      rw [he]
      exact ((hf a first ha).ok m b s' (inside_of_moves hs hm)).mpr ⟨rest, hb, hm'⟩
  error s e s' hs h := by
    cases hr : p s
    case error e' m =>
      rw [show (p >>= f) s = .error e' m from by simp only [Bind.bind, EStateM.bind, hr]] at h
      cases h
      exact hp.error s e s' hs hr
    case ok a m =>
      rw [show (p >>= f) s = f a m from by simp only [Bind.bind, EStateM.bind, hr]] at h
      obtain ⟨first, ha, hm⟩ := (hp.ok s a m hs).mp hr
      exact stops_of_moves hs hm ((hf a first ha).error m e s' (inside_of_moves hs hm) h)

theorem Reads.map {g : α → β} (hp : Reads p F) :
    Reads (g <$> p) fun bytes b => ∃ a, F bytes a ∧ b = g a := by
  have h := hp.bind fun a bytes _ => (Reads.pure : Reads (Pure.pure (g a) : EStateM ε σ β) _)
  refine h.congr fun bytes b => ?_
  constructor
  case mp =>
    rintro ⟨first, rest, a, rfl, ha, rfl, rfl⟩
    exact ⟨a, by rwa [List.append_nil], rfl⟩
  case mpr =>
    rintro ⟨a, ha, rfl⟩
    exact ⟨bytes, [], a, (List.append_nil _).symm, ha, rfl, rfl⟩

-- What does not read any bytes decides which format follows.
theorem Reads.bind_silent {P : α → Prop} (hp : Reads p fun bytes a => bytes = [] ∧ P a)
    (hf : ∀ a, P a → Reads (f a) (G a)) :
    Reads (p >>= f) fun bytes b => ∃ a, P a ∧ G a bytes b := by
  refine (hp.bind (G := G) fun a bytes h => hf a h.right).congr fun bytes b => ?_
  constructor
  case mp =>
    rintro ⟨first, rest, a, rfl, ⟨rfl, ha⟩, hb⟩
    exact ⟨a, ha, hb⟩
  case mpr =>
    rintro ⟨a, ha, hb⟩
    exact ⟨[], bytes, a, rfl, ⟨rfl, ha⟩, hb⟩

theorem Reads.check {c : Prop} [Decidable c] {e : ε} (h : ∀ s : σ, Inside ε s → Stops s e s)
    {q : EStateM ε σ β} {H : Format β} (hq : c → Reads q H) :
    Reads (check c e >>= fun _ => q) fun bytes b => c ∧ H bytes b := by
  have hc : Reads (Formats.check c e : EStateM ε σ Unit) fun bytes _ => bytes = [] ∧ c := by
    rw [Formats.check]
    split
    case isTrue hc  => exact Reads.pure.congr fun bytes a => by simp [Format.pure, hc]
    case isFalse hc => exact (Reads.throw h).congr fun bytes a => by simp [hc]
  exact (hc.bind_silent fun _ => hq).congr fun bytes b => by simp

theorem Reads.orThrow {o : Option α} {e : ε} (h : ∀ s : σ, Inside ε s → Stops s e s) :
    Reads (orThrow o e : EStateM ε σ α) fun bytes a => bytes = [] ∧ o = some a := by
  cases o
  case none   => exact (Reads.throw h).congr fun bytes a => by simp
  case some b => exact Reads.pure.congr fun bytes a => by simp [Format.pure, eq_comm]

theorem Reads.ite {c : Prop} [Decidable c] {F' : Format α} (hp : c → Reads p F)
    (hq : ¬c → Reads q F') :
    Reads (if c then p else q) fun bytes a => if c then F bytes a else F' bytes a := by
  split
  case isTrue h  => exact hp h
  case isFalse h => exact hq h

theorem Reads.iterate {step : β → EStateM ε σ β} {H : β → Format β} {I : β → Prop}
    (hs : ∀ b, I b → Reads (step b) (H b)) (hi : ∀ b bytes b', I b → H b bytes b' → I b') {n : Nat}
    {b : β} (hb : I b) : Reads (iterate step n b) (Format.iterate H n b) := by
  induction n generalizing b
  case zero      => exact Reads.pure
  case succ n hn => exact (hs b hb).bind fun m bytes hm => hn (hi b bytes m hb hm)

theorem Reads.listed {γ : Type} {step : β → EStateM ε σ β} {valid : β → γ → Prop}
    {next : β → γ → β} {encode : γ → List UInt8} {I : β → Prop}
    (hs : ∀ b, I b → Reads (step b) fun bytes b' =>
      ∃ c, valid b c ∧ bytes = encode c ∧ b' = next b c)
    (hi : ∀ b c, I b → valid b c → I (next b c)) {n : Nat} {b : β} (hb : I b) :
    Reads (Formats.iterate step n b) fun bytes b' =>
      ∃ cs, cs.length = n ∧ Format.Listed valid next b cs b' ∧ bytes = cs.flatMap encode := by
  refine (Reads.iterate hs (fun b bytes b' h hc => ?_) hb).congr fun bytes b' =>
    Format.iterate_listed
  obtain ⟨c, hc, -, rfl⟩ := hc
  exact hi b c h hc

end Rules

section Numbers

-- The value of bytes, the least significant of which comes first.
def fromLe : List UInt8 → Nat
  | []            => 0
  | byte :: bytes => byte.toNat + 256 * fromLe bytes

def toLe : Nat → Nat → List UInt8
  | 0, _         => []
  | width + 1, n => UInt8.ofNat n :: toLe width (n / 256)

variable {width n : Nat} {bytes : List UInt8}

@[simp]
theorem length_toLe : (toLe width n).length = width := by
  induction width generalizing n
  case zero         => rfl
  case succ width h => rw [toLe, List.length_cons, h]

theorem fromLe_toLe (h : n < 256 ^ width) : fromLe (toLe width n) = n := by
  induction width generalizing n
  case zero =>
    rw [pow_zero, Nat.lt_one_iff] at h
    rw [h]
    rfl
  case succ width hi =>
    have hd : n / 256 < 256 ^ width := Nat.div_lt_of_lt_mul (by rwa [pow_succ'] at h)
    rw [toLe, fromLe, hi hd, UInt8.toNat_ofNat']
    exact Nat.mod_add_div n 256

theorem fromLe_lt : fromLe bytes < 256 ^ bytes.length := by
  induction bytes
  case nil => exact Nat.one_pos
  case cons byte bytes hi =>
    have hb := byte.toNat_lt
    rw [fromLe, List.length_cons, pow_succ']
    omega

theorem toLe_fromLe : toLe bytes.length (fromLe bytes) = bytes := by
  induction bytes
  case nil => rfl
  case cons byte bytes hi =>
    have hb := byte.toNat_lt
    have hd : (byte.toNat + 256 * fromLe bytes) / 256 = fromLe bytes := by omega
    rw [List.length_cons, fromLe, toLe, hd, hi]
    congr 1
    apply UInt8.toNat_inj.mp
    rw [UInt8.toNat_ofNat']
    omega

theorem eq_toLe_iff : bytes = toLe width n ∧ n < 256 ^ width ↔
    bytes.length = width ∧ n = fromLe bytes := by
  constructor
  case mp =>
    rintro ⟨rfl, hn⟩
    exact ⟨length_toLe, (fromLe_toLe hn).symm⟩
  case mpr =>
    rintro ⟨rfl, rfl⟩
    exact ⟨toLe_fromLe.symm, fromLe_lt⟩

theorem toLe_append_inj {m : Nat} {rest rest' : List UInt8} (hn : n < 256 ^ width)
    (hm : m < 256 ^ width) (h : toLe width n ++ rest = toLe width m ++ rest') :
    n = m ∧ rest = rest' := by
  obtain ⟨he, hr⟩ := List.append_inj h (by rw [length_toLe, length_toLe])
  exact ⟨by rw [← fromLe_toLe hn, he, fromLe_toLe hm], hr⟩

end Numbers

end Formats
