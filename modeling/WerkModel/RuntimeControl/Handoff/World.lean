import WerkModel.Lib.System
import WerkModel.RuntimeControl.Handoff.Registry

-- The registry together with its callers, who hold the reservations that were neither issued nor
-- dropped. Every operation is one critical section of the registry.
open Std ExtTreeMap

namespace RuntimeControl.Handoff

variable {σ : Type*}

-- An operation that generates a token comes with the random bytes that it gets, which are absent if
-- it fails to get any or does not ask for them. Every operation that reads the clock comes with the
-- time that it reads.
inductive Operation (σ : Type*)
  | reserve (principalId : String) (random : Option (Vector UInt8 tokenBytes)) (now : Nat)
  | issue (reservation : HandoffReservation) (record : HandoffRecord σ) (now : Nat)
  | inspect (principalId token : String) (now : Nat)
  | take (principalId token : String) (now : Nat)
  | takeWithReplacement (principalId token : String) (random : Option (Vector UInt8 tokenBytes))
      (now : Nat)
  | dropReservation (reservation : HandoffReservation)

inductive Output (σ : Type*)
  | done
  | reservation (reservation : HandoffReservation)
  | token (token : String)
  | inspected (record : HandoffRecord σ)
  | taken (record : HandoffRecord σ)
  | replaced (record : HandoffRecord σ) (reservation : HandoffReservation)

abbrev Result (σ : Type*) := Except ProtocolError (Output σ)

abbrev History (σ : Type*) := List (Operation σ × Result σ)

structure World (σ : Type*) where
  registry     : HandoffEntries σ
  reservations : Multiset HandoffReservation

namespace World

def new : World σ where
  registry     := .new
  reservations := 0

-- A result that the world takes up with `accept` if it is not an error.
def settle {α} (world : World σ) (result : Except ProtocolError α × HandoffEntries σ)
    (accept : α → World σ → Output σ × World σ) : Result σ × World σ :=
  match result with
  | (.error error, registry) => (.error error, { world with registry })
  | (.ok value, registry)    =>
    let (output, world) := accept value { world with registry }
    (.ok output, world)

def addReservation (reservation : HandoffReservation) (world : World σ) : World σ :=
  { world with reservations := reservation ::ₘ world.reservations }

def removeReservation (reservation : HandoffReservation) (world : World σ) : World σ :=
  { world with reservations := world.reservations.erase reservation }

def takeExpired (now : Nat) (world : World σ) : World σ :=
  { world with registry := world.registry.takeExpired now }

def remove (digest : String) (world : World σ) : World σ :=
  { world with registry := world.registry.remove digest }

def insert (digest : String) (record : HandoffRecord σ) (world : World σ) : World σ :=
  { world with registry.entries := world.registry.entries.insert digest record }

theorem lookup_remove {world : World σ} {digest d : String} :
    (world.remove digest).registry.entries[d]? =
      if digest = d then none else world.registry.entries[d]? := by
  simp only [remove, HandoffEntries.remove, getElem?_erase, LawfulEqCmp.compare_eq_iff_eq]

theorem lookup_insert {world : World σ} {digest d : String} {record : HandoffRecord σ} :
    (world.insert digest record).registry.entries[d]? =
      if digest = d then some record else world.registry.entries[d]? := by
  simp only [insert, getElem?_insert, LawfulEqCmp.compare_eq_iff_eq]

-- A new reservation is counted by the registry.
def hold (reservation : HandoffReservation) (world : World σ) : World σ :=
  addReservation reservation
    { world with registry := world.registry.hold reservation.principalId reservation.digest }

def dropReservation (reservation : HandoffReservation) (world : World σ) : World σ :=
  removeReservation reservation { world with registry := reservation.drop world.registry }

def apply (tokenDigest : String → String) (world : World σ) : Operation σ → Result σ × World σ
  | .reserve principalId random now =>
    world.settle (world.registry.reserve tokenDigest principalId random now)
      fun reservation world => (.reservation reservation, addReservation reservation world)
  -- Issuing consumes the reservation, also if it fails.
  | .issue reservation record now =>
    (removeReservation reservation world).settle (reservation.issue record now world.registry)
      fun token world => (.token token, world)
  | .inspect principalId token now =>
    world.settle (world.registry.inspect tokenDigest principalId token now)
      fun record world => (.inspected record, world)
  | .take principalId token now =>
    world.settle (world.registry.take tokenDigest principalId token now)
      fun record world => (.taken record, world)
  | .takeWithReplacement principalId token random now =>
    world.settle (world.registry.takeWithReplacement tokenDigest principalId token random now)
      fun (record, reservation) world =>
        (.replaced record reservation, addReservation reservation world)
  | .dropReservation reservation =>
    (.ok .done, dropReservation reservation world)

section Apply

variable {tokenDigest : String → String} {world : World σ} {registry : HandoffEntries σ}
variable {principalId token : String} {random : Option (Vector UInt8 tokenBytes)} {now : Nat}
variable {reservation : HandoffReservation} {record : HandoffRecord σ}

theorem apply_reserve
    (h : world.registry.reserve tokenDigest principalId random now = (.ok reservation, registry)) :
    world.apply tokenDigest (.reserve principalId random now) =
      (.ok (.reservation reservation), addReservation reservation { world with registry }) := by
  rw [apply, h, settle]

theorem apply_issue {issued} (h : reservation.issue record now world.registry = (.ok issued, registry)) :
    world.apply tokenDigest (.issue reservation record now) =
      (.ok (.token issued), removeReservation reservation { world with registry }) := by
  rw [apply, h]
  rfl

theorem apply_issue_error {error}
    (h : reservation.issue record now world.registry = (.error error, registry)) :
    world.apply tokenDigest (.issue reservation record now) =
      (.error error, removeReservation reservation { world with registry }) := by
  rw [apply, h]
  rfl

theorem apply_inspect
    (h : world.registry.inspect tokenDigest principalId token now = (.ok record, registry)) :
    world.apply tokenDigest (.inspect principalId token now) =
      (.ok (.inspected record), { world with registry }) := by
  rw [apply, h, settle]

theorem apply_take
    (h : world.registry.take tokenDigest principalId token now = (.ok record, registry)) :
    world.apply tokenDigest (.take principalId token now) =
      (.ok (.taken record), { world with registry }) := by
  rw [apply, h, settle]

theorem apply_takeWithReplacement
    (h : world.registry.takeWithReplacement tokenDigest principalId token random now =
      (.ok (record, reservation), registry)) :
    world.apply tokenDigest (.takeWithReplacement principalId token random now) =
      (.ok (.replaced record reservation), addReservation reservation { world with registry }) := by
  rw [apply, h, settle]

end Apply

-- A reservation can only be used by the caller that holds it.
def Holds (world : World σ) : Operation σ → Prop
  | .issue reservation .. | .dropReservation reservation => reservation ∈ world.reservations
  | _                                                    => True

end World

def system (σ : Type*) (tokenDigest : String → String) :
    System (World σ) (Operation σ) (Result σ) where
  Init world := world = .new
  Step world operation result world' :=
    world.Holds operation ∧ world.apply tokenDigest operation = (result, world')

-- The handoff of a token is consumed by a principal at a time.
structure Consumption (σ : Type*) where
  principalId : String
  token       : String
  now         : Nat
  record      : HandoffRecord σ

namespace Operation

def clock : Operation σ → Option Nat
  | .reserve _ _ now | .issue _ _ now | .inspect _ _ now | .take _ _ now
  | .takeWithReplacement _ _ _ now => some now
  | .dropReservation _             => none

def generated : Operation σ → Option String
  | .reserve _ random _ | .takeWithReplacement _ _ random _ =>
    random.map fun bytes => urlSafeNoPad bytes.toList
  | _ => none

def consumption : Operation σ × Result σ → Option (Consumption σ)
  | (.take principalId token now, .ok (.taken record)) =>
    some { principalId, token, now, record }
  | (.takeWithReplacement principalId token _ now, .ok (.replaced record _)) =>
    some { principalId, token, now, record }
  | _ => none

end Operation

namespace History

def generatedTokens (history : History σ) : List String :=
  history.filterMap fun step => step.1.generated

def consumptions (history : History σ) : List (Consumption σ) :=
  history.filterMap Operation.consumption

-- The record was handed off under the token.
def Issued (history : History σ) (token : String) (record : HandoffRecord σ) : Prop :=
  ∃ reservation record' now,
    (.issue reservation record' now, .ok (.token token)) ∈ history ∧ record = record'.withExpiry now

end History
end RuntimeControl.Handoff
