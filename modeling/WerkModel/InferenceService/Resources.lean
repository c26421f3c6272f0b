import WerkModel.Deployments.Admission
import WerkModel.Lib.System

-- The admission ledger of the service's native workers, and the reservations that workers hold.
-- Live allocations are part of measurements already, so that budgets are not subtracted again.
open Std ExtTreeMap Checks Saturating Deployments

namespace InferenceService

structure Reservations where
  state        : ExtTreeMap String (List String × Nat)
  hostCapacity : Nat

structure Reservation where
  id : String
  deriving DecidableEq

namespace Reservations

variable (r : Reservations) (plan : Plan) (inventory : Inventory)

def new (hostCapacity : Nat) : Reservations where
  state        := ∅
  hostCapacity := hostCapacity

def reservedHost : Except String Nat :=
  checkedSum u64Max "host reservations overflow" 0 (r.state.valueList.map Prod.snd)

def checkDevice (device : Device) (budget : DeviceBudget) : Except String Unit := do
  ensure (∀ entry ∈ r.state.valueList, device.id ∉ entry.1) <|
    "GPU " ++ device.id ++ " is reserved by another worker"
  match inventory.devices.find? fun d => d.id = device.id && d.visibleIndex.isSome with
  | none          => .error <| "GPU " ++ device.id ++ " disappeared from visibility"
  | some measured =>
    ensure (measured.freeBytes.any fun free => (budget.total.toOption.getD u64Max) ≤ free) <|
      "GPU " ++ device.id ++ " no longer fits new worker"

def check : Except String Unit := do
  ensure (plan.profile.id ∉ r.state) "deployment already has a resident worker"
  let reservedHost ← r.reservedHost
  ensure (reservedHost + plan.profile.hostBytes ≤ u64Max ∧
    reservedHost + plan.profile.hostBytes ≤ r.hostCapacity) "host admission budget exhausted"
  ensure (inventory.hostAvailableBytes.any fun available => plan.profile.hostBytes ≤ available)
    "host free RAM no longer fits new worker"
  (plan.devices.zip plan.profile.memory).forM fun (device, budget) =>
    r.checkDevice inventory device budget

def acquire : Except String Reservation × Reservations :=
  match r.check plan inventory with
  | .error error => (.error error, r)
  | .ok _        =>
    let entry := (plan.devices.map Device.id, plan.profile.hostBytes)
    (.ok ⟨plan.profile.id⟩, { r with state := r.state.insert plan.profile.id entry })

def drop (reservation : Reservation) : Reservations :=
  { r with state := r.state.erase reservation.id }

section Lemmas

variable {r plan inventory} {reservation : Reservation} {r' : Reservations} {error : String}

-- The conditions for an acquisition.
structure Admissible (r : Reservations) (plan : Plan) (inventory : Inventory) : Prop where
  id           : plan.profile.id ∉ r.state
  hostBytes    : r.state.valueSum Prod.snd + plan.profile.hostBytes ≤ r.hostCapacity
  gpus         : ∀ pair ∈ plan.devices.zip plan.profile.memory,
    ∀ entry ∈ r.state.valueList, pair.1.id ∉ entry.1

@[simp]
theorem state_drop : (r.drop reservation).state = r.state.erase reservation.id :=
  rfl

theorem reservedHost_eq_ok {reserved : Nat} :
    r.reservedHost = .ok reserved ↔ reserved = r.state.valueSum Prod.snd ∧ reserved ≤ u64Max := by
  rw [reservedHost, checkedSum_eq_ok (Nat.zero_le _), Nat.zero_add]
  rfl

theorem check_eq_ok (h : r.check plan inventory = .ok ⟨⟩) : r.Admissible plan inventory := by
  rw [check, ensure_bind_eq_ok, bind_eq_ok] at h
  have ⟨hi, _, hr, h⟩ := h
  rw [ensure_bind_eq_ok, ensure_bind_eq_ok, forM_eq_ok] at h
  have ⟨⟨_, hc⟩, _, hd⟩ := h
  refine ⟨hi, (reservedHost_eq_ok.mp hr).1 ▸ hc, ?_⟩
  intro ⟨device, budget⟩ hp
  have hd : r.checkDevice inventory device budget = .ok ⟨⟩ := hd _ hp
  rw [checkDevice, ensure_bind_eq_ok] at hd
  exact hd.1

theorem acquire_of_error (h : r.acquire plan inventory = (.error error, r')) : r' = r := by
  rw [acquire] at h
  split at h
  case h_1 => cases h; rfl
  case h_2 => simp at h

theorem acquire_of_ok (h : r.acquire plan inventory = (.ok reservation, r')) :
    r.Admissible plan inventory ∧ reservation = ⟨plan.profile.id⟩ ∧ r' = { r with
      state := r.state.insert plan.profile.id
        (plan.devices.map Device.id, plan.profile.hostBytes)
    } := by
  rw [acquire] at h
  split at h
  case h_1    => simp at h
  case h_2 hc => cases h; exact ⟨check_eq_ok hc, rfl, rfl⟩

end Lemmas
end Reservations

-- A live reservation with the devices and the host memory that it was acquired for.
structure Lease where
  reservation : Reservation
  gpus        : List String
  hostBytes   : Nat
  deriving DecidableEq

def Lease.ofPlan (plan : Plan) : Lease where
  reservation := ⟨plan.profile.id⟩
  gpus        := plan.devices.map Device.id
  hostBytes   := plan.profile.hostBytes

namespace Admission

-- Every step of the program holds the ledger's lock, so that acquisitions and drops interleave.
structure World where
  ledger : Reservations
  live   : Multiset Lease

inductive Action
  | acquire (plan : Plan) (inventory : Inventory)
  | drop (lease : Lease)

-- The plans that some configuration of the host resolves to.
def Resolvable (plan : Plan) : Prop :=
  ∃ (host : Host) (configuration : Configuration) (inventory : Inventory) (plans : List Plan),
    configuration.resolve host inventory = .ok plans ∧ plan ∈ plans

inductive Step : World → Action → Except String Reservation → World → Prop
  | acquire {w plan inventory result ledger} :
    Resolvable plan → w.ledger.acquire plan inventory = (result, ledger) →
    Step w (.acquire plan inventory) result
      { ledger, live := if result.isOk then Lease.ofPlan plan ::ₘ w.live else w.live }
  | drop {w lease} : lease ∈ w.live →
    Step w (.drop lease) (.ok lease.reservation)
      { ledger := w.ledger.drop lease.reservation, live := w.live.erase lease }

def system (hostCapacity : Nat) : System World Action (Except String Reservation) where
  Init w := w = ⟨.new hostCapacity, 0⟩
  Step   := Step

end Admission
end InferenceService
