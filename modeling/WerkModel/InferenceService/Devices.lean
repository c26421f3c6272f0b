import Mathlib

-- The GPUs of the host.
namespace InferenceService

inductive MemoryTopology
  | discrete
  | unified
  | unknown
  deriving DecidableEq

structure Device where
  id            : String
  physicalIndex : Nat
  vendor        : String
  name          : String
  architecture  : Option String
  runtime       : String
  pciBusId      : String
  totalBytes    : Nat
  freeBytes     : Option Nat
  numaNode      : Option Int
  pcieLink      : Option String
  visibleIndex  : Option Nat
  deriving DecidableEq

structure Inventory where
  devices            : List Device
  hostAvailableBytes : Option Nat
  memoryTopology     : Option MemoryTopology

def Device.VisibleBefore (a b : Device) : Prop :=
  a.visibleIndex.getD 0 ≤ b.visibleIndex.getD 0

instance : DecidableRel Device.VisibleBefore :=
  fun a b => inferInstanceAs <| Decidable (a.visibleIndex.getD 0 ≤ b.visibleIndex.getD 0)

def Inventory.visible (inventory : Inventory) : List Device :=
  (inventory.devices.filter fun device => device.visibleIndex.isSome).insertionSort
    Device.VisibleBefore

theorem Inventory.mem_visible {inventory : Inventory} {device : Device} :
    device ∈ inventory.visible ↔ device ∈ inventory.devices ∧ device.visibleIndex.isSome := by
  simp [visible]

end InferenceService
