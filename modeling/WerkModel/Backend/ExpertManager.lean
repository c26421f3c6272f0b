import WerkModel.Backend.ExpertRetention

-- The cache of routed experts. Its budget follows the memory that is left, experts are pinned by
-- the operator, and those that a forward pass works on are leased. Neither are evicted.
namespace Backend
namespace ExpertManager

-- The bytes of an expert of each layer with experts, of which there are as many in each layer.
structure Geometry where
  expertBytes : OrderedDict Nat Nat
  experts     : Nat
  cacheBytes  : Nat

namespace Geometry

variable (g : Geometry) (key : Nat × Nat) (keys : Finset (Nat × Nat))

def Known : Prop :=
  key.1 ∈ g.expertBytes ∧ key.2 < g.experts

instance : Decidable (g.Known key) :=
  inferInstanceAs (Decidable (_ ∧ _))

def size : Nat :=
  (g.expertBytes.get? key.1).getD 0

def bytes : Nat :=
  ∑ key ∈ keys, g.size key

def total : Nat :=
  g.expertBytes.total Prod.snd * g.experts

def largest : Nat :=
  (g.expertBytes.items.map Prod.snd).max?.getD 0

def ceiling : Nat :=
  min g.cacheBytes g.total

-- The largest expert of a layer that still has an expert which is not among the keys.
def demand : Nat :=
  ((g.expertBytes.items.filter fun item =>
    (keys.filter fun key => key.1 = item.1).card < g.experts).map Prod.snd).max?.getD 0

-- There is room for one more expert than these.
def minimum : Nat :=
  g.bytes keys + g.demand keys

end Geometry

-- Experts are found under their layer and their index in it. The use of an expert is the number of
-- its acquisitions and the time of the last of them.
structure Manager (V : Type) where
  grouped          : Bool
  active           : Bool
  cache            : OrderedDict (Nat × Nat) V
  retention        : Option (ExpertRetention (Nat × Nat))
  pinned           : Finset (Nat × Nat)
  leased           : Finset (Nat × Nat)
  usage            : OrderedDict (Nat × Nat) (Nat × Nat)
  resident         : Nat
  effective        : Nat
  budgetReductions : Nat
  hits             : Nat
  misses           : Nat
  cacheEvictions   : Nat

-- Why an operation ends early. What is raised comes from the reads, or it refuses a request.
inductive Failure
  | full
  | keyError
  | raised (error : String)

def Failure.text : Failure → String
  | .full         =>
    "expert cache is full of pinned experts; unpin experts or raise its budget"
  | .keyError     => "KeyError"
  | .raised error => error

variable {V : Type} (g : Geometry)

-- A new manager, whose experts are evicted in segments or as they were last used.
def new (grouped segmented : Bool) : Manager V where
  grouped          := grouped
  active           := false
  cache            := .empty
  retention        := if segmented then some (.new g.ceiling) else none
  pinned           := ∅
  leased           := ∅
  usage            := .empty
  resident         := 0
  effective        := g.ceiling
  budgetReductions := 0
  hits             := 0
  misses           := 0
  cacheEvictions   := 0

namespace Manager

variable (m : Manager V) (key : Nat × Nat)

-- What is not evicted.
def inUse : Finset (Nat × Nat) :=
  m.pinned ∪ m.leased

def cacheVictim (excluded : Finset (Nat × Nat)) : Option (Nat × Nat) :=
  match m.retention with
  | some retention => retention.victim excluded
  | none           => m.cache.keys.find? (· ∉ excluded)

def pop : Manager V :=
  { m with
    cache     := m.cache.erase key
    retention := m.retention.map (·.discard key)
    resident  := m.resident - g.size key }

def evict : Manager V :=
  { m.pop g key with cacheEvictions := m.cacheEvictions + 1 }

-- The loop that evicts until some more bytes fit, or until no expert is left that may be evicted.
def reclaim (excluded : Finset (Nat × Nat)) (size : Nat) (m : Manager V) :
    Except Failure Bool × Manager V :=
  if m.effective < m.resident + size then
    match m.cacheVictim excluded with
    | none        => (.ok false, m)
    | some victim =>
      if _h : victim ∈ m.cache then
        reclaim excluded size (m.evict g victim)
      else
        (.error .keyError, m)
  else
    (.ok true, m)
termination_by m.cache.items.length
decreasing_by exact OrderedDict.length_erase_lt _h

-- An expert has been used, at some time if the use is recorded.
def use (now : Option Nat) : Manager V :=
  { m with
    retention := m.retention.map (·.touch key (g.size key))
    usage     :=
      match now with
      | none     => m.usage
      | some now => m.usage.set key ((m.usage.get? key).elim 0 Prod.fst + 1, now) }

def store (value : V) : Manager V :=
  { m with
    cache    := m.cache.set key value
    resident := m.resident + g.size key
    misses   := m.misses + 1 }

-- An acquisition, given the outcome of the reads for an expert that is not in the cache.
def acquire (loaded : Except String V) (now : Option Nat) : Except Failure V × Manager V :=
  match m.cache.get? key with
  | some value =>
    (.ok value, { m with hits := m.hits + 1, cache := m.cache.moveToEnd key }.use g key now)
  | none       =>
    match m.reclaim g m.inUse (g.size key) with
    | (.error failure, m) => (.error failure, m)
    | (.ok false, m)      => (.error .full, m)
    | (.ok true, m)       =>
      match loaded with
      | .error error => (.error (.raised error), m)
      | .ok value    => (.ok value, (m.store g key value).use g key now)

-- The budget leaves room for the experts in use, and for one on demand.
def effectiveFor (budget : Int) : Nat :=
  (max (g.minimum m.inUse : Int) (min (g.ceiling : Int) budget)).toNat

def withBudget (budget : Int) : Manager V :=
  { m with
    budgetReductions :=
      if m.effectiveFor g budget < m.effective then m.budgetReductions + 1 else m.budgetReductions
    effective        := m.effectiveFor g budget
    retention        := m.retention.map (·.resize (m.effectiveFor g budget)) }

def resizeCache (budget : Int) : Except Failure Unit × Manager V :=
  match (m.withBudget g budget).reclaim g m.inUse 0 with
  | (.error failure, m) => (.error failure, m)
  | (.ok _, m)          => (.ok (), m)

def deactivate : Manager V :=
  { m with
    active    := false
    cache     := .empty
    retention := m.retention.map (·.clear)
    pinned    := ∅
    leased    := ∅
    resident  := 0 }

end Manager

section Bytes

variable {g : Geometry} {keys keys' : Finset (Nat × Nat)} {key : Nat × Nat}

theorem Geometry.bytes_mono (h : keys ⊆ keys') : g.bytes keys ≤ g.bytes keys' :=
  Finset.sum_le_sum_of_subset h

theorem Geometry.bytes_insert (h : key ∉ keys) :
    g.bytes (insert key keys) = g.bytes keys + g.size key := by
  rw [bytes, Finset.sum_insert h, Nat.add_comm, bytes]

theorem Geometry.bytes_erase (h : key ∈ keys) :
    g.bytes (keys.erase key) + g.size key = g.bytes keys :=
  Finset.sum_erase_add keys g.size h

theorem Geometry.demand_le : g.demand keys ≤ g.largest := by
  rw [demand, largest]
  cases hd : ((g.expertBytes.items.filter fun item =>
    (keys.filter fun key => key.1 = item.1).card < g.experts).map Prod.snd).max?
  case none => exact Nat.zero_le _
  case some size =>
    obtain ⟨hm, -⟩ := List.max?_eq_some_iff.mp hd
    have hm : size ∈ g.expertBytes.items.map Prod.snd :=
      (List.filter_sublist.map Prod.snd).subset hm
    cases hl : (g.expertBytes.items.map Prod.snd).max?
    case none =>
      rw [List.max?_eq_none_iff.mp hl] at hm
      cases hm
    case some => exact (List.max?_eq_some_iff.mp hl).2 size hm

theorem Geometry.minimum_le : g.minimum keys ≤ g.bytes keys + g.largest :=
  Nat.add_le_add_left demand_le _

end Bytes

end ExpertManager
end Backend
