import WerkModel.Lib.Checks
import WerkModel.Lib.Leases
import WerkModel.Lib.Lists

-- The routed experts of a layer, whose weights are streamed in groups, for one or more rows.
open Checks

namespace Backend.StreamedExperts

-- The positions of an expert in the routes, with their rows and slots.
def nonzero (routes : List (List Nat)) (expert : Nat) : List (Nat × Nat) :=
  routes.zipIdx.flatMap fun (route, row) =>
    (route.zipIdx.filter (·.1 = expert)).map fun (_, slot) => (row, slot)

def unique (routes : List (List Nat)) : List Nat :=
  routes.flatten.dedup.insertionSort (· ≤ ·)

-- A group of experts, with those that are in the cache when the group is read ahead, and whether
-- the reader has anything to do meanwhile.
structure Group where
  experts  : List Nat
  resident : List Nat
  reads    : Bool

structure Access where
  experts      : Nat
  hidden       : Nat
  intermediate : Nat
  groups       : List Group
  -- Whether experts can be evaluated while others are read.
  readsAhead   : Bool

-- The experts that are evaluated while the others of their group are read.
def Group.prefetch (group : Group) : Option (List Nat) :=
  let cached := group.experts.filter (· ∈ group.resident)
  let missing := group.experts.filter (· ∉ group.resident)
  if group.reads ∧ cached ≠ [] ∧ missing ≠ [] then some cached else none

def Access.prefetchReady (access : Access) (group : Group) : Option (List Nat) :=
  if access.readsAhead then group.prefetch else none

-- A call with its output, whose positions collect the values that are added to them. The weights
-- of the pending experts are only used when the output is evaluated.
structure Call (V : Type) where
  output            : Nat → List V
  pending           : List Nat
  leases            : List (Leases.Event Nat)
  evaluated         : List (Nat × List Nat)
  outputEvaluations : Nat

variable {V σ : Type}

namespace Call

variable (f : Nat → Nat → V) (routes : List (List Nat)) (s : Call V)

def empty : Call V where
  output _          := []
  pending           := []
  leases            := []
  evaluated         := []
  outputEvaluations := 0

def enter (experts : List Nat) : Call V :=
  { s with leases := s.leases ++ experts.map .opened }

def eval : Call V :=
  { s with
    leases            := s.leases ++ s.pending.map .used
    pending           := []
    outputEvaluations := s.outputEvaluations + 1
  }

-- All leases of a group are closed in reverse.
def exit (experts : List Nat) : Call V :=
  { s with leases := s.leases ++ experts.reverse.map .closed }

-- Each expert sees the only row once.
def decodeGroup (acquired : List Nat) : Except String (Call V) := do
  ensure (acquired ≠ []) "[concatenate] No arrays provided for concatenation"
  return { s with
    pending   := s.pending ++ acquired
    evaluated := s.evaluated ++ acquired.map fun expert => (expert, [0])
    output    := Scatter.add s.output <| acquired.flatMap fun expert =>
      (nonzero routes expert).map fun (_, slot) => (slot, f expert 0)
  }

def ready (experts : List Nat) : Except String (Call V) := do
  let s ← (s.enter experts).decodeGroup f routes experts
  return s.eval

def singleRow (access : Access) (group : Group) : Except String (Call V) := do
  let completed := (access.prefetchReady group).getD []
  let s ← (access.prefetchReady group).elim (.ok s) (s.ready f routes)
  let acquired := group.experts.filter (· ∉ completed)
  let s ← (s.enter acquired).decodeGroup f routes acquired
  return s.eval.exit (completed ++ acquired)

-- The rows of an expert from an offset on.
def chunk (topK size offset : Nat) (s : Call V) (expert : Nat) : Call V :=
  let rows := ((nonzero routes expert).drop offset).take size
  if rows = [] then
    s
  else
    { s with
      pending   := s.pending ++ [expert]
      evaluated := s.evaluated ++ [(expert, rows.map Prod.fst)]
      output    := Scatter.add s.output <| rows.map fun (row, slot) =>
        (row * topK + slot, f expert row)
    }

def offsets (size longest : Nat) : List Nat :=
  (List.range ((longest + size - 1) / size)).map (· * size)

def multiRow (topK size : Nat) (group : Group) : Except String (Call V) := do
  ensure (group.experts ≠ []) "max() arg is an empty sequence"
  let longest := (group.experts.map fun expert => (nonzero routes expert).length).foldl max 0
  let s := (offsets size longest).foldl (fun s offset =>
    (group.experts.foldl (chunk f routes topK size offset) s).eval) (s.enter group.experts)
  return s.exit group.experts

end Call

-- A weighted sum of the outputs of each row.
inductive Output (V : Type)
  | rows (rows : List (List V))
  | weighted (rows : List V)

structure Inputs (σ : Type) where
  routes         : List (List Nat)
  topK           : Nat
  -- The rows of the activations, their width and the size of their items.
  rows           : Nat
  width          : Nat
  itemsize       : Nat
  scores         : Option (List (List σ))
  weightedSum    : Bool
  workspaceBytes : Nat

namespace Inputs

variable (inputs : Inputs σ) (access : Access) (f : Nat → Nat → V)
variable (weigh : List V → List σ → V)

def size : Nat :=
  inputs.routes.length * inputs.topK

def shaped (scores : List (List σ)) : Prop :=
  scores.map List.length = inputs.routes.map List.length

instance shapedDecidable (scores : List (List σ)) : Decidable (inputs.shaped scores) :=
  inferInstanceAs (Decidable (_ = _))

def inRange : Prop :=
  ∀ route ∈ inputs.routes, ∀ expert ∈ route, expert < access.experts

instance inRangeDecidable : Decidable (inputs.inRange access) :=
  inferInstanceAs (Decidable (∀ _ ∈ _, ∀ _ ∈ _, _))

def weightedScores : Except String (List (List σ)) :=
  match inputs.scores with
  | none        => .error "weighted experts require matching scores"
  | some scores => do
    ensure (inputs.shaped scores) "weighted experts require matching scores"
    return scores

def finish (rows : List (List V)) : Except String (Output V) :=
  if inputs.weightedSum then do
    let scores ← inputs.weightedScores
    return .weighted (List.zipWith weigh rows scores)
  else
    return .rows rows

def chunkSize (group : Group) : Nat :=
  max 1 (min 128 (inputs.workspaceBytes /
    max 1 (16 * group.experts.length * (access.hidden + access.intermediate))))

def reshape (values : Nat → V) : List (List V) :=
  (List.range inputs.routes.length).map fun row =>
    (List.range inputs.topK).map fun slot => values (row * inputs.topK + slot)

def streamedExperts [Add V] [Zero V] : Except String (Output V × Call V) := do
  ensure (inputs.topK ≠ 0) "cannot reshape array of size 0"
  ensure (inputs.width ≠ 0) "[reshape] Cannot infer the shape of an empty array"
  ensure (inputs.routes.length = inputs.rows ∧ inputs.inRange access) "invalid expert routes"
  ensure (inputs.size * inputs.width * inputs.itemsize ≤ inputs.workspaceBytes / 2)
    "expert output exceeds workspace"
  let s ← access.groups.foldlM (fun s group =>
    if inputs.routes.length = 1 then s.singleRow f inputs.routes access group
    else s.multiRow f inputs.routes inputs.topK (inputs.chunkSize access group) group) Call.empty
  let output ← inputs.finish weigh
    (inputs.reshape fun position => (s.output position).foldl (· + ·) 0)
  return (output, s)

end Inputs

-- A call of the decoder, that keeps the output of each expert.
structure DecodeCall (V : Type) extends Call V where
  outputs : Nat → Option V

namespace DecodeCall

variable (f : Nat → Nat → V) (s : DecodeCall V)

def evaluate (experts : List Nat) : DecodeCall V :=
  let call := { s.toCall.enter experts with
    pending   := s.pending ++ experts
    evaluated := s.evaluated ++ experts.map fun expert => (expert, [0])
  }
  {
    toCall  := if experts = [] then call else call.eval
    outputs := fun expert => if expert ∈ experts then some (f expert 0) else s.outputs expert
  }

def group (access : Access) (s : DecodeCall V) (group : Group) : DecodeCall V :=
  let completed := (access.prefetchReady group).getD []
  let s := (access.prefetchReady group).elim s (s.evaluate f)
  -- This is tested before each expert, but an expert of the group has no output before its turn.
  let acquired := group.experts.filter fun expert => (s.outputs expert).isNone
  let s := s.evaluate f acquired
  { s with toCall := s.toCall.exit (completed ++ acquired) }

end DecodeCall

namespace Inputs

variable (inputs : Inputs σ) (access : Access) (f : Nat → Nat → V)
variable (weigh : List V → List σ → V)

-- The first row of the routes, with the outputs of its experts.
def gather (outputs : Nat → Option V) : Except String (List V) :=
  (inputs.routes.headD []).mapM fun expert =>
    match outputs expert with
    | some value => .ok value
    | none       => .error "KeyError"

def decodeExperts [Add V] [Zero V] : Except String (Output V × Call V) :=
  if inputs.rows * inputs.width ≠ inputs.width then
    inputs.streamedExperts access f weigh
  else do
    ensure (inputs.topK ≠ 0) "cannot reshape array of size 0"
    ensure (inputs.routes.length = 1 ∧ inputs.inRange access) "invalid expert routes"
    ensure (inputs.size * inputs.width * inputs.itemsize ≤ inputs.workspaceBytes / 2)
      "expert output exceeds workspace"
    ensure (¬inputs.weightedSum ∨ inputs.weightedScores.isOk)
      "weighted experts require matching scores"
    let s := access.groups.foldl (DecodeCall.group f access)
      { toCall := Call.empty, outputs := fun _ => none }
    let row ← inputs.gather s.outputs
    let output ← inputs.finish weigh [row]
    return (output, s.toCall)

end Inputs

end Backend.StreamedExperts
