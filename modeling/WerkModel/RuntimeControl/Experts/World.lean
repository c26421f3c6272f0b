import WerkModel.Lib.System
import WerkModel.RuntimeControl.Experts.Policy

-- The manager together with its callers, who hold the permits that were neither committed nor
-- dropped. Every operation is one critical section of the manager.
namespace RuntimeControl.Experts

variable {φ : Type} [Score φ]

inductive Operation (φ : Type)
  | observe (observation : ExpertObservation) (now : Nat)
  | recordAccesses (modelId : String) (accesses : List (ExpertAccess φ)) (nowMono nowUnix : Nat)
  | setPinned (modelId : String) (expertIds : List String) (pinned dryRun : Bool) (now : Nat)
  | prefetchCandidates (modelId : String) (target : ExpertTier) (limit now : Nat)
  | planPressure (request : ExpertPressureRequest) (now : Nat)
  | explicitAction (key : ExpertKey) (target : Option ExpertTier)
  | beginActions (actions : List ExpertPolicyAction)
  | commitPermit (permit : ExpertActionPermit) (now : Nat)
  | dropPermit (permit : ExpertActionPermit)

inductive Output (φ : Type)
  | done
  | summary (summary : ExpertSummary φ)
  | summaries (summaries : List (ExpertSummary φ))
  | candidatePlan (plan : ExpertCandidatePlan)
  | pressurePlan (plan : ExpertPressurePlan)
  | action (action : ExpertPolicyAction)
  | permit (permit : ExpertActionPermit)
  | committed (outcome : ExpertCommitOutcome φ)

abbrev Result (φ : Type) := Except ExpertResidencyError (Output φ)

structure World (φ : Type) where
  state   : ExpertState φ
  permits : Multiset ExpertActionPermit

namespace World

def new : World φ where
  state   := .new
  permits := 0

def settle {α} (world : World φ) (outcome : Outcome φ α) (output : α → Output φ) :
    Result φ × World φ :=
  (outcome.1.map output, { world with state := outcome.2 })

-- Planning does not change the state.
def report {α} (world : World φ) (result : Except ExpertResidencyError α) (output : α → Output φ) :
    Result φ × World φ :=
  (result.map output, world)

def addPermit (permit : ExpertActionPermit) (world : World φ) : World φ :=
  { world with permits := permit ::ₘ world.permits }

def removePermit (permit : ExpertActionPermit) (world : World φ) : World φ :=
  { world with permits := world.permits.erase permit }

def beginActions (outcome : Outcome φ ExpertActionPermit) (world : World φ) :
    Result φ × World φ :=
  match outcome with
  | (.error error, state) => (.error error, { world with state })
  | (.ok permit, state)   => (.ok (.permit permit), addPermit permit { world with state })

-- The world after a permit was given out, committed or dropped.

def begin (permit : ExpertActionPermit) (world : World φ) : World φ :=
  addPermit permit
    { world with state.pending := keysOf permit.actions ∪ world.state.pending }

def commit (permit : ExpertActionPermit) (now : Nat) (world : World φ) : World φ :=
  removePermit permit { world with
    state := release permit.actions
      (applyActions permit.actions now world.state).removeEmptyModels }

def drop (permit : ExpertActionPermit) (world : World φ) : World φ :=
  removePermit permit { world with state := permit.drop world.state }

def apply (config : ExpertResidencyConfig φ) (world : World φ) :
    Operation φ → Result φ × World φ
  | .observe observation now =>
    world.settle (observe config observation now world.state) .summary
  | .recordAccesses modelId accesses nowMono nowUnix =>
    world.settle (recordAccesses config modelId accesses nowMono nowUnix world.state) .summaries
  | .setPinned modelId expertIds pinned dryRun now =>
    world.settle (setPinned config modelId expertIds pinned dryRun now world.state) .summaries
  | .prefetchCandidates modelId target limit now =>
    world.report (prefetchCandidates config modelId target limit now world.state) .candidatePlan
  | .planPressure request now =>
    world.report (planPressure config request now world.state) .pressurePlan
  | .explicitAction key target =>
    world.report (explicitAction key target world.state) .action
  | .beginActions actions =>
    world.beginActions (Experts.beginActions config actions world.state)
  -- A commit consumes its permit, also if it fails.
  | .commitPermit permit now =>
    (removePermit permit world).settle (permit.commit config now world.state) .committed
  | .dropPermit permit =>
    (.ok .done, drop permit world)

section Apply

variable {config : ExpertResidencyConfig φ} {world : World φ} {state : ExpertState φ}

theorem apply_observe {observation now result}
    (h : Experts.observe config observation now world.state = (result, state)) :
    world.apply config (.observe observation now) =
      (result.map .summary, { world with state }) := by
  rw [apply, h]
  rfl

theorem apply_recordAccesses {modelId accesses nowMono nowUnix result}
    (h : Experts.recordAccesses config modelId accesses nowMono nowUnix world.state =
      (result, state)) :
    world.apply config (.recordAccesses modelId accesses nowMono nowUnix) =
      (result.map .summaries, { world with state }) := by
  rw [apply, h]
  rfl

theorem apply_setPinned {modelId expertIds pinned dryRun now result}
    (h : Experts.setPinned config modelId expertIds pinned dryRun now world.state =
      (result, state)) :
    world.apply config (.setPinned modelId expertIds pinned dryRun now) =
      (result.map .summaries, { world with state }) := by
  rw [apply, h]
  rfl

theorem apply_beginActions {actions permit}
    (h : Experts.beginActions config actions world.state = (.ok permit, state)) :
    world.apply config (.beginActions actions) =
      (.ok (.permit permit), addPermit permit { world with state }) := by
  rw [apply, h]
  rfl

theorem apply_beginActions_error {actions error}
    (h : Experts.beginActions config actions world.state = (.error error, state)) :
    world.apply config (.beginActions actions) = (.error error, { world with state }) := by
  rw [apply, h]
  rfl

theorem apply_commitPermit {permit now outcome}
    (h : permit.commit config now world.state = (.ok outcome, state)) :
    world.apply config (.commitPermit permit now) =
      (.ok (.committed outcome), removePermit permit { world with state }) := by
  rw [apply, h]
  rfl

end Apply

-- A permit can only be used by the caller that holds it.
def Holds (world : World φ) : Operation φ → Prop
  | .commitPermit permit _ | .dropPermit permit => permit ∈ world.permits
  | _                                           => True

end World

def system (config : ExpertResidencyConfig φ) : System (World φ) (Operation φ) (Result φ) where
  Init world := config.validate = .ok () ∧ world = .new
  Step world operation result world' :=
    world.Holds operation ∧ world.apply config operation = (result, world')

end RuntimeControl.Experts
