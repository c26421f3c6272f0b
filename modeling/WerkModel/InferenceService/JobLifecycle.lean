import WerkModel.InferenceService.Jobs

-- The persisted statuses of a job form a path, and its output is kept exactly if it completes,
-- unless the job is cancelled while its worker stores the result.
open Std ExtTreeMap

namespace InferenceService

variable {Request Content : Type} {job id : String}

-- A record has a result if the job completed, and an error if it failed.
structure JobRecord.Consistent (record : JobRecord Request Content) : Prop where
  completed : record.status = .completed → record.result.isSome ∧ record.error = none
  failed    : record.status = .failed → record.error.isSome ∧ record.result = none

namespace JobStore

variable {store : JobStore Request Content} {record : JobRecord Request Content}
variable {status : JobStatus} {result : Option (InferenceResult Content)} {error : Option String}
variable {now : Nat}

-- The statuses that were persisted for a job, the latest first.
def statuses (store : JobStore Request Content) (job : String) : List JobStatus :=
  (store.persisted.filter fun record => record.id = job).map JobRecord.status

structure Sound (store : JobStore Request Content) (job : String) : Prop where
  path   : (store.statuses job).IsChain fun later earlier => validJobTransition earlier later
  first  : (store.statuses job).getLast? = some .queued
  stored : ∃ record, store.get job = .ok record ∧ record.Consistent ∧
    (store.statuses job).head? = some record.status

theorem statuses_put : (store.put record).statuses job =
    if record.id = job then record.status :: store.statuses job else store.statuses job := by
  rw [statuses, put, List.filter_cons]
  by_cases h : record.id = job
  all_goals simp [h, statuses]

theorem id_of_get (hg : store.get id = .ok record) : record.id = id :=
  store.keyed _ _ (get_ok.mp hg).2

theorem id_change (hg : store.get id = .ok record) :
    (record.change status result error now).id = id :=
  (rfl : _ = record.id).trans (id_of_get hg)

theorem get_put {other : JobRecord Request Content} (hg : store.get job = .ok record)
    (ho : store.get id = .ok other) :
    (store.put <| other.change status result error now).get job =
      .ok (if id = job then other.change status result error now else record) := by
  have ⟨hs, hr⟩ := get_ok.mp hg
  refine get_ok.mpr ⟨hs, ?_⟩
  rw [lookup_put, hr, id_change ho]
  split <;> rfl

theorem Sound.put (h : store.Sound job) (hg : store.get id = .ok record)
    (hv : validJobTransition record.status status)
    (hc : (record.change status result error now).Consistent) :
    (store.put <| record.change status result error now).Sound job := by
  have ⟨stored, hs, hsc, hsl⟩ := h.stored
  have hi : (record.change status result error now).id = id := id_change hg
  by_cases he : id = job
  case neg =>
    constructor
    case path   => rw [statuses_put, hi, if_neg he]; exact h.path
    case first  => rw [statuses_put, hi, if_neg he]; exact h.first
    case stored =>
      refine ⟨stored, ?_, hsc, ?_⟩
      · rw [get_put hs hg, if_neg he]
      · rw [statuses_put, hi, if_neg he, hsl]
  case pos =>
    rw [he] at hi hg
    cases Except.ok.inj <| hs.symm.trans hg
    constructor
    case path =>
      rw [statuses_put, if_pos hi]
      refine List.isChain_cons.mpr ⟨fun earlier hm => ?_, h.path⟩
      cases Option.some.inj <| hsl.symm.trans hm
      exact hv
    case first =>
      rw [statuses_put, if_pos hi, List.getLast?_cons, h.first]
      rfl
    case stored =>
      refine ⟨_, ?_, hc, ?_⟩
      · rw [get_put hs hg, if_pos rfl]
      · rw [statuses_put, if_pos hi]
        rfl

theorem Sound.transition (h : store.Sound job)
    (hc : ∀ record : JobRecord Request Content, (record.change status result error now).Consistent) :
    (store.transition id status result error now).2.Sound job := by
  rcases transition_cases id status result error now with ⟨_, ht⟩ | ⟨_, _, _, _, ht⟩ | ⟨record, hg, hv, ht⟩
  all_goals rw [ht]
  · exact h
  · exact h
  · exact h.put hg hv (hc record)

theorem Sound.cancel (h : store.Sound job) : (store.cancel id now).2.Sound job := by
  have hc : ∀ record : JobRecord Request Content,
      (record.change .cancelled none none now).Consistent := fun record => ⟨nofun, nofun⟩
  rcases cancel_cases id now with ⟨_, ht⟩ | ⟨_, _, _, ht⟩ | ⟨record, hg, hv, ht⟩
  all_goals rw [ht]
  · exact h
  · exact h
  · exact h.put hg hv (hc record)

-- Terminal records do not change.

theorem get_transition_of_terminal (hg : store.get job = .ok record) (ht : record.status.terminal) :
    (store.transition id status result error now).2.get job = .ok record := by
  rcases transition_cases id status result error now with
    ⟨_, hc⟩ | ⟨_, _, _, _, hc⟩ | ⟨other, ho, hv, hc⟩
  all_goals rw [hc]
  · exact hg
  · exact hg
  · have hne : id ≠ job := by
      intro he
      rw [he] at ho
      cases Except.ok.inj <| hg.symm.trans ho
      simp [not_terminal hv] at ht
    rw [get_put hg ho, if_neg hne]

theorem get_transition (hg : store.get job = .ok record) (status : JobStatus)
    (result : Option (InferenceResult Content)) (error : Option String) (now : Nat) :
    (∃ message, store.transition job status result error now = (.error message, store)) ∨
    ∃ record' store', store.transition job status result error now = (.ok record', store') ∧
      store'.get job = .ok record' ∧ record'.status = status := by
  rcases transition_cases job status result error now with h | ⟨_, ho, _, hs, h⟩ | ⟨_, ho, _, h⟩
  · exact .inl h
  · exact .inr ⟨_, _, h, ho, hs⟩
  · exact .inr ⟨_, _, h, by rw [get_put hg ho, if_pos rfl], rfl⟩

theorem get_transition_of_valid (hg : store.get job = .ok record)
    (hv : validJobTransition record.status status) :
    (store.transition job status result error now).2.get job =
      .ok (record.change status result error now) := by
  rw [transition_of_valid hg hv, get_put hg hg, if_pos rfl]

theorem get_cancel (id : String) (now : Nat) (hg : store.get job = .ok record) :
    (store.cancel id now).2.get job = .ok record ∨
      id = job ∧ record.status.terminal = false ∧
        (store.cancel id now).2.get job = .ok (record.change .cancelled none none now) := by
  rcases cancel_cases id now with ⟨_, hc⟩ | ⟨_, _, _, hc⟩ | ⟨other, ho, hv, hc⟩
  all_goals rw [hc]
  · exact .inl hg
  · exact .inl hg
  · by_cases he : id = job
    case neg => exact .inl <| by rw [get_put hg ho, if_neg he]
    case pos =>
      refine .inr ⟨he, ?_⟩
      rw [get_put hg ho, if_pos he]
      rw [he] at ho
      cases Except.ok.inj <| hg.symm.trans ho
      exact ⟨not_terminal hv, rfl⟩

theorem get_cancel_of_terminal (hg : store.get job = .ok record) (ht : record.status.terminal) :
    (store.cancel id now).2.get job = .ok record := by
  rcases get_cancel id now hg with h | ⟨_, hn, _⟩
  · exact h
  · simp [hn] at ht

end JobStore

open JobStore

variable {world world' : World Request Content} {operation : Operation Content}
variable {reply : Reply Request Content} {now : Nat} {execution : Execution Content}

namespace World

-- A step of the worker stores a consistent record, if it stores one.
theorem store_work : (world.work job now execution).store = world.store ∨
    ∃ status result error,
      (world.work job now execution).store =
        (world.store.transition job status result error now).2 ∧
      ∀ record : JobRecord Request Content, (record.change status result error now).Consistent := by
  have ha (status) (worker : Worker Request Content) :
      (world.advance job status now worker).store =
        (world.store.transition job status none none now).2 := by
    rw [advance]
    rcases transition_cases job status none none now with ⟨_, h⟩ | ⟨_, _, _, _, h⟩ | ⟨_, _, _, h⟩
    all_goals rw [h]
  cases hw : world.worker
  all_goals simp only [work, hw]
  case load | run =>
    exact .inr ⟨_, _, _, ha _ _, fun _ => ⟨nofun, nofun⟩⟩
  case encode   => exact .inr ⟨_, _, _, rfl, fun _ => ⟨nofun, nofun⟩⟩
  case complete => exact .inr ⟨_, _, _, rfl, fun _ => ⟨fun _ => ⟨rfl, rfl⟩, nofun⟩⟩
  case fail     => exact .inr ⟨_, _, _, rfl, fun _ => ⟨nofun, fun _ => ⟨rfl, rfl⟩⟩⟩
  case fetch    => split <;> exact .inl rfl
  case execute  => exact .inl <| by cases execution <;> rfl
  all_goals simp

theorem sound_step (h : world.store.Sound job)
    (hs : world.apply job operation = (reply, world')) : world'.store.Sound job := by
  cases operation
  all_goals cases hs
  case get    => exact h
  case cancel => exact h.cancel
  case work now execution =>
    have hw : (world.work job now execution).store = world.store ∨ _ := store_work
    rcases hw with hw | ⟨_, _, _, hw, hc⟩
    all_goals rw [hw]
    · exact h
    · exact h.transition hc

theorem final_step {record : JobRecord Request Content} (hg : world.store.get job = .ok record)
    (ht : record.status.terminal) (hs : world.apply job operation = (reply, world')) :
    world'.store.get job = .ok record := by
  cases operation
  all_goals cases hs
  case get    => exact hg
  case cancel => exact get_cancel_of_terminal hg ht
  case work now execution =>
    have hw : (world.work job now execution).store = world.store ∨ _ := store_work
    rcases hw with hw | ⟨_, _, _, hw, _⟩
    all_goals rw [hw]
    · exact hg
    · exact get_transition_of_terminal hg ht

end World

-- What holds of the job's record and its output before a step of the worker, if no cancellation
-- came between the last check of the worker and its last transition.
def Worker.Allows (outputs : Finset String) (record : JobRecord Request Content) :
    Worker Request Content → Prop
  | .fetch | .execute _ | .fail _ => record.status = .running ∨ record.status = .cancelled
  | .check execution              =>
    (record.status = .running ∨ record.status = .cancelled) ∧
    ∀ result, execution = .ok result → result.id ∈ outputs
  | .discard _                    => record.status = .cancelled
  | .encode result                => record.status = .running ∧ result.id ∈ outputs
  | .complete result              => record.status = .encoding ∧ result.id ∈ outputs
  | .ended (some result)          =>
    record.status.terminal ∧
    (result.id ∈ outputs ↔ record.status = .completed ∧ record.result = some result)
  | _                             => True

namespace World

-- A cancellation that comes while the worker stores a result that it has produced.
def CancelsResult (job : String) (world : World Request Content) : Operation Content → Prop
  | .cancel id _ => id = job ∧ ∃ result, world.worker = .encode result ∨ world.worker = .complete result
  | _            => False

def Phase (job : String) (world : World Request Content) : Prop :=
  ∃ record, world.store.get job = .ok record ∧ world.worker.Allows world.outputs record

theorem isCancelled_eq {record} (hg : world.store.get job = .ok record) :
    world.isCancelled job = (record.status = .cancelled) := by
  simp [isCancelled, hg]

theorem phase_advance {status : JobStatus} {worker : Worker Request Content} (h : world.Phase job)
    (ha : ∀ record : JobRecord Request Content, record.status = status →
      worker.Allows world.outputs record) :
    (world.advance job status now worker).Phase job := by
  have ⟨record, hg, _⟩ := h
  rw [advance]
  rcases get_transition hg status none none now with ⟨_, ht⟩ | ⟨record', _, ht, hg', hs⟩
  all_goals rw [ht]
  · exact ⟨record, hg, trivial⟩
  · exact ⟨record', hg', ha record' hs⟩

theorem phase_work (h : world.Phase job) : (world.work job now execution).Phase job := by
  have ⟨record, hg, ha⟩ := h
  cases hw : world.worker
  all_goals
    rw [hw] at ha
    simp only [work, hw]
  case begin =>
    refine ⟨record, hg, ?_⟩
    split <;> trivial
  case load => exact phase_advance h fun _ _ => trivial
  case run  => exact phase_advance h fun _ => .inl
  case fetch =>
    rw [hg]
    exact ⟨record, hg, ha⟩
  case execute =>
    cases execution
    case ok result =>
      exact ⟨record, hg, ha, fun _ he => by cases he; exact Finset.mem_insert_self _ _⟩
    all_goals exact ⟨record, hg, ha, nofun⟩
  case check execution =>
    refine ⟨record, hg, ?_⟩
    by_cases hc : record.status = .cancelled
    case pos =>
      rw [check.eq_def, if_pos (isCancelled_eq hg ▸ hc)]
      cases execution
      case ok => exact hc
      all_goals trivial
    case neg =>
      have hr := ha.1.resolve_right hc
      rw [check.eq_def, if_neg (isCancelled_eq hg ▸ hc)]
      cases execution
      case ok result => exact ⟨hr, ha.2 result rfl⟩
      all_goals exact .inl hr
  case discard result =>
    refine ⟨record, hg, ?_⟩
    simp_all [Worker.Allows, JobStatus.terminal]
  case encode result =>
    refine ⟨_, get_transition_of_valid hg (by rw [ha.1]; rfl), rfl, ha.2⟩
  case complete result =>
    refine ⟨_, get_transition_of_valid hg (by rw [ha.1]; rfl), rfl, ?_⟩
    exact ⟨fun _ => ⟨rfl, rfl⟩, fun _ => ha.2⟩
  case fail error =>
    rcases get_transition hg .failed none (some error) now with ⟨_, ht⟩ | ⟨record', _, ht, hg', _⟩
    all_goals rw [settle, ht]
    · exact ⟨record, hg, trivial⟩
    · exact ⟨record', hg', trivial⟩
  case ended => exact ⟨record, hg, hw ▸ ha⟩

-- A cancellation changes the record only before the result is stored.
theorem phase_cancel (h : world.Phase job) {id : String}
    (hc : ¬world.CancelsResult job (.cancel id now)) :
    World.Phase job { world with store := (world.store.cancel id now).2 } := by
  have ⟨record, hg, ha⟩ := h
  rcases get_cancel id now hg with hg' | ⟨he, ht, hg'⟩
  · exact ⟨record, hg', ha⟩
  · refine ⟨_, hg', ?_⟩
    cases hw : world.worker
    all_goals rw [hw] at ha
    case fetch | execute | fail => exact .inr rfl
    case check                  => exact ⟨.inr rfl, ha.2⟩
    case discard                => rfl
    case encode result          => exact absurd ⟨he, result, .inl hw⟩ hc
    case complete result        => exact absurd ⟨he, result, .inr hw⟩ hc
    case begin | load | run     => trivial
    case ended produced         =>
      cases produced
      case none        => trivial
      case some result => simp [ha.1] at ht

theorem phase_step (h : world.Phase job) (hc : ¬world.CancelsResult job operation)
    (hs : world.apply job operation = (reply, world')) : world'.Phase job := by
  cases operation
  all_goals cases hs
  case get    => exact h
  case work   => exact phase_work h
  case cancel => exact phase_cancel h hc

-- The persisted statuses are a path from `queued`, and terminal records stay as they are.
structure Recorded (job : String) (world : World Request Content) : Prop where
  path   : (world.store.statuses job).IsChain fun later earlier => validJobTransition earlier later
  first  : (world.store.statuses job).getLast? = some .queued
  last   : ∃ record, world.store.get job = .ok record ∧
    (world.store.statuses job).head? = some record.status
  final  : ∀ record, world.store.get job = .ok record → record.status.terminal →
    ∀ operation reply world', (system job).Step world operation reply world' →
      world'.store.get job = .ok record
  result : ∀ record, world.store.get job = .ok record → record.Consistent

-- The output of a worker that has ended is kept exactly if the job completed with it.
structure Lifecycle (job : String) (world : World Request Content) : Prop
    extends world.Recorded job where
  output : ∀ produced, world.worker = .ended (some produced) →
    (produced.id ∈ world.outputs ↔ ∃ record, world.store.get job = .ok record ∧
      record.status = .completed ∧ record.result = some produced)

theorem recorded (h : world.store.Sound job) : world.Recorded job := by
  have ⟨record, hg, hc, hl⟩ := h.stored
  refine ⟨h.path, h.first, ⟨record, hg, hl⟩, fun _ hg ht _ _ _ => final_step hg ht, fun _ h => ?_⟩
  exact Except.ok.inj (hg.symm.trans h) ▸ hc

theorem lifecycle (hs : world.store.Sound job) (hp : world.Phase job) : world.Lifecycle job := by
  refine ⟨recorded hs, fun produced hw => ?_⟩
  have ⟨record, hg, ha⟩ := hp
  rw [hw] at ha
  refine ha.2.trans ⟨fun h => ⟨record, hg, h⟩, fun h => ?_⟩
  have ⟨_, hg', h⟩ := h
  exact Except.ok.inj (hg'.symm.trans hg) ▸ h

theorem sound_init (h : (system job).Init world) : world.store.Sound job := by
  have ⟨store, request, now, record, hp, hc, _⟩ := h
  have ⟨hs, hi, hq, hw⟩ := create_ok hc
  rw [hw]
  have hst : (store.put record).statuses job = [.queued] := by
    rw [statuses_put, if_pos hi, hq, statuses, hp]
    rfl
  constructor
  case path   => rw [hst]; exact .singleton _
  case first  => rw [hst]; rfl
  case stored =>
    refine ⟨record, get_ok.mpr ⟨hs, ?_⟩, ⟨by simp [hq], by simp [hq]⟩, by rw [hst, hq]; rfl⟩
    rw [lookup_put, if_pos hi]

theorem phase_init (h : (system job).Init world) : world.Phase job := by
  have ⟨record, hg, _⟩ := (sound_init h).stored
  have ⟨_, _, _, _, _, _, hw⟩ := h
  exact ⟨record, hg, hw ▸ trivial⟩

end World

theorem sound (job : String) :
    (system job : System (World Request Content) _ _).Invariant fun world =>
      world.store.Sound job where
  init _         := World.sound_init
  step _ _ _ _ h := World.sound_step h

theorem phase (job : String) :
    ((system job).restrict fun (world : World Request Content) operation _ _ =>
      ¬world.CancelsResult job operation).Invariant fun world => world.Phase job where
  init _            := World.phase_init
  step _ _ _ _ h hs := World.phase_step h hs.2 hs.1

section Small

def smallOutput : InferenceResult Unit :=
  ⟨"out_1", ()⟩

def emptyStore : JobStore Unit Unit where
  records   := ∅
  persisted := []
  keyed     := by simp

def createdWorld : World Unit Unit where
  store   := (emptyStore.create "job_1" () 1).2
  outputs := ∅
  worker  := .begin

def smallRun (world : World Unit Unit) (operations : List (Operation Unit)) : World Unit Unit :=
  operations.foldl (fun world operation => (world.apply "job_1" operation).2) world

-- The worker up to the step after its last check.
def smallWork : List (Operation Unit) :=
  List.replicate 6 <| .work 2 <| .ok smallOutput

def storeResult : List (Operation Unit) :=
  List.replicate 2 <| .work 3 <| .ok smallOutput

theorem reachable_smallRun {G} {world : World Unit Unit} {operations : List (Operation Unit)}
    (h : ((system "job_1").restrict G).Reachable world)
    (hg : ∀ operation ∈ operations, ∀ world reply world', G world operation reply world') :
    ((system "job_1").restrict G).Reachable (smallRun world operations) := by
  induction operations generalizing world
  case nil => exact h
  case cons operation operations hi =>
    have ⟨hh, ht⟩ := List.forall_mem_cons.mp hg
    exact hi (h.step (i := operation) ⟨rfl, hh _ _ _⟩) ht

def completedWorld : World Unit Unit :=
  smallRun createdWorld <| smallWork ++ storeResult

def cancelledWorld : World Unit Unit :=
  smallRun createdWorld <| smallWork ++ .cancel "job_1" 3 :: storeResult

theorem init_createdWorld : (system "job_1").Init createdWorld :=
  ⟨emptyStore, (), 1, _, rfl, rfl, rfl⟩

end Small

end InferenceService
