import WerkModel.Backend.ModelFileCache

-- Advice on a file is only given while no worker needs its cached pages.
open Flock

namespace Backend
namespace ModelFileCache

variable {Mapping : Type}

namespace Phase

@[simp] def begun : Phase Mapping → Bool
  | .cancelling | .dropping _ | .releasing _ | .upgraded _ _ | .finished => true
  | _                                                                    => false

-- The callback has passed the preparation gate.
@[simp] def drained : Phase Mapping → Bool
  | .dropping _ | .releasing _ | .upgraded _ _ | .finished => true
  | _                                                      => false

@[simp] def gated : Phase Mapping → Bool
  | .dropping _ | .releasing _ | .upgraded _ _ => true
  | _                                          => false

-- The guard has the shared locks of its leases.
@[simp] def holds : Phase Mapping → Bool
  | .opening _ | .opened | .registered => true
  | _                                  => false

@[simp] def completed : Phase Mapping → Bool
  | .absent | .opening _ | .abandoned => false
  | _                                 => true

@[simp] def undropped : Phase Mapping → List (Nat × Mapping)
  | .dropping retained => retained
  | _                  => []

@[simp] def unreleased : Phase Mapping → List FileLease
  | .releasing todo      => todo
  | .upgraded lease todo => lease :: todo
  | _                    => []

@[simp] def current : Phase Mapping → Option FileLease
  | .opening (.identified lease) | .opening (.checked lease) | .opening (.locked lease) => some lease
  | _                                                                                   => none

@[simp] def locked : Phase Mapping → Option FileLease
  | .opening (.locked lease) => some lease
  | _                        => none

@[simp] def exclusive : Phase Mapping → Option FileLease
  | .upgraded lease _ => some lease
  | _                 => none

theorem drained_begun {phase : Phase Mapping} (h : phase.drained = true) : phase.begun = true := by
  cases phase <;> simp_all

end Phase

namespace Guard

-- The callback of the cleanup has been taken.
def begun (guard : Guard Mapping) : Bool :=
  guard.cleanup.any (!·.callback)

-- The mappings that a guard has retained and not dropped yet.
def mappings (guard : Guard Mapping) : List (Nat × Mapping) :=
  guard.retained ++ guard.phase.undropped

structure Cancels (guard : Guard Mapping) : Prop where
  begun     : guard.phase.begun = guard.begun
  cancelled : guard.phase.begun = true → guard.cancelled = true

structure Leased (id : Nat) (locks : Locks) (guard : Guard Mapping) : Prop where
  current : ∀ lease, guard.phase.current = some lease → lease.file = guard.index
  indexed : guard.phase.holds = true → ∀ lease ∈ guard.leases, lease.file < guard.index
  shared  : guard.phase.holds = true → ∀ lease ∈ guard.leases, lease.lock id .shared ∈ locks
  locked  : ∀ lease, guard.phase.locked = some lease → lease.lock id .shared ∈ locks

structure Releases (id : Nat) (locks : Locks) (guard : Guard Mapping) : Prop where
  exclusive  : ∀ lease, guard.phase.exclusive = some lease → lease.lock id .exclusive ∈ locks
  unreleased : guard.phase.unreleased ⊆ guard.leases

structure Retains (guard : Guard Mapping) : Prop where
  gated    : guard.phase.gated = true → guard.preparation = none
  drained  : guard.phase.drained = true →
    guard.retained = [] ∧ ∀ retained, guard.preparation ≠ some (.keeping retained)
  numbered : ∀ mapping ∈ guard.mappings, mapping.1 ≤ guard.preparations
  fresh    : ∀ preparation, guard.preparation = some preparation → preparation ≠ .leaving →
    ∀ mapping ∈ guard.mappings, mapping.1 < guard.preparations

structure Valid (id : Nat) (locks : Locks) (guard : Guard Mapping) : Prop where
  cancels  : guard.Cancels
  leased   : guard.Leased id locks
  releases : guard.Releases id locks
  retains  : guard.Retains

end Guard

section Moves

variable {s : State Mapping} {id : Nat} {guard guard' : Guard Mapping} {locks locks' : Locks}
variable {action : Action Mapping} {outcome : Outcome}

-- The steps of a guard as rules.
inductive Move (s : State Mapping) (id : Nat) (guard : Guard Mapping) :
    Guard Mapping → Locks → Outcome → Prop
  | wait : Move s id guard guard s.locks .done
  | abandon : guard.phase.begun = false → Move s id guard
    { guard with phase := .abandoned, leases := [] } (release (ownedBy id) s.locks) .done
  | prepare (process : Nat) (paths : List String) (requireGguf release : Bool) :
    guard.phase = .absent → Move s id guard { guard with
      process, paths, requireGguf, release
      index  := 0
      seen   := []
      leases := []
      phase  := .opening .next } s.locks .done
  | openPath (inode : Inode) : guard.phase = .opening .next →
    Move s id guard { guard with phase := .opening (.opened inode) } s.locks .done
  | skip (inode : Inode) : guard.phase = .opening (.opened inode) → inode ∈ guard.seen →
    Move s id guard { guard with
      phase := .opening .next
      paths := guard.paths.tail
      index := guard.index + 1 } s.locks .done
  | identify (lease : FileLease) : guard.phase = .opening (.opened lease.inode) →
    lease.file = guard.index → lease.identity = .fromMetadata (s.metadata lease.inode) →
    Move s id guard { guard with
      phase := .opening (.identified lease)
      seen  := lease.inode :: guard.seen } s.locks .done
  | check (lease : FileLease) : guard.phase = .opening (.identified lease) →
    Move s id guard { guard with phase := .opening (.checked lease) } s.locks .done
  | lock (lease : FileLease) : guard.phase = .opening (.checked lease) →
    Grants s.locks (lease.lock id .shared) →
    Move s id guard { guard with phase := .opening (.locked lease) }
      (acquire (lease.lock id .shared) s.locks) .done
  | confirm (lease : FileLease) : guard.phase = .opening (.locked lease) →
    lease.identity.matches (s.metadata lease.inode) = true →
    Move s id guard { guard with
      phase  := .opening .next
      paths  := guard.paths.tail
      index  := guard.index + 1
      leases := guard.leases ++ [lease] } s.locks .done
  | complete : guard.phase = .opening .next →
    Move s id guard { guard with phase := .opened } s.locks .done
  | register : guard.phase = .opened → s.stopping guard.process = false →
    Move s id guard { guard with phase := .registered, cleanup := some {} } s.locks .done
  | beginPreparation : guard.phase.gated = false → guard.preparation = none →
    Move s id guard { guard with
      preparation  := some (.running guard.cancelled)
      preparations := guard.preparations + 1 } s.locks .done
  | finishPreparation (cancelledBefore : Bool) (retained : Option Mapping) :
    guard.preparation = some (.running cancelledBefore) →
    Move s id guard { guard with preparation := some (.prepared cancelledBefore retained) }
      s.locks .done
  | discard (cancelledBefore : Bool) (retained : Option Mapping) :
    guard.preparation = some (.prepared cancelledBefore retained) →
    Move s id guard { guard with preparation := some .leaving } s.locks .done
  | accept (retained : Mapping) : guard.preparation = some (.prepared false (some retained)) →
    guard.cancelled = false →
    Move s id guard { guard with preparation := some (.keeping retained) } s.locks .done
  | keep (retained : Mapping) : guard.preparation = some (.keeping retained) →
    Move s id guard { guard with
      preparation := some .leaving
      retained    := guard.retained ++ [(guard.preparations, retained)] } s.locks .done
  | leavePreparation : guard.preparation = some .leaving →
    Move s id guard { guard with preparation := none } s.locks .done
  | begin (cleanup : ProcessLifecycle.Cleanup) : guard.begun = false → cleanup.callback = false →
    Move s id guard (guard.begin cleanup) s.locks .done
  | drop (cleanup : ProcessLifecycle.Cleanup) : guard.begun = true → cleanup.callback = false →
    Move s id guard { guard with cleanup := some cleanup } s.locks .done
  | enterGate : guard.phase = .cancelling → guard.preparation = none →
    Move s id guard { guard with phase := .dropping guard.retained, retained := [] } s.locks .done
  | unmap (mapping : Nat × Mapping) (retained : List (Nat × Mapping)) :
    guard.phase = .dropping (mapping :: retained) →
    Move s id guard { guard with phase := .dropping retained } s.locks .done
  | release (todo : List FileLease) : guard.phase = .dropping [] → todo ⊆ guard.leases →
    Move s id guard { guard with phase := .releasing todo } s.locks .done
  | upgrade (lease : FileLease) (todo : List FileLease) : guard.phase = .releasing (lease :: todo) →
    Grants s.locks (lease.lock id .exclusive) →
    Move s id guard { guard with phase := .upgraded lease todo }
      (acquire (lease.lock id .exclusive) s.locks) .done
  | lose (lease : FileLease) (todo : List FileLease) (result : ReleaseResult) :
    guard.phase = .releasing (lease :: todo) →
    Move s id guard (guard.count todo result) (Flock.release (· = (id, lease.file)) s.locks) .done
  | pass (lease : FileLease) (todo : List FileLease) (result : ReleaseResult) :
    guard.phase = .releasing (lease :: todo) ∨ guard.phase = .upgraded lease todo →
    Move s id guard (guard.count todo result) s.locks .done
  | advise (lease : FileLease) (todo : List FileLease) (result : ReleaseResult) :
    guard.phase = .upgraded lease todo → lease.identity.matches (s.metadata lease.inode) = true →
    Move s id guard (guard.count todo result) s.locks (.advised lease.inode)
  | close : guard.phase = .releasing [] →
    Move s id guard
      { guard with phase := .finished, leases := [], cleanup := guard.cleanup.map leave }
      (Flock.release (ownedBy id) s.locks) .done

-- What a step does to the locks.
inductive LockStep (id : Nat) (locks : Locks) : Locks → Prop
  | none : LockStep id locks locks
  | acquire (lease : FileLease) (mode : Mode) : Grants locks (lease.lock id mode) →
    LockStep id locks (Flock.acquire (lease.lock id mode) locks)
  | release (p : Nat × Nat → Prop) [DecidablePred p] : (∀ holder, p holder → holder.1 = id) →
    LockStep id locks (Flock.release p locks)

theorem LockStep.sound (h : LockStep id locks locks') (hs : Sound locks) : Sound locks' := by
  cases h
  case none       => exact hs
  case acquire hg => exact hs.acquire hg
  case release    => exact hs.release

-- The locks of other guards stay.
theorem LockStep.mem_iff {lock : Lock (Nat × Nat) Inode} (h : LockStep id locks locks')
    (hn : lock.holder.1 ≠ id) : lock ∈ locks' ↔ lock ∈ locks := by
  cases h
  case none => rfl
  case acquire lease mode _ =>
    have hl : lock ≠ lease.lock id mode := fun he => hn (he ▸ rfl)
    have hh : lock.holder ≠ (lease.lock id mode).holder := fun he => hn (he ▸ rfl)
    simp [hl, hh]
  case release p _ hp =>
    have hl : ¬p lock.holder := fun hl => hn (hp _ hl)
    simp [hl]

theorem Move.lockStep (m : Move s id guard guard' locks' outcome) :
    LockStep id s.locks locks' := by
  cases m
  case abandon | close => exact .release _ fun _ hh => hh
  case lock hg         => exact .acquire _ _ hg
  case upgrade hg      => exact .acquire _ _ hg
  case lose            => exact .release _ fun _ hh => hh ▸ rfl
  all_goals exact .none

theorem Guard.continue_eq : guard.continue s = some (guard', locks', outcome) ↔
    guard = guard' ∧ s.locks = locks' ∧ .done = outcome := by
  simp [Guard.continue]

theorem Move.continued (m : Move s id guard guard' s.locks .done)
    (h : guard'.continue s = some (guard'', locks', outcome)) :
    Move s id guard guard'' locks' outcome := by
  have ⟨hg, hl, ho⟩ := Guard.continue_eq.mp h
  exact hg ▸ hl ▸ ho ▸ m

theorem Move.abandoned (hb : guard.phase.begun = false)
    (h : guard.abandon s id = some (guard', locks', outcome)) :
    Move s id guard guard' locks' outcome := by
  simp only [Guard.abandon, Option.some.injEq, Prod.mk.injEq] at h
  obtain ⟨hg, hl, ho⟩ := h
  exact hg ▸ hl ▸ ho ▸ .abandon hb

theorem Move.of_drop (h : guard.drop s = some (guard', locks', outcome)) :
    Move s id guard guard' locks' outcome := by
  rw [Guard.drop] at h
  split at h
  case h_2 => cases h
  case h_1 cleanup hc hp =>
    split_ifs at h with ho hb
    case pos => exact .continued (.begin _ (by simp [Guard.begun, hc, hb]) rfl) h
    case neg => exact .continued (.drop _ (by simp [Guard.begun, hc, hb]) (by simpa using hb)) h

theorem Move.of_runShutdown (h : guard.runShutdown s = some (guard', locks', outcome)) :
    Move s id guard guard' locks' outcome := by
  rw [Guard.runShutdown] at h
  split at h
  case h_2 => cases h
  case h_1 cleanup hc =>
    split_ifs at h with hb
    exact .continued (.begin _ (by simp [Guard.begun, hc, hb.2.2]) rfl) h

theorem Move.of_upgrade {lease : FileLease} {todo : List FileLease} {error loses : Bool}
    (hp : guard.phase = .releasing (lease :: todo))
    (h : guard.upgrade s id lease todo error loses = some (guard', locks', outcome)) :
    Move s id guard guard' locks' outcome := by
  simp only [Guard.upgrade] at h
  split at h
  case isTrue hg =>
    simp only [Option.some.injEq, Prod.mk.injEq] at h
    obtain ⟨hg', hl, ho⟩ := h
    exact hg' ▸ hl ▸ ho ▸ .upgrade lease todo hp hg.2
  case isFalse =>
    simp only [Option.some.injEq, Prod.mk.injEq] at h
    obtain ⟨hg', hl, ho⟩ := h
    subst hg' hl ho
    cases loses
    case true  => exact .lose lease todo _ hp
    case false => exact .pass lease todo _ (.inl hp)

theorem Move.of_advise {lease : FileLease} {todo : List FileLease} {readable succeeds : Bool}
    (hp : guard.phase = .upgraded lease todo)
    (h : guard.advise s lease todo readable succeeds = some (guard', locks', outcome)) :
    Move s id guard guard' locks' outcome := by
  simp only [Guard.advise] at h
  split at h
  case isTrue hm =>
    simp only [Option.some.injEq, Prod.mk.injEq] at h
    have ⟨hg, hl, ho⟩ := h
    exact hg ▸ hl ▸ ho ▸ .advise lease todo _ hp hm.2
  case isFalse => exact .continued (.pass lease todo _ (.inr hp)) h

theorem Move.of_step (h : guard.step s id action = some (guard', locks', outcome)) :
    Move s id guard guard' locks' outcome := by
  cases action <;> simp only [Guard.step] at h
  case prepare =>
    split at h
    case h_2 => cases h
    case h_1 hp =>
      split at h
      case isTrue  => exact .abandoned (by simp [hp]) h
      case isFalse => exact .continued (.prepare _ _ _ _ hp) h
  case openPath =>
    split at h
    case h_2 => cases h
    case h_1 hp _ =>
      split at h
      case h_1       => exact .abandoned (by simp [hp]) h
      case h_2 inode _ => exact .continued (.openPath inode hp) h
  case identify =>
    split at h
    case h_2 => cases h
    case h_1 inode hp =>
      split_ifs at h with hf hs
      case pos => exact .abandoned (by simp [hp]) h
      case pos => exact .continued (.skip inode hp hs) h
      case neg =>
        let lease : FileLease :=
          ⟨guard.index, inode, .fromMetadata (s.metadata inode), (s.metadata inode).len⟩
        exact .continued (.identify lease hp rfl rfl) h
  case readMagic =>
    split at h
    case h_2 => cases h
    case h_1 lease hp =>
      split at h
      case isTrue  => exact .abandoned (by simp [hp]) h
      case isFalse => exact .continued (.check lease hp) h
  case lockShared retry =>
    split at h
    case h_2 => cases h
    case h_1 lease hp =>
      split_ifs at h with hg
      case pos =>
        simp only [Option.some.injEq, Prod.mk.injEq] at h
        obtain ⟨hg', hl, ho⟩ := h
        exact hg' ▸ hl ▸ ho ▸ .lock lease hp hg
      case pos => exact .continued .wait h
      case neg => exact .abandoned (by simp [hp]) h
  case confirm =>
    split at h
    case h_2 => cases h
    case h_1 lease hp =>
      split at h
      case isTrue hm => exact .continued (.confirm lease hp hm) h
      case isFalse   => exact .abandoned (by simp [hp]) h
  case complete =>
    split at h
    case h_2 => cases h
    case h_1 hp _ => exact .continued (.complete hp) h
  case fail =>
    split at h
    case h_2 => cases h
    case h_1 hp => exact .abandoned (by simp [hp]) h
  case register =>
    split at h
    case h_2 => cases h
    case h_1 hp =>
      split at h
      case isTrue     => exact .abandoned (by simp [hp]) h
      case isFalse hs => exact .continued (.register hp (by simpa using hs)) h
  case beginPreparation =>
    split at h
    case h_4 => cases h
    all_goals
      split_ifs at h
      exact .continued (.beginPreparation (by simp [*]) ‹_›) h
  case finishPreparation retained =>
    split at h
    case h_2 => cases h
    case h_1 cancelledBefore hp => exact .continued (.finishPreparation _ retained hp) h
  case checkCancelled =>
    split at h
    case h_3 => cases h
    case h_2 hp => exact .continued (.discard _ _ hp) h
    case h_1 retained hp =>
      split at h
      case isTrue     => exact .continued (.discard _ _ hp) h
      case isFalse hc => exact .continued (.accept retained hp (by simpa using hc)) h
  case keep =>
    split at h
    case h_2 => cases h
    case h_1 retained hp => exact .continued (.keep retained hp) h
  case leavePreparation =>
    split at h
    case h_2 => cases h
    case h_1 hp => exact .continued (.leavePreparation hp) h
  case drop => exact .of_drop h
  case runShutdown => exact .of_runShutdown h
  case enterGate =>
    split at h
    case h_2 => cases h
    case h_1 hp hn => exact .continued (.enterGate hp hn) h
  case unmap =>
    split at h
    case h_3 => cases h
    case h_1 mapping retained hp => exact .continued (.unmap mapping retained hp) h
    case h_2 hp =>
      refine .continued (.release _ hp ?_) h
      split
      case isTrue  => exact List.Subset.refl _
      case isFalse => exact List.nil_subset _
  case upgrade =>
    split at h
    case h_2 => cases h
    case h_1 lease todo hp => exact .of_upgrade hp h
  case advise =>
    split at h
    case h_2 => cases h
    case h_1 lease todo hp => exact .of_advise hp h
  case closeLeases =>
    split at h
    case h_2 => cases h
    case h_1 hp =>
      simp only [Option.some.injEq, Prod.mk.injEq] at h
      obtain ⟨hg, hl, ho⟩ := h
      exact hg ▸ hl ▸ ho ▸ .close hp

end Moves

section Preservation

variable {s : State Mapping} {id : Nat} {guard guard' : Guard Mapping} {locks locks' : Locks}
variable {outcome : Outcome}

theorem Guard.Cancels.move (h : guard.Cancels) (m : Move s id guard guard' locks' outcome) :
    guard'.Cancels := by
  have hb : guard.cleanup.any (!·.callback) = guard.phase.begun := h.begun.symm
  cases m
  case begin cleanup _ hc => exact ⟨by simp [Guard.begin, Guard.begun, hc], fun _ => rfl⟩
  case drop cleanup ho hc =>
    exact ⟨by simpa [Guard.begun, hc] using h.begun.trans ho, h.cancelled⟩
  case abandon hp => exact ⟨hp.symm.trans h.begun, by simp⟩
  case register => exact ⟨by simp [Guard.begun], by simp⟩
  case pass hp =>
    cases hp
    all_goals exact ⟨by simp [Guard.begun, Guard.count, *], fun _ => h.cancelled (by simp [*])⟩
  case close hp =>
    refine ⟨?_, fun _ => h.cancelled (by simp [hp])⟩
    cases hc : guard.cleanup <;> simp_all [Guard.begun, leave, ProcessLifecycle.Cleanup.finish]
  case enterGate | unmap | release | upgrade | lose | advise =>
    exact ⟨by simp [Guard.begun, Guard.count, *], fun _ => h.cancelled (by simp [*])⟩
  case prepare | openPath | skip | identify | check | lock | confirm | complete =>
    exact ⟨by simp [Guard.begun, *], by simp⟩
  all_goals exact ⟨h.begun, h.cancelled⟩

theorem Guard.Leased.of_not_holds (hp : guard.phase.holds = false) : guard.Leased id locks where
  current _ hc := by
    cases hg : guard.phase <;> simp [hg] at hp hc
  indexed hh   := absurd (hp.symm.trans hh) (by decide)
  shared hh    := absurd (hp.symm.trans hh) (by decide)
  locked _ hl  := by
    cases hg : guard.phase <;> simp [hg] at hp hl

theorem Guard.Leased.move (h : guard.Leased id s.locks)
    (m : Move s id guard guard' locks' outcome) : guard'.Leased id locks' := by
  cases m
  case prepare => exact ⟨by simp, by simp, by simp, by simp⟩
  case openPath hp | complete hp | register hp _ =>
    exact ⟨by simp, fun _ => h.indexed (by simp [hp]), fun _ => h.shared (by simp [hp]), by simp⟩
  case skip hp _ =>
    refine ⟨by simp, fun _ lease hl => ?_, fun _ => h.shared (by simp [hp]), by simp⟩
    exact Nat.lt_succ_of_lt (h.indexed (by simp [hp]) lease hl)
  case identify lease hp hi _ =>
    refine ⟨by simpa using hi, fun _ => h.indexed (by simp [hp]), ?_, by simp⟩
    exact fun _ => h.shared (by simp [hp])
  case check lease hp =>
    have hi := h.current lease (by simp [hp])
    refine ⟨by simpa using hi, fun _ => h.indexed (by simp [hp]), ?_, by simp⟩
    exact fun _ => h.shared (by simp [hp])
  case lock lease hp hg =>
    have hi := h.current lease (by simp [hp])
    have hh : guard.phase.holds = true := by simp [hp]
    refine ⟨by simpa using hi, fun _ => h.indexed hh, fun _ other ho => ?_, by simp⟩
    refine mem_acquire.mpr (.inr ⟨h.shared hh other ho, fun he => ?_⟩)
    exact absurd (hi ▸ (Prod.mk.inj he).2 ▸ h.indexed hh other ho) (lt_irrefl _)
  case confirm lease hp _ =>
    have hi := h.current lease (by simp [hp])
    have hl := h.locked lease (by simp [hp])
    have hh : guard.phase.holds = true := by simp [hp]
    refine ⟨by simp, fun _ other ho => ?_, fun _ other ho => ?_, by simp⟩
    · cases List.mem_append.mp ho
      case inl ho => exact Nat.lt_succ_of_lt (h.indexed hh other ho)
      case inr ho =>
        rw [List.mem_singleton.mp ho]
        exact Nat.lt_succ_of_le hi.le
    · cases List.mem_append.mp ho
      case inl ho => exact h.shared hh other ho
      case inr ho => exact List.mem_singleton.mp ho ▸ hl
  case abandon | begin | enterGate | unmap | release | upgrade | lose | pass | advise | close =>
    exact .of_not_holds rfl
  all_goals exact ⟨h.current, h.indexed, h.shared, h.locked⟩

theorem Guard.Releases.of_no_leases (hp : guard.phase.unreleased = []) :
    guard.Releases id locks where
  exclusive _ he := by
    cases hg : guard.phase <;> simp [hg] at hp he
  unreleased     := hp ▸ List.nil_subset _

theorem Guard.Releases.move (h : guard.Releases id s.locks)
    (m : Move s id guard guard' locks' outcome) : guard'.Releases id locks' := by
  cases m
  case release todo _ ht => exact ⟨by simp, by simpa using ht⟩
  case upgrade lease todo hp hg => exact ⟨by simp, by simpa [hp] using h.unreleased⟩
  case lose lease todo _ hp =>
    refine ⟨by simp [Guard.count], fun other ho => h.unreleased ?_⟩
    exact hp ▸ List.mem_cons_of_mem _ ho
  case pass lease todo _ hp =>
    refine ⟨by simp [Guard.count], fun other ho => h.unreleased ?_⟩
    cases hp
    all_goals exact ‹guard.phase = _› ▸ List.mem_cons_of_mem _ ho
  case advise lease todo _ hp _ =>
    refine ⟨by simp [Guard.count], fun other ho => h.unreleased ?_⟩
    exact hp ▸ List.mem_cons_of_mem _ ho
  case wait | beginPreparation | finishPreparation | discard | accept | keep | leavePreparation
      | drop =>
    exact ⟨h.exclusive, h.unreleased⟩
  all_goals exact .of_no_leases rfl

-- A step to a phase that asks for nothing new.
theorem Guard.Retains.of_phase (h : guard.Retains) (hp : guard'.preparation = guard.preparation)
    (hn : guard'.preparations = guard.preparations) (hr : guard'.retained = guard.retained)
    (hg : guard'.phase.gated = true → guard.phase.gated = true)
    (hd : guard'.phase.drained = true → guard.phase.drained = true)
    (hu : guard'.phase.undropped ⊆ guard.phase.undropped) : guard'.Retains := by
  have hm : guard'.mappings ⊆ guard.mappings := by
    rw [Guard.mappings, hr]
    exact List.append_subset.mpr ⟨List.subset_append_left .., List.subset_append_of_subset_right _ hu⟩
  refine ⟨fun ht => hp ▸ h.gated (hg ht), fun ht => hr ▸ hp ▸ h.drained (hd ht), ?_, ?_⟩
  · exact fun mapping ht => hn ▸ h.numbered mapping (hm ht)
  · exact fun preparation he hl mapping ht => hn ▸ h.fresh preparation (hp ▸ he) hl mapping (hm ht)

theorem Guard.Retains.move (h : guard.Retains) (hc : guard.Cancels)
    (m : Move s id guard guard' locks' outcome) : guard'.Retains := by
  cases m
  case beginPreparation hg hn =>
    have hl mapping (hm : mapping ∈ guard.mappings) : mapping.1 < guard.preparations + 1 :=
      Nat.lt_succ_of_le (h.numbered mapping hm)
    refine ⟨fun ht => absurd (hg.symm.trans ht) (by decide), fun ht => ?_, ?_, ?_⟩
    · exact ⟨(h.drained ht).1, by simp⟩
    · exact fun mapping hm => (hl mapping hm).le
    · exact fun _ _ _ mapping hm => hl mapping hm
  case finishPreparation _ _ hp =>
    refine ⟨fun ht => absurd (h.gated ht) (by simp [hp]), fun ht => ?_, h.numbered, ?_⟩
    · exact ⟨(h.drained ht).1, by simp⟩
    · exact fun _ _ _ => h.fresh _ hp (by simp)
  case discard _ _ hp =>
    refine ⟨fun ht => absurd (h.gated ht) (by simp [hp]), fun ht => ?_, h.numbered, by simp⟩
    exact ⟨(h.drained ht).1, by simp⟩
  case accept _ hp hf =>
    refine ⟨fun ht => absurd (h.gated ht) (by simp [hp]), fun ht => ?_, h.numbered, ?_⟩
    · have hb : guard.phase.begun = true := Phase.drained_begun ht
      exact absurd (hf.symm.trans (hc.cancelled hb)) (by decide)
    · exact fun _ _ _ => h.fresh _ hp (by simp)
  case keep retained hp =>
    refine ⟨fun ht => absurd (h.gated ht) (by simp [hp]), fun ht => ?_, ?_, by simp⟩
    · exact absurd hp ((h.drained ht).2 retained)
    · intro mapping hm
      simp only [Guard.mappings, List.mem_append, List.mem_singleton] at hm
      obtain (hm | rfl) | hm := hm
      · exact h.numbered mapping (List.mem_append_left _ hm)
      · exact le_rfl
      · exact h.numbered mapping (List.mem_append_right _ hm)
  case leavePreparation hp =>
    exact ⟨fun _ => rfl, fun ht => ⟨(h.drained ht).1, by simp⟩, h.numbered, by simp⟩
  case enterGate hp hn =>
    have hm : guard.mappings = guard.retained := by simp [Guard.mappings, hp]
    refine ⟨fun _ => hn, fun _ => ⟨rfl, by simp [hn]⟩, ?_, by simp [hn]⟩
    exact fun mapping ht => h.numbered mapping (hm ▸ ht)
  case unmap mapping retained hp =>
    exact h.of_phase rfl rfl rfl (by simp [hp]) (by simp [hp]) (by simp [hp])
  case pass hp =>
    refine h.of_phase rfl rfl rfl (fun _ => ?_) (fun _ => ?_) (by simp [Guard.count])
    all_goals cases hp <;> simp [*]
  all_goals
    refine h.of_phase rfl rfl rfl ?_ ?_ ?_ <;> simp [Guard.begin, Guard.count, *]

-- The locks of another guard are not touched.
theorem Guard.Valid.frame {id' : Nat} (h : guard.Valid id' locks) (hn : id' ≠ id)
    (hl : LockStep id locks locks') : guard.Valid id' locks' where
  cancels  := h.cancels
  leased   := ⟨h.leased.current, h.leased.indexed,
    fun hh lease hm => (hl.mem_iff hn).mpr (h.leased.shared hh lease hm),
    fun lease hm => (hl.mem_iff hn).mpr (h.leased.locked lease hm)⟩
  releases := ⟨fun lease hm => (hl.mem_iff hn).mpr (h.releases.exclusive lease hm),
    h.releases.unreleased⟩
  retains  := h.retains

theorem Guard.Valid.move (h : guard.Valid id s.locks)
    (m : Move s id guard guard' locks' outcome) : guard'.Valid id locks' :=
  ⟨h.cancels.move m, h.leased.move m, h.releases.move m, h.retains.move h.cancels m⟩

end Preservation

section Runs

variable {s s' : State Mapping} {id number : Nat} {guard guard' : Guard Mapping}
variable {locks' : Locks} {operation : Operation Mapping} {inode : Inode} {outcome : Outcome}
variable {h : List (Operation Mapping × Outcome)}

theorem State.step_cases (h : s.step operation = some (s', outcome)) :
    (s'.guard = s.guard ∧ s'.locks = s.locks ∧ outcome = .done) ∨
      ∃ id action guard, operation = .guard id action ∧
        Move s id (s.guard id) guard s'.locks outcome ∧
        s'.guard = Function.update s.guard id guard := by
  cases operation
  case guard id action =>
    have ⟨(guard, locks, outcome'), hs, he⟩ := Option.bind_eq_some_iff.mp h
    have ⟨hs', ho⟩ := Prod.mk.inj (Option.some.inj he)
    subst hs' ho
    exact .inr ⟨id, action, guard, rfl, .of_step hs, rfl⟩
  all_goals
    have ⟨hs', ho⟩ := Prod.mk.inj (Option.some.inj h)
    subst hs' ho
    exact .inl ⟨rfl, rfl, rfl⟩

structure State.Valid (s : State Mapping) : Prop where
  sound  : Sound s.locks
  guards : ∀ id, (s.guard id).Valid id s.locks

theorem valid_initial : State.Valid ({} : State Mapping) where
  sound     := sound_nil
  guards id := by
    refine ⟨⟨rfl, by simp⟩, .of_not_holds rfl, .of_no_leases rfl, ⟨by simp, by simp, ?_, by simp⟩⟩
    simp [Guard.mappings]

theorem State.Valid.step (v : s.Valid) (h : s.step operation = some (s', outcome)) : s'.Valid := by
  cases State.step_cases h
  case inl hs => exact ⟨hs.2.1 ▸ v.sound, fun id => hs.1 ▸ hs.2.1 ▸ v.guards id⟩
  case inr hs =>
    have ⟨id, _, guard, _, m, hg⟩ := hs
    refine ⟨m.lockStep.sound v.sound, fun id' => ?_⟩
    rw [hg]
    by_cases hn : id' = id
    case pos => simpa [hn] using (v.guards id).move m
    case neg => simpa [hn] using (v.guards id').frame hn m.lockStep

theorem valid_caches : (caches Mapping).Invariant State.Valid where
  init _ hi          := hi ▸ valid_initial
  step _ _ _ _ hv hs := hv.step hs

-- A guard that has opened its leases and still needs them.
def Guard.Active (guard : Guard Mapping) : Prop :=
  guard.phase.completed = true ∧ guard.begun = false

theorem Guard.Active.holds (h : guard.Active) (v : guard.Cancels) : guard.phase.holds = true := by
  have hb : guard.phase.begun = false := v.begun.trans h.2
  have hc := h.1
  cases hp : guard.phase <;> simp_all

-- What holds of a guard that advises the kernel on a file.
structure Advisable (s : State Mapping) (id : Nat) (inode : Inode) : Prop where
  begun     : (s.guard id).begun = true
  unused    : ∀ other ≠ id, (s.guard other).Active →
    ∀ lease ∈ (s.guard other).leases, lease.inode ≠ inode
  unchanged : ∃ lease ∈ (s.guard id).leases, lease.inode = inode ∧
    lease.identity.matches (s.metadata inode) = true
  dropped   : (s.guard id).mappings = []

theorem State.Valid.advisable (v : s.Valid)
    (h : s.step operation = some (s', .advised inode)) :
    ∃ id action, operation = .guard id action ∧ Advisable s id inode := by
  cases State.step_cases h
  case inl hs => cases hs.2.2
  case inr hs =>
    have ⟨id, action, guard, he, m, hg⟩ := hs
    clear hg hs
    have vg := v.guards id
    refine ⟨id, action, he, ?_⟩
    generalize s'.locks = locks' at m
    cases m
    case advise lease todo _ hp hm =>
      have hl := vg.releases.exclusive lease (by simp [hp])
      refine ⟨vg.cancels.begun.symm.trans (by simp [hp]), fun other hn ha used hu he => hn ?_, ?_, ?_⟩
      · have hs := (v.guards other).leased.shared (ha.holds (v.guards other).cancels) used hu
        exact congrArg Prod.fst (v.sound.exclusive hl rfl hs he)
      · exact ⟨lease, vg.releases.unreleased (by simp [hp]), rfl, hm⟩
      · have hr := (vg.retains.drained (by simp [hp])).1
        simp [Guard.mappings, hp, hr]

-- A preparation whose mapping is not going to be retained.
structure Guard.Discards (number : Nat) (guard : Guard Mapping) : Prop where
  cancelled : guard.cancelled = true
  begun     : number ≤ guard.preparations
  dropped   : ∀ retained, guard.preparation = some (.keeping retained) →
    number < guard.preparations
  absent    : ∀ mapping ∈ guard.mappings, mapping.1 ≠ number

theorem Guard.Discards.of_phase (h : guard.Discards number) (hc : guard'.cancelled = true)
    (hp : guard'.preparation = guard.preparation) (hn : guard'.preparations = guard.preparations)
    (hm : guard'.mappings ⊆ guard.mappings) : guard'.Discards number :=
  ⟨hc, hn ▸ h.begun, fun r hr => hn ▸ h.dropped r (hp ▸ hr), fun _ ht => h.absent _ (hm ht)⟩

theorem Guard.Discards.move (h : guard.Discards number)
    (m : Move s id guard guard' locks' outcome) : guard'.Discards number := by
  cases m
  case beginPreparation =>
    exact ⟨h.cancelled, Nat.le_succ_of_le h.begun, fun _ _ => Nat.lt_succ_of_le h.begun, h.absent⟩
  case finishPreparation | discard | leavePreparation =>
    exact ⟨h.cancelled, h.begun, by simp, h.absent⟩
  case accept hc => exact absurd (hc.symm.trans h.cancelled) (by decide)
  case keep retained hp =>
    refine ⟨h.cancelled, h.begun, by simp, fun mapping hm => ?_⟩
    simp only [Guard.mappings, List.mem_append, List.mem_singleton] at hm
    obtain (hm | rfl) | hm := hm
    · exact h.absent mapping (List.mem_append_left _ hm)
    · exact (h.dropped retained hp).ne'
    · exact h.absent mapping (List.mem_append_right _ hm)
  case begin =>
    exact h.of_phase rfl rfl rfl (by simp [Guard.mappings, Guard.begin])
  case pass =>
    exact h.of_phase h.cancelled rfl rfl (by simp [Guard.mappings, Guard.count])
  all_goals
    refine h.of_phase h.cancelled rfl rfl ?_
    simp [Guard.mappings, Guard.count, *]

theorem State.step_discards (hd : (s.guard id).Discards number)
    (h : s.step operation = some (s', outcome)) : (s'.guard id).Discards number := by
  cases State.step_cases h
  case inl hs => exact hs.1 ▸ hd
  case inr hs =>
    have ⟨id', _, guard, _, m, hg⟩ := hs
    rw [hg]
    by_cases hn : id = id'
    case pos =>
      subst hn
      simpa using hd.move m
    case neg => simpa [hn] using hd

theorem State.Valid.discards {retained : Option Mapping} (v : s.Valid)
    (hb : (s.guard id).begun = true)
    (h : s.step (.guard id (.finishPreparation retained)) = some (s', outcome)) :
    (s'.guard id).Discards (s.guard id).preparations := by
  have vg := v.guards id
  have hc : (s.guard id).cancelled = true := vg.cancels.cancelled (vg.cancels.begun.trans hb)
  have ⟨(guard, locks, outcome'), hs, he⟩ := Option.bind_eq_some_iff.mp h
  have ⟨hs', _⟩ := Prod.mk.inj (Option.some.inj he)
  simp only [Guard.step] at hs
  split at hs
  case h_2 => cases hs
  case h_1 cancelledBefore hp =>
    have ⟨hg, _, _⟩ := Guard.continue_eq.mp hs
    subst hs' hg
    simp only [Function.update_self]
    refine ⟨hc, le_rfl, by simp, fun mapping hm => ?_⟩
    exact (vg.retains.fresh _ hp (by simp) mapping hm).ne

-- Advice is only given where it is safe, a preparation that finishes after the cleanup has begun is
-- not retained, and nothing is retained after the cleanup. A preparation has finished when
-- `prepare` returns.
structure Safe (s : State Mapping) : Prop where
  advice    : ∀ operation inode s', (caches Mapping).Step s operation (.advised inode) s' →
    ∃ id action, operation = .guard id action ∧ Advisable s id inode
  late      : ∀ id retained outcome s' h s'', (s.guard id).begun = true →
    (caches Mapping).Step s (.guard id (.finishPreparation retained)) outcome s' →
    (caches Mapping).Path s' h s'' →
    ∀ mapping ∈ (s''.guard id).mappings, mapping.1 ≠ (s.guard id).preparations
  cleanedUp : ∀ id, (s.guard id).phase = .finished → (s.guard id).mappings = []

theorem advice_safe (r : (caches Mapping).Reachable s) : Safe s where
  advice _ _ _ hs := (valid_caches.reachable r).advisable hs
  late id _ _ s' h s'' hb hs p := by
    have hd := (valid_caches.reachable r).discards hb hs
    let I (_ : List (Operation Mapping × Outcome)) (s'' : State Mapping) :=
      (s''.guard id).Discards (s.guard id).preparations
    have hi : I h s'' := p.invariant hd fun _ _ _ _ _ _ hi hs => State.step_discards hi hs
    exact hi.absent
  cleanedUp id hp := by
    have hr := (((valid_caches.reachable r).guards id).retains.drained (by simp [hp])).1
    simp [Guard.mappings, hp, hr]

-- Two guards share a file. The first one has retained a mapping, the second one ends before it.
def sampleOperations : List (Operation Nat) :=
  let openLease id : List (Operation Nat) :=
    [.prepare 0 ["model", "alias"] true true, .openPath, .identify, .readMagic, .lockShared false,
      .confirm, .openPath, .identify, .complete, .register].map (.guard id)
  let retain : List (Operation Nat) :=
    [.beginPreparation, .finishPreparation (some 9), .checkCancelled, .keep,
      .leavePreparation].map (.guard 0)
  let cleanUp id : List (Operation Nat) :=
    [.drop, .enterGate].map (.guard id)
  [.link "model" (some ⟨0, 7⟩), .link "alias" (some ⟨0, 7⟩)] ++ openLease 0 ++ openLease 1 ++ retain ++
    cleanUp 1 ++ [.unmap, .upgrade false true, .closeLeases].map (.guard 1) ++
    cleanUp 0 ++ [.unmap, .unmap, .upgrade false true].map (.guard 0)

def sampleState : State Nat :=
  (System.replay State.step {} sampleOperations).getD {}

theorem reachable_sampleState : (caches Nat).Reachable sampleState := by
  have hs : (System.replay State.step {} sampleOperations).isSome = true := by decide +kernel
  have he : System.replay State.step {} sampleOperations = some sampleState := by
    rw [sampleState, ← Option.some_get hs, Option.getD_some]
  exact System.reachable_replay (.init rfl) he

theorem advice_safe_sample :
    (sampleState.step (.guard 0 (.advise true true))).map Prod.snd = some (.advised ⟨0, 7⟩) ∧
      Safe sampleState :=
  ⟨by decide +kernel, advice_safe reachable_sampleState⟩

end Runs

end ModelFileCache
end Backend
