import WerkModel.Backend.ProcessLifecycle

-- Shutdown leaves no worker process behind, and every callback runs exactly once.
namespace Backend
namespace ProcessLifecycle

structure Child.Valid (child : Child) : Prop where
  terminated : child.terminated = true → child.killed = true ∧ child.waited = true
  dropped    : child.owner = .dropped ∨ child.owner = .released → child.terminated = true

def Cleanup.Completed (cleanup : Cleanup) : Prop :=
  cleanup.begun = 1 ∧ cleanup.completed = 1

structure Cleanup.Valid (cleanup : Cleanup) : Prop where
  fresh    : cleanup.callback = true → cleanup.running = none ∧ cleanup.begun = 0 ∧
    cleanup.completed = 0 ∧ cleanup.owner = .holds
  running  : cleanup.running ≠ none → cleanup.callback = false ∧ cleanup.begun = 1 ∧
    cleanup.completed = 0
  finished : cleanup.callback = false → cleanup.running = none → cleanup.Completed
  dropping : cleanup.owner = .dropping ↔ cleanup.running = some .owner
  dropped  : cleanup.owner = .dropped ∨ cleanup.owner = .released → cleanup.callback = false ∧
    cleanup.running = none

-- What is left for the shutdown to stop, to reap and to clean up.
@[simp] def Shutdown.unkilled : Shutdown → List Nat
  | .killing todo _ _ => todo
  | _                 => []

@[simp] def Shutdown.unwaited : Shutdown → List Nat
  | .killing _ active _ => active
  | .waiting todo _     => todo
  | _                   => []

@[simp] def Shutdown.uncleaned : Shutdown → List Nat
  | .killing _ _ cleanups => cleanups
  | .waiting _ cleanups   => cleanups
  | .cleaning todo        => todo
  | .calling id todo      => id :: todo
  | _                     => []

@[simp] def Shutdown.called : Shutdown → Option Nat
  | .calling id _ => some id
  | _             => none

section Objects

variable {child : Child} {cleanup : Cleanup} {caller : Caller}

theorem Child.Valid.released (h : child.Valid) (ha : child.alive = false) :
    child.killed = true ∧ child.waited = true := by
  refine h.terminated (h.dropped (.inr ?_))
  simpa [alive] using ha

theorem Child.terminate_terminated (h : child.Valid) : child.terminate.terminated = true ∧
    child.terminate.killed = true ∧ child.terminate.waited = true := by
  by_cases ht : child.terminated = true
  case pos =>
    simp only [terminate, ht, if_true, true_and]
    exact h.terminated ht
  case neg => simp [terminate, ht, killGroup, wait]

theorem Cleanup.Valid.released (h : cleanup.Valid) (ha : cleanup.alive = false) :
    cleanup.Completed := by
  have ho : cleanup.owner = .released := by simpa [alive] using ha
  obtain ⟨hc, hr⟩ := h.dropped (.inr ho)
  exact h.finished hc hr

theorem Cleanup.Valid.take_shutdown (h : cleanup.Valid) (hc : cleanup.callback = true) :
    (cleanup.take .shutdown).Valid := by
  obtain ⟨hr, hb, hd, ho⟩ := h.fresh hc
  constructor <;> simp [take, hb, hd, ho]

theorem Cleanup.Valid.take_owner (h : cleanup.Valid) (hc : cleanup.callback = true) :
    ({ cleanup.take .owner with owner := .dropping }).Valid := by
  obtain ⟨hr, hb, hd, ho⟩ := h.fresh hc
  constructor <;> simp [take, hb, hd]

theorem Cleanup.Valid.finish_completed (h : cleanup.Valid) (hr : cleanup.running ≠ none) :
    cleanup.finish.callback = false ∧ cleanup.finish.running = none ∧ cleanup.finish.Completed := by
  obtain ⟨hc, hb, hd⟩ := h.running hr
  simp [finish, Completed, hc, hb, hd]

theorem Cleanup.Valid.finish_shutdown (h : cleanup.Valid)
    (hr : cleanup.running = some .shutdown) : cleanup.finish.Valid := by
  obtain ⟨hc, hn, hd⟩ := h.finish_completed (by simp [hr])
  have ho : cleanup.owner ≠ .dropping := fun ho => by simp [h.dropping.mp ho] at hr
  refine ⟨by simp [hc], by simp [hn], fun _ _ => hd, ?_, fun _ => ⟨hc, hn⟩⟩
  simp [hn, show cleanup.finish.owner ≠ .dropping from ho]

-- A callback that has completed stays so, whatever its owner does next.
theorem Cleanup.valid_of_completed {owner : Owner} (hc : cleanup.callback = false)
    (hr : cleanup.running = none) (hd : cleanup.Completed) (ho : owner ≠ .dropping) :
    ({ cleanup with owner }).Valid := by
  constructor <;> simp_all [Completed]

end Objects

structure Invariant (s : State) : Prop where
  child     : ∀ id, (s.child id).Valid
  cleanup   : ∀ id, (s.cleanup id).Valid
  stopping  : s.stopping = true ↔ s.shutdown ≠ .idle
  children  : s.stopping = false → ∀ id < s.spawned, (s.child id).alive → id ∈ s.children
  cleanups  : s.stopping = false → ∀ id < s.registered, (s.cleanup id).alive → id ∈ s.cleanups
  killed    : s.stopping = true → ∀ id < s.spawned, id ∉ s.shutdown.unkilled → (s.child id).killed
  waited    : s.stopping = true → ∀ id < s.spawned, id ∉ s.shutdown.unwaited → (s.child id).waited
  completed : s.stopping = true → ∀ id < s.registered, id ∉ s.shutdown.uncleaned →
    (s.cleanup id).Completed
  called    : ∀ id, (s.cleanup id).running = some .shutdown ↔ s.shutdown.called = some id

section Preservation

variable {s s' : State} {id : Nat} {child : Child} {cleanup : Cleanup} {outcome : Outcome}

@[simp] theorem setChild_self : (s.setChild id child).child id = child :=
  Function.update_self ..

theorem setChild_of_ne {other : Nat} (h : other ≠ id) :
    (s.setChild id child).child other = s.child other :=
  Function.update_of_ne h ..

@[simp] theorem setCleanup_self : (s.setCleanup id cleanup).cleanup id = cleanup :=
  Function.update_self ..

theorem setCleanup_of_ne {other : Nat} (h : other ≠ id) :
    (s.setCleanup id cleanup).cleanup other = s.cleanup other :=
  Function.update_of_ne h ..

theorem Invariant.init : Invariant {} := by
  constructor
  case child   => exact fun _ => ⟨nofun, by simp⟩
  case cleanup => exact fun _ => by constructor <;> simp
  all_goals simp [Shutdown.called]

-- A child that is stopped or reaped stays so, and a reference to it that is dead stays dead.
theorem Invariant.setChild (hi : Invariant s) (hv : child.Valid)
    (hk : (s.child id).killed = true → child.killed = true)
    (hw : (s.child id).waited = true → child.waited = true)
    (ha : child.alive = true → (s.child id).alive = true) : Invariant (s.setChild id child) where
  child other := by
    by_cases h : other = id
    case pos => simpa [h] using hv
    case neg => simpa [setChild_of_ne h] using hi.child other
  cleanup   := hi.cleanup
  stopping  := hi.stopping
  children hs other ho halive := by
    refine hi.children hs other ho ?_
    by_cases h : other = id
    case pos => exact h ▸ ha (by simpa [h] using halive)
    case neg => simpa [setChild_of_ne h] using halive
  cleanups  := hi.cleanups
  killed hs other ho hn := by
    have := hi.killed hs other ho hn
    by_cases h : other = id
    case pos => simpa [h] using hk (h ▸ this)
    case neg => simpa [setChild_of_ne h] using this
  waited hs other ho hn := by
    have := hi.waited hs other ho hn
    by_cases h : other = id
    case pos => simpa [h] using hw (h ▸ this)
    case neg => simpa [setChild_of_ne h] using this
  completed := hi.completed
  called    := hi.called

-- A callback that has completed stays so.
theorem Invariant.setCleanup (hi : Invariant s) (hv : cleanup.Valid)
    (hd : (s.cleanup id).Completed → cleanup.Completed)
    (ha : cleanup.alive = true → (s.cleanup id).alive = true)
    (hr : cleanup.running = some .shutdown ↔ (s.cleanup id).running = some .shutdown) :
    Invariant (s.setCleanup id cleanup) where
  child         := hi.child
  cleanup other := by
    by_cases h : other = id
    case pos => simpa [h] using hv
    case neg => simpa [setCleanup_of_ne h] using hi.cleanup other
  stopping  := hi.stopping
  children  := hi.children
  cleanups hs other ho halive := by
    refine hi.cleanups hs other ho ?_
    by_cases h : other = id
    case pos => exact h ▸ ha (by simpa [h] using halive)
    case neg => simpa [setCleanup_of_ne h] using halive
  killed    := hi.killed
  waited    := hi.waited
  completed hs other ho hn := by
    have := hi.completed hs other ho hn
    by_cases h : other = id
    case pos => simpa [h] using hd (h ▸ this)
    case neg => simpa [setCleanup_of_ne h] using this
  called other := by
    change _ ↔ s.shutdown.called = some other
    by_cases h : other = id
    case pos => simpa [h] using hr.trans (hi.called id)
    case neg => simpa [setCleanup_of_ne h] using hi.called other

-- The shutdown may go on once it has dealt with what it no longer has to do.
theorem Invariant.proceed {next : Shutdown} (hi : Invariant s) (hs : s.stopping = true)
    (hn : next ≠ .idle)
    (hk : ∀ id ∈ s.shutdown.unkilled, id ∉ next.unkilled → (s.child id).killed = true)
    (hw : ∀ id ∈ s.shutdown.unwaited, id ∉ next.unwaited → (s.child id).waited = true)
    (hc : ∀ id ∈ s.shutdown.uncleaned, id ∉ next.uncleaned → (s.cleanup id).Completed)
    (hd : next.called = s.shutdown.called) : Invariant { s with shutdown := next } where
  child     := hi.child
  cleanup   := hi.cleanup
  stopping  := ⟨fun _ => hn, fun _ => hs⟩
  children  := hi.children
  cleanups  := hi.cleanups
  killed _ id hid hnext := by
    by_cases h : id ∈ s.shutdown.unkilled
    case pos => exact hk id h hnext
    case neg => exact hi.killed hs id hid h
  waited _ id hid hnext := by
    by_cases h : id ∈ s.shutdown.unwaited
    case pos => exact hw id h hnext
    case neg => exact hi.waited hs id hid h
  completed _ id hid hnext := by
    by_cases h : id ∈ s.shutdown.uncleaned
    case pos => exact hc id h hnext
    case neg => exact hi.completed hs id hid h
  called id := by rw [hd, hi.called]

theorem Invariant.idle (hi : Invariant s) (hs : s.stopping = false) : s.shutdown = .idle := by
  by_contra h
  exact absurd (hi.stopping.mpr h) (by simp [hs])

theorem Invariant.register (hi : Invariant s) : Invariant s.register.1 := by
  rw [State.register]
  split
  case isTrue     => exact hi
  case isFalse hs =>
    have hs : s.stopping = false := by simpa using hs
    have hn (p : Prop) (h : s.stopping = true) : p := absurd h (by simp [hs])
    refine ⟨hi.child, fun id => ?_, hi.stopping, hi.children, fun _ id hid ha => ?_,
      fun h => hn _ h, fun h => hn _ h, fun h => hn _ h, fun id => ?_⟩
    · by_cases h : id = s.registered
      case pos =>
        rw [h]
        constructor <;> simp [State.setCleanup]
      case neg => simpa [setCleanup_of_ne h] using hi.cleanup id
    · by_cases h : id = s.registered
      case pos => simp [h, State.setCleanup]
      case neg =>
        have ha : (s.cleanup id).alive = true := by simpa [setCleanup_of_ne h] using ha
        have hid : id < s.registered := Nat.lt_of_le_of_ne (Nat.lt_succ_iff.mp hid) h
        exact List.mem_append_left _ (List.mem_filter.mpr ⟨hi.cleanups hs id hid ha, ha⟩)
    · change _ ↔ s.shutdown.called = some id
      by_cases h : id = s.registered
      case pos => simp [h, hi.idle hs, Shutdown.called]
      case neg => simpa [setCleanup_of_ne h] using hi.called id

theorem Invariant.spawn {starts : Bool} (hi : Invariant s) : Invariant (s.spawn starts).1 := by
  rw [State.spawn]
  split
  case isTrue     => exact hi
  case isFalse hs =>
    split
    case isTrue => exact hi
    case isFalse =>
      have hs : s.stopping = false := by simpa using hs
      have hn (p : Prop) (h : s.stopping = true) : p := absurd h (by simp [hs])
      refine ⟨fun id => ?_, hi.cleanup, hi.stopping, fun _ id hid ha => ?_, hi.cleanups,
        fun h => hn _ h, fun h => hn _ h, fun h => hn _ h, hi.called⟩
      · by_cases h : id = s.spawned
        case pos =>
          rw [h]
          constructor <;> simp [State.setChild]
        case neg => simpa [setChild_of_ne h] using hi.child id
      · by_cases h : id = s.spawned
        case pos => simp [h, State.setChild]
        case neg =>
          have ha : (s.child id).alive = true := by simpa [setChild_of_ne h] using ha
          have hid : id < s.spawned := Nat.lt_of_le_of_ne (Nat.lt_succ_iff.mp hid) h
          exact List.mem_append_left _ (List.mem_filter.mpr ⟨hi.children hs id hid ha, ha⟩)

-- Nothing that is alive escapes the shutdown when it begins.
theorem Invariant.stop (hi : Invariant s) (hs : s.shutdown = .idle) :
    Invariant { s with
      stopping := true
      children := []
      cleanups := []
      shutdown := .killing (s.children.filter fun id => (s.child id).alive)
        (s.children.filter fun id => (s.child id).alive)
        (s.cleanups.filter fun id => (s.cleanup id).alive)
    } := by
  have hstop : s.stopping = false := by
    by_contra h
    exact hi.stopping.mp (by simpa using h) hs
  have hc (id : Nat) (hid : id < s.spawned)
      (h : id ∉ s.children.filter fun id => (s.child id).alive) :
      (s.child id).killed = true ∧ (s.child id).waited = true := by
    refine (hi.child id).released ?_
    by_contra ha
    have ha : (s.child id).alive = true := by simpa using ha
    exact h (List.mem_filter.mpr ⟨hi.children hstop id hid ha, ha⟩)
  refine ⟨hi.child, hi.cleanup, by simp, nofun, nofun, fun _ id hid h => (hc id hid h).left,
    fun _ id hid h => (hc id hid h).right, fun _ id hid h => ?_, fun id => ?_⟩
  · refine (hi.cleanup id).released ?_
    by_contra ha
    have ha : (s.cleanup id).alive = true := by simpa using ha
    exact h (List.mem_filter.mpr ⟨hi.cleanups hstop id hid ha, ha⟩)
  · simpa [hs, Shutdown.called] using hi.called id

-- The shutdown takes a callback.
theorem Invariant.call {todo : List Nat} (hi : Invariant s)
    (hs : s.shutdown = .cleaning (id :: todo)) (hc : (s.cleanup id).callback = true) :
    Invariant { s.setCleanup id ((s.cleanup id).take .shutdown) with
      shutdown := .calling id todo } := by
  have hstop : s.stopping = true := hi.stopping.mpr (by simp [hs])
  have hn : ¬(s.cleanup id).Completed := by simp [Cleanup.Completed, (hi.cleanup id).fresh hc]
  refine ⟨hi.child, fun other => ?_, by simp [State.setCleanup, hstop], fun h => ?_, fun h => ?_,
    fun _ other ho _ => hi.killed hstop other ho (by simp [hs, Shutdown.unkilled]),
    fun _ other ho _ => hi.waited hstop other ho (by simp [hs, Shutdown.unwaited]),
    fun _ other ho hnot => ?_, fun other => ?_⟩
  · by_cases h : other = id
    case pos => simpa [h] using (hi.cleanup id).take_shutdown hc
    case neg => simpa [setCleanup_of_ne h] using hi.cleanup other
  · exact absurd hstop (by simpa [State.setCleanup] using h)
  · exact absurd hstop (by simpa [State.setCleanup] using h)
  · have h : other ≠ id := fun h => hnot (by simp [Shutdown.uncleaned, h])
    simpa [setCleanup_of_ne h] using hi.completed hstop other ho (by rwa [hs])
  · by_cases h : other = id
    case pos => simp [h, Cleanup.take, Shutdown.called]
    case neg =>
      have := hi.called other
      simp_all [setCleanup_of_ne h, Shutdown.called, Ne.symm h]

-- The callback returns to the shutdown.
theorem Invariant.return {todo : List Nat} (hi : Invariant s)
    (hs : s.shutdown = .calling id todo) :
    Invariant { s.setCleanup id (s.cleanup id).finish with shutdown := .cleaning todo } := by
  have hstop : s.stopping = true := hi.stopping.mpr (by simp [hs])
  have hr : (s.cleanup id).running = some .shutdown :=
    (hi.called id).mpr (by simp [hs, Shutdown.called])
  have hf := (hi.cleanup id).finish_completed (by simp [hr])
  refine ⟨hi.child, fun other => ?_, by simp [State.setCleanup, hstop], fun h => ?_, fun h => ?_,
    fun _ other ho _ => hi.killed hstop other ho (by simp [hs, Shutdown.unkilled]),
    fun _ other ho _ => hi.waited hstop other ho (by simp [hs, Shutdown.unwaited]),
    fun _ other ho hnot => ?_, fun other => ?_⟩
  · by_cases h : other = id
    case pos => simpa [h] using (hi.cleanup id).finish_shutdown hr
    case neg => simpa [setCleanup_of_ne h] using hi.cleanup other
  · exact absurd hstop (by simpa [State.setCleanup] using h)
  · exact absurd hstop (by simpa [State.setCleanup] using h)
  · by_cases h : other = id
    case pos => simpa [h] using hf.right.right
    case neg =>
      simpa [setCleanup_of_ne h] using hi.completed hstop other ho (by
        rw [hs]
        exact fun hm => (List.mem_cons.mp hm).elim h hnot)
  · by_cases h : other = id
    case pos => simp [h, Cleanup.finish, Shutdown.called]
    case neg =>
      have := hi.called other
      simp_all [setCleanup_of_ne h, Shutdown.called, Ne.symm h]

theorem Invariant.setOwner {owner : Owner} (hi : Invariant s)
    (hc : (s.cleanup id).callback = false) (hr : (s.cleanup id).running = none)
    (hd : owner ≠ .dropping) (ha : (s.cleanup id).owner ≠ .released) :
    Invariant (s.setOwner id owner) :=
  have hf := (hi.cleanup id).finished hc hr
  hi.setCleanup (Cleanup.valid_of_completed hc hr hf hd) (fun h => h)
    (fun _ => by simpa [Cleanup.alive] using ha) .rfl

theorem Child.Valid.killGroup (h : child.Valid) : child.killGroup.Valid :=
  ⟨fun ht => ⟨rfl, (h.terminated ht).right⟩, h.dropped⟩

theorem Child.Valid.wait (h : child.Valid) : child.wait.Valid :=
  ⟨fun ht => ⟨(h.terminated ht).left, rfl⟩, h.dropped⟩

theorem Invariant.shutdownChildren (hi : Invariant s)
    (h : s.shutdownChildren = some (s', outcome)) : Invariant s' := by
  have hstop (hn : s.shutdown ≠ .idle) : s.stopping = true := hi.stopping.mpr hn
  rw [State.shutdownChildren] at h
  split at h
  case h_1 hs =>
    obtain ⟨rfl, _⟩ := Prod.mk.inj (Option.some.inj h)
    exact hi.stop hs
  case h_2 id todo active cleanups hs =>
    obtain ⟨rfl, _⟩ := Prod.mk.inj (Option.some.inj h)
    have hc : Invariant (s.setChild id _) :=
      hi.setChild (hi.child id).killGroup (fun _ => rfl) (fun h => h) fun h => h
    refine hc.proceed (hstop (by simp [hs])) ?_ ?_ ?_ ?_ ?_ <;>
      simp +contextual [State.setChild, hs, Child.killGroup]
  case h_3 active cleanups hs =>
    obtain ⟨rfl, _⟩ := Prod.mk.inj (Option.some.inj h)
    refine hi.proceed (hstop (by simp [hs])) ?_ ?_ ?_ ?_ ?_ <;> simp +contextual [hs]
  case h_4 id todo cleanups hs =>
    obtain ⟨rfl, _⟩ := Prod.mk.inj (Option.some.inj h)
    have hc : Invariant (s.setChild id _) :=
      hi.setChild (hi.child id).wait (fun h => h) (fun _ => rfl) fun h => h
    refine hc.proceed (hstop (by simp [hs])) ?_ ?_ ?_ ?_ ?_ <;>
      simp +contextual [State.setChild, hs, Child.wait]
  case h_5 cleanups hs =>
    obtain ⟨rfl, _⟩ := Prod.mk.inj (Option.some.inj h)
    refine hi.proceed (hstop (by simp [hs])) ?_ ?_ ?_ ?_ ?_ <;> simp +contextual [hs]
  case h_6 id todo hs =>
    rw [State.runCleanup] at h
    split at h
    case isTrue     => nomatch h
    case isFalse hr =>
      split at h
      case isTrue hc =>
        obtain ⟨rfl, _⟩ := Prod.mk.inj (Option.some.inj h)
        exact hi.call hs hc
      case isFalse hc =>
        obtain ⟨rfl, _⟩ := Prod.mk.inj (Option.some.inj h)
        have hf := (hi.cleanup id).finished (by simpa using hc) (by simpa using hr)
        refine hi.proceed (hstop (by simp [hs])) ?_ ?_ ?_ ?_ ?_ <;> simp +contextual [hs, hf]
  case h_7 hs =>
    obtain ⟨rfl, _⟩ := Prod.mk.inj (Option.some.inj h)
    refine hi.proceed (hstop (by simp [hs])) ?_ ?_ ?_ ?_ ?_ <;> simp +contextual [hs]
  case h_8 id todo hs =>
    obtain ⟨rfl, _⟩ := Prod.mk.inj (Option.some.inj h)
    exact hi.return hs
  case h_9 => nomatch h

theorem Invariant.terminate {owner : Owner} (hi : Invariant s)
    (ha : (s.child id).alive = true) :
    Invariant (s.setChild id { (s.child id).terminate with owner }) := by
  obtain ⟨ht, hk, hw⟩ := Child.terminate_terminated (hi.child id)
  exact hi.setChild ⟨fun _ => ⟨hk, hw⟩, fun _ => ht⟩ (fun _ => hk) (fun _ => hw) fun _ => ha

theorem Invariant.dropCleanup (hi : Invariant s) (ho : (s.cleanup id).owner = .holds)
    (h : s.runCleanup id .owner (·.setOwner id .dropping) (·.setOwner id .dropped) =
      some (s', outcome)) : Invariant s' := by
  rw [State.runCleanup] at h
  split at h
  case isTrue     => nomatch h
  case isFalse hr =>
    have hr : (s.cleanup id).running = none := by simpa using hr
    split at h
    case isTrue hc =>
      obtain ⟨rfl, _⟩ := Prod.mk.inj (Option.some.inj h)
      have hn : ¬(s.cleanup id).Completed := by simp [Cleanup.Completed, (hi.cleanup id).fresh hc]
      have hv := (hi.cleanup id).take_owner hc
      simp only [State.setOwner, State.setCleanup, Function.update_self, Function.update_idem]
      refine hi.setCleanup hv (fun h => absurd h hn) (fun _ => by simp [Cleanup.alive, ho]) ?_
      simp [Cleanup.take, hr]
    case isFalse hc =>
      obtain ⟨rfl, _⟩ := Prod.mk.inj (Option.some.inj h)
      exact hi.setOwner (by simpa using hc) hr nofun (by simp [ho])

theorem Invariant.leaveCleanup (hi : Invariant s) (ho : (s.cleanup id).owner = .dropping) :
    Invariant (s.setCleanup id { (s.cleanup id).finish with owner := .dropped }) := by
  have hr := (hi.cleanup id).dropping.mp ho
  obtain ⟨hc, hn, hd⟩ := (hi.cleanup id).finish_completed (by simp [hr])
  refine hi.setCleanup (Cleanup.valid_of_completed hc hn hd nofun) (fun _ => hd)
    (fun _ => by simp [Cleanup.alive, ho]) ?_
  simp [hn, hr]

theorem Invariant.step {operation : Operation} (hi : Invariant s)
    (h : s.step operation = some (s', outcome)) : Invariant s' := by
  cases operation <;> simp only [State.step, Option.ite_none_right_eq_some, Option.some_inj] at h
  case register =>
    have hr := hi.register
    rwa [h] at hr
  case spawn starts =>
    have hs : Invariant (s.spawn starts).1 := hi.spawn
    rwa [h] at hs
  case terminate id =>
    obtain ⟨⟨_, ho⟩, h⟩ := h
    obtain ⟨rfl, _⟩ := Prod.mk.inj h
    exact hi.terminate (by simp [Child.alive, ho])
  case dropChild id =>
    obtain ⟨⟨_, ho⟩, h⟩ := h
    obtain ⟨rfl, _⟩ := Prod.mk.inj h
    exact hi.terminate (by simp [Child.alive, ho])
  case releaseChild id =>
    obtain ⟨ho, h⟩ := h
    obtain ⟨rfl, _⟩ := Prod.mk.inj h
    have hv := hi.child id
    exact hi.setChild ⟨hv.terminated, fun _ => hv.dropped (.inl ho)⟩ (fun h => h) (fun h => h)
      fun _ => by simp [Child.alive, ho]
  case dropCleanup id =>
    obtain ⟨⟨_, ho⟩, h⟩ := h
    exact hi.dropCleanup ho h
  case leaveCleanup id =>
    obtain ⟨ho, h⟩ := h
    obtain ⟨rfl, _⟩ := Prod.mk.inj h
    exact hi.leaveCleanup ho
  case releaseCleanup id =>
    obtain ⟨ho, h⟩ := h
    obtain ⟨rfl, _⟩ := Prod.mk.inj h
    obtain ⟨hc, hr⟩ := (hi.cleanup id).dropped (.inl ho)
    exact hi.setOwner hc hr nofun (by simp [ho])
  case shutdown => exact hi.shutdownChildren h

theorem lifecycle_invariant : lifecycle.Invariant Invariant where
  init := by
    rintro s rfl
    exact .init
  step _ _ _ _ := Invariant.step

end Preservation

section Safety

variable {s s' : State} {operation : Operation} {outcome : Outcome} {id : Nat} {caller : Caller}

-- A new child or callback.
@[simp] def Outcome.admits : Outcome → Bool
  | .registered _ => true
  | .spawned _    => true
  | _             => false

theorem runCleanup_outcome {called passed : State → State}
    (h : s.runCleanup id caller called passed = some (s', outcome)) :
    s' = called (s.setCleanup id ((s.cleanup id).take caller)) ∧ outcome = .began id caller ∨
      s' = passed s ∧ outcome = .done := by
  rw [State.runCleanup] at h
  split_ifs at h <;> simp_all

theorem shutdownChildren_outcome (h : s.shutdownChildren = some (s', outcome)) :
    s'.stopping = (s.stopping || s.shutdown = .idle) ∧ (outcome = .done ∨
      ∃ id todo, s.shutdown = .cleaning (id :: todo) ∧ outcome = .began id .shutdown) := by
  rw [State.shutdownChildren] at h
  split at h
  case h_6 id todo hs =>
    rcases runCleanup_outcome h with ⟨rfl, ho⟩ | ⟨rfl, ho⟩ <;> simp [State.setCleanup, hs, ho]
  case h_9 => nomatch h
  all_goals
    obtain ⟨rfl, ho⟩ := Prod.mk.inj (Option.some.inj h)
    simp_all [State.setChild, State.setCleanup, eq_comm]

-- Once Werk is stopping it stays so, and admits nothing new.
theorem step_stopping (hs : s.stopping = true) (h : s.step operation = some (s', outcome)) :
    s'.stopping = true ∧ outcome.admits = false := by
  cases operation <;> simp only [State.step, Option.ite_none_right_eq_some, Option.some_inj] at h
  case register =>
    rw [State.register, if_pos hs] at h
    obtain ⟨rfl, rfl⟩ := Prod.mk.inj h
    exact ⟨hs, rfl⟩
  case spawn starts =>
    rw [State.spawn, if_pos hs] at h
    obtain ⟨rfl, rfl⟩ := Prod.mk.inj h
    exact ⟨hs, rfl⟩
  case dropCleanup =>
    rcases runCleanup_outcome h.right with ⟨rfl, rfl⟩ | ⟨rfl, rfl⟩ <;> exact ⟨hs, rfl⟩
  case shutdown =>
    obtain ⟨hstop, rfl | ⟨_, _, _, rfl⟩⟩ := shutdownChildren_outcome h <;> simp [hstop, hs]
  all_goals
    obtain ⟨rfl, rfl⟩ := Prod.mk.inj h.right
    exact ⟨hs, rfl⟩

-- The callbacks that the shutdown runs begin after it has waited for all children.
theorem Invariant.began_shutdown (hi : Invariant s)
    (h : s.step operation = some (s', .began id .shutdown)) :
    ∀ id < s.spawned, (s.child id).killed = true ∧ (s.child id).waited = true := by
  cases operation <;> simp only [State.step, Option.ite_none_right_eq_some, Option.some_inj] at h
  case register =>
    rw [State.register] at h
    split at h <;> simp at h
  case spawn =>
    rw [State.spawn] at h
    split_ifs at h <;> simp at h
  case dropCleanup =>
    rcases runCleanup_outcome h.right with ⟨_, h⟩ | ⟨_, h⟩ <;> simp at h
  case shutdown =>
    obtain ⟨_, ho | ⟨_, todo, hs, _⟩⟩ := shutdownChildren_outcome h
    case inl => nomatch ho
    case inr =>
      have hstop := hi.stopping.mpr (by simp [hs])
      exact fun id hid => ⟨hi.killed hstop id hid (by simp [hs]), hi.waited hstop id hid (by simp [hs])⟩
  all_goals simp at h

theorem Invariant.begun_le (hi : Invariant s) (id : Nat) :
    (s.cleanup id).completed ≤ (s.cleanup id).begun ∧ (s.cleanup id).begun ≤ 1 := by
  have hv := hi.cleanup id
  cases hc : (s.cleanup id).callback
  case true =>
    obtain ⟨_, hb, hd, _⟩ := hv.fresh hc
    omega
  case false =>
    by_cases hr : (s.cleanup id).running = none
    case pos =>
      obtain ⟨hb, hd⟩ := hv.finished hc hr
      omega
    case neg =>
      obtain ⟨_, hb, hd⟩ := hv.running hr
      omega

-- The shutdown waits for nothing but a callback that is about to return to its owner.
theorem Invariant.progress (hi : Invariant s) (hn : s.shutdown ≠ .returned) :
    (s.step .shutdown).isSome = true ∨ ∃ id, (s.cleanup id).running = some .owner ∧
      (s.step (.leaveCleanup id)).isSome = true := by
  rw [State.step, State.shutdownChildren]
  split
  case h_6 id todo hs =>
    rcases hr : (s.cleanup id).running with _ | caller
    case none =>
      refine .inl ?_
      rw [State.runCleanup, if_neg (by simp [hr])]
      split <;> rfl
    case some =>
      cases caller
      case shutdown => simpa [hs] using (hi.called id).mp hr
      case owner    =>
        refine .inr ⟨id, hr, ?_⟩
        simp [State.step, (hi.cleanup id).dropping.mpr hr]
  case h_9 hs => exact absurd hs hn
  all_goals exact .inl rfl

-- What holds of the processes and the callbacks while Werk runs and when it has shut down.
structure State.Sound (s : State) : Prop where
  stopping  : s.stopping = true → ∀ operation outcome s', s.step operation = some (s', outcome) →
    s'.stopping = true ∧ outcome.admits = false
  children  : s.shutdown = .returned → ∀ id < s.spawned, (s.child id).killed = true ∧
    (s.child id).waited = true
  callbacks : s.shutdown = .returned → ∀ id < s.registered, (s.cleanup id).begun = 1 ∧
    (s.cleanup id).completed = 1
  once      : ∀ id, (s.cleanup id).completed ≤ (s.cleanup id).begun ∧ (s.cleanup id).begun ≤ 1
  order     : ∀ operation id s', s.step operation = some (s', .began id .shutdown) →
    ∀ id < s.spawned, (s.child id).killed = true ∧ (s.child id).waited = true
  refused   : s.stopping = true → s.step .register = some (s, .interrupted) ∧
    ∀ starts, s.step (.spawn starts) = some (s, .interrupted)
  progress  : s.shutdown ≠ .returned → (s.step .shutdown).isSome = true ∨
    ∃ id, (s.cleanup id).running = some .owner ∧ (s.step (.leaveCleanup id)).isSome = true

theorem shutdown_sound (r : lifecycle.Reachable s) : s.Sound where
  stopping hs _ _ _ := step_stopping hs
  children hs id hid :=
    have hi := lifecycle_invariant.reachable r
    have hstop := hi.stopping.mpr (by simp [hs])
    ⟨hi.killed hstop id hid (by simp [hs]), hi.waited hstop id hid (by simp [hs])⟩
  callbacks hs id hid :=
    have hi := lifecycle_invariant.reachable r
    hi.completed (hi.stopping.mpr (by simp [hs])) id hid (by simp [hs])
  once  := (lifecycle_invariant.reachable r).begun_le
  order _ _ _ h := (lifecycle_invariant.reachable r).began_shutdown h
  refused hs := by simp [State.step, State.register, State.spawn, hs]
  progress := (lifecycle_invariant.reachable r).progress

-- A shutdown that meets a child and two callbacks, one of which its owner is already running.
def shutdownRun : List Operation :=
  [.spawn true, .register, .register, .dropCleanup 0, .shutdown, .shutdown, .dropChild 0, .shutdown,
    .register, .shutdown, .shutdown, .leaveCleanup 0, .shutdown, .shutdown, .spawn true, .shutdown,
    .shutdown]

def State.run (s : State) (operations : List Operation) : Option State :=
  operations.foldlM (fun s operation => (s.step operation).map Prod.fst) s

theorem reachable_run {operations : List Operation} (r : lifecycle.Reachable s)
    (h : s.run operations = some s') : lifecycle.Reachable s' := by
  induction operations generalizing s
  case nil => exact Option.some.inj h ▸ r
  case cons operation operations hi =>
    obtain ⟨next, hn, h⟩ := Option.bind_eq_some_iff.mp h
    obtain ⟨⟨_, outcome⟩, hs, rfl⟩ := Option.map_eq_some_iff.mp hn
    exact hi (r.step hs) h

theorem shutdown_sound_run : ∃ s, ({} : State).run shutdownRun = some s ∧
    s.shutdown = .returned ∧ s.spawned = 1 ∧ s.registered = 2 ∧ s.Sound := by
  have h : ({} : State).run shutdownRun = some _ := rfl
  exact ⟨_, h, rfl, rfl, rfl, shutdown_sound (reachable_run (.init rfl) h)⟩

end Safety
end ProcessLifecycle
end Backend
