import WerkModel.Lib.Program

-- The lock file that says whether a worker lives. Sessions hold it as long as their workers run,
-- inspections as long as they look at or remove what the worker has left. All calls can fail, and
-- each process can crash between any two of them.
open Program (Completes Meets throw)

namespace Cache.Workers

abbrev Bytes := List UInt8

def marker : Bytes := "werk-omlx-worker-lifetime-v1\n".toUTF8.data.toList

inductive Request
  | session
  | inspection
  deriving DecidableEq

structure Thread where
  process : Nat
  number  : Nat
  request : Request
  deriving DecidableEq

structure Shared where
  lockFile : Option Bytes
  -- Who has locked the file, and who has created it and keeps it open.
  lock     : Option Thread
  writer   : Option Thread

-- The files of a process are closed when it crashes, and the lock file stays.
def Shared.crash (s : Shared) (process : Nat) : Shared :=
  { s with
    lock   := s.lock.filter (·.process ≠ process)
    writer := s.writer.filter (·.process ≠ process)
  }

def Shared.close (s : Shared) (t : Thread) : Shared :=
  { s with
    lock   := s.lock.filter (· ≠ t)
    writer := s.writer.filter (· ≠ t)
  }

inductive Call
  | createNew
  | symlinkMetadata
  | openLock
  | validateLock
  | tryLockExclusive
  | read
  | write (data : Bytes)
  | syncAll
  | work
  | close

-- That the file exists already or is locked by another process is no failure.
abbrev Call.Answer : Call → Type
  | .createNew | .symlinkMetadata | .tryLockExclusive => Bool
  | .read                                             => Bytes
  | .write _                                          => Nat
  | _                                                 => Unit

inductive Effect (t : Thread) (s : Shared) : (call : Call) → call.Answer → Shared → Prop
  | created :
    s.lockFile = none → Effect t s .createNew true { s with lockFile := some [], writer := some t }
  | existed :
    s.lockFile ≠ none → Effect t s .createNew false s
  | symlinkMetadata :
    Effect t s .symlinkMetadata s.lockFile.isSome s
  | openLock :
    s.lockFile ≠ none → Effect t s .openLock () s
  | validateLock :
    Effect t s .validateLock () s
  | locked :
    s.lockFile ≠ none → s.lock = none →
    Effect t s .tryLockExclusive true { s with lock := some t }
  | wouldBlock :
    s.lock ≠ none → Effect t s .tryLockExclusive false s
  | read {content} :
    s.lockFile = some content → Effect t s .read (content.take (marker.length + 1)) s
  | write {data content} {count : Nat} :
    s.writer = some t → s.lockFile = some content → 0 < count → count ≤ data.length →
    Effect t s (.write data) count { s with lockFile := some (content ++ data.take count) }
  | syncAll :
    Effect t s .syncAll () s
  | work :
    Effect t s .work () s
  | close :
    Effect t s .close () (s.close t)

inductive Answers (t : Thread) (s : Shared) :
    (call : Call) → Except String call.Answer → Shared → Prop
  | ok {call answer s'} : Effect t s call answer s' → Answers t s call (.ok answer) s'
  | error {call message} : call ≠ .close → Answers t s call (.error message) s

abbrev Routine := Program Call Call.Answer String

def perform (call : Call) : Routine call.Answer :=
  Program.perform call

inductive WorkerLock
  | held
  | active
  | missing

def readMarker : Routine Unit := do
  let content ← perform .read
  if content = marker then
    return ()
  else
    throw "oMLX cache has an unrecognized lifetime marker; worker activity is unknown"

-- A file that is not returned is closed.
def unlessFailed (body : Routine Unit) : Routine Unit := do
  match ← body.attempt with
  | .ok _        => return ()
  | .error error => do
    perform .close
    throw error

def tryLifetimeLock : Routine WorkerLock := do
  if ← perform .symlinkMetadata then
    perform .openLock
    perform .validateLock
    if ← perform .tryLockExclusive then
      unlessFailed readMarker
      return .held
    else
      return .active
  else
    return .missing

def writeAll : Nat → Bytes → Routine Unit
  | 0, _             => return ()
  | rounds + 1, data =>
    if data = [] then
      return ()
    else do
      let count ← perform (.write data)
      writeAll rounds (data.drop count)

def writeMarker : Routine Unit := do
  perform .validateLock
  if ← perform .tryLockExclusive then
    writeAll marker.length marker
    perform .syncAll
  else
    throw "oMLX worker cache is already active"

def createLifetimeLock : Routine Unit := do
  if ← perform .createNew then
    unlessFailed writeMarker
  else
    match ← tryLifetimeLock with
    | .held    => return ()
    | .active  => throw "oMLX worker cache is already active; wait for its worker to exit"
    | .missing => throw "oMLX lifetime lock disappeared during startup"

-- The lock is held while the worker runs, or while its payload is inspected or removed.
def holding : Routine WorkerLock := do
  let result ← (perform .work).attempt
  perform .close
  .done (result.map fun _ => .held)

def session : Routine WorkerLock := do
  createLifetimeLock
  holding

def inspection : Routine WorkerLock := do
  match ← tryLifetimeLock with
  | .held => holding
  | lock  => return lock

def run : Request → Routine WorkerLock
  | .session    => session
  | .inspection => inspection

def workers : Machine Thread Call Call.Answer String WorkerLock Shared where
  Initial s       := s = ⟨none, none, none⟩
  program t       := run t.request
  Answers         := Answers
  Crash dead s s' := ∃ process, dead = { t | t.process = process } ∧ s' = s.crash process

section Discipline

variable {s s' s'' : Shared} {t other : Thread}

def Complete (s : Shared) : Prop :=
  s.lockFile = some marker

-- The marker is not complete, and the one who should complete it is gone.
def Stuck (s : Shared) : Prop :=
  s.lockFile ≠ none ∧ s.lockFile ≠ some marker ∧ s.writer = none

-- What stays so for ever.
structure Steady (s s' : Shared) : Prop where
  complete : Complete s → Complete s'
  stuck    : Stuck s → s'.lockFile = s.lockFile ∧ s'.writer = none

-- The one who has created the file is the only one who writes to it.
structure Rely (t : Thread) (s s' : Shared) : Prop where
  complete : Complete s → Complete s'
  lock     : s.lock = some t → s'.lock = some t
  free     : s.lock ≠ some t → s'.lock ≠ some t
  writer   : s.writer = some t → s'.writer = some t ∧ s'.lockFile = s.lockFile
  closed   : s.writer ≠ some t → s'.writer ≠ some t

structure Idle (t : Thread) (s : Shared) : Prop where
  free   : s.lock ≠ some t
  closed : s.writer ≠ some t

def Opened (s : Shared) : Prop :=
  s.lockFile = none → s.lock = none ∧ s.writer = none

theorem Steady.refl : Steady s s :=
  ⟨id, fun h => ⟨rfl, h.right.right⟩⟩

theorem Stuck.steady (h : Stuck s) (hs : Steady s s') : Stuck s' := by
  obtain ⟨hf, hw⟩ := hs.stuck h
  exact ⟨hf ▸ h.left, hf ▸ h.right.left, hw⟩

theorem Steady.trans (h : Steady s s') (h' : Steady s' s'') : Steady s s'' where
  complete := h'.complete ∘ h.complete
  stuck hs := by
    obtain ⟨hf, hw⟩ := h'.stuck (hs.steady h)
    exact ⟨hf.trans (h.stuck hs).left, hw⟩

theorem Rely.refl : Rely t s s :=
  ⟨id, id, id, fun h => ⟨h, rfl⟩, id⟩

theorem Rely.trans (h : Rely t s s') (h' : Rely t s' s'') : Rely t s s'' where
  complete  := h'.complete ∘ h.complete
  lock      := h'.lock ∘ h.lock
  free      := h'.free ∘ h.free
  writer hw := by
    obtain ⟨hw, hf⟩ := h.writer hw
    exact ⟨(h'.writer hw).left, (h'.writer hw).right.trans hf⟩
  closed    := h'.closed ∘ h.closed

theorem Idle.rely (h : Idle t s) (hr : Rely t s s') : Idle t s' :=
  ⟨hr.free h.free, hr.closed h.closed⟩

-- Some files are closed, and those of the thread are not among them.
theorem rely_of_filter {p : Thread → Bool} (h : p t = true) :
    Rely t s { s with lock := s.lock.filter p, writer := s.writer.filter p } where
  complete  := id
  lock hl   := by simp [hl, h]
  free hl   := by simp [hl]
  writer hw := by simp [hw, h]
  closed hw := by simp [hw]

theorem steady_of_filter {p : Thread → Bool} :
    Steady s { s with lock := s.lock.filter p, writer := s.writer.filter p } :=
  ⟨id, fun h => ⟨rfl, by simp [h.right.right]⟩⟩

theorem idle_of_filter {p : Thread → Bool} (h : p t = false) :
    Idle t { s with lock := s.lock.filter p, writer := s.writer.filter p } :=
  ⟨by simp [h], by simp [h]⟩

theorem Opened.filter {p : Thread → Bool} (h : Opened s) :
    Opened { s with lock := s.lock.filter p, writer := s.writer.filter p } := fun hf => by
  simp [h hf]

def discipline : workers.Discipline where
  Invariant    := Opened
  Steady       := Steady
  Rely         := Rely
  Idle         := Idle
  steady_refl _  := .refl
  steady_trans   := Steady.trans
  rely_refl _ _  := .refl
  rely_trans     := Rely.trans
  rely_idle hr h := h.rely hr
  initial h := by
    obtain rfl : _ = (⟨none, none, none⟩ : Shared) := h
    have hn {t : Thread} : none ≠ some t := (Option.some_ne_none t).symm
    exact ⟨fun _ => ⟨rfl, rfl⟩, fun _ => ⟨hn, hn⟩⟩
  crash_invariant h hs := by
    obtain ⟨process, -, rfl⟩ := h
    exact hs.filter
  crash_steady h := by
    obtain ⟨process, -, rfl⟩ := h
    exact steady_of_filter
  crash_rely h ht := by
    obtain ⟨process, rfl, rfl⟩ := h
    exact rely_of_filter (decide_eq_true ht)
  crash_idle h ht := by
    obtain ⟨process, rfl, rfl⟩ := h
    exact idle_of_filter (decide_eq_false (not_not_intro ht))

end Discipline

section Calls

variable {s s' : Shared} {t : Thread} {call : Call}

theorem explained : Machine.Discipline.Explained workers Effect (· ≠ .close) := by
  intro t s call answer s' ha
  cases ha
  case ok a he    => exact .inl ⟨a, rfl, he⟩
  case error e hf => exact .inr ⟨hf, rfl, e, rfl⟩

def Call.looks : Call → Bool
  | .createNew | .tryLockExclusive | .write _ | .close => false
  | _                                                  => true

theorem meets_look (h : call.looks = true) : (perform call).Meets (discipline.contract t)
    (discipline.Looks Effect t call s) s :=
  discipline.meets_look explained fun _ _ _ he => by
    cases he <;> first | rfl | cases h

theorem guarantee_lock (hl : s.lock = none) :
    discipline.Guarantee t s { s with lock := some t } := by
  refine ⟨⟨id, fun h => ⟨rfl, h.right.right⟩⟩, fun other hn => ⟨id, fun ho => ?_, fun _ ho => ?_,
    fun h => ⟨h, rfl⟩, id⟩⟩
  case refine_1 => cases hl.symm.trans ho
  case refine_2 => exact hn (Option.some.inj ho).symm

theorem guarantee_close : discipline.Guarantee t s (s.close t) :=
  ⟨steady_of_filter, fun _ hn => rely_of_filter (decide_eq_true hn)⟩

-- A file is created only where there is none, and then nobody has it open.
theorem guarantee_create (hf : s.lockFile = none) (ho : Opened s) :
    discipline.Guarantee t s { s with lockFile := some [], writer := some t } := by
  obtain ⟨hl, hw⟩ := ho hf
  have hc : ¬ Complete s := fun h => by cases hf.symm.trans h
  refine ⟨⟨(absurd · hc), fun h => absurd hf h.left⟩, fun other hn => ?_⟩
  exact ⟨(absurd · hc), id, id, fun h => (by cases hw.symm.trans h),
    fun _ h => hn (Option.some.inj h).symm⟩

theorem guarantee_write {content : Bytes} (hw : s.writer = some t) (hc : ¬ Complete s) :
    discipline.Guarantee t s { s with lockFile := some content } := by
  refine ⟨⟨(absurd · hc), fun h => by cases h.right.right.symm.trans hw⟩, fun other hn => ?_⟩
  exact ⟨(absurd · hc), id, id, fun h => absurd (Option.some.inj (h.symm.trans hw)) hn, id⟩

end Calls

section Routines

variable {s s' : Shared} {t : Thread} {body : Routine Unit}

structure Holds (t : Thread) (s : Shared) : Prop where
  lock     : s.lock = some t
  complete : Complete s

theorem Holds.rely (h : Holds t s) (hr : Rely t s s') : Holds t s' :=
  ⟨hr.lock h.lock, hr.complete h.complete⟩

-- A file that is returned is locked and has a complete marker.
def Locks (t : Thread) : Except String Unit → Shared → Prop
  | .ok _, s    => Holds t s
  | .error _, s => Idle t s

def Tries (t : Thread) : Except String WorkerLock → Shared → Prop
  | .ok .held, s => Holds t s
  | _, s         => Idle t s

def Returns (t : Thread) (result : Except String WorkerLock) (s : Shared) : Prop :=
  Idle t s ∧ (result = .ok .held → Complete s)

theorem meets_close : (perform .close).Meets (discipline.contract t)
    (fun r s' => r = .ok () ∧ Idle t s' ∧ (Complete s → Complete s')) s := by
  refine discipline.meets_perform explained (fun s₁ a s₂ hr hi he => ?_) (absurd rfl)
  cases he
  have h : Idle t (s₁.close t) := idle_of_filter (decide_eq_false (not_not_intro rfl))
  exact ⟨guarantee_close, hi.filter, fun s₃ hr' =>
    ⟨rfl, h.rely hr', fun hc => hr'.complete (hr.complete hc)⟩⟩

theorem meets_unlessFailed (h : body.Meets (discipline.contract t)
      (fun r s => r = .ok () → Holds t s) s) :
    (unlessFailed body).Meets (discipline.contract t) (Locks t) s := by
  refine h.attempt_bind fun result s _ hb => ?_
  cases result
  case ok    => exact fun s' hr _ => (hb rfl).rely hr
  case error =>
    exact meets_close.bind (fun _ s _ hn s' hr _ => hn.right.left.rely hr)
      fun _ _ _ hn => hn.right.left

theorem meets_tryLockExclusive :
    (perform .tryLockExclusive).Meets (discipline.contract t) (fun r s' =>
      r = .ok true ∧ s'.lock = some t ∧
          (s.writer = some t → s'.writer = some t ∧ s'.lockFile = s.lockFile) ∨
        r ≠ .ok true ∧ Rely t s s') s := by
  refine discipline.meets_perform explained (fun s₁ a s₂ hr hi he => ?_)
    fun _ _ _ hr => .inr ⟨by simp, hr⟩
  cases he
  case wouldBlock =>
    exact ⟨discipline.guarantee_refl t s₁, hi, fun s₃ hr' => .inr ⟨by simp, hr.trans hr'⟩⟩
  case locked hf hl =>
    refine ⟨guarantee_lock hl, fun hn => absurd hn hf, fun s₃ hr' =>
      .inl ⟨rfl, hr'.lock rfl, fun hw => ?_⟩⟩
    obtain ⟨hw, hs⟩ := hr.writer hw
    exact ⟨(hr'.writer hw).left, (hr'.writer hw).right.trans hs⟩

theorem meets_readMarker (h : s.lock = some t) :
    readMarker.Meets (discipline.contract t) (fun r s => r = .ok () → Holds t s) s := by
  refine (meets_look rfl).bind (fun content s' _ hs => ?_)
    fun _ _ _ _ hn => by cases hn
  obtain ⟨s₁, -, -, he, hr⟩ := hs.seen content rfl
  split
  case isFalse => exact fun _ _ _ hn => by cases hn
  case isTrue hm =>
    cases he
    case read whole hf =>
    have hc : whole = marker := by
      have hl := congrArg List.length hm
      rw [List.length_take] at hl
      rwa [List.take_of_length_le (by omega)] at hm
    have hh : Holds t s' := ⟨hs.rely.lock h, hr.complete (hf.trans (congrArg some hc))⟩
    exact fun s₂ hr' _ _ => hh.rely hr'

theorem meets_tryLifetimeLock (h : Idle t s) :
    tryLifetimeLock.Meets (discipline.contract t) (Tries t) s := by
  refine (meets_look rfl).bind (fun found s _ hs => ?_)
    fun _ _ _ hs => h.rely hs.rely
  have h := h.rely hs.rely
  split
  case isFalse => exact fun s' hr _ => h.rely hr
  refine (meets_look rfl).bind (fun _ s _ hs => ?_)
    fun _ _ _ hs => h.rely hs.rely
  have h := h.rely hs.rely
  refine (meets_look rfl).bind (fun _ s _ hs => ?_)
    fun _ _ _ hs => h.rely hs.rely
  have h := h.rely hs.rely
  refine meets_tryLockExclusive.bind (fun locked s _ hl => ?_) fun _ _ _ hl => ?_
  case refine_2 => exact hl.elim (fun hl => by cases hl.left) fun hl => h.rely hl.right
  split
  case isFalse hn =>
    have hl := hl.resolve_left fun hl => hn (Except.ok.inj hl.left)
    exact fun s' hr _ => (h.rely hl.right).rely hr
  case isTrue hn =>
    have hl := hl.resolve_right fun hl => hl.left (congrArg Except.ok hn)
    exact (meets_unlessFailed (meets_readMarker hl.right.left)).bind
      (fun _ s _ hh s' hr _ => hh.rely hr) fun _ _ _ hh => hh

-- What has been written of the marker.
structure Writes (t : Thread) (written : Bytes) (s : Shared) : Prop where
  lock     : s.lock = some t
  writer   : s.writer = some t
  lockFile : s.lockFile = some written

theorem Writes.rely {written : Bytes} (h : Writes t written s) (hr : Rely t s s') :
    Writes t written s' :=
  ⟨hr.lock h.lock, (hr.writer h.writer).left, (hr.writer h.writer).right.trans h.lockFile⟩

theorem meets_write {written data : Bytes} (h : Writes t written s) (hm : written ++ data = marker)
    (hd : data ≠ []) : (perform (.write data)).Meets (discipline.contract t)
      (fun r s => ∀ count, r = .ok count →
        0 < count ∧ Writes t (written ++ data.take count) s) s := by
  refine discipline.meets_perform explained (fun s₁ a s₂ hr hi he => ?_)
    fun _ _ _ _ _ hn => by cases hn
  have h := h.rely hr
  cases he
  case write content hw hf hp hl =>
  obtain rfl := Option.some.inj (hf.symm.trans h.lockFile)
  have hc : ¬ Complete s₁ := fun hc => by
    have he := hm.trans (Option.some.inj (hc.symm.trans hf))
    exact hd (List.append_right_eq_self.mp he)
  refine ⟨guarantee_write hw hc, fun hn => (by cases hn), fun s₃ hr' count hn => ?_⟩
  obtain rfl := Except.ok.inj hn
  have h' : Writes t (content ++ data.take a)
      { s₁ with lockFile := some (content ++ data.take a) } := ⟨h.lock, hw, rfl⟩
  exact ⟨hp, h'.rely hr'⟩

theorem meets_writeAll {rounds : Nat} {written data : Bytes} (h : Writes t written s)
    (hm : written ++ data = marker) (hd : data.length ≤ rounds) :
    (writeAll rounds data).Meets (discipline.contract t) (fun r s => r = .ok () → Holds t s) s := by
  have hh (he : data = []) : Holds t s :=
    ⟨h.lock, h.lockFile.trans (congrArg some (by rwa [he, List.append_nil] at hm))⟩
  induction rounds generalizing written data s
  case zero =>
    exact fun s' hr _ _ => (hh (List.length_eq_zero_iff.mp (Nat.le_zero.mp hd))).rely hr
  case succ rounds ih =>
    rw [writeAll]
    split
    case isTrue he => exact fun s' hr _ _ => (hh he).rely hr
    case isFalse hn =>
      refine (meets_write h hm hn).bind (fun count s _ hw => ?_) fun _ _ _ _ hn => by cases hn
      obtain ⟨hp, hw⟩ := hw count rfl
      have hm : written ++ data.take count ++ data.drop count = marker := by
        rw [List.append_assoc, List.take_append_drop, hm]
      have hl : (data.drop count).length ≤ rounds := by
        rw [List.length_drop]
        omega
      refine ih hw hm hl fun he => ⟨hw.lock, ?_⟩
      rw [he, List.append_nil] at hm
      exact hw.lockFile.trans (congrArg some hm)

def Creates (t : Thread) : Except String Bool → Shared → Prop
  | .ok true, s => s.writer = some t ∧ s.lockFile = some []
  | _, s        => Idle t s

theorem meets_createNew (h : Idle t s) :
    (perform .createNew).Meets (discipline.contract t) (Creates t) s := by
  refine discipline.meets_perform explained (fun s₁ a s₂ hr hi he => ?_) fun _ _ _ hr => h.rely hr
  cases he
  case existed =>
    exact ⟨discipline.guarantee_refl t s₁, hi, fun s₃ hr' => h.rely (hr.trans hr')⟩
  case created hf =>
    exact ⟨guarantee_create hf hi, fun hn => (by cases hn), fun s₃ hr' => hr'.writer rfl⟩

theorem meets_writeMarker (hw : s.writer = some t) (hf : s.lockFile = some []) :
    writeMarker.Meets (discipline.contract t) (fun r s => r = .ok () → Holds t s) s := by
  refine (meets_look rfl).bind (fun _ s _ hs => ?_)
    fun _ _ _ _ hn => by cases hn
  obtain ⟨hw, he⟩ := hs.rely.writer hw
  refine meets_tryLockExclusive.bind (fun locked s _ hl => ?_) fun _ _ _ _ hn => by cases hn
  split
  case isFalse => exact fun _ _ _ hn => by cases hn
  case isTrue hn =>
    have hl := (hl.resolve_right fun hl => hl.left (congrArg Except.ok hn)).right
    obtain ⟨hl, hw'⟩ := hl
    obtain ⟨hw, hf'⟩ := hw' hw
    have h : Writes t [] s := ⟨hl, hw, hf'.trans (he.trans hf)⟩
    refine (meets_writeAll h (List.nil_append _) le_rfl).bind (fun _ s _ hh => ?_)
      fun _ _ _ _ hn => by cases hn
    exact (meets_look rfl).mono fun _ s hs _ => (hh rfl).rely hs.rely

theorem meets_createLifetimeLock (h : Idle t s) :
    createLifetimeLock.Meets (discipline.contract t) (Locks t) s := by
  refine (meets_createNew h).bind (fun created s _ hn => ?_) fun _ _ _ hn => hn
  cases created
  case true  => exact meets_unlessFailed (meets_writeMarker hn.left hn.right)
  case false =>
    refine (meets_tryLifetimeLock hn).bind (fun lock s _ hl => ?_) fun _ _ _ hl => hl
    cases lock
    case held    => exact fun s' hr _ => Holds.rely hl hr
    case active  => exact fun s' hr _ => Idle.rely hl hr
    case missing => exact fun s' hr _ => Idle.rely hl hr

theorem meets_holding (h : Holds t s) :
    holding.Meets (discipline.contract t) (Returns t) s := by
  refine (meets_look rfl).attempt_bind fun result s _ hs => ?_
  have hc := hs.rely.complete h.complete
  refine meets_close.bind (fun _ s _ hn s' hr _ => ?_) fun _ _ _ hn => by cases hn.left
  exact ⟨hn.right.left.rely hr, fun _ => hr.complete (hn.right.right hc)⟩

theorem meets_run (request : Request) (h : Idle t s) :
    (run request).Meets (discipline.contract t) (Returns t) s := by
  cases request
  case session =>
    exact (meets_createLifetimeLock h).bind (fun _ s _ hh => meets_holding hh)
      fun _ _ _ hi => ⟨hi, fun hn => by cases hn⟩
  case inspection =>
    refine (meets_tryLifetimeLock h).bind (fun lock s _ hl => ?_)
      fun _ _ _ hi => ⟨hi, fun hn => by cases hn⟩
    cases lock
    case held    => exact meets_holding hl
    case active  => exact fun s' hr _ => ⟨Idle.rely hl hr, fun hn => by cases hn⟩
    case missing => exact fun s' hr _ => ⟨Idle.rely hl hr, fun hn => by cases hn⟩

theorem upheld : discipline.Upheld Returns where
  meets t _ _ h := meets_run t.request h
  idle _ _ _ h  := h.left

end Routines

section Completion

variable {s : Shared} {t : Thread}

theorem completes_unlessFailed {body : Routine Unit} {P : Shared → Prop}
    (h : body.Completes (Effect t) (fun r s => r = .ok () ∧ P s) s) :
    (unlessFailed body).Completes (Effect t) (fun r s => r = .ok () ∧ P s) s := by
  refine h.attempt_bind fun result s hr => ?_
  obtain ⟨rfl, hp⟩ := hr
  exact ⟨rfl, hp⟩

theorem completes_readMarker (hf : Complete s) :
    readMarker.Completes (Effect t) (fun r _ => r = .ok () ∧ True) s := by
  refine .perform_bind ⟨_, _, .read hf⟩ fun content s' he => ?_
  cases he
  case read hf' =>
  obtain rfl := Option.some.inj (hf'.symm.trans hf)
  rw [if_pos (List.take_of_length_le (Nat.le_succ _))]
  exact ⟨rfl, trivial⟩

theorem completes_tryLifetimeLock (hl : s.lock = none) (hf : Complete s) :
    tryLifetimeLock.Completes (Effect t) (fun r _ => r = .ok .held) s := by
  have hn : s.lockFile ≠ none := fun hn => by cases hn.symm.trans hf
  refine .perform_bind ⟨_, _, .symlinkMetadata⟩ fun found s' he => ?_
  cases he
  rw [if_pos (Option.isSome_iff_ne_none.mpr hn)]
  refine .perform_bind ⟨_, _, .openLock hn⟩ fun _ s' he => ?_
  cases he
  refine .perform_bind ⟨_, _, .validateLock⟩ fun _ s' he => ?_
  cases he
  refine .perform_bind ⟨_, _, .locked hn hl⟩ fun locked s' he => ?_
  cases he
  case wouldBlock ho => exact absurd hl ho
  case locked =>
    have hf' : Complete { s with lock := some t } := hf
    exact (completes_unlessFailed (completes_readMarker hf')).bind (fun _ _ _ => rfl)
      fun _ _ he => by cases he.left

theorem completes_writeAll {rounds : Nat} {content data : Bytes} (hw : s.writer = some t)
    (hf : s.lockFile = some content) (hd : data.length ≤ rounds) :
    (writeAll rounds data).Completes (Effect t) (fun r _ => r = .ok ()) s := by
  induction rounds generalizing s content data
  case zero => rfl
  case succ rounds ih =>
    rw [writeAll]
    split
    case isTrue => rfl
    case isFalse hn =>
      have hp := List.length_pos_iff.mpr hn
      refine .perform_bind ⟨_, _, .write hw hf hp le_rfl⟩ fun count s' he => ?_
      cases he
      case write hw hf hc hl =>
      refine ih hw rfl ?_
      rw [List.length_drop]
      omega

theorem completes_createLifetimeLock (hs : ¬ Stuck s) (hl : s.lock = none) (hw : s.writer = none) :
    createLifetimeLock.Completes (Effect t) (fun r _ => r = .ok ()) s := by
  by_cases hf : s.lockFile = none
  case pos =>
    refine .perform_bind ⟨_, _, .created hf⟩ fun created s' he => ?_
    cases he
    case existed hn => exact absurd hf hn
    case created =>
    refine (completes_unlessFailed (P := fun _ => True) ?_).mono fun _ _ => And.left
    refine .perform_bind ⟨_, _, .validateLock⟩ fun _ s' he => ?_
    cases he
    refine .perform_bind ⟨_, _, .locked (Option.some_ne_none _) hl⟩ fun locked s' he => ?_
    cases he
    case wouldBlock ho => exact absurd hl ho
    case locked =>
    refine (completes_writeAll rfl rfl le_rfl).bind (fun _ s _ => ?_) fun _ _ he => by cases he
    refine .perform ⟨_, _, .syncAll⟩ fun _ _ _ => ⟨rfl, trivial⟩
  case neg =>
    have hc : Complete s := by_contra fun hc => hs ⟨hf, hc, hw⟩
    refine .perform_bind ⟨_, _, .existed hf⟩ fun created s' he => ?_
    cases he
    case created hn => exact absurd hn hf
    case existed =>
    refine (completes_tryLifetimeLock hl hc).bind (fun lock s he => ?_) fun _ _ he => by cases he
    cases he
    rfl

theorem completes_session (hs : ¬ Stuck s) (hl : s.lock = none) (hw : s.writer = none) :
    session.Completes (Effect t) (fun r _ => r = .ok .held) s := by
  refine (completes_createLifetimeLock hs hl hw).bind (fun _ s _ => ?_) fun _ _ he => by cases he
  refine .perform_bind ⟨_, _, .work⟩ fun _ s _ => ?_
  exact .perform_bind ⟨_, _, .close⟩ fun _ _ _ => rfl

end Completion

section Runs

variable {c c' : Machine.Pool Thread Call Call.Answer String WorkerLock Shared}
variable {h : List (Machine.Event Thread String WorkerLock × Unit)} {t : Thread}

theorem complete_of_held (r : workers.system.Reachable c) (p : workers.system.Path c h c')
    (hm : (.finished t (.ok .held), ()) ∈ h) : Complete c'.shared := by
  refine p.invariant (I := fun h c' => (.finished t (.ok .held), ()) ∈ h → Complete c'.shared)
    (fun hm => absurd hm List.not_mem_nil) (fun h c₁ e o c₂ p hi hc hm => ?_) hm
  have hs := upheld.sound (p.reachable r)
  obtain he | hm := List.mem_cons.mp hm
  case inl =>
    obtain ⟨rfl, rfl⟩ := Prod.mk.inj he
    exact (hs.finished hc).right rfl
  case inr => exact (hs.shared hc).right.complete (hi hm)

def sampleThread : Thread :=
  ⟨0, 0, .session⟩

end Runs

end Cache.Workers
