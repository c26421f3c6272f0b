import WerkModel.MediaCompanion.Transport

-- Requests to a resident worker are answered by their own responses, and are executed at most once.
namespace MediaCompanion

namespace Phase

@[simp] def locked : Phase → Bool
  | .unconfirmed | .handshaking _ _ | .confirmed | .ready | .exchanging _ => true
  | _                                                                     => false

-- The request may have been written to a worker.
@[simp] def sent : Phase → Bool
  | .exchanging _ | .oneShot _ | .responded _ | .answered _ | .failed _ => true
  | _                                                                   => false

@[simp] def inert : Phase → Bool
  | .exchanging _ | .responded _ => false
  | _                            => true

end Phase

namespace Worker

-- The requests that a worker has still to execute.
def requests (worker : Worker) : List Nat :=
  worker.queue.filterMap Input.request

-- The next state of a worker that is given nothing to execute.
structure Evolves (worker new : Worker) : Prop where
  requests : new.requests = worker.requests
  emitted  : worker.emitted ⊆ new.emitted
  taken    : ∀ line, .line line ∈ new.responses → .line line ∈ worker.responses ∨ line ∈ new.emitted
  killed   : worker.killed = true → new.killed = true

variable {worker : Worker} {received : Received} {rest : List ResidentReaderEvent} {line : Line}

theorem Evolves.terminate : worker.Evolves worker.terminate :=
  ⟨rfl, List.Subset.refl _, fun _ => .inl, fun _ => rfl⟩

theorem Evolves.emit : worker.Evolves (worker.emit line) where
  requests       := rfl
  emitted        := List.subset_append_left _ _
  taken other hm := by
    cases List.mem_append.mp hm
    case inl hm => exact .inl hm
    case inr hm =>
      cases List.mem_singleton.mp hm
      exact .inr (List.mem_append_right _ (List.mem_singleton_self _))
  killed         := id

-- The reader finds something that is not a line.
theorem Evolves.find {event : ResidentReaderEvent} (he : ∀ line, event ≠ .line line) :
    worker.Evolves { worker with responses := worker.responses ++ [event] } where
  requests       := rfl
  emitted        := List.Subset.refl _
  taken other hm := by
    cases List.mem_append.mp hm
    case inl hm => exact .inl hm
    case inr hm => exact absurd (List.mem_singleton.mp hm).symm (he other)
  killed         := id

theorem Takes.subset (h : worker.Takes received rest) : rest ⊆ worker.responses := by
  cases h
  case event he      => exact he ▸ List.subset_cons_self _ _
  case timeout       => exact List.Subset.refl _
  case disconnected  => exact List.nil_subset _

theorem Takes.evolves (h : worker.Takes received rest) :
    worker.Evolves { worker with responses := rest } :=
  ⟨rfl, List.Subset.refl _, fun _ hm => .inl (h.subset hm), id⟩

theorem Takes.mem (h : worker.Takes (.event (.line line)) rest) :
    .line line ∈ worker.responses := by
  cases h
  case event he => exact he ▸ List.mem_cons_self

end Worker

variable {libraries : Libraries} {requests : Nat → Request} {s s' : State} {id : Nat}

namespace State

def Responded (s : State) (delivery : Delivery) : Prop :=
  ∃ value, s.phase delivery.request = .responded value

def Exchanging (s : State) (delivery : Delivery) : Prop :=
  ∃ requestId, s.phase delivery.request = .exchanging requestId

def Failed (s : State) (delivery : Delivery) : Prop :=
  ∃ error, s.phase delivery.request = .failed error

-- The worker to which the request has been written has responded with the request's identifier.
def Answers (libraries : Libraries) (s : State) (id : Nat) (value : Json) : Prop :=
  ∃ requestId worker line, ⟨id, some requestId, worker⟩ ∈ s.deliveries ∧
    line ∈ (s.worker worker).emitted ∧
    decodeResidentResponse libraries line requestId = .ok (.response value)

structure Valid (libraries : Libraries) (s : State) : Prop where
  locked     : ∀ id, s.lock = some id ↔ (s.phase id).locked = true
  alive      : ∀ process, s.process = some process → process < s.spawned
  spawned    : ∀ delivery ∈ s.deliveries, delivery.worker < s.spawned
  numbered   : ∀ delivery ∈ s.deliveries, ∀ requestId, delivery.requestId = some requestId →
    requestId < s.nextRequestId
  sent       : ∀ delivery ∈ s.deliveries, (s.phase delivery.request).sent = true
  once       : (s.deliveries.map (·.request)).Nodup
  ids        : (s.deliveries.filterMap (·.requestId)).Nodup
  current    : ∀ process, s.process = some process → ∀ delivery ∈ s.deliveries,
    delivery.worker = process → s.Responded delivery ∨ s.Exchanging delivery
  exchanging : ∀ id requestId, s.phase id = .exchanging requestId → ∃ process,
    s.process = some process ∧ ⟨id, some requestId, process⟩ ∈ s.deliveries
  single     : ∀ id worker, s.phase id = .oneShot worker → ∀ delivery ∈ s.deliveries,
    delivery.request = id → delivery.requestId = none
  reset      : ∀ delivery ∈ s.deliveries, delivery.requestId.isSome = true → s.Failed delivery →
    (s.worker delivery.worker).killed = true
  ordered    : s.deliveries.Pairwise fun later earlier =>
    later.worker = earlier.worker → s.Responded earlier
  own        : ∀ id value, s.phase id = .responded value → s.Answers libraries id value
  taken      : ∀ worker line, .line line ∈ (s.worker worker).responses →
    line ∈ (s.worker worker).emitted
  queued     : ∀ worker, ∀ id ∈ (s.worker worker).requests,
    (∃ requestId, ⟨id, requestId, worker⟩ ∈ s.deliveries) ∧ id ∉ s.executions
  distinct   : ∀ worker, (s.worker worker).requests.Nodup
  executed   : s.executions.Nodup
  delivered  : ∀ id ∈ s.executions, ∃ delivery ∈ s.deliveries, delivery.request = id

@[simp]
theorem setPhase_self {phase : Phase} : (s.setPhase id phase).phase id = phase :=
  Function.update_self ..

theorem setPhase_of_ne {phase : Phase} {other : Nat} (h : other ≠ id) :
    (s.setPhase id phase).phase other = s.phase other :=
  Function.update_of_ne h ..

@[simp]
theorem setWorker_self {worker : Nat} {new : Worker} :
    (s.setWorker worker new).worker worker = new :=
  Function.update_self ..

theorem setWorker_of_ne {worker other : Nat} {new : Worker} (h : other ≠ worker) :
    (s.setWorker worker new).worker other = s.worker other :=
  Function.update_of_ne h ..

namespace Valid

variable {worker : Nat} {new : Worker} {phase : Phase} {delivery : Delivery}

theorem initial {negotiation : ResidentNegotiation} :
    State.Valid libraries { negotiation } := by
  constructor <;> simp [Worker.requests]

theorem fetchId (v : s.Valid libraries) : s.fetchId.Valid libraries :=
  { v with
    numbered := fun delivery hd requestId hr =>
      Nat.lt_succ_of_lt (v.numbered delivery hd requestId hr) }

-- A worker is replaced by one with the same requests, which has written at least as much.
theorem setWorker (v : s.Valid libraries) (hr : new.requests = (s.worker worker).requests)
    (hd : ∀ delivery ∈ s.deliveries, delivery.worker = worker →
      (s.worker worker).emitted ⊆ new.emitted ∧
        ((s.worker worker).killed = true → new.killed = true))
    (ht : ∀ line, .line line ∈ new.responses → line ∈ new.emitted) :
    (s.setWorker worker new).Valid libraries :=
  have hq other : ((s.setWorker worker new).worker other).requests =
      (s.worker other).requests := by
    by_cases ho : other = worker
    case pos => simpa [ho] using hr
    case neg => rw [setWorker_of_ne ho]
  { v with
    reset    := fun delivery hm hs hf => by
      have hk := v.reset delivery hm hs hf
      by_cases ho : delivery.worker = worker
      case pos => simpa [ho] using (hd delivery hm ho).2 (ho ▸ hk)
      case neg => rwa [setWorker_of_ne ho]
    own      := fun id value hp => by
      have ⟨requestId, other, line, hm, hl, hv⟩ := v.own id value hp
      refine ⟨requestId, other, line, hm, ?_, hv⟩
      by_cases ho : other = worker
      case pos => simpa [ho] using (hd _ hm ho).1 (ho ▸ hl)
      case neg => rwa [setWorker_of_ne ho]
    taken    := fun other line hl => by
      by_cases ho : other = worker
      case pos =>
        subst ho
        simp only [setWorker_self] at hl ⊢
        exact ht line hl
      case neg =>
        rw [setWorker_of_ne ho] at hl ⊢
        exact v.taken other line hl
    queued   := fun other id hi => v.queued other id (hq other ▸ hi)
    distinct := fun other => hq other ▸ v.distinct other }

theorem evolve (v : s.Valid libraries) (h : (s.worker worker).Evolves new) :
    (s.setWorker worker new).Valid libraries := by
  refine v.setWorker h.requests (fun _ _ _ => ⟨h.emitted, h.killed⟩) fun line hl => ?_
  cases h.taken line hl
  case inl hl => exact h.emitted (v.taken worker line hl)
  case inr hl => exact hl

theorem terminate (v : s.Valid libraries) : (s.terminate worker).Valid libraries :=
  v.evolve .terminate

theorem requests_spawned (v : s.Valid libraries) : (s.worker s.spawned).requests = [] := by
  refine List.eq_nil_iff_forall_not_mem.mpr fun id hi => ?_
  have ⟨⟨_, hd⟩, _⟩ := v.queued s.spawned id hi
  exact absurd (v.spawned _ hd) (lt_irrefl _)

theorem spawn (v : s.Valid libraries) (hr : new.requests = []) (hn : new.responses = []) :
    (s.spawn new).Valid libraries := by
  have hd delivery (hm : delivery ∈ s.deliveries) (hw : delivery.worker = s.spawned) : False :=
    absurd hw (v.spawned delivery hm).ne
  have hv := v.setWorker (hr.trans v.requests_spawned.symm) (fun d hm hw => (hd d hm hw).elim)
    (by simp [hn])
  exact { hv with
    alive   := fun process hp => Nat.lt_succ_of_lt (v.alive process hp)
    spawned := fun delivery hm => Nat.lt_succ_of_lt (v.spawned delivery hm) }

theorem request_ne (v : s.Valid libraries) (hu : (s.phase id).sent = false)
    (hd : delivery ∈ s.deliveries) : delivery.request ≠ id :=
  fun he => absurd ((he ▸ hu).symm.trans (v.sent delivery hd)) (by decide)

theorem locked_unique (v : s.Valid libraries) {other : Nat} (h : (s.phase id).locked = true)
    (ho : (s.phase other).locked = true) : other = id :=
  Option.some.inj (((v.locked other).mpr ho).symm.trans ((v.locked id).mpr h))

-- A request goes on without writing to a worker, and may take the process out of the state.
theorem transition {lock process : Option Nat} (v : s.Valid libraries)
    (hl : ∀ other, lock = some other ↔
      if other = id then phase.locked = true else s.lock = some other)
    (hp : process = s.process ∨
      process = none ∧ ∀ other ≠ id, ∀ requestId, s.phase other ≠ .exchanging requestId)
    (hs : (s.phase id).sent = true → phase.sent = true)
    (hn : ∀ value, s.phase id ≠ .responded value)
    (he : ∀ requestId, phase ≠ .exchanging requestId)
    (ho : ∀ worker, phase ≠ .oneShot worker)
    (hc : ∀ worker, process = some worker → ∀ delivery ∈ s.deliveries,
      delivery.worker = worker → delivery.request = id → ∃ value, phase = .responded value)
    (hf : ∀ error, phase = .failed error → ∀ delivery ∈ s.deliveries, delivery.request = id →
      delivery.requestId.isSome = true → (s.worker delivery.worker).killed = true)
    (hv : ∀ value, phase = .responded value → s.Answers libraries id value) :
    State.Valid libraries { s.setPhase id phase with lock, process } := by
  have hself : (s.setPhase id phase).phase id = phase := setPhase_self
  have hne {other} (h : other ≠ id) : (s.setPhase id phase).phase other = s.phase other :=
    setPhase_of_ne h
  refine { v with
    locked := fun other => ?_, alive := fun worker hw => ?_, sent := fun delivery hd => ?_,
    current := fun worker hw delivery hd hdw => ?_, exchanging := fun other requestId hx => ?_,
    single := fun other worker hx delivery hd hr => ?_, reset := fun delivery hd hr hx => ?_,
    ordered := v.ordered.imp fun hrel hw => ?_, own := fun other value hx => ?_ }
  case refine_1 =>
    rw [hl other]
    by_cases hother : other = id
    case pos => simp [hother]
    case neg => simpa [hother, hne hother] using v.locked other
  case refine_2 =>
    cases hp
    case inl hp => exact v.alive worker (hp ▸ hw)
    case inr hp => exact absurd (hp.1.symm.trans hw) (by simp)
  case refine_3 =>
    have hsent := v.sent delivery hd
    by_cases hother : delivery.request = id
    case pos => simpa [hother, hself] using hs (hother ▸ hsent)
    case neg => simpa [hne hother] using hsent
  case refine_4 =>
    by_cases hother : delivery.request = id
    case pos =>
      have ⟨value, hvalue⟩ := hc worker hw delivery hd hdw hother
      exact .inl ⟨value, by simpa [hother, hself] using hvalue⟩
    case neg =>
      cases hp
      case inl hp =>
        simpa [Responded, Exchanging, hne hother] using v.current worker (hp ▸ hw) delivery hd hdw
      case inr hp => exact absurd (hp.1.symm.trans hw) (by simp)
  case refine_5 =>
    by_cases hother : other = id
    case pos => exact absurd (by simpa [hother, hself] using hx) (he requestId)
    case neg =>
      have hx : s.phase other = .exchanging requestId := by simpa [hne hother] using hx
      cases hp
      case inl hp => exact hp ▸ v.exchanging other requestId hx
      case inr hp => exact absurd hx (hp.2 other hother requestId)
  case refine_6 =>
    by_cases hother : other = id
    case pos => exact absurd (by simpa [hother, hself] using hx) (ho worker)
    case neg => exact v.single other worker (by simpa [hne hother] using hx) delivery hd hr
  case refine_7 =>
    have ⟨error, hx⟩ := hx
    by_cases hother : delivery.request = id
    case pos => exact hf error (by simpa [hother, hself] using hx) delivery hd hother hr
    case neg => exact v.reset delivery hd hr ⟨error, by simpa [hne hother] using hx⟩
  case refine_8 later earlier =>
    have ⟨value, hx⟩ := hrel hw
    have hother : earlier.request ≠ id := fun he => hn value (he ▸ hx)
    exact ⟨value, by simpa [hne hother] using hx⟩
  case refine_9 =>
    by_cases hother : other = id
    case pos => exact hother ▸ hv value (by simpa [hother, hself] using hx)
    case neg => exact v.own other value (by simpa [hne hother] using hx)

-- A request that has not been sent goes on, with the lock where its phase asks for it.
theorem proceed {lock : Option Nat} (v : s.Valid libraries) (hu : (s.phase id).sent = false)
    (hi : phase.inert = true) (ho : ∀ worker, phase ≠ .oneShot worker)
    (hl : ∀ other, lock = some other ↔
      if other = id then phase.locked = true else s.lock = some other) :
    State.Valid libraries { s.setPhase id phase with lock } := by
  refine v.transition hl (.inl rfl) (fun hs => absurd (hu.symm.trans hs) (by decide)) ?_ ?_ ho ?_ ?_ ?_
  · exact fun value hr => by simp [hr] at hu
  · exact fun requestId hr => by simp [hr] at hi
  · exact fun _ _ delivery hd _ hr => absurd hr (v.request_ne hu hd)
  · exact fun _ _ delivery hd hr => absurd hr (v.request_ne hu hd)
  · exact fun value hr => by simp [hr] at hi

theorem delivery_unique (v : s.Valid libraries) {other : Delivery} (hd : delivery ∈ s.deliveries)
    (ho : other ∈ s.deliveries) (h : delivery.request = other.request) : delivery = other :=
  List.inj_on_of_nodup_map v.once hd ho h

theorem ids_unique {other : Delivery} {requestId : Nat} (v : s.Valid libraries)
    (hd : delivery ∈ s.deliveries) (ho : other ∈ s.deliveries)
    (h : delivery.requestId = some requestId) (h' : other.requestId = some requestId) :
    delivery = other := by
  by_contra hne
  have hp := List.pairwise_filterMap.mp v.ids
  obtain ⟨a, b, hl⟩ := List.append_of_mem hd
  rw [hl] at hp ho
  obtain ⟨_, hb, ha⟩ := List.pairwise_append.mp hp
  cases List.mem_append.mp ho
  case inl ho => exact ha other ho delivery List.mem_cons_self _ h' _ h rfl
  case inr ho =>
    cases List.mem_cons.mp ho
    case inl ho => exact hne ho.symm
    case inr ho => exact (List.pairwise_cons.mp hb).1 other ho _ h _ h' rfl

-- What a request is once it has been written to the worker.
inductive Written (s : State) (id worker : Nat) : Option Nat → Phase → Prop
  | resident {requestId} : (s.phase id).locked = true → s.process = some worker →
    requestId < s.nextRequestId → (∀ delivery ∈ s.deliveries, delivery.requestId ≠ some requestId) →
    Written s id worker (some requestId) (.exchanging requestId)
  | oneShot : (s.phase id).locked = false → s.process ≠ some worker →
    Written s id worker none (.oneShot worker)

theorem Written.sent {requestId : Option Nat} (h : Written s id worker requestId phase) :
    phase.sent = true := by
  cases h <;> rfl

theorem Written.locked {requestId : Option Nat} (h : Written s id worker requestId phase) :
    phase.locked = (s.phase id).locked := by
  cases h
  case resident hl _ _ _ => exact hl.symm
  case oneShot hl _      => exact hl.symm

theorem Written.lt {requestId : Option Nat} {k : Nat} (h : Written s id worker requestId phase)
    (hk : requestId = some k) : k < s.nextRequestId := by
  cases h
  case resident hn _ => exact Option.some.inj hk ▸ hn
  case oneShot       => cases hk

theorem Written.ids {requestId : Option Nat} (v : s.Valid libraries)
    (h : Written s id worker requestId phase) :
    ((⟨id, requestId, worker⟩ :: s.deliveries).filterMap (·.requestId)).Nodup := by
  cases h
  case oneShot => simpa using v.ids
  case resident hf =>
    simp only [List.filterMap_cons, List.nodup_cons]
    refine ⟨fun hm => ?_, v.ids⟩
    obtain ⟨delivery, hd, hr⟩ := List.mem_filterMap.mp hm
    exact hf delivery hd hr

theorem deliver {requestId : Option Nat} {input : Input} (v : s.Valid libraries)
    (hu : (s.phase id).sent = false) (hi : input.request = some id) (hw : worker < s.spawned)
    (hq : ∀ delivery ∈ s.deliveries, delivery.worker = worker → s.Responded delivery)
    (h : Written s id worker requestId phase) :
    ((s.deliver id requestId worker input).setPhase id phase).Valid libraries := by
  have hself : ((s.deliver id requestId worker input).setPhase id phase).phase id = phase :=
    setPhase_self
  have hne {other} (h : other ≠ id) :
      ((s.deliver id requestId worker input).setPhase id phase).phase other = s.phase other :=
    setPhase_of_ne h
  have hkeep {other} (hd : other ∈ s.deliveries) :
      ((s.deliver id requestId worker input).setPhase id phase).phase other.request =
        s.phase other.request :=
    hne (v.request_ne hu hd)
  have hworker {other} (h : other ≠ worker) :
      ((s.deliver id requestId worker input).setPhase id phase).worker other = s.worker other :=
    setWorker_of_ne h
  have hreceive : ((s.deliver id requestId worker input).setPhase id phase).worker worker =
      (s.worker worker).receive [input] :=
    setWorker_self
  have hlast : id ∉ s.executions := fun hx => by
    obtain ⟨delivery, hd, hr⟩ := v.delivered id hx
    exact v.request_ne hu hd hr
  have hrequests : (((s.deliver id requestId worker input).setPhase id phase).worker
      worker).requests = (s.worker worker).requests ++ [id] := by
    simp [hreceive, Worker.receive, Worker.requests, hi]
  constructor
  case locked =>
    intro other
    by_cases ho : other = id
    case pos => rw [ho, hself, h.locked]; exact v.locked id
    case neg => rw [hne ho]; exact v.locked other
  case alive    => exact v.alive
  case spawned  => exact List.forall_mem_cons.mpr ⟨hw, v.spawned⟩
  case numbered =>
    exact List.forall_mem_cons.mpr ⟨fun k hk => h.lt hk, v.numbered⟩
  case sent =>
    refine List.forall_mem_cons.mpr ⟨?_, fun delivery hd => ?_⟩
    · rw [hself]
      exact h.sent
    · rw [hkeep hd]
      exact v.sent delivery hd
  case once =>
    refine List.nodup_cons.mpr ⟨fun hm => ?_, v.once⟩
    obtain ⟨delivery, hd, hr⟩ := List.mem_map.mp hm
    exact v.request_ne hu hd hr
  case ids     => exact h.ids v
  case current =>
    intro process hp
    refine List.forall_mem_cons.mpr ⟨fun he => ?_, fun delivery hd he => ?_⟩
    · cases h
      case resident requestId _ _ _ _ => exact .inr ⟨requestId, hself⟩
      case oneShot hn                 => exact absurd (hp.trans (congrArg some he.symm)) hn
    · simpa only [Responded, Exchanging, hkeep hd] using v.current process hp delivery hd he
  case exchanging =>
    intro other k hx
    by_cases ho : other = id
    case pos =>
      subst ho
      rw [hself] at hx
      cases h
      case resident hp _ _ => exact ⟨worker, hp, Phase.exchanging.inj hx ▸ List.mem_cons_self⟩
      case oneShot         => cases hx
    case neg =>
      rw [hne ho] at hx
      obtain ⟨process, hp, hd⟩ := v.exchanging other k hx
      exact ⟨process, hp, List.mem_cons_of_mem _ hd⟩
  case single =>
    intro other other' hx
    refine List.forall_mem_cons.mpr ⟨fun ho => ?_, fun delivery hd ho => ?_⟩
    · rw [← ho, hself] at hx
      cases h
      case resident => cases hx
      case oneShot  => rfl
    · rw [← ho, hkeep hd] at hx
      exact v.single _ other' hx delivery hd rfl
  case reset =>
    refine List.forall_mem_cons.mpr ⟨fun _ hf => ?_, fun delivery hd hr hf => ?_⟩
    · obtain ⟨error, hf⟩ := hf
      rw [hself] at hf
      cases h <;> cases hf
    · have hk := v.reset delivery hd hr (by simpa only [Failed, hkeep hd] using hf)
      by_cases ho : delivery.worker = worker
      case pos => rw [ho, hreceive]; exact ho ▸ hk
      case neg => rwa [hworker ho]
  case ordered =>
    refine List.pairwise_cons.mpr ⟨fun delivery hd he => ?_, v.ordered.imp_of_mem ?_⟩
    · simpa only [Responded, hkeep hd] using hq delivery hd he.symm
    · intro later earlier _ hd hrel he
      simpa only [Responded, hkeep hd] using hrel he
  case own =>
    intro other value hx
    by_cases ho : other = id
    case pos =>
      rw [ho, hself] at hx
      cases h <;> cases hx
    case neg =>
      rw [hne ho] at hx
      obtain ⟨k, other', line, hd, hl, hv⟩ := v.own other value hx
      refine ⟨k, other', line, List.mem_cons_of_mem _ hd, ?_, hv⟩
      by_cases hn : other' = worker
      case pos => rw [hn, hreceive]; exact hn ▸ hl
      case neg => rwa [hworker hn]
  case taken =>
    intro other line hl
    by_cases ho : other = worker
    case pos =>
      rw [ho, hreceive] at hl ⊢
      exact v.taken worker line hl
    case neg =>
      rw [hworker ho] at hl ⊢
      exact v.taken other line hl
  case queued =>
    intro other request hr
    by_cases ho : other = worker
    case pos =>
      subst ho
      rw [hrequests] at hr
      cases List.mem_append.mp hr
      case inl hr =>
        obtain ⟨⟨k, hd⟩, hx⟩ := v.queued _ request hr
        exact ⟨⟨k, List.mem_cons_of_mem _ hd⟩, hx⟩
      case inr hr =>
        cases List.mem_singleton.mp hr
        exact ⟨⟨requestId, List.mem_cons_self⟩, hlast⟩
    case neg =>
      rw [hworker ho] at hr
      obtain ⟨⟨k, hd⟩, hx⟩ := v.queued other request hr
      exact ⟨⟨k, List.mem_cons_of_mem _ hd⟩, hx⟩
  case distinct =>
    intro other
    by_cases ho : other = worker
    case pos =>
      rw [ho, hrequests]
      refine (v.distinct worker).append (List.nodup_singleton _) fun request hr hs => ?_
      obtain ⟨⟨k, hd⟩, _⟩ := v.queued worker request hr
      exact v.request_ne hu hd (List.mem_singleton.mp hs)
    case neg => rw [hworker ho]; exact v.distinct other
  case executed  => exact v.executed
  case delivered =>
    intro request hr
    obtain ⟨delivery, hd, he⟩ := v.delivered request hr
    exact ⟨delivery, List.mem_cons_of_mem _ hd, he⟩

theorem execute {input : Input} {rest : List Input} (v : s.Valid libraries)
    (hq : (s.worker worker).queue = input :: rest) :
    State.Valid libraries { s.setWorker worker { s.worker worker with queue := rest } with
      executions := input.request.toList ++ s.executions } := by
  have hrequests : (s.worker worker).requests =
      input.request.toList ++ rest.filterMap Input.request := by
    rw [Worker.requests, hq]
    cases hi : input.request <;> simp [hi]
  have hnodup := v.distinct worker
  rw [hrequests, List.nodup_append] at hnodup
  obtain ⟨hn, hrest, hdisjoint⟩ := hnodup
  have hfirst request (hr : request ∈ input.request.toList) :
      (∃ k, ⟨request, k, worker⟩ ∈ s.deliveries) ∧ request ∉ s.executions :=
    v.queued worker request (hrequests ▸ List.mem_append_left _ hr)
  have hv : (s.setWorker worker { s.worker worker with queue := rest }).worker worker =
      { s.worker worker with queue := rest } :=
    setWorker_self
  have hworker {other} (ho : other ≠ worker) :
      (s.setWorker worker { s.worker worker with queue := rest }).worker other = s.worker other :=
    setWorker_of_ne ho
  have hsame other : ((s.setWorker worker { s.worker worker with queue := rest }).worker
        other).emitted = (s.worker other).emitted ∧
      ((s.setWorker worker { s.worker worker with queue := rest }).worker other).responses =
        (s.worker other).responses ∧
      ((s.setWorker worker { s.worker worker with queue := rest }).worker other).killed =
        (s.worker other).killed := by
    by_cases ho : other = worker
    case pos => subst ho; rw [hv]; exact ⟨rfl, rfl, rfl⟩
    case neg => rw [hworker ho]; exact ⟨rfl, rfl, rfl⟩
  exact { v with
    reset := fun delivery hd hr hf => (hsame _).2.2.trans (v.reset delivery hd hr hf)
    own := fun request value hx => by
      obtain ⟨k, other, line, hd, hl, hr⟩ := v.own request value hx
      exact ⟨k, other, line, hd, (hsame other).1 ▸ hl, hr⟩
    taken := fun other line hl => (hsame other).1 ▸ v.taken other line ((hsame other).2.1 ▸ hl)
    queued := fun other request hr => by
      simp only [List.mem_append, not_or]
      by_cases ho : other = worker
      case pos =>
        subst ho
        rw [hv] at hr
        have hx := v.queued _ request (hrequests ▸ List.mem_append_right _ hr)
        exact ⟨hx.1, fun hi => hdisjoint request hi request hr rfl, hx.2⟩
      case neg =>
        rw [hworker ho] at hr
        obtain ⟨⟨k, hd⟩, hx⟩ := v.queued other request hr
        refine ⟨⟨k, hd⟩, fun hi => ho ?_, hx⟩
        obtain ⟨⟨k', hd'⟩, _⟩ := hfirst request hi
        exact congrArg Delivery.worker (v.delivery_unique hd hd' rfl)
    distinct := fun other => by
      by_cases ho : other = worker
      case pos => subst ho; rw [hv]; exact hrest
      case neg => rw [hworker ho]; exact v.distinct other
    executed := by
      refine List.nodup_append.mpr ⟨hn, v.executed, fun request hr other ho he => ?_⟩
      exact (hfirst request hr).2 (he ▸ ho)
    delivered := fun request hr => by
      cases List.mem_append.mp hr
      case inl hr =>
        obtain ⟨⟨k, hd⟩, _⟩ := hfirst request hr
        exact ⟨_, hd, rfl⟩
      case inr hr => exact v.delivered request hr }

end Valid

section Requests

variable {worker process : Nat} {phase : Phase} {requestId : Nat} {operation error : String}

@[simp]
theorem fetchId_phase : s.fetchId.phase = s.phase :=
  rfl

@[simp]
theorem spawn_phase {new : Worker} : (s.spawn new).phase = s.phase :=
  rfl

@[simp]
theorem spawn_spawned {new : Worker} : (s.spawn new).spawned = s.spawned + 1 :=
  rfl

@[simp]
theorem spawn_deliveries {new : Worker} : (s.spawn new).deliveries = s.deliveries :=
  rfl

@[simp]
theorem terminate_phase : (s.terminate worker).phase = s.phase :=
  rfl

@[simp]
theorem terminate_lock : (s.terminate worker).lock = s.lock :=
  rfl

@[simp]
theorem setPhase_spawned : (s.setPhase id phase).spawned = s.spawned :=
  rfl

@[simp]
theorem setPhase_deliveries : (s.setPhase id phase).deliveries = s.deliveries :=
  rfl

@[simp]
theorem takeProcess_phase : s.takeProcess.phase = s.phase := by
  rw [takeProcess]
  split <;> rfl

@[simp]
theorem takeProcess_spawned : s.takeProcess.spawned = s.spawned := by
  rw [takeProcess]
  split <;> rfl

@[simp]
theorem takeProcess_deliveries : s.takeProcess.deliveries = s.deliveries := by
  rw [takeProcess]
  split <;> rfl

theorem terminate_setPhase {old : Phase} :
    ((s.setPhase id old).terminate worker).setPhase id phase =
      (s.terminate worker).setPhase id phase := by
  simp [terminate, setWorker, setPhase, Function.update_idem]

theorem reset_setPhase : (s.setPhase id phase).resetResidentAfterError id operation error =
    s.resetResidentAfterError id operation error := by
  cases hp : s.process
  all_goals simp [resetResidentAfterError, takeProcess, fail, terminate, setWorker, setPhase, hp,
    Function.update_idem]

namespace Valid

theorem setNegotiation {negotiation : ResidentNegotiation} (v : s.Valid libraries) :
    State.Valid libraries { s with negotiation } :=
  { v with }

theorem stay (v : s.Valid libraries) (hu : (s.phase id).sent = false) (hi : phase.inert = true)
    (ho : ∀ worker, phase ≠ .oneShot worker) (hl : phase.locked = (s.phase id).locked) :
    (s.setPhase id phase).Valid libraries := by
  refine v.proceed hu hi ho fun other => ?_
  by_cases hother : other = id
  case pos => rw [if_pos hother, hother, hl]; exact v.locked id
  case neg => rw [if_neg hother]

theorem leave (v : s.Valid libraries) (hu : (s.phase id).sent = false) (hi : phase.inert = true)
    (ho : ∀ worker, phase ≠ .oneShot worker) (hl : (s.phase id).locked = true)
    (hn : phase.locked = false) : (s.setPhase id phase).unlock.Valid libraries := by
  refine v.proceed hu hi ho fun other => ?_
  have hlock := (v.locked id).mpr hl
  by_cases hother : other = id
  case pos => rw [if_pos hother, hn]; simp
  case neg => simp [hother, hlock, Ne.symm hother]

theorem enter (v : s.Valid libraries) (hu : (s.phase id).sent = false) (hi : phase.inert = true)
    (ho : ∀ worker, phase ≠ .oneShot worker) (hn : s.lock = none) (hl : phase.locked = true) :
    State.Valid libraries { s.setPhase id phase with lock := some id } := by
  refine v.proceed hu hi ho fun other => ?_
  by_cases hother : other = id
  case pos => rw [if_pos hother, hl]; simp [hother]
  case neg => simp [hother, hn, Ne.symm hother]

theorem fail (v : s.Valid libraries) (hu : (s.phase id).sent = false)
    (hl : (s.phase id).locked = true) : (s.fail id error).Valid libraries :=
  v.leave hu rfl (by simp) hl rfl

theorem fallBack (v : s.Valid libraries) (hu : (s.phase id).sent = false)
    (hl : (s.phase id).locked = true) : (s.fallBack id).Valid libraries :=
  (v.leave hu rfl (by simp) hl rfl).setNegotiation

theorem setProcess {process : Option Nat} (v : s.Valid libraries)
    (hx : ∀ other requestId, s.phase other ≠ .exchanging requestId)
    (hw : ∀ worker, process = some worker →
      worker < s.spawned ∧ ∀ delivery ∈ s.deliveries, delivery.worker ≠ worker) :
    State.Valid libraries { s with process } :=
  { v with
    alive      := fun worker hp => (hw worker hp).1
    current    := fun worker hp delivery hd he => absurd he ((hw worker hp).2 delivery hd)
    exchanging := fun other requestId hp => absurd hp (hx other requestId) }

theorem takeProcess (v : s.Valid libraries)
    (hx : ∀ other requestId, s.phase other ≠ .exchanging requestId) :
    s.takeProcess.Valid libraries := by
  rw [State.takeProcess]
  split
  case h_1 => exact v
  case h_2 => exact v.terminate.setProcess hx (by simp)

-- Nobody else exchanges with the process while a request has the lock.
theorem not_exchanging (v : s.Valid libraries) (hl : (s.phase id).locked = true)
    (hi : (s.phase id).inert = true) (other requestId : Nat) :
    s.phase other ≠ .exchanging requestId := by
  intro hx
  have he : other = id := v.locked_unique hl (by simp [hx])
  rw [← he, hx] at hi
  exact absurd hi (by simp)

theorem resetUnsent (v : s.Valid libraries) (hu : (s.phase id).sent = false)
    (hl : (s.phase id).locked = true) (hi : (s.phase id).inert = true) :
    (s.takeProcess.fail id error).Valid libraries :=
  (v.takeProcess (v.not_exchanging hl hi)).fail (by simpa using hu) (by simpa using hl)

theorem acquire (v : s.Valid libraries) (hp : s.phase id = .waiting) (hn : s.lock = none) :
    (s.acquire id).Valid libraries := by
  rw [State.acquire]
  split
  case h_1 => exact v.stay (by simp [hp]) rfl (by simp) (by simp [hp])
  case h_2 => exact v.enter (by simp [hp]) rfl (by simp) hn rfl
  case h_3 => exact v.enter (by simp [hp]) rfl (by simp) hn rfl

theorem finishNegotiation {result : Except String ResidentSupportNegotiation}
    (v : s.Valid libraries) (hu : (s.phase id).sent = false) (hl : (s.phase id).locked = true) :
    (s.finishNegotiation id result).Valid libraries := by
  rw [State.finishNegotiation.eq_def]
  split
  case h_1 =>
    have hv : (s.setPhase id .confirmed).Valid libraries := v.stay hu rfl (by simp) hl.symm
    exact hv.setNegotiation
  case h_2 => exact v.fallBack hu hl
  case h_3 => exact v.fail hu hl

theorem startProcess (v : s.Valid libraries) (hp : s.phase id = .confirmed) :
    State.Valid libraries
      { (s.takeProcess.spawn {}).setPhase id .ready with process := some s.spawned } := by
  have hl : (s.phase id).locked = true := by simp [hp]
  have hx := v.not_exchanging hl (by simp [hp])
  have hv : (s.takeProcess.spawn {}).Valid libraries := (v.takeProcess hx).spawn rfl rfl
  have hv' : ((s.takeProcess.spawn {}).setPhase id .ready).Valid libraries :=
    hv.stay (by simp [hp]) rfl (by simp) (by simp [hp])
  refine hv'.setProcess (fun other requestId he => ?_) fun worker he => ?_
  · by_cases ho : other = id
    case pos => simp [ho] at he
    case neg =>
      rw [setPhase_of_ne ho] at he
      exact hx other requestId (by simpa using he)
  · cases he
    exact ⟨by simp, fun delivery hd => (v.spawned delivery (by simpa using hd)).ne⟩

theorem send {input : Input} (v : s.Valid libraries) (hp : s.phase id = .ready)
    (hw : s.process = some process) (hi : input.request = some id) :
    ((s.fetchId.deliver id (some s.nextRequestId) process input).setPhase id
      (.exchanging s.nextRequestId)).Valid libraries := by
  have hl : (s.phase id).locked = true := by simp [hp]
  refine v.fetchId.deliver (by simp [hp]) hi (v.alive process hw) ?_ ?_
  · intro delivery hd he
    cases v.current process hw delivery hd he
    case inl hr => exact hr
    case inr hx =>
      exact absurd hx.choose_spec (v.not_exchanging hl (by simp [hp]) _ _)
  · refine .resident (by simp [hp]) hw (Nat.lt_succ_self _) fun delivery hd he => ?_
    exact absurd (v.numbered delivery hd _ he) (lt_irrefl _)

theorem resetExchange (v : s.Valid libraries) (hp : s.phase id = .exchanging requestId) :
    (s.resetResidentAfterError id operation error).Valid libraries := by
  obtain ⟨process, hw, hd⟩ := v.exchanging id requestId hp
  have hlock := (v.locked id).mpr (by simp [hp])
  have ht : (s.terminate process).Valid libraries := v.terminate
  rw [resetResidentAfterError, State.takeProcess, hw]
  refine ht.transition (fun other => ?_) (.inr ⟨rfl, fun other hn k hx => hn ?_⟩) (fun _ => rfl)
    (fun value hv => ?_) (by simp) (by simp) (fun _ he => by cases he)
    (fun _ _ delivery hm he _ => ?_) (by simp)
  · by_cases ho : other = id
    case pos => simp [ho]
    case neg => simp [ho, hlock, Ne.symm ho]
  · exact v.locked_unique (by simp [hp]) (by simp [show s.phase other = .exchanging k from hx])
  · cases hp.symm.trans hv
  · have hu : delivery = _ := v.delivery_unique hm hd he
    simp [hu, State.terminate, Worker.terminate]

theorem respond {line : Line} {value : Json} (v : s.Valid libraries)
    (hp : s.phase id = .exchanging requestId) (hw : s.process = some process)
    (hl : line ∈ (s.worker process).emitted)
    (hv : decodeResidentResponse libraries line requestId = .ok (.response value)) :
    (s.setPhase id (.responded value)).unlock.Valid libraries := by
  have hlock := (v.locked id).mpr (by simp [hp])
  refine v.transition (fun other => ?_) (.inl rfl) (fun _ => rfl) (fun value hr => ?_) (by simp)
    (by simp) (fun _ _ _ _ _ _ => ⟨value, rfl⟩) (by simp) (fun value' he => ?_)
  · by_cases ho : other = id
    case pos => simp [ho]
    case neg => simp [ho, hlock, Ne.symm ho]
  · cases hp.symm.trans hr
  · obtain ⟨process', hw', hd⟩ := v.exchanging id requestId hp
    cases hw.symm.trans hw'
    cases he
    exact ⟨requestId, process, line, hd, hl, hv⟩

theorem finishExchange {received : Received} {rest : List ResidentReaderEvent}
    (v : s.Valid libraries) (hp : s.phase id = .exchanging requestId)
    (hw : s.process = some process) (ht : (s.worker process).Takes received rest) :
    ((s.setWorker process { s.worker process with responses := rest }).finishExchange id libraries
      operation (exchangeResult libraries received requestId)).Valid libraries := by
  have he := v.evolve ht.evolves
  cases hr : exchangeResult libraries received requestId
  case error => exact he.resetExchange hp
  case ok outcome =>
    cases outcome
    case legacyResponse => exact he.resetExchange hp
    case response value =>
      cases received
      case event event =>
        cases event
        case line line => exact he.respond hp hw (by simpa using v.taken _ _ ht.mem) hr
        all_goals cases hr
      all_goals cases hr

theorem oneShot {input : Input} (v : s.Valid libraries) (hp : s.phase id = .fallback)
    (hi : input.request = some id) :
    (((s.spawn {}).deliver id none s.spawned input).setPhase id (.oneShot s.spawned)).Valid
      libraries := by
  have hv : (s.spawn {}).Valid libraries := v.spawn rfl rfl
  refine hv.deliver (by simp [hp]) hi (Nat.lt_succ_self _) ?_ ?_
  · exact fun delivery hd he => absurd he (v.spawned delivery hd).ne
  · refine .oneShot (by simp [hp]) fun he => ?_
    exact absurd (v.alive _ he) (lt_irrefl _)

-- The one-shot process of a request has ended.
theorem finishOneShot (v : s.Valid libraries) (hp : s.phase id = .oneShot worker)
    (hl : phase.locked = false) (hs : phase.sent = true) (hi : phase.inert = true)
    (ho : ∀ worker, phase ≠ .oneShot worker) :
    ((s.terminate worker).setPhase id phase).Valid libraries := by
  have ht : (s.terminate worker).Valid libraries := v.terminate
  refine ht.transition (fun other => ?_) (.inl rfl) (fun _ => hs) (fun value hv => ?_) ?_ ho
    (fun process hw delivery hd he hr => ?_) (fun _ _ delivery hd hr hk => ?_) ?_
  · by_cases hother : other = id
    case pos =>
      subst hother
      rw [if_pos rfl, hl]
      exact (ht.locked other).trans (by simp [hp])
    case neg => rw [if_neg hother]
  · cases hp.symm.trans hv
  · exact fun requestId he => by simp [he] at hi
  · subst hr
    cases v.current process hw delivery hd he
    case inl hx => cases hx.choose_spec.symm.trans hp
    case inr hx => cases hx.choose_spec.symm.trans hp
  · rw [v.single id worker hp delivery hd hr] at hk
    cases hk
  · exact fun value he => by simp [he] at hi

theorem handshake {inputs : List Input} (v : s.Valid libraries) (hi : inputs ⊆ [s.handshake]) :
    (s.fetchId.spawn (({} : Worker).receive inputs)).Valid libraries ∧
      (s.fetchId.spawn (({} : Worker).receive inputs).terminate).Valid libraries := by
  have hr : (({} : Worker).receive inputs).requests = [] := by
    refine List.filterMap_eq_nil_iff.mpr fun input hm => ?_
    have hm : input ∈ inputs := by simpa [Worker.receive] using hm
    rw [List.mem_singleton.mp (hi hm)]
    rfl
  exact ⟨v.fetchId.spawn hr rfl, v.fetchId.spawn hr rfl⟩

theorem step {actor : Actor} (v : s.Valid libraries) (h : Step libraries requests s actor s') :
    s'.Valid libraries := by
  cases h
  case start hp _   => exact v.stay (by simp [hp]) rfl (by simp) (by simp [hp])
  case invalid hp _ => exact v.stay (by simp [hp]) rfl (by simp) (by simp [hp])
  case giveUp hp _  => exact v.stay (by simp [hp]) rfl (by simp) (by simp [hp])
  case acquire hp hn   => exact v.acquire hp hn
  case noHandshake hp  => exact v.fetchId.fail (by simp [hp]) (by simp [hp])
  case handshake id hp =>
    exact (v.handshake (List.Subset.refl _)).1.stay (by simp [hp]) rfl (by simp) (by simp [hp])
  case handshakeBroken hp hi     => exact (v.handshake hi).2.fallBack (by simp [hp]) (by simp [hp])
  case handshakeNotWritten hp hi => exact (v.handshake hi).2.fail (by simp [hp]) (by simp [hp])
  case finishNegotiation hp _    =>
    exact v.terminate.finishNegotiation (by simp [hp]) (by simp [hp])
  case notInspected hp _  => exact v.fail (by simp [hp]) (by simp [hp])
  case keepProcess hp _ _ => exact v.stay (by simp [hp]) rfl (by simp) (by simp [hp])
  case startProcess hp _  => exact v.startProcess hp
  case noProcess hp _     => exact v.resetUnsent (by simp [hp]) (by simp [hp]) (by simp [hp])
  case tooLate hp         => exact v.fail (by simp [hp]) (by simp [hp])
  case send hp hw         => exact v.send hp hw rfl
  case notSent hp _       => exact v.fetchId.resetUnsent (by simp [hp]) (by simp [hp]) (by simp [hp])
  case lost id process error hp hw =>
    have hv := v.send hp hw (show (s.residentRequestFrame requests id).request = some id from rfl)
    rw [← reset_setPhase]
    exact hv.resetExchange setPhase_self
  case finishExchange hp hw ht => exact v.finishExchange hp hw ht
  case noOneShot hp            => exact v.stay (by simp [hp]) rfl (by simp) (by simp [hp])
  case oneShot hp              => exact v.oneShot hp rfl
  case oneShotLost id error hp =>
    have hv := v.oneShot hp (show (Input.payload id (requests id).payload).request = some id from rfl)
    rw [← terminate_setPhase]
    exact hv.finishOneShot setPhase_self rfl rfl rfl (by simp)
  case answerOneShot hp => exact v.finishOneShot hp rfl rfl rfl (by simp)
  case failOneShot hp   => exact v.finishOneShot hp rfl rfl rfl (by simp)
  case execute hq _     => exact v.execute hq
  case emit             => exact v.evolve .emit
  case close            => exact v.evolve (.find (by simp))
  case readError        => exact v.evolve (.find (by simp))
  case exit             =>
    exact v.evolve ⟨rfl, List.Subset.refl _, fun _ hl => .inl hl, fun hk => hk⟩

end Valid

end Requests

end State

variable {value : Json} {line : Line} {requestId : Nat}

theorem carriedId_of_decode
    (h : decodeResidentResponse libraries line requestId = .ok (.response value)) :
    carriedId libraries line = some requestId := by
  rw [decodeResidentResponse] at h
  rw [carriedId]
  split at h
  case h_1 => cases h
  case h_2 json hj =>
    rw [hj]
    split_ifs at h
    · rw [decodeEnvelope] at h
      split at h
      case h_1 => cases h
      case h_2 =>
        split_ifs at h
        split at h
        case h_1 => cases h
        case h_2 responseId hr =>
          split_ifs at h with he
          exact hr.trans (congrArg some (not_not.mp he))
    · cases h

theorem valid_transport : (transport libraries requests).Invariant (State.Valid libraries) where
  init _ hi := by
    obtain ⟨negotiation, _, hs⟩ := hi
    exact hs ▸ .initial
  step _ _ _ _ v hs := v.step hs

-- What the users of a transport rely on.
structure Unmixed (libraries : Libraries) (s : State) : Prop where
  -- A response comes from the worker to which the request was written, with an identifier that no
  -- other request has.
  own      : ∀ id value, s.phase id = .responded value → ∃ requestId worker line,
    ⟨id, some requestId, worker⟩ ∈ s.deliveries ∧ line ∈ (s.worker worker).emitted ∧
    carriedId libraries line = some requestId ∧
    decodeResidentResponse libraries line requestId = .ok (.response value) ∧
    ∀ delivery ∈ s.deliveries, delivery.requestId = some requestId → delivery.request = id
  -- While no request has the lock, the process has answered all that it was sent.
  quiet    : s.lock = none → ∀ process, s.process = some process → ∀ delivery ∈ s.deliveries,
    delivery.worker = process → s.Responded delivery
  -- The process of a failed exchange is killed and not used again.
  reset    : ∀ delivery ∈ s.deliveries, delivery.requestId.isSome = true → s.Failed delivery →
    (s.worker delivery.worker).killed = true ∧ s.process ≠ some delivery.worker
  ordered  : s.deliveries.Pairwise fun later earlier =>
    later.worker = earlier.worker → s.Responded earlier
  once     : (s.deliveries.map (·.request)).Nodup
  executed : s.executions.Nodup
  -- A request falls back to a process of its own only if it has not been written to any other.
  fallback : ∀ id, s.phase id = .fallback → ∀ delivery ∈ s.deliveries, delivery.request ≠ id

theorem requests_unmixed (r : (transport libraries requests).Reachable s) :
    Unmixed libraries s := by
  have v := valid_transport.reachable r
  constructor
  case own =>
    intro id value hp
    obtain ⟨requestId, worker, line, hd, hl, hv⟩ := v.own id value hp
    refine ⟨requestId, worker, line, hd, hl, carriedId_of_decode hv, hv, fun other ho he => ?_⟩
    exact congrArg Delivery.request (v.ids_unique ho hd he rfl)
  case quiet =>
    intro hn process hp delivery hd hw
    cases v.current process hp delivery hd hw
    case inl hr => exact hr
    case inr hx =>
      obtain ⟨requestId, hx⟩ := hx
      have hl := (v.locked delivery.request).mpr (by simp [hx])
      cases hn.symm.trans hl
  case reset =>
    intro delivery hd hr hf
    refine ⟨v.reset delivery hd hr hf, fun hp => ?_⟩
    cases v.current _ hp delivery hd rfl
    case inl hx => cases hx.choose_spec.symm.trans hf.choose_spec
    case inr hx => cases hx.choose_spec.symm.trans hf.choose_spec
  case ordered  => exact v.ordered
  case once     => exact v.once
  case executed => exact v.executed
  case fallback => exact fun id hp delivery hd => v.request_ne (by simp [hp]) hd

def sampleLine : Line :=
  "\x7b\"transport_version\":1,\"request_id\":1,\"response\":true\x7d".toUTF8.toList

def sampleJson : Json :=
  .object [("transport_version", .unsigned 1), ("request_id", .unsigned 1), ("response", .bool true)]

def sampleLibraries : Libraries where
  fromSlice line      := if line = sampleLine then .ok sampleJson else .error "expected value"
  fromUtf8Lossy bytes := bytes.map fun byte => Char.ofNat byte.toNat

def sampleRequests (_ : Nat) : Request where
  operation := "health"
  payload   := .object []
  timed     := true

theorem decode_sampleLine :
    decodeResidentResponse sampleLibraries sampleLine 1 = .ok (.response (.bool true)) := by
  rw [decodeResidentResponse, show sampleLibraries.fromSlice sampleLine = .ok sampleJson from
    if_pos rfl]
  rfl

theorem reachable_step {actor : Actor} (r : (transport libraries requests).Reachable s)
    (h : Step libraries requests s actor s') : (transport libraries requests).Reachable s' :=
  r.step (o := ()) h

-- The first request starts the worker, which answers it.
theorem requests_unmixed_sample : ∃ s,
    s.phase 0 = .responded (.bool true) ∧ Unmixed sampleLibraries s := by
  let steps := transport sampleLibraries sampleRequests
  let s₀ : State := { negotiation := .confirmed }
  have r₀ : steps.Reachable s₀ := .init ⟨.confirmed, by simp, rfl⟩
  let s₁ := s₀.setPhase 0 .waiting
  have r₁ : steps.Reachable s₁ := reachable_step r₀ (.start rfl rfl)
  let s₂ := s₁.acquire 0
  have r₂ : steps.Reachable s₂ := reachable_step r₁ (.acquire rfl rfl)
  let s₃ : State := { (s₂.takeProcess.spawn {}).setPhase 0 .ready with process := some 0 }
  have r₃ : steps.Reachable s₃ := reachable_step r₂ (.startProcess rfl (by intro process hp; cases hp))
  let s₄ := (s₃.fetchId.deliver 0 (some 1) 0 (s₃.residentRequestFrame sampleRequests 0)).setPhase 0 <|
    .exchanging 1
  have r₄ : steps.Reachable s₄ := reachable_step r₃ (.send rfl rfl)
  let s₅ := s₄.setWorker 0 ((s₄.worker 0).emit sampleLine)
  have hc : ∀ requestId, carriedId sampleLibraries sampleLine = some requestId →
      ∃ input ∈ (s₄.worker 0).received, input.requestId = some requestId := by
    intro requestId hr
    cases (carriedId_of_decode decode_sampleLine).symm.trans hr
    exact ⟨_, List.mem_singleton_self _, rfl⟩
  have r₅ : steps.Reachable s₅ := reachable_step r₄ (.emit hc)
  have hp : s₅.phase 0 = .exchanging 1 := rfl
  have r₆ := reachable_step r₅ (.finishExchange hp rfl (.event rfl))
  refine ⟨_, ?_, requests_unmixed r₆⟩
  rw [exchangeResult, decode_sampleLine]
  rfl

end MediaCompanion
