import WerkModel.Api.ChatSessions
import WerkModel.Lib.Leases

-- Sessions are started one at a time for each key, and shared until they are evicted or lost.
open Exclusion

namespace Api.ChatSessions

variable {κ ι : Type}

namespace World

-- No two calls start a session for the same key.
def SingleFlight (w : World κ ι) : Prop :=
  ∀ (i j : Nat) (key : κ) (gate gate' : Nat), w.calls[i]? = some ⟨key, .starting gate⟩ →
    w.calls[j]? = some ⟨key, .starting gate'⟩ → i = j

structure Gated (w : World κ ι) : Prop where
  registered : ∀ call ∈ w.calls, ∀ gate, call.phase.gate? = some gate → (call.key, gate) ∈ w.gates
  single     : ∀ key gate gate', (key, gate) ∈ w.gates → (key, gate') ∈ w.gates →
    w.alive gate → w.alive gate' → gate = gate'
  known      : ∀ entry ∈ w.gates, entry.2 < w.fresh
  distinct   : w.gates.Nodup
  clean      : ¬w.Free .registry → (w.gates.map Prod.fst).Nodup
  exclusive  : Exclusive (·.phase.lock?) w.calls

variable {w : World κ ι} {index : Nat} {key : κ} {phase phase' : Phase ι} {gate : Nat} {lock : Lock}
variable {cache : ChatSessionCache κ ι} {available : ι → Bool}

theorem alive_iff : w.alive gate ↔ ∃ call ∈ w.calls, call.phase.gate? = some gate := by
  simp [alive]

theorem mem_set {calls : List (Call κ ι)} {call other : Call κ ι}
    (h : call ∈ calls.set index other) : call = other ∨ call ∈ calls :=
  (List.mem_or_eq_of_mem_set h).symm

-- A call gives up its lock, keeps it, or takes a free one. It gets no other gate.
theorem Gated.move (v : w.Gated) (h : w.calls[index]? = some ⟨key, phase⟩)
    (hg : ∀ gate, phase'.gate? = some gate → phase.gate? = some gate)
    (hl : ∀ lock, phase'.lock? = some lock → phase.lock? = some lock ∨ w.Free lock)
    (hr : phase'.lock? ≠ some .registry) :
    Gated { w.move index key phase' with cache := cache, available := available } := by
  have hm := List.mem_of_getElem? h
  have ha {gate : Nat} (hw : (w.move index key phase').alive gate) : w.alive gate := by
    obtain ⟨call, hc, hg'⟩ := alive_iff.mp hw
    obtain rfl | hc := mem_set hc
    case inl => exact alive_iff.mpr ⟨_, hm, hg _ hg'⟩
    case inr => exact alive_iff.mpr ⟨_, hc, hg'⟩
  refine ⟨fun call hc gate hg' => ?_, fun key gate gate' h h' hw hw' => ?_, v.known, v.distinct,
    fun hf => v.clean fun hw => hf fun call hc => ?_, ?_⟩
  case refine_1 =>
    obtain rfl | hc := mem_set hc
    case inl => exact v.registered _ hm gate (hg gate hg')
    case inr => exact v.registered call hc gate hg'
  case refine_2 => exact v.single key gate gate' h h' (ha hw) (ha hw')
  case refine_3 =>
    obtain rfl | hc := mem_set hc
    case inl => exact hr
    case inr => exact hw call hc
  case refine_4 => exact v.exclusive.set h hl

theorem Gated.enter (v : w.Gated) (hf : w.Free .registry) :
    Gated { w with
      gates := w.gates.retain w.alive
      calls := w.calls ++ [⟨key, .registering⟩]
    } := by
  have ha {gate : Nat} (hw : ({ w with
      gates := w.gates.retain w.alive
      calls := w.calls ++ [⟨key, .registering⟩] } : World κ ι).alive gate) : w.alive gate := by
    obtain ⟨call, hc, hg⟩ := alive_iff.mp hw
    obtain hc | hc := List.mem_append.mp hc
    case inl => exact alive_iff.mpr ⟨call, hc, hg⟩
    case inr =>
      obtain rfl := List.mem_singleton.mp hc
      cases hg
  have hs : (w.gates.retain w.alive).Sublist w.gates := List.filter_sublist
  have hk : ∀ entry ∈ w.gates.retain w.alive, entry ∈ w.gates ∧ w.alive entry.2 :=
    fun _ he => List.mem_filter.mp he
  refine ⟨fun call hc gate hg => ?_, fun key gate gate' h h' hw hw' => ?_,
    fun entry he => v.known entry (hk entry he).1, v.distinct.sublist hs, fun _ => ?_, ?_⟩
  case refine_1 =>
    obtain hc | hc := List.mem_append.mp hc
    case inl =>
      exact List.mem_filter.mpr ⟨v.registered call hc gate hg, alive_iff.mpr ⟨call, hc, hg⟩⟩
    case inr =>
      obtain rfl := List.mem_singleton.mp hc
      cases hg
  case refine_2 => exact v.single key gate gate' (hk _ h).1 (hk _ h').1 (ha hw) (ha hw')
  case refine_3 =>
    refine (v.distinct.sublist hs).map_on fun entry he entry' he' hkey => ?_
    obtain ⟨hm, hw⟩ := hk entry he
    obtain ⟨hm', hw'⟩ := hk entry' he'
    refine Prod.ext hkey (v.single entry.1 _ _ hm ?_ hw hw')
    rw [hkey]
    exact hm'
  case refine_4 =>
    refine v.exclusive.append fun lock hl call hc => ?_
    obtain rfl := Option.some.inj hl
    exact hf call hc

variable [DecidableEq κ]

-- The gate that is found is alive. Otherwise no gate of the key is.
theorem get_cases {gates gates' : KeyedLocks κ} {alive : Nat → Bool} {fresh : Nat}
    (hn : (gates.map Prod.fst).Nodup) (h : gates.get alive fresh key = (gate, gates')) :
    ((key, gate) ∈ gates ∧ alive gate ∧ gates' = gates) ∨
      gate = fresh ∧ gates' = gates ++ [(key, fresh)] ∧
        ∀ gate, (key, gate) ∈ gates → alive gate = false := by
  rw [KeyedLocks.get] at h
  cases hf : (gates.find? (·.1 = key)).filter (alive ·.2)
  case some entry =>
    rw [hf] at h
    obtain ⟨rfl, rfl⟩ := Prod.mk.inj h
    obtain ⟨he, ha⟩ := Option.filter_eq_some_iff.mp hf
    have hk : entry.1 = key := by simpa using List.find?_some he
    exact .inl ⟨hk ▸ List.mem_of_find?_eq_some he, ha, rfl⟩
  case none =>
    rw [hf] at h
    obtain ⟨rfl, rfl⟩ := Prod.mk.inj h
    refine .inr ⟨rfl, rfl, fun gate hg => ?_⟩
    obtain ⟨entry, he⟩ : ∃ entry, gates.find? (·.1 = key) = some entry :=
      Option.isSome_iff_exists.mp (List.find?_isSome.mpr ⟨_, hg, by simp⟩)
    have hk : entry.1 = key := by simpa using List.find?_some he
    have hm : entry = (key, gate) :=
      List.inj_on_of_nodup_map hn (List.mem_of_find?_eq_some he) hg hk
    simpa [hm] using Option.filter_eq_none_iff.mp hf entry he

theorem Gated.register {gates : KeyedLocks κ} (v : w.Gated)
    (h : w.calls[index]? = some ⟨key, .registering⟩)
    (hg : w.gates.get w.alive w.fresh key = (gate, gates)) :
    Gated { w.move index key (.waiting gate) with gates := gates, fresh := w.fresh + 1 } := by
  have hm := List.mem_of_getElem? h
  have hn := v.clean fun hf => hf _ hm rfl
  have hone : ∀ call ∈ w.calls.set index ⟨key, .waiting gate⟩,
      call.phase.lock? ≠ some .registry := fun call hc hl => by
    obtain ⟨i, hc⟩ := List.mem_iff_getElem?.mp hc
    rw [List.getElem?_set] at hc
    split at hc
    case isTrue =>
      split at hc
      case isTrue  => obtain rfl := Option.some.inj hc; cases hl
      case isFalse => cases hc
    case isFalse hi => exact hi (v.exclusive _ _ _ _ .registry h hc rfl hl)
  have ha {other : Nat} (hw : (w.move index key (.waiting gate)).alive other) :
      other = gate ∨ w.alive other := by
    obtain ⟨call, hc, hg'⟩ := alive_iff.mp hw
    obtain rfl | hc := mem_set hc
    case inl => exact .inl (Option.some.inj hg').symm
    case inr => exact .inr (alive_iff.mpr ⟨call, hc, hg'⟩)
  have hx : Exclusive (·.phase.lock?) (w.calls.set index ⟨key, .waiting gate⟩) :=
    v.exclusive.set h fun _ hl => by cases hl
  obtain ⟨hk, hw, rfl⟩ | ⟨rfl, rfl, hd⟩ := get_cases hn hg
  case inl =>
    refine ⟨fun call hc gate' hg' => ?_, fun key gate gate' h h' hw' hw'' => ?_,
      fun entry hm => (v.known entry hm).trans (Nat.lt_succ_self _), v.distinct,
      fun hf => absurd hone hf, hx⟩
    case refine_1 =>
      obtain rfl | hc := mem_set hc
      case inl => exact Option.some.inj hg' ▸ hk
      case inr => exact v.registered call hc gate' hg'
    case refine_2 =>
      refine v.single key gate gate' h h' ?_ ?_
      · exact (ha hw').elim (fun h => h ▸ hw) id
      · exact (ha hw'').elim (fun h => h ▸ hw) id
  case inr =>
    have hfresh : ∀ key, (key, w.fresh) ∉ w.gates := fun key hm => lt_irrefl _ (v.known _ hm)
    have hin {entry : κ × Nat} (h : entry ∈ w.gates ++ [(key, w.fresh)]) :
        entry ∈ w.gates ∨ entry = (key, w.fresh) :=
      (List.mem_append.mp h).imp_right List.mem_singleton.mp
    have hold {other : κ} {gate : Nat} (hm : (other, gate) ∈ w.gates)
        (hw : (w.move index key (.waiting w.fresh)).alive gate) : w.alive gate :=
      (ha hw).resolve_left fun h => hfresh other (h ▸ hm)
    refine ⟨fun call hc gate' hg' => ?_, fun key' gate gate' hm hm' hw hw' => ?_,
      fun entry hm => ?_, ?_, fun hf => absurd hone hf, hx⟩
    case refine_1 =>
      obtain rfl | hc := mem_set hc
      case inl => exact Option.some.inj hg' ▸ List.mem_append_right _ (List.mem_singleton_self _)
      case inr => exact List.mem_append_left _ (v.registered call hc gate' hg')
    case refine_2 =>
      obtain he | he := hin hm
      case inl =>
        obtain he' | he' := hin hm'
        case inl => exact v.single key' gate gate' he he' (hold he hw) (hold he' hw')
        case inr =>
          obtain ⟨rfl, -⟩ := Prod.mk.inj he'
          exact absurd (hold he hw) (by simp [hd gate he])
      case inr =>
        obtain ⟨rfl, rfl⟩ := Prod.mk.inj he
        obtain he' | he' := hin hm'
        case inl => exact absurd (hold he' hw') (by simp [hd gate' he'])
        case inr => exact (Prod.mk.inj he').2.symm
    case refine_3 =>
      obtain hm | rfl := hin hm
      case inl => exact (v.known entry hm).trans (Nat.lt_succ_self _)
      case inr => exact Nat.lt_succ_self _
    case refine_4 =>
      rw [←List.concat_eq_append, List.nodup_concat]
      exact ⟨hfresh key, v.distinct⟩

omit [DecidableEq κ] in
-- All calls of a key that hold a gate hold the same.
theorem Gated.singleFlight (v : w.Gated) : w.SingleFlight := fun i j key gate gate' h h' => by
  have hm := List.mem_of_getElem? h
  have hm' := List.mem_of_getElem? h'
  obtain rfl : gate = gate' := v.single key gate gate' (v.registered _ hm gate rfl)
    (v.registered _ hm' gate' rfl) (alive_iff.mpr ⟨_, hm, rfl⟩) (alive_iff.mpr ⟨_, hm', rfl⟩)
  exact v.exclusive i j _ _ (.gate gate) h h' rfl rfl

end World

variable [DecidableEq κ] [DecidableEq ι] {w w' : World κ ι}
variable {action : Action κ ι} {event : Event κ ι}

theorem Step.gated (s : Step w action event w') (v : w.Gated) : w'.Gated := by
  cases s
  case enter hf       => exact v.enter hf
  case register h hg  => exact v.register h hg
  case lock h hf =>
    refine v.move h (fun _ => id) (fun lock hl => .inr ?_) (by simp [Phase.lock?])
    exact Option.some.inj hl ▸ hf
  case lose | regain =>
    exact ⟨v.registered, v.single, v.known, v.distinct, v.clean, v.exclusive⟩
  case unlock h | drop h =>
    exact v.move h (fun _ hg => by first | exact hg | cases hg) (fun _ hl => by cases hl)
      (by simp [Phase.lock?])
  case hit h _ | miss h _ | start h | fail h | decline h | insert h _ =>
    exact v.move h (fun _ => id) (fun _ => .inl) (by simp [Phase.lock?])

-- What a step does to the state of a call.
theorem Step.call_cases {i : Nat} {call : Call κ ι} (s : Step w action event w')
    (h : w'.calls[i]? = some call) :
    w.calls[i]? = some call ∨ call.phase = .registering ∨
      ∃ phase, w.calls[i]? = some ⟨call.key, phase⟩ ∧
        (∀ gate, call.phase = .starting gate → phase = .looking gate ∧
          ∀ session, w.cache.entries.get? call.key = some session →
            w.available session = false) ∧
        ∀ session, call.phase.answer? = some (.session session) →
          phase.answer? = some (.session session) ∨ event = .obtained call.key session := by
  have hset {index : Nat} {key : κ} {phase : Phase ι}
      (h : (w.calls.set index ⟨key, phase⟩)[i]? = some call) :
      index = i ∧ call = ⟨key, phase⟩ ∨ w.calls[i]? = some call := by
    rw [List.getElem?_set] at h
    split at h
    case isFalse => exact .inr h
    case isTrue hi =>
      split at h
      case isTrue  => exact .inl ⟨hi, (Option.some.inj h).symm⟩
      case isFalse => cases h
  cases s
  case enter =>
    rw [List.getElem?_append] at h
    split at h
    case isTrue  => exact .inl h
    case isFalse =>
      obtain ⟨_, h⟩ := List.getElem?_eq_some_iff.mp h
      rw [List.getElem_singleton] at h
      exact .inr (.inl (h ▸ rfl))
  case lose | regain => exact .inl h
  case miss hl hg =>
    obtain ⟨rfl, rfl⟩ | h := hset h
    case inr => exact .inl h
    case inl =>
      refine .inr (.inr ⟨_, hl, fun gate hs => ?_, fun _ ha => by cases ha⟩)
      obtain rfl := Phase.starting.inj hs
      obtain ⟨_, hg', -⟩ | ⟨-, ha⟩ := @ChatSessionCache.get_cases _ _ _ w.cache w.available _
      case inl => cases hg'.symm.trans hg
      case inr => exact ⟨rfl, ha⟩
  case hit hl hg | insert hl hg =>
    obtain ⟨rfl, rfl⟩ | h := hset h
    case inr => exact .inl h
    case inl =>
      refine .inr (.inr ⟨_, hl, fun _ hs => (by cases hs), fun session ha => .inr ?_⟩)
      obtain rfl := Answer.session.inj (Option.some.inj ha)
      rfl
  case unlock hl | drop hl =>
    obtain ⟨rfl, rfl⟩ | h := hset h
    case inr => exact .inl h
    case inl => exact .inr (.inr ⟨_, hl, fun _ hs => (by cases hs), fun _ ha => .inl ha⟩)
  all_goals
    obtain ⟨rfl, rfl⟩ | h := hset h
    case inr => exact .inl h
    case inl => exact .inr (.inr ⟨_, ‹_›, fun _ hs => (by cases hs), fun _ ha => by cases ha⟩)

-- What a step does to the cache.
theorem Step.cache_cases {uses : List κ} (s : Step w action event w')
    (t : w.cache.Tracks uses) :
    (w'.cache = w.cache ∧ ∀ key session, event ≠ .obtained key session) ∨
      ∃ key session, event = .obtained key session ∧
        w.cache.Serves w.available uses key session w'.cache := by
  cases s
  case hit key _ session _ _ hg     => exact .inr ⟨key, session, rfl, t.get hg⟩
  case insert key _ _ session _ _ h => exact .inr ⟨key, session, rfl, t.insert h⟩
  case miss hg =>
    obtain ⟨_, hg', -⟩ | ⟨hg', -⟩ := @ChatSessionCache.get_cases _ _ _ w.cache w.available _
    case inl => cases hg'.symm.trans hg
    case inr => exact .inl ⟨(Prod.mk.inj (hg'.symm.trans hg)).2.symm, fun _ _ h => by cases h⟩
  all_goals exact .inl ⟨rfl, fun _ _ h => by cases h⟩

theorem Step.get?_cases {uses : List κ} {key : κ} {session : ι} (s : Step w action event w')
    (t : w.cache.Tracks uses) (h : w.cache.entries.get? key = some session) :
    w'.cache.entries.get? key = some session ∨ w.available session = false ∨
      key ∈ w.cache.entries ∧ key ∉ w'.cache.entries := by
  obtain ⟨hc, -⟩ | ⟨used, session', -, v⟩ := s.cache_cases t
  case inl => exact .inl (hc ▸ h)
  case inr =>
    by_cases hk : key = used
    case pos =>
      subst hk
      obtain rfl | ha := v.existing session h
      case inl => exact .inl v.current
      case inr => exact .inr (.inl ha)
    case neg =>
      obtain hg | ⟨hn, -⟩ := v.others key hk
      case inl => exact .inl (hg.trans h)
      case inr => exact .inr (.inr ⟨OrderedDict.mem_iff_get?.mpr ⟨_, h⟩, hn⟩)

def Event.used? : Event κ ι → Option κ
  | .obtained key _     => some key
  | .silent | .missed _ => none

-- The keys whose sessions have been given out, the latest first.
def uses (h : List (Action κ ι × Event κ ι)) : List κ :=
  h.filterMap (·.2.used?)

-- The session is unavailable after the step, or the key is evicted by it.
def Lapses (key : κ) (session : ι) (w : World κ ι) (_ : Action κ ι) (_ : Event κ ι)
    (w' : World κ ι) : Prop :=
  w'.available session = false ∨ key ∈ w.cache.entries ∧ key ∉ w'.cache.entries

-- The sessions of all calls have been given out.
def World.Answered (w : World κ ι) (h : List (Action κ ι × Event κ ι)) : Prop :=
  ∀ call ∈ w.calls, ∀ session, call.phase.answer? = some (.session session) →
    ∃ step ∈ h, step.2 = .obtained call.key session

-- A session is shared by the calls of its key until it lapses, and a call only starts one if it has
-- not found one.
structure Shared (h : List (Action κ ι × Event κ ι)) (w : World κ ι) : Prop where
  single   : w.SingleFlight
  answered : w.Answered h
  started  : ∀ action event w', Step w action event w' → ∀ (i : Nat) (key : κ) (gate : Nat),
    w'.calls[i]? = some ⟨key, .starting gate⟩ → w.calls[i]? = some ⟨key, .starting gate⟩ ∨
      w.calls[i]? = some ⟨key, .looking gate⟩ ∧
        ∀ session, w.cache.entries.get? key = some session → w.available session = false
  same     : ∀ action key session w₁, Step w action (.obtained key session) w₁ →
    ∀ h' w₂, (chatSessions κ ι).Path w₁ h' w₂ →
      ∀ action' session' w₃, Step w₂ action' (.obtained key session') w₃ →
        session' = session ∨ w₁.available session = false ∨
          (chatSessions κ ι).Passes (Lapses key session) w₁ h' w₂

structure Bounded (h : List (Action κ ι × Event κ ι)) (w : World κ ι) : Prop where
  length  : w.cache.entries.keys.length ≤ maxChatSessions
  recency : w.cache.recency.Nodup ∧ ∀ key, key ∈ w.cache.recency ↔ key ∈ w.cache.entries
  oldest  : ∀ action event w', Step w action event w' →
    ∀ key ∈ w.cache.entries, key ∉ w'.cache.entries →
      ∀ kept ∈ w'.cache.entries, Recency.Older (uses ((action, event) :: h)) key kept

section Runs

variable {h : List (Action κ ι × Event κ ι)}

theorem tracks_step (s : Step w action event w') (t : w.cache.Tracks (uses h)) :
    w'.cache.Tracks (uses ((action, event) :: h)) := by
  obtain ⟨hc, hu⟩ | ⟨key, session, rfl, v⟩ := s.cache_cases t
  case inr => exact v.tracks
  case inl =>
    have he : uses ((action, event) :: h) = uses h := by
      cases event
      case obtained key session => exact absurd rfl (hu key session)
      all_goals rfl
    rw [he, hc]
    exact t

theorem tracks_of_run (r : (chatSessions κ ι).Run h w) : w.cache.Tracks (uses h) := by
  refine r.invariant (I := fun h w => w.cache.Tracks (uses h)) (fun w hi => ?_)
    fun _ _ _ _ _ _ t s => tracks_step s t
  obtain ⟨-, hc, -⟩ := hi
  exact hc ▸ ChatSessionCache.empty_tracks

theorem gated_of_run (r : (chatSessions κ ι).Run h w) : w.Gated := by
  refine r.invariant (I := fun _ => World.Gated) (fun w hi => ?_) fun _ _ _ _ _ _ v s => s.gated v
  obtain ⟨hg, -, hc⟩ := hi
  refine ⟨?_, ?_, ?_, hg ▸ List.nodup_nil, fun _ => hg ▸ List.nodup_nil, hc ▸ exclusive_nil⟩
  all_goals simp [hg, hc]

theorem answered_of_run (r : (chatSessions κ ι).Run h w) : w.Answered h := by
  refine r.invariant (I := fun h w => w.Answered h) (fun w hi call hc => ?_)
    fun h w action event w' _ hi s call hc session ha => ?_
  case refine_1 => simp [hi.2.2] at hc
  case refine_2 =>
    have hold {phase : Phase ι} (hm : (⟨call.key, phase⟩ : Call κ ι) ∈ w.calls)
        (ha : phase.answer? = some (.session session)) :
        ∃ step ∈ (action, event) :: h, step.2 = .obtained call.key session :=
      have ⟨step, hs, he⟩ := hi _ hm session ha
      ⟨step, List.mem_cons_of_mem _ hs, he⟩
    obtain ⟨i, hc⟩ := List.mem_iff_getElem?.mp hc
    obtain hc | hr | ⟨phase, hc, -, hs⟩ := s.call_cases hc
    case inl => exact hold (List.mem_of_getElem? hc) ha
    case inr.inl => rw [hr] at ha; cases ha
    case inr.inr =>
      obtain ha | rfl := hs session ha
      case inl => exact hold (List.mem_of_getElem? hc) ha
      case inr => exact ⟨_, List.mem_cons_self, rfl⟩

-- The session is kept, or it has lapsed.
theorem kept_of_path {key : κ} {session : ι} {uses : List κ}
    (p : (chatSessions κ ι).Path w h w') (t : w.cache.Tracks uses)
    (hk : w.cache.entries.get? key = some session) :
    (∃ uses, w'.cache.Tracks uses) ∧
      (w'.cache.entries.get? key = some session ∨ w.available session = false ∨
        (chatSessions κ ι).Passes (Lapses key session) w h w') := by
  induction p
  case refl => exact ⟨⟨uses, t⟩, .inl hk⟩
  case step h w' action event w'' p s hi =>
    obtain ⟨⟨uses, t'⟩, hi⟩ := hi
    refine ⟨?_, ?_⟩
    case refine_1 =>
      obtain ⟨hc, -⟩ | ⟨key, _, -, v⟩ := s.cache_cases t'
      case inl => exact ⟨uses, hc ▸ t'⟩
      case inr => exact ⟨_, v.tracks⟩
    case refine_2 =>
      obtain hg | ha | hp := hi
      case inr.inl => exact .inr (.inl ha)
      case inr.inr => exact .inr (.inr (hp.later s))
      case inl =>
        obtain hg | ha | he := s.get?_cases t' hg
        case inl     => exact .inl hg
        case inr.inr => exact .inr (.inr (.here p s (.inr he)))
        case inr.inl =>
          -- The session has become unavailable in an earlier step, or it always was.
          cases p
          case refl      => exact .inr (.inl ha)
          case step p s' => exact .inr (.inr (.later (.here p s' (.inl ha)) s))

theorem same_of_path {key : κ} {session session' : ι} {uses : List κ} {w'' : World κ ι}
    (p : (chatSessions κ ι).Path w h w') (t : w.cache.Tracks uses)
    (hk : w.cache.entries.get? key = some session)
    (s : Step w' action (.obtained key session') w'') :
    session' = session ∨ w.available session = false ∨
      (chatSessions κ ι).Passes (Lapses key session) w h w' := by
  obtain ⟨⟨uses, t'⟩, hg | hl⟩ := kept_of_path p t hk
  case inr => exact .inr hl
  case inl =>
    obtain ⟨-, hn⟩ | ⟨key', session'', he, v⟩ := s.cache_cases t'
    case inl => exact absurd rfl (hn key session')
    case inr =>
      obtain ⟨rfl, rfl⟩ := Event.obtained.inj he
      obtain rfl | ha := v.existing session hg
      case inl => exact .inl rfl
      case inr =>
        cases p
        case refl     => exact .inr (.inl ha)
        case step p s => exact .inr (.inr (.here p s (.inl ha)))

-- A call has started a session while another one of the same key waits for the gate.
def contended : World Bool Nat where
  gates     := [(true, 0)]
  fresh     := 2
  cache     := .empty
  available := fun _ => true
  calls     := [⟨true, .started 0 7⟩, ⟨true, .waiting 0⟩]

end Runs

end Api.ChatSessions
