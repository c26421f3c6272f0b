import WerkModel.Lib.Checks
import WerkModel.Lib.System
import WerkModel.Lib.TreeMap

-- The admission of requests to the instances of an alias. A request takes one of the slots of an
-- instance, and keeps it until the last clone of the state that it runs in is dropped.
open Std Checks

namespace Api.Deployments

abbrev Bytes := List UInt8

-- The fields of a profile that the registry reads.
structure Profile where
  id       : String
  «alias»  : String
  model    : String
  parallel : Nat
  deriving DecidableEq

structure Registry where
  instances : ExtTreeMap String Profile   := ∅
  aliases   : ExtTreeMap String (List String) := ∅

namespace Registry

def add (registry : Registry) (profile : Profile) : Except String Registry := do
  ensure (profile.id ∉ registry.instances) "duplicate deployment ID"
  return {
    aliases   := registry.aliases.insert profile.alias
      (registry.aliases.getD profile.alias [] ++ [profile.id])
    instances := registry.instances.insert profile.id profile
  }

def distinct (registry : Registry) (entry : String × List String) : Bool :=
  entry.1 ∉ registry.instances ∨ entry.2 = [entry.1]

def new (entries : List Profile) : Except String Registry := do
  let registry ← entries.foldlM add {}
  ensure (registry.aliases.toList.all registry.distinct) "alias collides with a deployment ID"
  return { registry with aliases := registry.aliases.map fun _ ids => ids.insertionSort (· ≤ ·) }

-- The instances of an alias, or the one with this ID.
def targets (registry : Registry) («alias» : String) : Option (List String) :=
  (registry.aliases[«alias»]?).or (if «alias» ∈ registry.instances then some [«alias»] else none)

end Registry

structure Headers where
  sessionId     : Option Bytes := none
  authorization : Option Bytes := none
  apiKey        : Option Bytes := none
  deriving DecidableEq

structure Request where
  «alias» : String
  headers : Headers
  deriving DecidableEq

def Headers.credential (headers : Headers) : Bytes :=
  (headers.authorization.or headers.apiKey).getD []

def visible (byte : UInt8) : Bool :=
  32 ≤ byte ∧ byte < 127 ∨ byte = 9

def Headers.session (headers : Headers) : Except String (Option Bytes) :=
  match headers.sessionId with
  | none         => .ok none
  | some session => do
    ensure (session.all visible) "failed to convert header to a str"
    ensure (session ≠ [] ∧ session.length ≤ 256) "x-werk-session-id must contain 1..256 bytes"
    return some session

def u64FromBe (bytes : Bytes) : Nat :=
  bytes.foldl (fun n byte => n * 256 + byte.toNat) 0

-- The instance that the requests of a session are bound to.
def affinity (sha256 : Bytes → Bytes) (request : Request) (session : Bytes) (count : Nat) : Nat :=
  u64FromBe ((sha256 (request.headers.credential ++ [0] ++ request.alias.toUTF8.toList ++ [0] ++
    session)).take 8) % count

-- The last of the entries with the largest key.
def maxByKey (entries : List (Nat × Nat)) : Option (Nat × Nat) :=
  entries.foldl (fun best entry =>
    match best with
    | none      => some entry
    | some best => if best.2 ≤ entry.2 then some entry else some best) none

-- A call of `select`, after it has resolved its alias. Without a session it reads the free slots of
-- one instance after the other.
inductive Call
  | bound (request : Request) (session : Bytes) (target : String)
  | stateless (request : Request) (ids : List String) (start : Nat) (readings : List (Nat × Nat))

structure State where
  next      : Nat
  -- The permits of the semaphores.
  available : String → Nat
  calls     : Nat → Option Call
  -- The permits that are taken, with their instance and the number of their owners.
  admitted  : List (String × Nat)

inductive Input
  | begin (caller : Nat) (request : Request)
  | read (caller : Nat)
  | acquire (caller : Nat)
  | clone (admission : Nat)
  | drop (admission : Nat)

inductive Output
  | done
  | refused (error : String)
  | busy (request : Request)
  | admitted (request : Request) (target model : String)

def usize : Nat := 2 ^ 64

namespace State

variable (registry : Registry) (sha256 : Bytes → Bytes) (s : State)

def setCall (caller : Nat) (call : Option Call) : State :=
  { s with calls := Function.update s.calls caller call }

def begin (caller : Nat) (request : Request) : State × Output :=
  match registry.targets request.alias, request.headers.session with
  | none, _                    => (s, .refused "unknown deployment alias")
  | _, .error error            => (s, .refused error)
  | some ids, .ok (some session) =>
    let target := ids.getD (affinity sha256 request session ids.length) ""
    (s.setCall caller (some (.bound request session target)), .done)
  | some ids, .ok none         =>
    ({ s.setCall caller (some (.stateless request ids (s.next % ids.length) [])) with
        next := (s.next + 1) % usize }, .done)

def tryAcquire (caller : Nat) (request : Request) (target : String) : State × Output :=
  let s := s.setCall caller none
  if s.available target = 0 then
    (s, .busy request)
  else
    ({ s with
        available := Function.update s.available target (s.available target - 1)
        admitted  := s.admitted ++ [(target, 1)] },
      .admitted request target ((registry.instances[target]?).elim "" Profile.model))

def addPermit (target : String) : State :=
  { s with available := Function.update s.available target (s.available target + 1) }

-- The last owner of a permit returns it.
def dropAdmission (admission : Nat) (target : String) (owners : Nat) : State :=
  if owners = 1 then
    { s.addPermit target with admitted := s.admitted.eraseIdx admission }
  else
    { s with admitted := s.admitted.set admission (target, owners - 1) }

end State

-- The instance that a call without a session has selected among those that it has read.
def selected (ids : List String) (readings : List (Nat × Nat)) : String :=
  ids.getD ((maxByKey readings).elim 0 Prod.fst) ""

def State.reading (s : State) (ids : List String) (start count : Nat) : Nat × Nat :=
  ((start + count) % ids.length, s.available (ids.getD ((start + count) % ids.length) ""))

inductive Step (registry : Registry) (sha256 : Bytes → Bytes) :
    State → Input → Output → State → Prop
  | begin {s s' caller request output} :
    s.calls caller = none → s.begin registry sha256 caller request = (s', output) →
    Step registry sha256 s (.begin caller request) output s'
  | read {s caller request ids start readings} :
    s.calls caller = some (.stateless request ids start readings) →
    readings.length < ids.length →
    Step registry sha256 s (.read caller) .done (s.setCall caller (some
      (.stateless request ids start (readings ++ [s.reading ids start readings.length]))))
  | acquireBound {s s' caller request session target output} :
    s.calls caller = some (.bound request session target) →
    s.tryAcquire registry caller request target = (s', output) →
    Step registry sha256 s (.acquire caller) output s'
  | acquireStateless {s s' caller request ids start readings output} :
    s.calls caller = some (.stateless request ids start readings) →
    readings.length = ids.length →
    s.tryAcquire registry caller request (selected ids readings) = (s', output) →
    Step registry sha256 s (.acquire caller) output s'
  | clone {s admission target owners} :
    s.admitted[admission]? = some (target, owners) →
    Step registry sha256 s (.clone admission) .done
      { s with admitted := s.admitted.set admission (target, owners + 1) }
  | drop {s admission target owners} :
    s.admitted[admission]? = some (target, owners) →
    Step registry sha256 s (.drop admission) .done (s.dropAdmission admission target owners)

-- A run together with the instances that have been free since each call has begun.
structure Observed where
  state : State
  free  : Nat → String → Prop

def Input.begins (input : Input) (caller : Nat) : Prop :=
  ∃ request, input = .begin caller request

def selects (registry : Registry) (sha256 : Bytes → Bytes) : System Observed Input Output where
  Init s := s.state = {
    next      := 0
    available := fun id => (registry.instances[id]?).elim 0 Profile.parallel
    calls     := fun _ => none
    admitted  := []
  } ∧ ∀ caller id, ¬s.free caller id
  Step s input output s' := Step registry sha256 s.state input output s'.state ∧
    ∀ caller id, s'.free caller id ↔
      (input.begins caller ∨ s.free caller id) ∧ 0 < s'.state.available id

section Registry

variable {registry registry' : Registry} {entries : List Profile} {profile : Profile}
variable {name : String} {ids : List String}

-- Instances are found under their IDs, and an alias stands for some instances that have it.
structure Registry.Valid (registry : Registry) : Prop where
  keyed   : ∀ (id : String) (profile : Profile),
    registry.instances[id]? = some profile → profile.id = id
  aliases : ∀ (name : String) (ids : List String), registry.aliases[name]? = some ids → ids ≠ [] ∧
    ∀ id ∈ ids, ∃ profile : Profile, registry.instances[id]? = some profile ∧ profile.alias = name

theorem Registry.Valid.add (v : registry.Valid) (h : registry.add profile = .ok registry') :
    registry'.Valid := by
  rw [Registry.add, ensure_bind_eq_ok] at h
  obtain ⟨hn, h⟩ := h
  obtain rfl := Except.ok.inj h
  have hi {id : String} {other : Profile} (h : registry.instances[id]? = some other) :
      (registry.instances.insert profile.id profile)[id]? = some other := by
    have hne : profile.id ≠ id := by
      rintro rfl
      exact hn (ExtTreeMap.mem_of_lookup h)
    rw [ExtTreeMap.getElem?_insert, if_neg (by simpa using hne), h]
  refine ⟨fun id other ho => ?_, fun name ids hl => ?_⟩
  case refine_1 =>
    rw [ExtTreeMap.getElem?_insert] at ho
    split at ho
    case isTrue he  => rw [←Option.some.inj ho]; exact LawfulEqCmp.eq_of_compare he
    case isFalse    => exact v.keyed id other ho
  case refine_2 =>
    rw [ExtTreeMap.getElem?_insert] at hl
    split at hl
    case isFalse =>
      obtain ⟨hne, hl⟩ := v.aliases name ids hl
      refine ⟨hne, fun id hm => ?_⟩
      obtain ⟨other, ho, ha⟩ := hl id hm
      exact ⟨other, hi ho, ha⟩
    case isTrue he =>
      obtain rfl := LawfulEqCmp.eq_of_compare he
      obtain rfl := Option.some.inj hl
      refine ⟨by simp, fun id hm => ?_⟩
      obtain hm | hm := List.mem_append.mp hm
      case inr =>
        obtain rfl := List.mem_singleton.mp hm
        exact ⟨profile, by rw [ExtTreeMap.getElem?_insert, if_pos (by simp)], rfl⟩
      case inl =>
        rw [ExtTreeMap.getD_eq_getD_getElem?] at hm
        cases hg : registry.aliases[profile.alias]?
        case none => rw [hg] at hm; nomatch hm
        case some ids =>
          rw [hg, Option.getD_some] at hm
          obtain ⟨other, ho, ha⟩ := (v.aliases _ ids hg).right id hm
          exact ⟨other, hi ho, ha⟩

theorem Registry.valid_of_new (h : Registry.new entries = .ok registry) : registry.Valid := by
  obtain ⟨registry₀, hf, h⟩ := bind_eq_ok.mp h
  obtain ⟨-, h⟩ := ensure_bind_eq_ok.mp h
  obtain rfl := Except.ok.inj h
  have v : registry₀.Valid := by
    refine foldlM_invariant (I := fun _ registry => registry.Valid) hf ?_ fun _ _ _ _ v => v.add
    exact ⟨fun _ _ h => by simp at h, fun _ _ h => by simp at h⟩
  refine ⟨v.keyed, fun name ids hl => ?_⟩
  rw [ExtTreeMap.getElem?_map] at hl
  obtain ⟨unsorted, hu, rfl⟩ := Option.map_eq_some_iff.mp hl
  obtain ⟨hne, hu⟩ := v.aliases name unsorted hu
  have hp := List.perm_insertionSort (· ≤ ·) unsorted
  refine ⟨fun hn => hne ?_, fun id hm => hu id (hp.mem_iff.mp hm)⟩
  rw [hn] at hp
  exact hp.nil_eq.symm

-- Each request goes to an instance that has the alias, or to the one with this ID.
theorem Registry.Valid.targets (v : registry.Valid) (h : registry.targets name = some ids) :
    ids ≠ [] ∧ ∀ id ∈ ids, ∃ profile : Profile, registry.instances[id]? = some profile ∧
      (profile.alias = name ∨ profile.id = name) := by
  rw [Registry.targets] at h
  obtain h | ⟨-, h⟩ := Option.or_eq_some_iff.mp h
  case inl =>
    obtain ⟨hne, hl⟩ := v.aliases name ids h
    refine ⟨hne, fun id hm => ?_⟩
    obtain ⟨profile, hp, ha⟩ := hl id hm
    exact ⟨profile, hp, .inl ha⟩
  case inr =>
    split at h
    case isFalse => nomatch h
    case isTrue hm =>
      obtain rfl := Option.some.inj h
      obtain ⟨profile, hp⟩ := ExtTreeMap.exists_lookup hm
      refine ⟨List.cons_ne_nil _ _, fun id hm => ?_⟩
      obtain rfl := List.mem_singleton.mp hm
      exact ⟨profile, hp, .inr (v.keyed _ profile hp)⟩

end Registry

section Readings

variable {readings : List (Nat × Nat)} {best entry : Nat × Nat} {ids : List String} {name : String}

theorem maxByKey_append : maxByKey (readings ++ [entry]) =
    some ((maxByKey readings).elim entry fun best =>
      if best.2 ≤ entry.2 then entry else best) := by
  rw [maxByKey, List.foldl_append, List.foldl_cons, List.foldl_nil, ←maxByKey]
  cases maxByKey readings
  case none => rfl
  case some =>
    simp only [Option.elim_some]
    split <;> rfl

theorem maxByKey_spec (h : readings ≠ []) : ∃ best ∈ readings, maxByKey readings = some best ∧
    ∀ entry ∈ readings, entry.2 ≤ best.2 := by
  induction readings using List.reverseRecOn
  case nil => exact absurd rfl h
  case append_singleton readings entry hi =>
    rw [maxByKey_append]
    by_cases hr : readings = []
    case pos => subst hr; exact ⟨entry, by simp, rfl, by simp⟩
    case neg =>
      obtain ⟨best, hm, hb, hle⟩ := hi hr
      rw [hb, Option.elim_some]
      split
      case isTrue he =>
        refine ⟨entry, by simp, rfl, fun other ho => ?_⟩
        obtain ho | ho := List.mem_append.mp ho
        · exact (hle other ho).trans he
        · exact (List.mem_singleton.mp ho ▸ le_rfl)
      case isFalse he =>
        refine ⟨best, by simp [hm], rfl, fun other ho => ?_⟩
        obtain ho | ho := List.mem_append.mp ho
        · exact hle other ho
        · exact List.mem_singleton.mp ho ▸ (Nat.lt_of_not_le he).le

def Call.target : Call → String
  | .bound _ _ target             => target
  | .stateless _ ids _ readings   => selected ids readings

-- The instance with the most free slots among those that a call without a session has read, if it
-- had any.
def Call.freest : Call → Option String
  | .bound ..                     => none
  | .stateless _ ids _ readings   =>
    (maxByKey readings).bind fun best => if 0 < best.2 then some (selected ids readings) else none

theorem freest_eq_some {request : Request} {start : Nat} :
    (Call.stateless request ids start readings).freest = some name ↔
      ∃ best, maxByKey readings = some best ∧ 0 < best.2 ∧ ids.getD best.1 "" = name := by
  rw [Call.freest, Option.bind_eq_some_iff]
  refine exists_congr fun best => and_congr_right fun hb => ?_
  rw [selected, hb]
  by_cases hp : 0 < best.2
  case pos => simp [hp]
  case neg => simp [hp]

end Readings

-- What holds of the calls and the permits in every run.
section Sound

variable {registry : Registry} {sha256 : Bytes → Bytes} {s s' : State} {input : Input}
variable {output : Output} {caller : Nat} {call : Call} {request : Request} {target name : String}

inductive Call.Sound (registry : Registry) (sha256 : Bytes → Bytes) : Call → Prop
  | bound {request session ids} :
    registry.targets request.alias = some ids → request.headers.session = .ok (some session) →
    Sound registry sha256 (.bound request session
      (ids.getD (affinity sha256 request session ids.length) ""))
  | stateless {request ids start readings} :
    registry.targets request.alias = some ids → request.headers.session = .ok none →
    readings.length ≤ ids.length →
    readings.map Prod.fst = (List.range readings.length).map (fun k => (start + k) % ids.length) →
    Sound registry sha256 (.stateless request ids start readings)

theorem Call.Sound.of_stateless {ids : List String} {start : Nat} {readings : List (Nat × Nat)}
    (h : Call.Sound registry sha256 (.stateless request ids start readings)) :
    registry.targets request.alias = some ids ∧ request.headers.session = .ok none ∧
      readings.length ≤ ids.length ∧ readings.map Prod.fst =
        (List.range readings.length).map (fun k => (start + k) % ids.length) := by
  cases h
  exact ⟨‹_›, ‹_›, ‹_›, ‹_›⟩

theorem Call.Sound.of_bound {session : Bytes}
    (h : Call.Sound registry sha256 (.bound request session target)) :
    request.headers.session = .ok (some session) ∧ ∃ ids,
      registry.targets request.alias = some ids ∧
        target = ids.getD (affinity sha256 request session ids.length) "" := by
  cases h
  exact ⟨‹_›, _, ‹_›, rfl⟩

def State.outstanding (s : State) (id : String) : Nat :=
  (s.admitted.map Prod.fst).count id

structure State.Sound (registry : Registry) (sha256 : Bytes → Bytes) (s : State) : Prop where
  calls  : ∀ caller, ∀ call ∈ s.calls caller, call.Sound registry sha256
  slots  : ∀ id : String, s.available id + s.outstanding id =
    (registry.instances[id]?).elim 0 Profile.parallel
  owners : ∀ admission ∈ s.admitted, 0 < admission.2

theorem State.Sound.setCall (hs : s.Sound registry sha256) {new : Option Call}
    (hn : ∀ call ∈ new, call.Sound registry sha256) :
    (s.setCall caller new).Sound registry sha256 where
  calls other call hc := by
    by_cases he : other = caller
    case pos =>
      rw [he] at hc
      exact hn call (Function.update_self caller new s.calls ▸ hc)
    case neg => exact hs.calls other call (Function.update_of_ne he new s.calls ▸ hc)
  slots  := hs.slots
  owners := hs.owners

theorem State.Sound.tryAcquire (hs : s.Sound registry sha256)
    (h : s.tryAcquire registry caller request target = (s', output)) :
    s'.Sound registry sha256 := by
  have hc : (s.setCall caller none).Sound registry sha256 := hs.setCall nofun
  rw [State.tryAcquire] at h
  split at h
  case isTrue =>
    obtain ⟨rfl, -⟩ := Prod.mk.inj h
    exact hc
  case isFalse hn =>
    obtain ⟨rfl, -⟩ := Prod.mk.inj h
    have ha : s.available target ≠ 0 := hn
    refine ⟨hc.calls, fun id => ?_, fun admission hm => ?_⟩
    case refine_1 =>
      have hsl := hs.slots id
      have ho : ((s.admitted ++ [(target, 1)]).map Prod.fst).count id =
          s.outstanding id + if target = id then 1 else 0 := by
        simp [State.outstanding, List.count_append, List.count_singleton]
      simp only [State.outstanding, State.setCall, Function.update_apply] at ho hsl ⊢
      rw [ho]
      by_cases he : id = target
      case pos => subst he; simp only [if_pos] at ho ⊢; omega
      case neg => simp only [if_neg he, if_neg (Ne.symm he)] at ho ⊢; omega
    case refine_2 =>
      obtain hm | hm := List.mem_append.mp hm
      · exact hs.owners admission hm
      · exact List.mem_singleton.mp hm ▸ Nat.zero_lt_one

theorem map_fst_set {admitted : List (String × Nat)} {admission owners owners' : Nat}
    (h : admitted[admission]? = some (target, owners)) :
    (admitted.set admission (target, owners')).map Prod.fst = admitted.map Prod.fst := by
  refine List.ext_getElem? fun i => ?_
  rw [List.getElem?_map, List.getElem?_set, List.getElem?_map]
  split
  case isFalse => rfl
  case isTrue he =>
    subst he
    rw [h]
    split
    case isTrue => rfl
    case isFalse hl => rw [List.getElem?_eq_none (Nat.le_of_not_lt hl)] at h; nomatch h

theorem State.Sound.owned (hs : s.Sound registry sha256) {admission owners owners' : Nat}
    (h : s.admitted[admission]? = some (target, owners)) (ho : 0 < owners') :
    State.Sound registry sha256
      { s with admitted := s.admitted.set admission (target, owners') } where
  calls  := hs.calls
  slots id := by
    rw [State.outstanding, map_fst_set h]
    exact hs.slots id
  owners other hm := by
    obtain hm | rfl := List.mem_or_eq_of_mem_set hm
    · exact hs.owners other hm
    · exact ho

theorem State.Sound.dropAdmission (hs : s.Sound registry sha256) {admission owners : Nat}
    (h : s.admitted[admission]? = some (target, owners)) :
    (s.dropAdmission admission target owners).Sound registry sha256 := by
  rw [State.dropAdmission]
  split
  case isFalse hn =>
    have ho := hs.owners _ (List.mem_of_getElem? h)
    exact hs.owned h (by simp only at ho; omega)
  case isTrue hn =>
    obtain ⟨hl, hg⟩ := List.getElem?_eq_some_iff.mp h
    have hp := List.getElem_cons_eraseIdx_perm hl
    rw [hg] at hp
    refine ⟨hs.calls, fun id => ?_, fun other hm => hs.owners other (List.mem_of_mem_eraseIdx hm)⟩
    have hsl := hs.slots id
    have hc := (hp.map Prod.fst).count_eq id
    rw [List.map_cons, List.count_cons] at hc
    simp only [State.outstanding, State.addPermit, Function.update_apply] at hsl ⊢
    by_cases he : id = target
    case pos => subst he; simp at hc ⊢; omega
    case neg => simp [Ne.symm he] at hc; simp [he]; omega

theorem State.Sound.begin (hs : s.Sound registry sha256)
    (h : s.begin registry sha256 caller request = (s', output)) : s'.Sound registry sha256 := by
  rw [State.begin] at h
  split at h
  case h_1 => exact (Prod.mk.inj h).left ▸ hs
  case h_2 => exact (Prod.mk.inj h).left ▸ hs
  case h_3 ids session ht hsession =>
    obtain ⟨rfl, -⟩ := Prod.mk.inj h
    refine hs.setCall fun call hc => ?_
    obtain rfl := Option.some.inj hc
    exact .bound ht hsession
  case h_4 ids ht hsession =>
    obtain ⟨rfl, -⟩ := Prod.mk.inj h
    have hc : (s.setCall caller (some (.stateless request ids (s.next % ids.length) []))).Sound
        registry sha256 := by
      refine hs.setCall fun call hc => ?_
      obtain rfl := Option.some.inj hc
      exact .stateless ht hsession (Nat.zero_le _) rfl
    exact ⟨hc.calls, hc.slots, hc.owners⟩

theorem State.Sound.read (hs : s.Sound registry sha256) {ids : List String} {start : Nat}
    {readings : List (Nat × Nat)}
    (hc : s.calls caller = some (.stateless request ids start readings))
    (hl : readings.length < ids.length) :
    (s.setCall caller (some (.stateless request ids start
      (readings ++ [s.reading ids start readings.length])))).Sound registry sha256 := by
  refine hs.setCall fun call h => ?_
  obtain rfl := Option.some.inj h
  obtain ⟨ht, hsession, -, hm⟩ := (hs.calls caller _ hc).of_stateless
  refine .stateless ht hsession ?_ ?_
  · rw [List.length_append]
    exact hl
  · rw [List.map_append, List.length_append, List.length_singleton, List.range_succ,
      List.map_append, hm]
    rfl

theorem State.Sound.step (hs : s.Sound registry sha256)
    (h : Step registry sha256 s input output s') : s'.Sound registry sha256 := by
  cases h
  case begin h               => exact hs.begin h
  case read hc hl            => exact hs.read hc hl
  case acquireBound h        => exact hs.tryAcquire h
  case acquireStateless h    => exact hs.tryAcquire h
  case clone h               => exact hs.owned h (Nat.succ_pos _)
  case drop h                => exact hs.dropAdmission h

-- What a call that is admitted runs.
structure Admission (registry : Registry) (sha256 : Bytes → Bytes) (request : Request)
    (target model : String) : Prop where
  model : ∃ profile : Profile, registry.instances[target]? = some profile ∧
    (profile.alias = request.alias ∨ profile.id = request.alias) ∧ profile.model = model
  bound : ∀ session, request.headers.session = .ok (some session) →
    ∃ ids, registry.targets request.alias = some ids ∧
      target = ids.getD (affinity sha256 request session ids.length) ""

theorem getD_mem {ids : List String} {index : Nat} (h : index < ids.length) :
    ids.getD index "" ∈ ids := by
  rw [List.getD_eq_getElem _ _ h]
  exact List.getElem_mem h

theorem selected_mem {ids : List String} {readings : List (Nat × Nat)}
    (hr : ∀ entry ∈ readings, entry.1 < ids.length) (hn : readings ≠ []) :
    selected ids readings ∈ ids := by
  obtain ⟨best, hm, hb, -⟩ := maxByKey_spec hn
  rw [selected, hb]
  exact getD_mem (hr best hm)

theorem Call.Sound.reading_lt {ids : List String} {start : Nat} {readings : List (Nat × Nat)}
    (v : registry.Valid)
    (hs : Call.Sound registry sha256 (.stateless request ids start readings)) :
    ∀ entry ∈ readings, entry.1 < ids.length := by
  obtain ⟨ht, -, -, hm⟩ := hs.of_stateless
  intro entry he
  have he := List.mem_map_of_mem (f := Prod.fst) he
  rw [hm] at he
  obtain ⟨_, -, hk⟩ := List.mem_map.mp he
  exact hk ▸ Nat.mod_lt _ (List.length_pos_of_ne_nil (v.targets ht).left)

theorem admitted_of_tryAcquire {request' : Request} {model : String}
    (h : s.tryAcquire registry caller request name = (s', .admitted request' target model)) :
    request = request' ∧ name = target ∧
      (registry.instances[name]?).elim "" Profile.model = model := by
  rw [State.tryAcquire] at h
  split at h
  case isTrue  => nomatch (Prod.mk.inj h).right
  case isFalse => exact Output.admitted.inj (Prod.mk.inj h).right

-- A call that acquires a permit runs the model of one of its targets.
theorem State.Sound.model (v : registry.Valid) {ids : List String} {model : String}
    (ht : registry.targets request.alias = some ids) (hm : target ∈ ids)
    (h : (registry.instances[target]?).elim "" Profile.model = model) :
    ∃ profile : Profile, registry.instances[target]? = some profile ∧
      (profile.alias = request.alias ∨ profile.id = request.alias) ∧ profile.model = model := by
  obtain ⟨profile, hp, ha⟩ := (v.targets ht).right target hm
  rw [hp] at h
  exact ⟨profile, hp, ha, h⟩

theorem State.Sound.admission (hs : s.Sound registry sha256) (v : registry.Valid) {model : String}
    (h : Step registry sha256 s input (.admitted request target model) s') :
    Admission registry sha256 request target model := by
  cases h
  case begin h =>
    rw [State.begin] at h
    split at h <;> nomatch (Prod.mk.inj h).right
  case acquireBound hc h =>
    obtain ⟨rfl, rfl, hm⟩ := admitted_of_tryAcquire h
    obtain ⟨hsession, ids, ht, rfl⟩ := (hs.calls _ _ hc).of_bound
    have hl := List.length_pos_of_ne_nil (v.targets ht).left
    refine ⟨State.Sound.model v ht (getD_mem (Nat.mod_lt _ hl)) hm, fun session h => ?_⟩
    rw [hsession] at h
    obtain rfl := Option.some.inj (Except.ok.inj h)
    exact ⟨ids, ht, rfl⟩
  case acquireStateless hc hl h =>
    obtain ⟨rfl, rfl, hm⟩ := admitted_of_tryAcquire h
    have hcall := hs.calls _ _ hc
    obtain ⟨ht, hsession, -, -⟩ := hcall.of_stateless
    have hne := (v.targets ht).left
    refine ⟨State.Sound.model v ht (selected_mem (hcall.reading_lt v) ?_) hm, fun session h => ?_⟩
    case refine_1 =>
      rintro rfl
      exact hne (List.eq_nil_of_length_eq_zero hl.symm)
    case refine_2 =>
      rw [hsession] at h
      nomatch Except.ok.inj h

end Sound

-- A call without a session is refused only if none of its instances has been free all the time, as
-- long as no other call takes the last free slot of the instance that it has found freest.
section Busy

variable {registry : Registry} {sha256 : Bytes → Bytes} {s s' : Observed} {input : Input}
variable {output : Output} {caller : Nat} {call : Call} {request : Request}
variable {h : List (Input × Output)}

def Uncontested (s : State) : Input → Prop
  | .acquire caller => ∀ call ∈ s.calls caller, s.available call.target = 1 →
    ∀ other ≠ caller, ∀ rival ∈ s.calls other, rival.freest ≠ some call.target
  | _               => True

structure Freest (s : Observed) (caller : Nat) (call : Call) : Prop where
  free : ∀ target, call.freest = some target → 0 < s.state.available target
  read : ∀ request ids start readings, call = .stateless request ids start readings →
    ∀ entry ∈ readings, s.free caller (ids.getD entry.1 "") → 0 < entry.2

theorem Freest.mono (hf : Freest s caller call)
    (ha : ∀ target, call.freest = some target → 0 < s'.state.available target)
    (hm : ∀ id, s'.free caller id → s.free caller id) : Freest s' caller call where
  free := ha
  read request ids start readings hc entry he h :=
    hf.read request ids start readings hc entry he (hm _ h)

theorem available_tryAcquire {t t' : State} {target name : String}
    (h : t.tryAcquire registry caller request target = (t', output)) (hp : 0 < t.available name) :
    0 < t'.available name ∨ target = name ∧ t.available name = 1 := by
  rw [State.tryAcquire] at h
  split at h
  case isTrue  => exact (Prod.mk.inj h).left ▸ .inl hp
  case isFalse =>
    obtain ⟨rfl, -⟩ := Prod.mk.inj h
    simp only [State.setCall, Function.update_apply]
    split
    case isTrue he  =>
      subst he
      by_cases ho : t.available name = 1
      case pos => exact .inr ⟨rfl, ho⟩
      case neg => exact .inl (Nat.sub_pos_of_lt (by omega))
    case isFalse he => exact .inl hp

-- Only a call that acquires a permit takes the last free slot of an instance.
theorem available_step {t t' : State} {name : String} (h : Step registry sha256 t input output t')
    (hp : 0 < t.available name) : 0 < t'.available name ∨
      ∃ caller call, input = .acquire caller ∧ t.calls caller = some call ∧ call.target = name ∧
        t.available name = 1 := by
  cases h
  case begin h =>
    rw [State.begin] at h
    split at h <;> exact (Prod.mk.inj h).left ▸ .inl hp
  case read  => exact .inl hp
  case clone => exact .inl hp
  case acquireBound hc h =>
    exact (available_tryAcquire h hp).imp_right fun ⟨he, ho⟩ => ⟨_, _, rfl, hc, he, ho⟩
  case acquireStateless hc _ h =>
    exact (available_tryAcquire h hp).imp_right fun ⟨he, ho⟩ => ⟨_, _, rfl, hc, he, ho⟩
  case drop =>
    rw [State.dropAdmission]
    split
    case isTrue =>
      simp only [State.addPermit, Function.update_apply]
      split
      case isTrue  => exact .inl (Nat.succ_pos _)
      case isFalse => exact .inl hp
    case isFalse => exact .inl hp

-- A call is new, has read one more instance, or is the same as before.
theorem calls_step {t t' : State} (h : Step registry sha256 t input output t')
    (hc : t'.calls caller = some call) :
    (input.begins caller ∧ ((∃ request session target, call = .bound request session target) ∨
      ∃ request ids start, call = .stateless request ids start [])) ∨
    (∃ request ids start readings, t.calls caller = some (.stateless request ids start readings) ∧
      input = .read caller ∧ t'.available = t.available ∧
      call = .stateless request ids start (readings ++ [t.reading ids start readings.length])) ∨
    (t.calls caller = some call ∧ ¬input.begins caller ∧ input ≠ .acquire caller) := by
  have hset {u : State} {other : Nat} {new : Option Call}
      (h : (u.setCall other new).calls caller = some call) :
      other = caller ∧ new = some call ∨ other ≠ caller ∧ u.calls caller = some call := by
    by_cases he : other = caller
    case pos => subst he; exact .inl ⟨rfl, Function.update_self other new u.calls ▸ h⟩
    case neg => exact .inr ⟨he, Function.update_of_ne (Ne.symm he) new u.calls ▸ h⟩
  have hacquire {other : Nat} {request : Request} {target : String}
      (h : t.tryAcquire registry other request target = (t', output)) :
      other ≠ caller ∧ t.calls caller = some call := by
    have ht : t'.calls = (t.setCall other none).calls := by
      rw [State.tryAcquire] at h
      split at h <;> exact (Prod.mk.inj h).left ▸ rfl
    have hc : (t.setCall other none).calls caller = some call := ht ▸ hc
    obtain ⟨-, h⟩ | h := hset hc
    · nomatch h
    · exact h
  cases h
  case begin other request hn h =>
    have hkeeps (ho : t.calls caller = some call) :
        t.calls caller = some call ∧ ¬Input.begins (.begin other request) caller ∧
          Input.begin other request ≠ .acquire caller := by
      refine ⟨ho, fun ⟨_, h⟩ => ?_, nofun⟩
      rw [(Input.begin.inj h).left, ho] at hn
      nomatch hn
    rw [State.begin] at h
    split at h
    case h_1 => exact .inr (.inr (hkeeps ((Prod.mk.inj h).left ▸ hc)))
    case h_2 => exact .inr (.inr (hkeeps ((Prod.mk.inj h).left ▸ hc)))
    case h_3 =>
      obtain ⟨rfl, -⟩ := Prod.mk.inj h
      obtain ⟨rfl, h⟩ | ⟨-, ho⟩ := hset hc
      · exact .inl ⟨⟨_, rfl⟩, .inl ⟨_, _, _, (Option.some.inj h).symm⟩⟩
      · exact .inr (.inr (hkeeps ho))
    case h_4 =>
      obtain ⟨rfl, -⟩ := Prod.mk.inj h
      obtain ⟨rfl, h⟩ | ⟨-, ho⟩ := hset hc
      · exact .inl ⟨⟨_, rfl⟩, .inr ⟨_, _, _, (Option.some.inj h).symm⟩⟩
      · exact .inr (.inr (hkeeps ho))
  case read other request ids start readings ho hl =>
    obtain ⟨rfl, h⟩ | ⟨he, h⟩ := hset hc
    · exact .inr (.inl ⟨_, _, _, _, ho, rfl, rfl, (Option.some.inj h).symm⟩)
    · exact .inr (.inr ⟨h, nofun, nofun⟩)
  case acquireBound other _ _ _ _ h =>
    obtain ⟨he, ho⟩ := hacquire h
    exact .inr (.inr ⟨ho, nofun, fun h => he (Input.acquire.inj h)⟩)
  case acquireStateless h =>
    obtain ⟨he, ho⟩ := hacquire h
    exact .inr (.inr ⟨ho, nofun, fun h => he (Input.acquire.inj h)⟩)
  case clone => exact .inr (.inr ⟨hc, nofun, nofun⟩)
  case drop  =>
    have ht {admission owners : Nat} {target : String} :
        (t.dropAdmission admission target owners).calls = t.calls := by
      rw [State.dropAdmission]
      split <;> rfl
    exact .inr (.inr ⟨ht ▸ hc, nofun, nofun⟩)

theorem freest_step (hf : ∀ caller, ∀ call ∈ s.state.calls caller, Freest s caller call)
    (hu : Uncontested s.state input)
    (hs : (selects registry sha256).Step s input output s') :
    ∀ caller, ∀ call ∈ s'.state.calls caller, Freest s' caller call := by
  obtain ⟨hs, hfree⟩ := hs
  intro caller call hc
  obtain ⟨hb, hcall⟩ | ⟨request, ids, start, readings, hold, rfl, ha, rfl⟩ | ⟨hold, hb, hne⟩ :=
    calls_step hs hc
  case inl =>
    obtain ⟨request, session, target, rfl⟩ | ⟨request, ids, start, rfl⟩ := hcall
    · exact ⟨nofun, nofun⟩
    · refine ⟨nofun, fun request ids start readings h => ?_⟩
      obtain ⟨-, -, -, rfl⟩ := Call.stateless.inj h
      exact nofun
  case inr.inl =>
    have hf := hf caller _ hold
    have hm (id : String) (h : s'.free caller id) : s.free caller id ∧ 0 < s.state.available id := by
      obtain ⟨h, hp⟩ := (hfree caller id).mp h
      exact ⟨h.resolve_left nofun, ha ▸ hp⟩
    refine ⟨fun target ht => ?_, fun request' ids' start' readings' h entry he hfr => ?_⟩
    case refine_1 =>
      obtain ⟨best, hb, hp, rfl⟩ := freest_eq_some.mp ht
      rw [maxByKey_append] at hb
      obtain rfl := Option.some.inj hb
      rw [ha]
      cases hold : maxByKey readings
      case none => rw [hold] at hp; exact hp
      case some best =>
        rw [hold] at hp
        rw [Option.elim_some] at hp ⊢
        split
        case isTrue hle  => rw [if_pos hle] at hp; exact hp
        case isFalse hle =>
          rw [if_neg hle] at hp
          exact hf.free _ (freest_eq_some.mpr ⟨best, hold, hp, rfl⟩)
    case refine_2 =>
      obtain ⟨-, rfl, -, rfl⟩ := Call.stateless.inj h
      obtain ⟨hfr, hp⟩ := hm _ hfr
      obtain he | he := List.mem_append.mp he
      · exact hf.read _ _ _ _ rfl entry he hfr
      · obtain rfl := List.mem_singleton.mp he
        exact hp
  case inr.inr =>
    have hf := hf caller call hold
    refine hf.mono (fun target ht => ?_) fun id h => ((hfree caller id).mp h).left.resolve_left hb
    refine (available_step hs (hf.free target ht)).resolve_right ?_
    rintro ⟨acquirer, other, rfl, ho, rfl, hone⟩
    exact hu other ho hone caller (fun he => hne (he ▸ rfl)) call hold ht

-- What holds after a run in which calls contend for no last slot.
structure Admits (registry : Registry) (sha256 : Bytes → Bytes) (h : List (Input × Output))
    (s : Observed) : Prop where
  -- A permit is taken as long as it has an owner.
  slots  : ∀ (id : String) (profile : Profile), registry.instances[id]? = some profile →
    s.state.available id + s.state.outstanding id = profile.parallel
  owners : ∀ admission ∈ s.state.admitted, 0 < admission.2
  models : ∀ input request target model, (input, .admitted request target model) ∈ h →
    ∃ profile : Profile, registry.instances[target]? = some profile ∧
      (profile.alias = request.alias ∨ profile.id = request.alias) ∧ profile.model = model
  bound  : ∀ input request target model input' request' target' model' session,
    (input, .admitted request target model) ∈ h →
    (input', .admitted request' target' model') ∈ h → request.alias = request'.alias →
    request.headers.credential = request'.headers.credential →
    request.headers.session = .ok (some session) →
    request'.headers.session = .ok (some session) → target = target'
  -- A call without a session that is about to be refused.
  busy   : ∀ caller request ids start readings,
    s.state.calls caller = some (.stateless request ids start readings) →
    readings.length = ids.length → s.state.available (selected ids readings) = 0 →
    ∀ id ∈ ids, ¬s.free caller id

-- A call that has read as often as there are instances has read all of them.
theorem exists_reading {ids : List String} {start : Nat} {readings : List (Nat × Nat)}
    (hm : readings.map Prod.fst =
      (List.range readings.length).map (fun k => (start + k) % ids.length))
    (hl : readings.length = ids.length) {id : String} (hi : id ∈ ids) :
    ∃ entry ∈ readings, ids.getD entry.1 "" = id := by
  obtain ⟨index, hlt, rfl⟩ := List.getElem_of_mem hi
  have hmod : start % ids.length < ids.length := Nat.mod_lt _ (Nat.zero_lt_of_lt hlt)
  have hk : (start + (index + ids.length - start % ids.length) % ids.length) % ids.length =
      index := by
    rw [Nat.add_mod_mod, ←Nat.mod_add_mod, Nat.add_sub_of_le (by omega), Nat.add_mod_right,
      Nat.mod_eq_of_lt hlt]
  have he : index ∈ readings.map Prod.fst := by
    rw [hm, List.mem_map]
    refine ⟨_, ?_, hk⟩
    rw [List.mem_range, hl]
    exact Nat.mod_lt _ (Nat.zero_lt_of_lt hlt)
  obtain ⟨entry, hentry, rfl⟩ := List.mem_map.mp he
  exact ⟨entry, hentry, List.getD_eq_getElem _ _ hlt⟩

-- Every instance that has been free has been read to be free, and so has the selected one.
theorem not_free_of_busy (hs : s.state.Sound registry sha256)
    (hf : ∀ caller, ∀ call ∈ s.state.calls caller, Freest s caller call)
    {ids : List String} {start : Nat} {readings : List (Nat × Nat)}
    (hc : s.state.calls caller = some (.stateless request ids start readings))
    (hl : readings.length = ids.length) (hb : s.state.available (selected ids readings) = 0)
    {id : String} (hi : id ∈ ids) : ¬s.free caller id := by
  intro hfree
  obtain ⟨-, -, -, hm⟩ := (hs.calls caller _ hc).of_stateless
  obtain ⟨entry, he, rfl⟩ := exists_reading hm hl hi
  have hpos := (hf caller _ hc).read _ _ _ _ rfl entry he hfree
  obtain ⟨best, -, hbest, hmax⟩ := maxByKey_spec (List.ne_nil_of_mem he)
  have hsel : selected ids readings = ids.getD best.1 "" := by rw [selected, hbest, Option.elim_some]
  have ha := (hf caller _ hc).free _
    (freest_eq_some.mpr ⟨best, hbest, hpos.trans_le (hmax entry he), rfl⟩)
  rw [hsel] at hb
  omega

structure Observed.Sound (registry : Registry) (sha256 : Bytes → Bytes)
    (h : List (Input × Output)) (s : Observed) : Prop where
  state      : s.state.Sound registry sha256
  freest     : ∀ caller, ∀ call ∈ s.state.calls caller, Freest s caller call
  admissions : ∀ input request target model, (input, .admitted request target model) ∈ h →
    Admission registry sha256 request target model

theorem Observed.Sound.run (v : registry.Valid)
    (r : ((selects registry sha256).restrict fun s input _ _ => Uncontested s.state input).Run h s) :
    s.Sound registry sha256 h := by
  refine r.invariant ?_ fun h s input output s' _ hs hst => ?_
  case refine_1 =>
    rintro s ⟨hi, -⟩
    refine ⟨?_, ?_, nofun⟩
    case refine_1 => rw [hi]; exact ⟨nofun, fun id => rfl, nofun⟩
    case refine_2 => rw [hi]; exact nofun
  case refine_2 =>
    obtain ⟨hst, hu⟩ := hst
    refine ⟨hs.state.step hst.left, freest_step hs.freest hu hst, ?_⟩
    intro other request target model hm
    obtain hm | hm := List.mem_cons.mp hm
    · obtain ⟨rfl, rfl⟩ := Prod.mk.inj hm
      exact hs.state.admission v hst.left
    · exact hs.admissions other request target model hm

theorem selection_admission (entries : List Profile) (hn : Registry.new entries = .ok registry)
    (r : ((selects registry sha256).restrict fun s input _ _ => Uncontested s.state input).Run h s) :
    Admits registry sha256 h s := by
  have v := Registry.valid_of_new hn
  have hs := Observed.Sound.run v r
  refine ⟨fun id profile hp => ?_, hs.state.owners, ?_, ?_, ?_⟩
  case refine_1 =>
    rw [hs.state.slots id, hp]
    rfl
  case refine_2 => exact fun _ _ _ _ hm => (hs.admissions _ _ _ _ hm).model
  case refine_3 =>
    intro _ request target _ _ request' target' _ session hm hm' halias hcredential hsession hsession'
    obtain ⟨ids, ht, rfl⟩ := (hs.admissions _ _ _ _ hm).bound session hsession
    obtain ⟨ids', ht', rfl⟩ := (hs.admissions _ _ _ _ hm').bound session hsession'
    rw [←halias, ht] at ht'
    obtain rfl := Option.some.inj ht'
    rw [affinity, affinity, halias, hcredential]
  case refine_4 =>
    intro caller request ids start readings hc hl hb id hi
    exact not_free_of_busy hs.state hs.freest hc hl hb hi

end Busy

-- Two instances of one alias with a slot each.
section Replicas

variable {registry : Registry} {sha256 : Bytes → Bytes}

def replicas : List Profile :=
  [⟨"a", "x", "m", 1⟩, ⟨"b", "x", "m", 1⟩]

structure Registry.Replicated (registry : Registry) : Prop where
  new       : Registry.new replicas = .ok registry
  instances : registry.instances["a"]? = some ⟨"a", "x", "m", 1⟩ ∧
    registry.instances["b"]? = some ⟨"b", "x", "m", 1⟩
  targets   : registry.targets "x" = some ["a", "b"] ∧ registry.targets "b" = some ["b"]

theorem exists_replicated : ∃ registry : Registry, registry.Replicated := by
  have h : (Registry.new replicas).toOption.map (fun registry =>
      (registry.instances["a"]?, registry.instances["b"]?, registry.targets "x",
        registry.targets "b")) =
      some (some ⟨"a", "x", "m", 1⟩, some ⟨"b", "x", "m", 1⟩, some ["a", "b"], some ["b"]) := by
    decide +kernel
  cases hn : Registry.new replicas
  case error => rw [hn] at h; nomatch h
  case ok registry =>
    rw [hn] at h
    obtain ⟨ha, h⟩ := Prod.mk.inj (Option.some.inj h)
    obtain ⟨hb, h⟩ := Prod.mk.inj h
    exact ⟨registry, hn, ⟨ha, hb⟩, Prod.mk.inj h⟩

variable {s : State} {o : Observed} {input : Input} {output : Output} {caller : Nat}
variable {request : Request} {ids : List String} {start : Nat} {readings : List (Nat × Nat)}

-- The state after a step that leads to this one.
def Observed.next (o : Observed) (input : Input) (s : State) : Observed where
  state := s
  free caller id := (input.begins caller ∨ o.free caller id) ∧ 0 < s.available id

theorem step_next (h : Step registry sha256 o.state input output s) :
    (selects registry sha256).Step o input output (o.next input s) :=
  ⟨h, fun _ _ => Iff.rfl⟩

def Observed.initial (registry : Registry) : Observed where
  state := {
    next      := 0
    available := fun id => (registry.instances[id]?).elim 0 Profile.parallel
    calls     := fun _ => none
    admitted  := []
  }
  free _ _ := False

theorem init_initial (registry : Registry) (sha256 : Bytes → Bytes) :
    (selects registry sha256).Init (.initial registry) :=
  ⟨rfl, fun _ _ => id⟩

theorem step_stateless (caller : Nat) (request : Request) (hc : s.calls caller = none)
    (ht : registry.targets request.alias = some ids) (hs : request.headers.session = .ok none) :
    Step registry sha256 s (.begin caller request) .done { s.setCall caller
      (some (.stateless request ids (s.next % ids.length) [])) with
        next := (s.next + 1) % usize } :=
  .begin hc (by rw [State.begin, ht, hs])

theorem step_acquire (target model : String) (slots : Nat)
    (hc : s.calls caller = some (.stateless request ids start readings))
    (hl : readings.length = ids.length) (hs : selected ids readings = target)
    (ha : s.available target = slots + 1)
    (hm : (registry.instances[target]?).elim "" Profile.model = model) :
    Step registry sha256 s (.acquire caller) (.admitted request target model)
      { s.setCall caller none with
          available := Function.update s.available target slots
          admitted  := s.admitted ++ [(target, 1)] } := by
  refine .acquireStateless hc hl ?_
  have hn : (s.setCall caller none).available target ≠ 0 := ha ▸ Nat.succ_ne_zero slots
  rw [hs, State.tryAcquire, if_neg hn, hm]
  simp [State.setCall, ha]

theorem step_read (reading : Nat × Nat)
    (hc : s.calls caller = some (.stateless request ids start readings))
    (hl : readings.length < ids.length) (hr : s.reading ids start readings.length = reading) :
    Step registry sha256 s (.read caller) .done (s.setCall caller (some
      (.stateless request ids start (readings ++ [reading])))) :=
  hr ▸ .read hc hl

-- The first call has read both instances.
structure BothRead (registry : Registry) (o : Observed) : Prop where
  first     : o.state.calls 0 =
    some (.stateless ⟨"x", {}⟩ ["a", "b"] 0 [(0, 1), (1, 1)])
  others    : ∀ caller ≠ 0, o.state.calls caller = none
  available : o.state.available = (Observed.initial registry).state.available
  free      : o.free 0 "a"

theorem exists_bothRead (hr : registry.Replicated) (sha256 : Bytes → Bytes)
    {G : Observed → Input → Output → Observed → Prop}
    (hg : ∀ o input output o', (∀ caller, input ≠ .acquire caller) → G o input output o') :
    ∃ h o, ((selects registry sha256).restrict G).Run h o ∧ BothRead registry o := by
  obtain ⟨ha, hb⟩ := hr.instances
  have r₀ := System.Run.init (M := (selects registry sha256).restrict G)
    (init_initial registry sha256)
  have r₁ := r₀.step ⟨step_next (step_stateless 0 ⟨"x", {}⟩ rfl hr.targets.left rfl), hg _ _ _ _ nofun⟩
  have r₂ := r₁.step ⟨step_next (step_read (0, 1) (Function.update_self ..)
    (by decide) (by simp [State.reading, State.setCall, Observed.next, Observed.initial, ha])),
    hg _ _ _ _ nofun⟩
  have r₃ := r₂.step ⟨step_next (step_read (1, 1) (Function.update_self ..)
    (by decide) (by simp [State.reading, State.setCall, Observed.next, Observed.initial, hb])),
    hg _ _ _ _ nofun⟩
  refine ⟨_, _, r₃, rfl, fun caller hc => ?_, rfl, ?_⟩
  · simp [Observed.next, State.setCall, Observed.initial, hc]
  · simp [Observed.next, State.setCall, Observed.initial, Input.begins, ha]

-- A call that takes the last slot of an instance which no other call has read.
theorem selection_admission_sample : ∃ (registry : Registry) (h : List (Input × Output))
    (s : Observed), (.acquire 0, .admitted ⟨"x", {}⟩ "b" "m") ∈ h ∧ Admits registry id h s := by
  obtain ⟨registry, hr⟩ := exists_replicated
  obtain ⟨-, hb⟩ := hr.instances
  obtain ⟨h, o, r, hread⟩ := exists_bothRead hr id
    (G := fun s input _ _ => Uncontested s.state input) fun o input _ _ hn => by
      cases input <;> first | trivial | exact absurd rfl (hn _)
  have r₁ := r.step ⟨step_next (step_acquire "b" "m" 0 hread.first rfl rfl
    (by rw [hread.available]; simp [Observed.initial, hb]) (by rw [hb]; rfl)),
    fun call _ _ other ho rival hrival => by rw [hread.others other ho] at hrival; nomatch hrival⟩
  exact ⟨registry, _, _, List.mem_cons_self, selection_admission replicas hr.new r₁⟩

-- The first call has found the last slot of the second instance, and a second call takes it.
theorem exists_contested (hr : registry.Replicated) : ∃ h o, (selects registry id).Run h o ∧
    o.state.calls 0 = some (.stateless ⟨"x", {}⟩ ["a", "b"] 0 [(0, 1), (1, 1)]) ∧
    o.state.available "b" = 0 ∧ 0 < o.state.available "a" ∧ o.free 0 "a" := by
  obtain ⟨ha, hb⟩ := hr.instances
  obtain ⟨h, o, r, hread⟩ := exists_bothRead hr id (G := fun _ _ _ _ => True)
    fun _ _ _ _ _ => trivial
  have r₁ := r.of_restrict.step (step_next (step_stateless 1 ⟨"b", {}⟩
    (hread.others 1 (by decide)) hr.targets.right rfl))
  have r₂ := r₁.step (step_next (step_read (0, 1) (Function.update_self ..) (by decide)
    (by simp [State.reading, State.setCall, Observed.next, hread.available, Observed.initial, hb,
      Nat.mod_one])))
  have r₃ := r₂.step (step_next (step_acquire "b" "m" 0 (Function.update_self ..) rfl rfl
    (by simp [State.setCall, Observed.next, hread.available, Observed.initial, hb])
    (by rw [hb]; rfl)))
  have hf := hread.first
  refine ⟨_, _, r₃, ?_, ?_, ?_, ?_⟩
  all_goals simp [Observed.next, State.setCall, hf, hread.available, hread.free, Observed.initial,
    ha, Input.begins]

theorem deployment_refuses_while_free : ∃ (registry : Registry) (h : List (Input × Output))
    (s s' : Observed), Registry.new replicas = .ok registry ∧ (selects registry id).Run h s ∧
      ¬Admits registry id h s ∧
      (selects registry id).Step s (.acquire 0) (.busy ⟨"x", {}⟩) s' ∧ s'.free 0 "a" := by
  obtain ⟨registry, hr⟩ := exists_replicated
  obtain ⟨h, s, r, hc, hb, ha, hfree⟩ := exists_contested hr
  refine ⟨registry, h, s, s.next (.acquire 0) (s.state.setCall 0 none), hr.new, r, fun hadmits => ?_,
    step_next (.acquireStateless hc rfl ?_), .inr hfree, ha⟩
  case refine_1 => exact hadmits.busy _ _ _ _ _ hc rfl hb "a" (by simp) hfree
  case refine_2 => exact if_pos hb

end Replicas
end Api.Deployments
