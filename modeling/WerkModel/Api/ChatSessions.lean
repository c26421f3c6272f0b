import WerkModel.Lib.OrderedDict
import WerkModel.Lib.Lists
import WerkModel.Lib.System

-- The sessions of chats that the API keeps. A session belongs to the key of a model and a seed.
namespace Api.ChatSessions

def maxChatSessions : Nat := 64

structure ChatSessionCache (κ ι : Type) where
  entries : OrderedDict κ ι
  recency : List κ

-- The gates of keys, with the identities of their locks. A gate is kept by its holders only.
abbrev KeyedLocks (κ : Type) := List (κ × Nat)

variable {κ ι : Type} [DecidableEq κ]

namespace KeyedLocks

variable (gates : KeyedLocks κ) (alive : Nat → Bool)

omit [DecidableEq κ] in
def retain : KeyedLocks κ :=
  gates.filter (alive ·.2)

-- The gates have been retained before. Their holders may have dropped them since.
def get (fresh : Nat) (key : κ) : Nat × KeyedLocks κ :=
  match (gates.find? (·.1 = key)).filter (alive ·.2) with
  | some entry => (entry.2, gates)
  | none       => (fresh, gates ++ [(key, fresh)])

end KeyedLocks

namespace ChatSessionCache

variable (cache : ChatSessionCache κ ι)

def empty : ChatSessionCache κ ι where
  entries := .empty
  recency := []

def touch (key : κ) : ChatSessionCache κ ι :=
  { cache with recency := Recency.touch cache.recency key }

def get (isAvailable : ι → Bool) (key : κ) : Option ι × ChatSessionCache κ ι :=
  match (cache.entries.get? key).filter isAvailable with
  | none         => (none, cache)
  | some session => (some session, cache.touch key)

def evict (entries : OrderedDict κ ι) : List κ → ChatSessionCache κ ι
  | []                 => ⟨entries, []⟩
  | expired :: recency =>
    if entries.keys.length > maxChatSessions then evict (entries.erase expired) recency
    else ⟨entries, expired :: recency⟩

def insert (isAvailable : ι → Bool) (key : κ) (session : ι) : ι × ChatSessionCache κ ι :=
  match (cache.entries.get? key).filter isAvailable with
  | some existing => (existing, cache.touch key)
  | none          =>
    let cache := { cache with entries := cache.entries.set key session }.touch key
    (session, evict cache.entries cache.recency)

end ChatSessionCache

-- What the backend answers to the start of a session, and what the API answers to its caller.
inductive Answer (ι : Type)
  | failed
  | declined
  | session (session : ι)

inductive Lock
  | registry
  | gate (gate : Nat)
  deriving DecidableEq

-- The states of a call: it looks up its gate in the registry, waits for the gate, looks for the
-- session of its key in the cache, starts a session, has started it, knows its answer, has unlocked
-- the gate, and has dropped it.
inductive Phase (ι : Type)
  | registering
  | waiting (gate : Nat)
  | looking (gate : Nat)
  | starting (gate : Nat)
  | started (gate : Nat) (session : ι)
  | answering (gate : Nat) (answer : Answer ι)
  | leaving (gate : Nat) (answer : Answer ι)
  | returned (answer : Answer ι)

namespace Phase

def gate? : Phase ι → Option Nat
  | registering | returned _  => none
  | waiting gate | looking gate | starting gate | started gate _ | answering gate _
  | leaving gate _            => some gate

def lock? : Phase ι → Option Lock
  | registering                          => some .registry
  | waiting _ | leaving .. | returned _  => none
  | looking gate | starting gate | started gate _ | answering gate _ => some (.gate gate)

def answer? : Phase ι → Option (Answer ι)
  | answering _ answer | leaving _ answer | returned answer  => some answer
  | registering | waiting _ | looking _ | starting _ | started .. => none

end Phase

structure Call (κ ι : Type) where
  key   : κ
  phase : Phase ι

structure World (κ ι : Type) where
  gates     : KeyedLocks κ
  fresh     : Nat
  cache     : ChatSessionCache κ ι
  available : ι → Bool
  calls     : List (Call κ ι)

namespace World

variable (w : World κ ι)

omit [DecidableEq κ] in
-- Whether some call has a handle of a gate.
def alive (gate : Nat) : Bool :=
  w.calls.any (·.phase.gate? = some gate)

omit [DecidableEq κ] in
def Free (lock : Lock) : Prop :=
  ∀ call ∈ w.calls, call.phase.lock? ≠ some lock

omit [DecidableEq κ] in
def move (index : Nat) (key : κ) (phase : Phase ι) : World κ ι :=
  { w with calls := w.calls.set index ⟨key, phase⟩ }

end World

inductive Action (κ ι : Type)
  | enter (key : κ)
  | register (index : Nat)
  | lock (index : Nat)
  | look (index : Nat)
  | start (index : Nat) (answer : Answer ι)
  | insert (index : Nat)
  | unlock (index : Nat)
  | drop (index : Nat)
  | lose (session : ι)
  | regain (session : ι)

inductive Event (κ ι : Type)
  | silent
  | missed (key : κ)
  | obtained (key : κ) (session : ι)

inductive Step [DecidableEq ι] (w : World κ ι) :
    Action κ ι → Event κ ι → World κ ι → Prop
  | enter {key} :
    w.Free .registry →
    Step w (.enter key) .silent
      { w with gates := w.gates.retain w.alive, calls := w.calls ++ [⟨key, .registering⟩] }
  | register {index key gate gates} :
    w.calls[index]? = some ⟨key, .registering⟩ →
    w.gates.get w.alive w.fresh key = (gate, gates) →
    Step w (.register index) .silent
      { w.move index key (.waiting gate) with gates := gates, fresh := w.fresh + 1 }
  | lock {index key gate} :
    w.calls[index]? = some ⟨key, .waiting gate⟩ →
    w.Free (.gate gate) →
    Step w (.lock index) .silent (w.move index key (.looking gate))
  | hit {index key gate session cache} :
    w.calls[index]? = some ⟨key, .looking gate⟩ →
    w.cache.get w.available key = (some session, cache) →
    Step w (.look index) (.obtained key session)
      { w.move index key (.answering gate (.session session)) with cache := cache }
  | miss {index key gate cache} :
    w.calls[index]? = some ⟨key, .looking gate⟩ →
    w.cache.get w.available key = (none, cache) →
    Step w (.look index) (.missed key) { w.move index key (.starting gate) with cache := cache }
  | start {index key gate session} :
    w.calls[index]? = some ⟨key, .starting gate⟩ →
    Step w (.start index (.session session)) .silent (w.move index key (.started gate session))
  | fail {index key gate} :
    w.calls[index]? = some ⟨key, .starting gate⟩ →
    Step w (.start index .failed) .silent (w.move index key (.answering gate .failed))
  | decline {index key gate} :
    w.calls[index]? = some ⟨key, .starting gate⟩ →
    Step w (.start index .declined) .silent (w.move index key (.answering gate .declined))
  | insert {index key gate session session' cache} :
    w.calls[index]? = some ⟨key, .started gate session⟩ →
    w.cache.insert w.available key session = (session', cache) →
    Step w (.insert index) (.obtained key session')
      { w.move index key (.answering gate (.session session')) with cache := cache }
  | unlock {index key gate answer} :
    w.calls[index]? = some ⟨key, .answering gate answer⟩ →
    Step w (.unlock index) .silent (w.move index key (.leaving gate answer))
  | drop {index key gate answer} :
    w.calls[index]? = some ⟨key, .leaving gate answer⟩ →
    Step w (.drop index) .silent (w.move index key (.returned answer))
  | lose {session} :
    Step w (.lose session) .silent
      { w with available := Function.update w.available session false }
  | regain {session} :
    Step w (.regain session) .silent
      { w with available := Function.update w.available session true }

-- The sessions that are going to be started are available or not.
def chatSessions (κ ι : Type) [DecidableEq κ] [DecidableEq ι] :
    System (World κ ι) (Action κ ι) (Event κ ι) where
  Init w := w.gates = [] ∧ w.cache = .empty ∧ w.calls = []
  Step   := Step

section Cache

namespace ChatSessionCache

variable {cache cache' : ChatSessionCache κ ι} {isAvailable : ι → Bool}
variable {entries : OrderedDict κ ι} {recency uses : List κ} {key other : κ} {session session' : ι}

-- The cached keys and their sessions, the keys in the order of their uses.
structure Tracks (cache : ChatSessionCache κ ι) (uses : List κ) : Prop where
  exact   : ∀ key, key ∈ cache.recency ↔ key ∈ cache.entries
  ordered : Recency.Ordered uses cache.recency
  bounded : cache.entries.keys.length ≤ maxChatSessions

omit [DecidableEq κ] in
theorem length_eq (he : ∀ key, key ∈ recency ↔ key ∈ entries) (hn : recency.Nodup) :
    entries.keys.length = recency.length :=
  ((List.perm_ext_iff_of_nodup hn entries.keys_nodup).mpr he).length_eq.symm

theorem empty_tracks : (empty : ChatSessionCache κ ι).Tracks uses where
  exact _ := Iff.rfl
  ordered := .nil
  bounded := Nat.zero_le _

theorem Tracks.touch (t : cache.Tracks uses) (hk : key ∈ cache.entries) :
    (cache.touch key).Tracks (key :: uses) where
  exact other := by
    rw [ChatSessionCache.touch, Recency.mem_touch, t.exact]
    exact or_iff_right_of_imp fun h => h ▸ hk
  ordered := t.ordered.touch
  bounded := t.bounded

-- The keys that are dropped come first in the order of uses.
theorem evict_spec (he : ∀ key, key ∈ recency ↔ key ∈ entries) (hn : recency.Nodup)
    (h : evict entries recency = cache) :
    ∃ dropped, recency = dropped ++ cache.recency ∧
      (∀ key, cache.entries.get? key = if key ∈ dropped then none else entries.get? key) ∧
      cache.entries.keys.length ≤ maxChatSessions ∧ (dropped = [] ∨ cache.recency ≠ []) := by
  induction recency generalizing entries
  case nil =>
    obtain rfl := h
    refine ⟨[], rfl, fun _ => by simp [evict], ?_, .inl rfl⟩
    rw [evict, length_eq he hn]
    exact Nat.zero_le _
  case cons expired recency hi =>
    have hl := length_eq he hn
    rw [evict] at h
    split at h
    case isFalse hb =>
      obtain rfl := h
      exact ⟨[], rfl, fun _ => by simp, Nat.le_of_not_lt hb, .inl rfl⟩
    case isTrue hb =>
      obtain ⟨hne, hn⟩ := List.nodup_cons.mp hn
      have he' : ∀ key, key ∈ recency ↔ key ∈ entries.erase expired := fun key => by
        rw [OrderedDict.mem_erase, ←he, List.mem_cons]
        constructor
        case mp  => exact fun hm => ⟨.inr hm, fun h => hne (h ▸ hm)⟩
        case mpr => exact fun hm => hm.1.resolve_left hm.2
      obtain ⟨dropped, hr, hg, hb', hd⟩ := hi he' hn h
      refine ⟨expired :: dropped, by rw [List.cons_append, ←hr], fun key => ?_, hb', .inr ?_⟩
      case refine_1 =>
        rw [hg]
        by_cases hk : key = expired
        case pos => simp [hk, OrderedDict.get?_erase_self]
        case neg => simp only [List.mem_cons, hk, false_or, OrderedDict.get?_erase_of_ne hk]
      case refine_2 =>
        refine hd.elim (fun hd hr' => ?_) id
        rw [hd, hr', List.nil_append] at hr
        rw [hr, List.length_singleton] at hl
        rw [maxChatSessions] at hb
        omega

omit [DecidableEq κ] in
theorem not_mem_of_last {dropped kept : List κ} (hn : (recency ++ [key]).Nodup)
    (hr : recency ++ [key] = dropped ++ kept) (hk : kept ≠ []) : key ∉ dropped := by
  obtain rfl | ⟨front, last, rfl⟩ := kept.eq_nil_or_concat
  case inl => exact absurd rfl hk
  case inr =>
    rw [List.concat_eq_append, ←List.append_assoc] at hr
    obtain ⟨-, hl⟩ := List.append_inj' hr rfl
    rw [hr, ←hl, List.append_assoc] at hn
    exact fun h => List.disjoint_of_nodup_append hn h (by simp)

theorem get_cases : (∃ session, cache.get isAvailable key = (some session, cache.touch key) ∧
      cache.entries.get? key = some session ∧ isAvailable session) ∨
    cache.get isAvailable key = (none, cache) ∧
      ∀ session, cache.entries.get? key = some session → isAvailable session = false := by
  rw [get]
  cases hf : (cache.entries.get? key).filter isAvailable
  case none =>
    refine .inr ⟨rfl, fun session hs => ?_⟩
    simpa using Option.filter_eq_none_iff.mp hf session hs
  case some session => exact .inl ⟨session, rfl, Option.filter_eq_some_iff.mp hf⟩

-- The session of a key is given out. Another key is kept with its session, or it is used less
-- recently than all that are kept.
structure Serves (isAvailable : ι → Bool) (uses : List κ) (cache : ChatSessionCache κ ι) (key : κ)
    (session : ι) (cache' : ChatSessionCache κ ι) : Prop where
  tracks   : cache'.Tracks (key :: uses)
  current  : cache'.entries.get? key = some session
  existing : ∀ existing, cache.entries.get? key = some existing →
    existing = session ∨ isAvailable existing = false
  others   : ∀ other, other ≠ key → cache'.entries.get? other = cache.entries.get? other ∨
    other ∉ cache'.entries ∧ ∀ kept ∈ cache'.entries, Recency.Older (key :: uses) other kept

theorem Tracks.serves (t : cache.Tracks uses) (h : cache.entries.get? key = some session) :
    cache.Serves isAvailable uses key session (cache.touch key) where
  tracks         := t.touch (OrderedDict.mem_iff_get?.mpr ⟨_, h⟩)
  current        := h
  existing _ he  := .inl (Option.some.inj (he.symm.trans h))
  others _ _     := .inl rfl

theorem Tracks.get (t : cache.Tracks uses)
    (h : cache.get isAvailable key = (some session, cache')) :
    cache.Serves isAvailable uses key session cache' := by
  obtain ⟨session', hg, hs, -⟩ | ⟨hg, -⟩ := @get_cases κ ι _ cache isAvailable key
  case inl =>
    obtain ⟨he, rfl⟩ := Prod.mk.inj (hg.symm.trans h)
    exact t.serves (Option.some.inj he ▸ hs)
  case inr => cases hg.symm.trans h

theorem Tracks.insert (t : cache.Tracks uses)
    (h : cache.insert isAvailable key session = (session', cache')) :
    cache.Serves isAvailable uses key session' cache' := by
  rw [ChatSessionCache.insert] at h
  cases hf : (cache.entries.get? key).filter isAvailable
  case some existing =>
    rw [hf] at h
    obtain ⟨rfl, rfl⟩ := Prod.mk.inj h
    exact t.serves (Option.filter_eq_some_iff.mp hf).1
  case none =>
    rw [hf] at h
    obtain ⟨rfl, hc⟩ := Prod.mk.inj h
    have ho : Recency.Ordered (key :: uses) (Recency.touch cache.recency key) := t.ordered.touch
    have he : ∀ other, other ∈ Recency.touch cache.recency key ↔
        other ∈ cache.entries.set key session := fun other => by
      rw [Recency.mem_touch, OrderedDict.mem_set, t.exact]
    have hn := ho.nodup
    obtain ⟨dropped, hr, hg, hb, hd⟩ := evict_spec he hn hc
    have hk : key ∉ dropped := by
      obtain rfl | hd := hd
      case inl => exact List.not_mem_nil
      case inr => exact not_mem_of_last hn hr hd
    rw [hr] at ho hn
    have hm : ∀ other, other ∈ cache'.recency ↔ other ∈ cache'.entries := fun other => by
      rw [OrderedDict.mem_iff_get?, hg]
      split
      case isTrue hd  => simpa using List.disjoint_of_nodup_append hn hd
      case isFalse hd =>
        rw [←OrderedDict.mem_iff_get?, ←he, hr, List.mem_append, or_iff_right hd]
    refine ⟨⟨hm, ho.sublist (List.sublist_append_right ..), hb⟩, ?_, fun existing h => .inr ?_,
      fun other hne => ?_⟩
    case refine_1 => exact (hg key).trans ((if_neg hk).trans OrderedDict.get?_set_self)
    case refine_2 => simpa using Option.filter_eq_none_iff.mp hf existing h
    case refine_3 =>
      by_cases hd : other ∈ dropped
      case neg =>
        exact .inl ((hg other).trans ((if_neg hd).trans (OrderedDict.get?_set_of_ne hne)))
      case pos =>
        refine .inr ⟨OrderedDict.get?_eq_none.mp ((hg other).trans (if_pos hd)), fun kept hk => ?_⟩
        exact ho.older hd ((hm kept).mpr hk)

end ChatSessionCache

end Cache

end Api.ChatSessions
