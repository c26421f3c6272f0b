import WerkModel.RuntimeControl.Security

-- The secret key is created once and never changes, whichever of its creators fail or crash.
open Program (Completes Meets)

namespace RuntimeControl.Security

section Names

theorem isPrefixOf_and_isSuffixOf (start middle rest : List Char) :
    (start.isPrefixOf (start ++ middle ++ rest) && rest.isSuffixOf (start ++ middle ++ rest)) =
      true := by
  rw [Bool.and_eq_true, List.isPrefixOf_iff_prefix, List.isSuffixOf_iff_suffix]
  exact ⟨(List.prefix_append ..).trans (List.prefix_append ..), List.suffix_append ..⟩

theorem isStaging_stagingName (suffix : Vector UInt8 12) :
    isStaging (stagingName suffix) = true :=
  isPrefixOf_and_isSuffixOf ..

theorem isStaging_keyName : isStaging keyName = false := by
  decide

theorem isStaging_lockName : isStaging lockName = false := by
  decide

theorem ne_keyName {name : Name} (h : isStaging name = true) : name ≠ keyName := by
  rintro rfl
  exact absurd h (by simp [isStaging_keyName])

end Names

section Auth

variable {auth auth' auth'' : Auth} {name other : Name} {inode : Nat} {data : Bytes}

theorem files_remove :
    (auth.remove name).files other = if other = name then none else auth.files other :=
  Function.update_apply ..

theorem files_create :
    (auth.create name).files other = if other = name then some auth.created else auth.files other :=
  Function.update_apply ..

theorem files_link :
    (auth.link name inode).files other = if other = name then some inode else auth.files other :=
  Function.update_apply ..

theorem content_append :
    (auth.append inode data).content inode = auth.content inode ++ data :=
  Function.update_self ..

-- The key stays, and so does its content.
def Kept (auth auth' : Auth) : Prop :=
  ∀ inode, auth.files keyName = some inode →
    auth'.files keyName = some inode ∧ auth'.content inode = auth.content inode

structure Auth.Sound (auth : Auth) : Prop where
  key     : ∀ inode, auth.files keyName = some inode → (auth.content inode).length = secretBytes
  created : ∀ name inode, auth.files name = some inode → inode < auth.created
  names   : ∀ name, (auth.files name).isSome → name = keyName ∨ isStaging name = true

theorem Kept.refl : Kept auth auth :=
  fun _ h => ⟨h, rfl⟩

theorem Kept.trans (h : Kept auth auth') (h' : Kept auth' auth'') : Kept auth auth'' := by
  intro inode hk
  obtain ⟨hf, hc⟩ := h inode hk
  obtain ⟨hf', hc'⟩ := h' inode hf
  exact ⟨hf', hc'.trans hc⟩

theorem Kept.of_none (h : auth.files keyName = none) : Kept auth auth' :=
  fun inode hk => absurd (h.symm.trans hk) (Option.some_ne_none inode).symm

theorem kept_remove (hn : name ≠ keyName) : Kept auth (auth.remove name) :=
  fun _ hk => ⟨by rw [files_remove, if_neg hn.symm, hk], rfl⟩

namespace Auth.Sound

theorem remove (h : auth.Sound) (hn : name ≠ keyName) : (auth.remove name).Sound where
  key inode hk := by
    rw [files_remove, if_neg hn.symm] at hk
    exact h.key inode hk
  created other inode hf := by
    rw [files_remove] at hf
    split at hf
    case isTrue  => cases hf
    case isFalse => exact h.created other inode hf
  names other hs := by
    rw [files_remove] at hs
    split at hs
    case isTrue  => cases hs
    case isFalse => exact h.names other hs

theorem create (h : auth.Sound) (hn : isStaging name = true) (hk : auth.files keyName = none) :
    (auth.create name).Sound where
  key inode hf := by
    rw [files_create, if_neg (ne_keyName hn).symm, hk] at hf
    cases hf
  created other inode hf := by
    rw [files_create] at hf
    split at hf
    case isTrue  => exact Option.some.inj hf ▸ Nat.lt_succ_self _
    case isFalse => exact Nat.lt_succ_of_lt (h.created other inode hf)
  names other hs := by
    rw [files_create] at hs
    split at hs
    case isTrue he => exact .inr (he ▸ hn)
    case isFalse   => exact h.names other hs

theorem append (h : auth.Sound) (hk : auth.files keyName = none) :
    (auth.append inode data).Sound where
  key inode hf := absurd (hk.symm.trans hf) (Option.some_ne_none inode).symm
  created      := h.created
  names        := h.names

theorem link (h : auth.Sound) (hf : auth.files name = some inode)
    (hl : (auth.content inode).length = secretBytes) : (auth.link keyName inode).Sound where
  key other ho := by
    rw [files_link, if_pos rfl] at ho
    exact Option.some.inj ho ▸ hl
  created other i ho := by
    rw [files_link] at ho
    split at ho
    case isTrue  => exact Option.some.inj ho ▸ h.created name inode hf
    case isFalse => exact h.created other i ho
  names other hs := by
    rw [files_link] at hs
    split at hs
    case isTrue he => exact .inl he
    case isFalse   => exact h.names other hs

end Auth.Sound

end Auth

section Shared

variable {s s' s'' s₁ s₂ : Shared} {t other : Thread} {auth : Auth}

structure Shared.Sound (s : Shared) : Prop where
  auth     : s.auth.Sound
  derivers : ∀ process deriver secret, (s.derivers process deriver).secret = some secret →
    s.key = some secret
  gates    : ∀ process deriver t, (s.derivers process deriver).loadGate = some t →
    t.process = process ∧ t.deriver = deriver

-- What a thread relies on: nobody else changes the directory while it has locked it, or its deriver
-- while it holds the gate.
structure Rely (t : Thread) (s s' : Shared) : Prop where
  kept   : Kept s.auth s'.auth
  lock   : s.lock = some t → s'.lock = some t ∧ s'.auth = s.auth
  gate   : (s.deriver t).loadGate = some t → s'.deriver t = s.deriver t
  secret : ∀ secret, (s.deriver t).secret = some secret → (s'.deriver t).secret = some secret
  idle   : s.lock ≠ some t → s'.lock ≠ some t
  free   : (s.deriver t).loadGate ≠ some t → (s'.deriver t).loadGate ≠ some t

structure Idle (t : Thread) (s : Shared) : Prop where
  idle : s.lock ≠ some t
  free : (s.deriver t).loadGate ≠ some t

theorem Idle.rely (h : Idle t s) (hr : Rely t s s') : Idle t s' :=
  ⟨hr.idle h.idle, hr.free h.free⟩

theorem Rely.refl : Rely t s s :=
  ⟨.refl, fun h => ⟨h, rfl⟩, fun _ => rfl, fun _ h => h, id, id⟩

theorem Rely.trans (h : Rely t s s') (h' : Rely t s' s'') : Rely t s s'' where
  kept         := h.kept.trans h'.kept
  lock hl      := by
    obtain ⟨hl', ha⟩ := h.lock hl
    exact ⟨(h'.lock hl').left, (h'.lock hl').right.trans ha⟩
  gate hg      := by
    have he := h.gate hg
    exact (h'.gate (he ▸ hg)).trans he
  secret x hx  := h'.secret x (h.secret x hx)
  idle         := h'.idle ∘ h.idle
  free         := h'.free ∘ h.free

theorem key_of_kept (h : Kept s.auth s'.auth) {secret : Bytes} (hk : s.key = some secret) :
    s'.key = some secret := by
  obtain ⟨inode, hf, hc⟩ := Option.map_eq_some_iff.mp hk
  obtain ⟨hf', hc'⟩ := h inode hf
  exact Option.map_eq_some_iff.mpr ⟨inode, hf', hc'.trans hc⟩

theorem Shared.Sound.of_auth (h : s.Sound) (ha : auth.Sound) (hk : Kept s.auth auth) :
    { s with auth := auth }.Sound where
  auth                               := ha
  derivers process deriver secret hs := by
    have hs := h.derivers process deriver secret hs
    exact @key_of_kept s { s with auth := auth } hk secret hs
  gates                              := h.gates

theorem derivers_crash {process p : Nat} : (s.crash process).derivers p =
    if p = process then fun _ => ⟨none, none⟩ else s.derivers p :=
  Function.update_apply ..

theorem deriver_crash {process : Nat} (h : t.process ≠ process) :
    (s.crash process).deriver t = s.deriver t := by
  simp [Shared.deriver, Shared.crash, h]

theorem crash_rely {process : Nat} (h : t.process ≠ process) : Rely t s (s.crash process) where
  kept        := .refl
  lock hl     := ⟨by simp [Shared.crash, hl, h], rfl⟩
  gate _      := deriver_crash h
  secret x hx := by rwa [deriver_crash h]
  idle hl     := by simp [Shared.crash, hl]
  free hg     := by rwa [deriver_crash h]

theorem crash_idle : Idle t (s.crash t.process) where
  idle := by simp [Shared.crash]
  free := by simp [Shared.deriver, derivers_crash]

theorem Shared.Sound.crash {process : Nat} (h : s.Sound) : (s.crash process).Sound where
  auth := h.auth
  derivers p d secret hs := by
    rw [derivers_crash] at hs
    split at hs
    case isTrue  => cases hs
    case isFalse => exact h.derivers p d secret hs
  gates p d t hs := by
    rw [derivers_crash] at hs
    split at hs
    case isTrue  => cases hs
    case isFalse => exact h.gates p d t hs

theorem deriver_setDeriver_self {deriver : Deriver} :
    (s.setDeriver t deriver).deriver t = deriver := by
  simp [Shared.setDeriver, Shared.deriver]

-- Two threads use the same deriver, or changes of one do not concern the other.
theorem derivers_setDeriver (s : Shared) (t : Thread) (deriver : Deriver) (p d : Nat) :
    p = t.process ∧ d = t.deriver ∧ (s.setDeriver t deriver).derivers p d = deriver ∨
      (s.setDeriver t deriver).derivers p d = s.derivers p d := by
  by_cases hp : p = t.process
  case neg => exact .inr (by simp [Shared.setDeriver, hp])
  case pos =>
    by_cases hd : d = t.deriver
    case neg => exact .inr (by simp [Shared.setDeriver, hp, hd])
    case pos => exact .inl (by simp [Shared.setDeriver, hp, hd])

theorem deriver_setDeriver (s : Shared) (t other : Thread) (deriver : Deriver) :
    s.deriver other = s.deriver t ∧ (s.setDeriver t deriver).deriver other = deriver ∨
      (s.setDeriver t deriver).deriver other = s.deriver other := by
  obtain ⟨hp, hd, he⟩ | he := derivers_setDeriver s t deriver other.process other.deriver
  case inl => exact .inl ⟨by rw [Shared.deriver, hp, hd]; rfl, he⟩
  case inr => exact .inr he

theorem sound_initial : Shared.initial.Sound where
  auth     := ⟨fun _ h => (by cases h), fun _ _ h => (by cases h), fun _ h => (by cases h)⟩
  derivers := fun _ _ _ h => by cases h
  gates    := fun _ _ _ h => by cases h

end Shared

section Discipline

variable (lib : Libraries)

theorem initial_sound {s : Shared} (h : (derivers lib).Initial s) :
    s.Sound ∧ ∀ t, Idle t s := by
  obtain rfl : s = Shared.initial := h
  exact ⟨sound_initial, fun _ => ⟨fun h => (by cases h), fun h => (by cases h)⟩⟩

theorem crash_sound {dead : Set Thread} {s s' : Shared} (h : (derivers lib).Crash dead s s')
    (hs : s.Sound) : s'.Sound := by
  obtain ⟨process, -, rfl⟩ := h
  exact hs.crash

theorem crash_kept {dead : Set Thread} {s s' : Shared} (h : (derivers lib).Crash dead s s') :
    Kept s.auth s'.auth := by
  obtain ⟨process, -, rfl⟩ := h
  exact .refl

theorem survivor_rely {dead : Set Thread} {s s' : Shared} {t : Thread}
    (h : (derivers lib).Crash dead s s') (ht : t ∉ dead) : Rely t s s' := by
  obtain ⟨process, rfl, rfl⟩ := h
  exact crash_rely ht

theorem dead_idle {dead : Set Thread} {s s' : Shared} {t : Thread}
    (h : (derivers lib).Crash dead s s') (ht : t ∈ dead) : Idle t s' := by
  obtain ⟨process, rfl, rfl⟩ := h
  obtain rfl : t.process = process := ht
  exact crash_idle

def discipline : (derivers lib).Discipline where
  Invariant       := Shared.Sound
  Steady s s'     := Kept s.auth s'.auth
  Rely            := Rely
  Idle            := Idle
  steady_refl _   := .refl
  steady_trans    := Kept.trans
  rely_refl _ _   := .refl
  rely_trans      := Rely.trans
  rely_idle hr hi := hi.rely hr
  initial         := initial_sound lib
  crash_invariant := crash_sound lib
  crash_steady    := crash_kept lib
  crash_rely      := survivor_rely lib
  crash_idle      := dead_idle lib

end Discipline

section Guarantees

variable {lib : Libraries} {t : Thread} {s : Shared} {auth : Auth} {deriver : Deriver}

theorem guarantee_auth (hl : s.lock = some t) (hk : Kept s.auth auth) :
    (discipline lib).Guarantee t s { s with auth := auth } := by
  refine ⟨hk, fun other hne => ⟨hk, fun ho => ?_, fun _ => rfl, fun _ h => h, id, id⟩⟩
  exact absurd (Option.some.inj (ho.symm.trans hl)) hne

theorem guarantee_lock {lock : Option Thread} (hl : s.lock = none ∨ s.lock = some t)
    (hn : lock = none ∨ lock = some t) :
    (discipline lib).Guarantee t s { s with lock := lock } := by
  have hne {lock : Option Thread} (hl : lock = none ∨ lock = some t) {other : Thread}
      (hne : other ≠ t) : lock ≠ some other := by
    obtain rfl | rfl := hl
    case inl => exact (Option.some_ne_none other).symm
    case inr => exact fun he => hne (Option.some.inj he).symm
  exact ⟨.refl, fun other ho => ⟨.refl, fun h => absurd h (hne hl ho), fun _ => rfl, fun _ h => h,
    fun _ => hne hn ho, id⟩⟩

theorem guarantee_lockFile : (discipline lib).Guarantee t s { s with lockFile := true } :=
  ⟨.refl, fun _ _ => ⟨.refl, fun ho => ⟨ho, rfl⟩, fun _ => rfl, fun _ h => h, id, id⟩⟩

-- The deriver of a thread may be changed while nobody else holds its gate.
theorem guarantee_setDeriver
    (hg : (s.deriver t).loadGate = none ∨ (s.deriver t).loadGate = some t)
    (hn : deriver.loadGate = none ∨ deriver.loadGate = some t)
    (hs : ∀ secret, (s.deriver t).secret = some secret → deriver.secret = some secret) :
    (discipline lib).Guarantee t s (s.setDeriver t deriver) := by
  refine ⟨.refl, fun other hne =>
    ⟨.refl, fun ho => ⟨ho, rfl⟩, fun ho => ?_, fun x hx => ?_, id, fun ho => ?_⟩⟩
  case refine_1 =>
    obtain ⟨he, -⟩ | he := deriver_setDeriver s t other deriver
    case inr => exact he
    case inl =>
      rw [he] at ho
      obtain hg | hg := hg
      case inl => cases hg.symm.trans ho
      case inr => exact absurd (Option.some.inj (ho.symm.trans hg)) hne
  case refine_2 =>
    obtain ⟨he, hd⟩ | he := deriver_setDeriver s t other deriver
    case inl => exact (congrArg Deriver.secret hd).trans (hs x (he ▸ hx))
    case inr => exact he ▸ hx
  case refine_3 =>
    obtain ⟨-, hd⟩ | he := deriver_setDeriver s t other deriver
    case inr => exact he ▸ ho
    case inl =>
      rw [hd]
      obtain hn | hn := hn
      case inl => exact fun h => by cases hn.symm.trans h
      case inr => exact fun h => hne (Option.some.inj (h.symm.trans hn))

theorem Shared.Sound.setDeriver (h : s.Sound)
    (hn : deriver.loadGate = none ∨ deriver.loadGate = some t)
    (hd : ∀ secret, deriver.secret = some secret → s.key = some secret) :
    (s.setDeriver t deriver).Sound where
  auth := h.auth
  derivers p d secret hs := by
    obtain ⟨-, -, he⟩ | he := derivers_setDeriver s t deriver p d
    case inl => exact hd secret (he ▸ hs)
    case inr => exact h.derivers p d secret (he ▸ hs)
  gates p d g hs := by
    obtain ⟨hp, hd, he⟩ | he := derivers_setDeriver s t deriver p d
    case inr => exact h.gates p d g (he ▸ hs)
    case inl =>
      rw [he] at hs
      obtain hn | hn := hn
      case inl => cases hn.symm.trans hs
      case inr => exact Option.some.inj (hn.symm.trans hs) ▸ ⟨hp.symm, hd.symm⟩

theorem explained :
    Machine.Discipline.Explained (derivers lib) Effect (·.fallible = true) := by
  intro t s call answer s' ha
  cases ha
  case ok a he    => exact .inl ⟨a, rfl, he⟩
  case error e hf => exact .inr ⟨hf, rfl, e, rfl⟩

end Guarantees

section Locked

variable {lib : Libraries} {t : Thread} {s s' : Shared} {α β : Type}

def Gated (t : Thread) (s : Shared) : Prop :=
  (s.deriver t).loadGate = some t

-- What holds of the directory stays true while the thread has locked it.
structure Owns (t : Thread) (P : Auth → Prop) (s : Shared) : Prop where
  lock : s.lock = some t
  gate : Gated t s
  auth : P s.auth

def Yields (t : Thread) (P : α → Auth → Prop) : Except String α → Shared → Prop
  | .ok a, s    => Owns t (P a) s
  | .error _, s => Owns t (fun _ => True) s

theorem Gated.rely (h : Gated t s) (hr : Rely t s s') : Gated t s' :=
  (congrArg Deriver.loadGate (hr.gate h)).trans h

variable {P : Auth → Prop} {Q : α → Auth → Prop} {R : β → Auth → Prop}

theorem Owns.rely (h : Owns t P s) (hr : Rely t s s') : Owns t P s' :=
  ⟨(hr.lock h.lock).left, h.gate.rely hr, (hr.lock h.lock).right ▸ h.auth⟩

theorem Owns.mono {P' : Auth → Prop} (h : Owns t P s) (hp : P s.auth → P' s.auth) : Owns t P' s :=
  ⟨h.lock, h.gate, hp h.auth⟩

theorem Owns.any (h : Owns t P s) : Owns t (fun _ => True) s :=
  h.mono fun _ => trivial

theorem meets_return {a : α} (h : Owns t (Q a) s) :
    (pure a : Routine α).Meets ((discipline lib).contract t) (Yields t Q) s :=
  fun _ hr _ => h.rely hr

theorem meets_throw {error : String} (h : Owns t P s) :
    (Program.throw error : Routine α).Meets ((discipline lib).contract t) (Yields t Q) s :=
  fun _ hr _ => h.any.rely hr

theorem meets_bind {x : Routine α} {f : α → Routine β}
    (h : x.Meets ((discipline lib).contract t) (Yields t Q) s)
    (hf : ∀ a s, Owns t (Q a) s → (f a).Meets ((discipline lib).contract t) (Yields t R) s) :
    (x >>= f).Meets ((discipline lib).contract t) (Yields t R) s :=
  h.bind (fun a s _ => hf a s) fun _ _ _ => id

-- A call under the lock, with what it does to the directory.
theorem meets_call {call : Call} {Q : call.Answer → Auth → Prop} (hs : Owns t P s)
    (h : ∀ s a s', P s.auth → s.auth.Sound → Effect t s call a s' →
      ∃ auth, s' = { s with auth := auth } ∧ Kept s.auth auth ∧ auth.Sound ∧ Q a auth) :
    (perform call).Meets ((discipline lib).contract t) (Yields t Q) s := by
  refine (discipline lib).meets_perform explained (fun s₁ a s₂ hr hi he => ?_)
    fun _ _ _ hr => hs.any.rely hr
  have hs := hs.rely hr
  obtain ⟨auth, rfl, hk, hsound, hq⟩ := h s₁ a s₂ hs.auth hi.auth he
  refine ⟨guarantee_auth hs.lock hk, hi.of_auth hsound hk, fun s₃ hr => ?_⟩
  have ho : Owns t (Q a) { s₁ with auth := auth } := ⟨hs.lock, hs.gate, hq⟩
  exact ho.rely hr

-- A call that only looks.
theorem meets_look {call : Call} {Q : call.Answer → Auth → Prop} (hs : Owns t P s)
    (h : ∀ s a s', P s.auth → s.auth.Sound → Effect t s call a s' → s' = s ∧ Q a s.auth) :
    (perform call).Meets ((discipline lib).contract t) (Yields t Q) s := by
  refine meets_call hs fun s a s' hp hi he => ?_
  obtain ⟨rfl, hq⟩ := h s a s' hp hi he
  exact ⟨s'.auth, rfl, .refl, hi, hq⟩

theorem meets_keep {call : Call} (hs : Owns t P s)
    (h : ∀ s a s', Effect t s call a s' → s' = s) :
    (perform call).Meets ((discipline lib).contract t) (Yields t fun _ => P) s :=
  meets_look hs fun s a s' hp _ he => ⟨h s a s' he, hp⟩

variable {names : List Name} {staging name : Name} {secret data written : Bytes} {file : Nat}

theorem meets_removeFile (hs : Owns t P s) (hn : name ≠ keyName) {Q : Unit → Auth → Prop}
    (hq : ∀ auth, P auth → Q () (auth.remove name)) :
    (perform (.removeFile name)).Meets ((discipline lib).contract t) (Yields t Q) s := by
  refine meets_call hs fun s a s' hp hi he => ?_
  cases he
  exact ⟨_, rfl, kept_remove hn, hi.remove hn, hq _ hp⟩

theorem meets_cleanupEntries {inspected removed : Nat} (hs : Owns t (fun _ => True) s) :
    (cleanupEntries inspected removed names).Meets ((discipline lib).contract t)
      (Yields t fun _ _ => True) s := by
  fun_induction cleanupEntries inspected removed names generalizing s
  case case1 => exact meets_return hs
  case case2 => exact meets_throw hs
  case case3 hi => exact hi hs
  case case4 => exact meets_throw hs
  case case5 name names _ hn _ hi =>
    exact meets_bind (meets_removeFile hs (ne_keyName (by simpa using hn)) fun _ => id)
      fun _ _ hs => hi hs

theorem meets_cleanupStagingKeys (hs : Owns t (fun _ => True) s) :
    cleanupStagingKeys.Meets ((discipline lib).contract t) (Yields t fun _ _ => True) s := by
  refine meets_bind (meets_look hs (Q := fun _ _ => True) fun s a s' _ _ he => ?_)
    fun _ _ hs => meets_cleanupEntries hs
  cases he
  exact ⟨rfl, trivial⟩

-- The secret in the directory.
def Auth.Holds (secret : Bytes) (auth : Auth) : Prop :=
  (auth.files keyName).map auth.content = some secret

theorem meets_readSecret (hs : Owns t (fun _ => True) s) :
    readSecret.Meets ((discipline lib).contract t) (Yields t Auth.Holds) s := by
  refine meets_bind (Q := fun file auth => auth.files keyName = some file)
    (meets_look hs fun s a s' _ _ he => ?_) fun file s hs => ?_
  case refine_1 =>
    cases he
    case openFile hf => exact ⟨rfl, hf⟩
  refine meets_bind (Q := fun _ auth => auth.files keyName = some file)
    (meets_look hs fun s a s' hf _ he => ?_) fun length s hs => ?_
  case refine_1 =>
    cases he
    exact ⟨rfl, hf⟩
  split
  case isTrue  => exact meets_throw hs
  case isFalse =>
    refine meets_bind (Q := Auth.Holds)
      (meets_look hs fun s a s' hf hi he => ?_) fun bytes s hs => ?_
    case refine_1 =>
      cases he
      refine ⟨rfl, ?_⟩
      rw [Auth.Holds, hf, List.take_of_length_le ((hi.key file hf).trans_le (Nat.le_succ _))]
      rfl
    split
    case isTrue  => exact meets_return hs
    case isFalse => exact meets_throw hs

-- A new file that is not linked to the key yet.
structure Auth.Staged (staging : Name) (file : Nat) (written : Bytes) (auth : Auth) : Prop where
  absent  : auth.files keyName = none
  staged  : auth.files staging = some file
  content : auth.content file = written

theorem meets_createNew (hn : isStaging staging = true)
    (hs : Owns t (fun auth => auth.files keyName = none) s) :
    (perform (.createNew staging)).Meets ((discipline lib).contract t)
      (Yields t fun file => Auth.Staged staging file []) s := by
  refine meets_call hs fun s a s' hk hi he => ?_
  cases he
  refine ⟨_, rfl, .of_none hk, hi.create hn hk, ?_, ?_, ?_⟩
  · rw [files_create, if_neg (ne_keyName hn).symm, hk]
  · rw [files_create, if_pos rfl]
  · exact Function.update_self ..

theorem meets_write (hs : Owns t (Auth.Staged staging file written) s) :
    (perform (.write file data)).Meets ((discipline lib).contract t) (Yields t fun count auth =>
      0 < count ∧ auth.Staged staging file (written ++ data.take count)) s := by
  refine meets_call hs fun s a s' hp hi he => ?_
  cases he
  case write hpos _ =>
    refine ⟨_, rfl, .of_none hp.absent, hi.append hp.absent, hpos, hp.absent, hp.staged, ?_⟩
    rw [content_append, hp.content]

theorem meets_writeAll {rounds : Nat} (hs : Owns t (Auth.Staged staging file written) s)
    (hd : data.length ≤ rounds) :
    (writeAll file rounds data).Meets ((discipline lib).contract t)
      (Yields t fun _ => Auth.Staged staging file (written ++ data)) s := by
  induction rounds generalizing data written s
  case zero =>
    obtain rfl := List.length_eq_zero_iff.mp (Nat.le_zero.mp hd)
    exact meets_return (hs.mono fun h => (List.append_nil written).symm ▸ h)
  case succ rounds ih =>
    rw [writeAll]
    split
    case isTrue he =>
      exact meets_return (hs.mono fun h => by rwa [he, List.append_nil])
    case isFalse =>
      refine meets_bind (meets_write hs) fun count s hs => ?_
      have hl : (data.drop count).length ≤ rounds := by
        have := hs.auth.left
        rw [List.length_drop]
        omega
      have ht : written ++ data = written ++ data.take count ++ data.drop count := by
        rw [List.append_assoc, List.take_append_drop]
      rw [ht]
      exact ih (hs.mono And.right) hl

theorem meets_syncDirectory (hs : Owns t P s) :
    (perform .syncDirectory).Meets ((discipline lib).contract t) (Yields t fun _ => P) s :=
  meets_keep hs fun _ _ _ he => by cases he; rfl

theorem holds_remove {auth : Auth} (hn : isStaging staging = true) (h : auth.Holds secret) :
    (auth.remove staging).Holds secret := by
  rw [Auth.Holds, files_remove, if_neg (ne_keyName hn).symm]
  exact h

theorem meets_commitStagedSecret (hn : isStaging staging = true)
    (hl : secret.length = secretBytes) (hs : Owns t (Auth.Staged staging file secret) s) :
    (commitStagedSecret staging).Meets ((discipline lib).contract t)
      (Yields t fun _ => Auth.Holds secret) s := by
  refine meets_bind (Q := fun _ => Auth.Holds secret)
    (meets_call hs fun s a s' hp hi he => ?_) fun _ s hs => ?_
  case refine_1 =>
    cases he
    case hardLink inode hf _ =>
      obtain rfl : inode = file := Option.some.inj (hf.symm.trans hp.staged)
      refine ⟨_, rfl, .of_none hp.absent, hi.link hf (hp.content ▸ hl), ?_⟩
      rw [Auth.Holds, files_link, if_pos rfl]
      exact congrArg some hp.content
  refine meets_bind (meets_syncDirectory hs) fun _ s hs => ?_
  have hr : (perform (.removeFile staging)).Meets ((discipline lib).contract t)
      (Yields t fun _ => Auth.Holds secret) s :=
    meets_removeFile hs (ne_keyName hn) fun _ => holds_remove hn
  exact meets_bind hr fun _ _ hs => meets_syncDirectory hs

theorem meets_persistSecret (hn : isStaging staging = true) (hl : secret.length = secretBytes)
    (hs : Owns t (fun auth => auth.files keyName = none) s) :
    (persistSecret staging secret).Meets ((discipline lib).contract t)
      (Yields t fun _ => Auth.Holds secret) s := by
  refine meets_bind (meets_createNew hn hs) fun file s hs => ?_
  refine meets_bind (meets_writeAll hs le_rfl) fun _ s hs => ?_
  refine meets_bind (meets_keep hs fun _ _ _ he => by cases he; rfl) fun _ s hs => ?_
  exact meets_commitStagedSecret hn hl hs

theorem meets_createSecret (hs : Owns t (fun auth => auth.files keyName = none) s) :
    createSecret.Meets ((discipline lib).contract t) (Yields t Auth.Holds) s := by
  have hr (length : Nat) {s : Shared} (hs : Owns t (fun auth => auth.files keyName = none) s) :
      (perform (.getrandom length)).Meets ((discipline lib).contract t)
        (Yields t fun _ auth => auth.files keyName = none) s :=
    meets_keep hs fun _ _ _ he => by cases he; rfl
  refine meets_bind (hr secretBytes hs) fun secret s hs => ?_
  refine meets_bind (hr 12 hs) fun suffix s hs => ?_
  have hn := isStaging_stagingName suffix
  have hp : (persistSecret (stagingName suffix) secret.toList).Meets
      ((discipline lib).contract t) (Yields t fun _ => Auth.Holds secret.toList) s :=
    meets_persistSecret hn secret.length_toList hs
  refine hp.attempt_bind fun result s _ hy => ?_
  cases result
  case ok => exact meets_return hy
  case error error =>
    have hr : (perform (.removeFile (stagingName suffix))).Meets ((discipline lib).contract t)
        (Yields t fun _ _ => True) s :=
      meets_removeFile hy (ne_keyName hn) fun _ => id
    refine hr.attempt_bind fun removed s _ hy => ?_
    cases removed
    case ok    => exact meets_throw hy
    case error => exact meets_throw hy

theorem meets_loadLocked (hs : Owns t (fun _ => True) s) :
    loadLocked.Meets ((discipline lib).contract t) (Yields t Auth.Holds) s := by
  refine meets_bind (meets_cleanupStagingKeys hs) fun _ s hs => ?_
  refine meets_bind (Q := fun found auth => (auth.files keyName).isSome = found)
    (meets_look hs fun s a s' _ _ he => ?_) fun found s hs => ?_
  case refine_1 =>
    cases he
    exact ⟨rfl, rfl⟩
  cases found
  case true  => exact meets_readSecret hs.any
  case false => exact meets_createSecret (hs.mono fun h => by simpa using h)

end Locked

section Derive

variable {lib : Libraries} {t : Thread} {s s' : Shared} {secret : Bytes}
variable {result : Except String Bytes}

-- The gate is held, and the lock is not.
structure Outside (t : Thread) (s : Shared) : Prop where
  gate : Gated t s
  lock : s.lock ≠ some t

theorem Outside.rely (h : Outside t s) (hr : Rely t s s') : Outside t s' :=
  ⟨h.gate.rely hr, hr.idle h.lock⟩

structure Loaded (t : Thread) (result : Except String Bytes) (s : Shared) : Prop
    extends Outside t s where
  key : ∀ secret, result = .ok secret → s.key = some secret

theorem Loaded.rely (h : Loaded t result s) (hr : Rely t s s') : Loaded t result s' :=
  ⟨h.toOutside.rely hr, fun secret he => key_of_kept hr.kept (h.key secret he)⟩

theorem Outside.failed {error : String} (h : Outside t s) : Loaded t (.error error) s :=
  ⟨h, fun _ he => by cases he⟩

theorem Yields.owns (h : Yields t Auth.Holds result s) :
    Owns t (fun auth => ∀ secret, result = .ok secret → auth.Holds secret) s := by
  cases result
  case ok    => exact h.mono fun h _ he => Except.ok.inj he ▸ h
  case error => exact h.mono fun _ _ he => by cases he

theorem meets_unlock (hy : Yields t Auth.Holds result s) :
    (perform .unlock).Meets ((discipline lib).contract t)
      (fun r s => r = .ok () ∧ Loaded t result s) s := by
  refine (discipline lib).meets_perform explained (fun s₁ a s₂ hr hi he => ?_) fun hf => by cases hf
  cases he
  have ho := hy.owns.rely hr
  have h : Loaded t result { s₁ with lock := none } :=
    ⟨⟨ho.gate, (Option.some_ne_none t).symm⟩, ho.auth⟩
  exact ⟨guarantee_lock (.inr ho.lock) (.inl rfl), ⟨hi.auth, hi.derivers, hi.gates⟩,
    fun s₃ hr' => ⟨rfl, h.rely hr'⟩⟩

theorem meets_tryLockExclusive (h : Outside t s) :
    (perform .tryLockExclusive).Meets ((discipline lib).contract t)
      (fun r s => match r with
        | .ok _    => Owns t (fun _ => True) s
        | .error _ => Outside t s) s := by
  refine (discipline lib).meets_perform explained (fun s₁ a s₂ hr hi he => ?_)
    fun _ _ _ hr => h.rely hr
  cases he
  case tryLockExclusive hl =>
    refine ⟨guarantee_lock (.inl hl) (.inr rfl), ⟨hi.auth, hi.derivers, hi.gates⟩,
      fun s₃ hr' => ?_⟩
    have hg := h.gate.rely hr
    have ho : Owns t (fun _ => True) { s₁ with lock := some t } := ⟨rfl, hg, trivial⟩
    exact ho.rely hr'

theorem meets_openLock (h : Outside t s) :
    (perform .openLock).Meets ((discipline lib).contract t) (fun _ => Outside t) s := by
  refine (discipline lib).meets_perform explained (fun s₁ a s₂ hr hi he => ?_)
    fun _ _ _ hr => h.rely hr
  cases he
  have h := h.rely hr
  have h : Outside t { s₁ with lockFile := true } := ⟨h.gate, h.lock⟩
  exact ⟨guarantee_lockFile, ⟨hi.auth, hi.derivers, hi.gates⟩, fun s₃ hr' => h.rely hr'⟩

-- A call that changes nothing.
theorem meets_quiet {call : Call} (h : Outside t s) (hs : ∀ s a s', Effect t s call a s' → s' = s) :
    (perform call).Meets ((discipline lib).contract t) (fun _ => Outside t) s := by
  exact ((discipline lib).meets_look explained hs).mono fun _ _ hl => h.rely hl.rely

theorem meets_loadOrCreateSecret (h : Outside t s) :
    loadOrCreateSecret.Meets ((discipline lib).contract t) (Loaded t) s := by
  refine (meets_quiet h fun _ _ _ he => by cases he; rfl).bind (fun _ s _ h => ?_)
    fun _ _ _ h => h.failed
  refine (meets_openLock h).bind (fun _ s _ h => ?_) fun _ _ _ h => h.failed
  refine (meets_quiet h fun _ _ _ he => by cases he; rfl).bind (fun _ s _ h => ?_)
    fun _ _ _ h => h.failed
  refine (meets_tryLockExclusive h).bind (fun _ s _ ho => ?_) fun _ _ _ h => h.failed
  refine (meets_loadLocked ho).attempt_bind fun result s _ hy => ?_
  refine (meets_unlock hy).bind (fun _ s _ h => ?_) fun _ _ _ h => ?_
  case refine_1 => exact fun s' hr _ => h.right.rely hr
  case refine_2 => cases h.left

theorem meets_getSecret :
    (perform .getSecret).Meets ((discipline lib).contract t)
      (fun r s' => ∃ secret, r = .ok secret ∧ Rely t s s' ∧
        ∀ x, secret = some x → s'.key = some x) s := by
  refine (discipline lib).meets_perform explained (fun s₁ a s₂ hr hi he => ?_) fun hf => by cases hf
  cases he
  refine ⟨(discipline lib).guarantee_refl t s₁, hi, fun s₃ hr' => ⟨_, rfl, hr.trans hr', ?_⟩⟩
  exact fun x hx => key_of_kept hr'.kept (hi.derivers _ _ x hx)

theorem meets_loadSecret (h : Outside t s) :
    loadSecret.Meets ((discipline lib).contract t) (fun _ => Outside t) s := by
  refine meets_getSecret.bind (fun found s _ hf => ?_) fun _ _ _ hf => ?_
  case refine_2 =>
    obtain ⟨_, he, -⟩ := hf
    cases he
  obtain ⟨_, -, hr, -⟩ := hf
  have h := h.rely hr
  split
  case isFalse => exact fun s' hr _ => h.rely hr
  case isTrue  =>
    refine (meets_loadOrCreateSecret h).bind (fun secret s _ h => ?_) fun _ _ _ h => h.toOutside
    refine (discipline lib).meets_perform explained (fun s₁ a s₂ hr hi he => ?_)
      fun hf => by cases hf
    cases he
    have h := h.rely hr
    have ho : Outside t (s₁.setDeriver t
        { s₁.deriver t with secret := (s₁.deriver t).secret.or (some secret) }) :=
      ⟨(congrArg Deriver.loadGate deriver_setDeriver_self).trans h.gate, h.lock⟩
    refine ⟨guarantee_setDeriver (.inr h.gate) (.inr h.gate) fun x hx => by simp [hx],
      hi.setDeriver (.inr h.gate) fun x hx => ?_, fun s₃ hr' => ho.rely hr'⟩
    cases hs : (s₁.deriver t).secret
    case none =>
      rw [hs] at hx
      exact h.key x (congrArg Except.ok (Option.some.inj hx))
    case some y =>
      rw [hs] at hx
      exact Option.some.inj hx ▸ hi.derivers _ _ y hs

theorem meets_lockGate (h : Idle t s) :
    (perform .lockGate).Meets ((discipline lib).contract t)
      (fun r s => r = .ok () ∧ Outside t s) s := by
  refine (discipline lib).meets_perform explained (fun s₁ a s₂ hr hi he => ?_) fun hf => by cases hf
  cases he
  case lockGate hn =>
    have ho : Outside t (s₁.setDeriver t { s₁.deriver t with loadGate := some t }) :=
      ⟨congrArg Deriver.loadGate deriver_setDeriver_self, (h.rely hr).idle⟩
    refine ⟨guarantee_setDeriver (.inl hn) (.inr rfl) fun x hx => hx,
      hi.setDeriver (.inr rfl) ?_, fun s₃ hr' => ⟨rfl, ho.rely hr'⟩⟩
    exact fun x hx => hi.derivers _ _ x hx

theorem meets_unlockGate (h : Outside t s) :
    (perform .unlockGate).Meets ((discipline lib).contract t) (fun _ => Idle t) s := by
  refine (discipline lib).meets_perform explained (fun s₁ a s₂ hr hi he => ?_) fun hf => by cases hf
  cases he
  have h := h.rely hr
  have hd : Idle t (s₁.setDeriver t { s₁.deriver t with loadGate := none }) := by
    refine ⟨h.lock, ?_⟩
    rw [deriver_setDeriver_self]
    exact (Option.some_ne_none t).symm
  refine ⟨guarantee_setDeriver (.inr h.gate) (.inl rfl) fun x hx => hx,
    hi.setDeriver (.inl rfl) ?_, fun s₃ hr' => hd.rely hr'⟩
  exact fun x hx => hi.derivers _ _ x hx

theorem meets_guarded (h : Idle t s) :
    (Program.within (perform .lockGate) (perform .unlockGate) loadSecret).Meets
      ((discipline lib).contract t) (fun _ => Idle t) s := by
  refine (meets_lockGate h).bind (fun _ s _ h => ?_) fun _ _ _ h => ?_
  case refine_2 => cases h.left
  refine (meets_loadSecret h.right).attempt_bind fun result s _ h => ?_
  exact (meets_unlockGate h).bind (fun _ s _ h s' hr _ => h.rely hr) fun _ _ _ => id

-- A digest is made with the secret in the directory.
structure Derived (t : Thread) (lib : Libraries) (message : Bytes) (r : Except String String)
    (s : Shared) : Prop extends Idle t s where
  digest : ∀ digest, r = .ok digest →
    ∃ secret, s.key = some secret ∧ digest = lib.hmac secret message

theorem Idle.failed {message : Bytes} {error : String} (h : Idle t s) :
    Derived t lib message (.error error) s :=
  ⟨h, fun _ he => by cases he⟩

theorem meets_digest {message : Bytes} (h : Idle t s) :
    (digest lib message).Meets ((discipline lib).contract t) (Derived t lib message) s := by
  refine meets_getSecret.bind (fun found s _ hf => ?_) fun _ _ _ hf => ?_
  case refine_2 =>
    obtain ⟨_, he, -⟩ := hf
    cases he
  obtain ⟨_, he, hr, hk⟩ := hf
  obtain rfl := Except.ok.inj he
  have h := h.rely hr
  cases found
  case none        => exact fun s' hr _ => (h.rely hr).failed
  case some secret =>
    intro s' hr _
    refine ⟨h.rely hr, fun digest hd => ?_⟩
    exact ⟨secret, key_of_kept hr.kept (hk secret rfl), (Except.ok.inj hd).symm⟩

theorem meets_deriveScopedBytes {scope : String} {value : Bytes} (h : Idle t s) :
    (deriveScopedBytes lib scope value).Meets ((discipline lib).contract t)
      (Derived t lib (scopedMessage scope value)) s := by
  refine meets_getSecret.bind (fun found s _ hf => ?_) fun _ _ _ hf => ?_
  case refine_2 =>
    obtain ⟨_, he, -⟩ := hf
    cases he
  obtain ⟨_, -, hr, -⟩ := hf
  have h := h.rely hr
  split
  case isFalse => exact meets_digest h
  case isTrue  =>
    exact (meets_guarded h).bind (fun _ _ _ h => meets_digest h) fun _ _ _ h => h.failed

def Request.answer (lib : Libraries) (secret : Bytes) : Request → String
  | .derive apiKey           => "p_" ++ lib.hmac secret (scopedMessage "principal" (utf8 apiKey))
  | .fingerprint scope value => "hmac-sha256:" ++ lib.hmac secret (scopedMessage scope value)

-- A request is answered with the secret in the directory, if it is.
structure Answered (lib : Libraries) (t : Thread) (r : Except String String) (s : Shared) : Prop
    extends Idle t s where
  answer : ∀ text, r = .ok text →
    ∃ secret, s.key = some secret ∧ text = t.request.answer lib secret

theorem Derived.answered {message : Bytes} {start digest : String}
    (h : Derived t lib message (.ok digest) s) (hr : Rely t s s')
    (ha : ∀ secret, t.request.answer lib secret = start ++ lib.hmac secret message) :
    Answered lib t (.ok (start ++ digest)) s' := by
  refine ⟨h.toIdle.rely hr, fun text ht => ?_⟩
  obtain ⟨secret, hk, rfl⟩ := h.digest digest rfl
  exact ⟨secret, key_of_kept hr.kept hk, (Except.ok.inj ht).symm.trans (ha secret).symm⟩

theorem meets_serve (lib : Libraries) (t : Thread) (s : Shared) (h : Idle t s) :
    (serve lib t.request).Meets ((discipline lib).contract t) (Answered lib t) s := by
  have hf {e : String} {s : Shared} (h : Idle t s) : Answered lib t (.error e) s :=
    ⟨h, fun _ he => by cases he⟩
  cases hrequest : t.request
  case derive apiKey =>
    refine (meets_deriveScopedBytes h).bind (fun digest s _ hd s' hr _ => ?_) fun _ _ _ hd =>
      hf hd.toIdle
    exact hd.answered hr fun secret => by rw [hrequest]; rfl
  case fingerprint scope value =>
    rw [serve, fingerprint]
    split
    case isFalse => exact fun s' hr _ => hf (h.rely hr)
    case isTrue  =>
      refine (meets_deriveScopedBytes h).bind (fun digest s _ hd s' hr _ => ?_) fun _ _ _ hd =>
        hf hd.toIdle
      exact hd.answered hr fun secret => by rw [hrequest]; rfl

theorem upheld (lib : Libraries) : (discipline lib).Upheld (Answered lib) where
  meets t s _ := meets_serve lib t s
  idle _ _ _  := Answered.toIdle

end Derive

end RuntimeControl.Security
