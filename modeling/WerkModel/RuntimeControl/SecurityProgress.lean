import WerkModel.RuntimeControl.SecuritySafety

-- Once nobody has locked the directory, the next thread that asks for a principal gets an answer.
open Program (Completes Meets Progresses)

namespace RuntimeControl.Security

-- A thread that is alone for a while, with a file system that works.
section Alone

variable {lib : Libraries} {t : Thread} {s : Shared} {auth : Auth} {names : List Name}
variable {staging : Name} {file : Nat} {secret data written : Bytes}

structure SameRest (s s' : Shared) : Prop where
  lock     : s'.lock = s.lock
  derivers : s'.derivers = s.derivers

theorem SameRest.refl : SameRest s s :=
  ⟨rfl, rfl⟩

theorem SameRest.trans {s' s'' : Shared} (h : SameRest s s') (h' : SameRest s' s'') :
    SameRest s s'' :=
  ⟨h'.lock.trans h.lock, h'.derivers.trans h.derivers⟩

-- The staging files among `names` are gone.
structure Cleaned (names : List Name) (s s' : Shared) : Prop extends SameRest s s' where
  content : s'.auth.content = s.auth.content
  files   : ∀ name, s'.auth.files name =
    if name ∈ names ∧ isStaging name = true then none else s.auth.files name

theorem Cleaned.nil : Cleaned [] s s :=
  ⟨.refl, rfl, fun _ => by simp⟩

theorem completes_removeFile {name : Name} (hf : (s.auth.files name).isSome) :
    (perform (.removeFile name)).Completes (Effect t)
      (fun r s' => r = .ok () ∧ s' = { s with auth := s.auth.remove name }) s := by
  obtain ⟨inode, hf⟩ := Option.isSome_iff_exists.mp hf
  refine .perform ⟨_, _, .removeFile hf⟩ fun a s' he => ?_
  cases he
  exact ⟨rfl, rfl⟩

theorem completes_cleanupEntries {inspected removed : Nat} (hd : names.Nodup)
    (hf : ∀ name ∈ names, isStaging name = true → (s.auth.files name).isSome)
    (hi : inspected + names.length ≤ maxAuthDirectoryEntries)
    (hr : removed + (names.filter isStaging).length ≤ maxStagingKeysPerCleanup) :
    (cleanupEntries inspected removed names).Completes (Effect t)
      (fun r s' => r = .ok () ∧ Cleaned names s s') s := by
  fun_induction cleanupEntries inspected removed names generalizing s
  case case1 => exact ⟨rfl, .nil⟩
  case case2 name names hlt =>
    rw [List.length_cons] at hi
    omega
  case case3 name names _ hn ih =>
    obtain ⟨-, hd⟩ := List.nodup_cons.mp hd
    rw [List.length_cons] at hi
    rw [List.filter_cons_of_neg (by simp [hn])] at hr
    refine (ih hd (fun other ho => hf other (List.mem_cons_of_mem _ ho)) (by omega) hr).mono ?_
    rintro r s' ⟨hok, hc⟩
    refine ⟨hok, hc.toSameRest, hc.content, fun other => ?_⟩
    rw [hc.files]
    by_cases he : other = name
    case pos => simp [he, hn]
    case neg => simp [he]
  case case4 name names _ hn hlt =>
    rw [List.filter_cons_of_pos (by simpa using hn), List.length_cons] at hr
    omega
  case case5 name names _ hn _ ih =>
    have hn : isStaging name = true := by simpa using hn
    obtain ⟨hname, hd⟩ := List.nodup_cons.mp hd
    rw [List.length_cons] at hi
    rw [List.filter_cons_of_pos hn, List.length_cons] at hr
    refine (completes_removeFile (hf name (List.mem_cons_self ..) hn)).bind ?_ ?_
    case refine_2 => exact fun _ _ h => by cases h.left
    rintro _ s' ⟨-, rfl⟩
    refine (ih hd (fun other ho hs => ?_) (by omega) (by omega)).mono ?_
    case refine_1 =>
      have hne : other ≠ name := fun he => hname (he ▸ ho)
      rw [files_remove, if_neg hne]
      exact hf other (List.mem_cons_of_mem _ ho) hs
    case refine_2 =>
      rintro r s' ⟨hok, hc⟩
      refine ⟨hok, ⟨hc.lock, hc.derivers⟩, hc.content, fun other => ?_⟩
      rw [hc.files, files_remove]
      by_cases he : other = name
      case pos => simp [he, hn]
      case neg => simp [he]

-- The key, the lock file and the staging files are all there is.
theorem length_le_of_lists (hs : s.Sound) (hl : s.Lists names) :
    names.length ≤ (names.filter isStaging).length + 2 := by
  have hsub : (names.filter fun name => !isStaging name) ⊆ [keyName, lockName] := by
    intro name hm
    obtain ⟨hm, hn⟩ := List.mem_filter.mp hm
    obtain hsome | ⟨rfl, -⟩ := (hl.right name).mp hm
    case inr => simp
    case inl =>
      obtain rfl | hstaging := hs.auth.names name hsome
      case inl => simp
      case inr => simp [hstaging] at hn
  have hle := (List.subperm_of_subset (hl.left.filter _) hsub).length_le
  have hadd := List.length_eq_length_filter_add (l := names) isStaging
  rw [List.length_cons, List.length_singleton] at hle
  omega

-- The staging files that are left.
def Leftovers (s : Shared) (names : List Name) : Prop :=
  names.Nodup ∧ ∀ name, name ∈ names ↔ (s.auth.files name).isSome ∧ isStaging name = true

def Tidy (s : Shared) : Prop :=
  ∃ names, Leftovers s names ∧ names.length ≤ maxStagingKeysPerCleanup

theorem exists_lists (hs : s.Sound) (hl : Leftovers s names) : ∃ all, s.Lists all := by
  have hk : keyName ∉ names := fun hm =>
    absurd ((hl.right _).mp hm).right (by simp [isStaging_keyName])
  have hn : lockName ∉ names := fun hm =>
    absurd ((hl.right _).mp hm).right (by simp [isStaging_lockName])
  have hne : keyName ≠ lockName := by decide
  have ha (name : Name) : (s.auth.files name).isSome ↔
      name = keyName ∧ (s.auth.files keyName).isSome ∨ name ∈ names := by
    constructor
    case mp =>
      intro hsome
      obtain rfl | hstaging := hs.auth.names name hsome
      case inl => exact .inl ⟨rfl, hsome⟩
      case inr => exact .inr ((hl.right name).mpr ⟨hsome, hstaging⟩)
    case mpr =>
      rintro (⟨rfl, hsome⟩ | hm)
      case inl => exact hsome
      case inr => exact ((hl.right name).mp hm).left
  have hb (name : Name) (rest : List Name) (p : Prop) [Decidable p] (hr : rest.Nodup)
      (hm : name ∉ rest) : ((if p then [name] else []) ++ rest).Nodup ∧
        ∀ other, other ∈ (if p then [name] else []) ++ rest ↔
          other = name ∧ p ∨ other ∈ rest := by
    split
    case isTrue hp  => simp [hr, hm, hp]
    case isFalse hp => simp [hr, hp]
  obtain ⟨hd, hm⟩ := hb keyName names ((s.auth.files keyName).isSome) hl.left hk
  have hn : lockName ∉ (if (s.auth.files keyName).isSome then [keyName] else []) ++ names := by
    rw [hm]
    simp [hne.symm, hn]
  obtain ⟨hd', hm'⟩ := hb lockName _ (s.lockFile = true) hd hn
  refine ⟨_, hd', fun name => ?_⟩
  rw [hm', hm]
  exact or_comm.trans (or_congr_left (ha name).symm)

theorem length_filter_le {all : List Name} (hl : Leftovers s names) (ha : s.Lists all) :
    (all.filter isStaging).length ≤ names.length := by
  refine (List.subperm_of_subset (ha.left.filter _) fun name hm => ?_).length_le
  obtain ⟨hm, hstaging⟩ := List.mem_filter.mp hm
  obtain hsome | ⟨rfl, -⟩ := (ha.right name).mp hm
  case inl => exact (hl.right name).mpr ⟨hsome, hstaging⟩
  case inr => simp [isStaging_lockName] at hstaging

theorem completes_cleanupStagingKeys (hs : s.Sound) (ht : Tidy s) :
    cleanupStagingKeys.Completes (Effect t) (fun r s' => r = .ok () ∧ SameRest s s' ∧
      s'.auth.content = s.auth.content ∧ s'.auth.files keyName = s.auth.files keyName ∧
      ∀ name, isStaging name = true → s'.auth.files name = none) s := by
  obtain ⟨names, hleft, hlen⟩ := ht
  obtain ⟨all, hl⟩ := exists_lists hs hleft
  refine (Completes.perform (Q := fun r s' => ∃ names, r = .ok names ∧ s' = s ∧ s.Lists names)
    ⟨all, s, .readDir hl⟩ fun a s' he => ?_).bind ?_ ?_
  case refine_1 =>
    cases he
    case readDir hl => exact ⟨_, rfl, rfl, hl⟩
  case refine_3 =>
    rintro _ _ ⟨_, he, -⟩
    cases he
  rintro found _ ⟨names, he, rfl, hl⟩
  obtain rfl : found = names := Except.ok.inj he
  have hle := length_le_of_lists hs hl
  have hn := (length_filter_le hleft hl).trans hlen
  refine (completes_cleanupEntries hl.left (fun name hm hstaging => ?_) ?_ ?_).mono ?_
  case refine_1 =>
    obtain hsome | ⟨rfl, -⟩ := (hl.right name).mp hm
    case inl => exact hsome
    case inr => simp [isStaging_lockName] at hstaging
  case refine_2 =>
    rw [maxStagingKeysPerCleanup] at hn
    rw [maxAuthDirectoryEntries]
    omega
  case refine_3 => simpa using hn
  rintro r s' ⟨hok, hc⟩
  refine ⟨hok, hc.toSameRest, hc.content, ?_, fun name hstaging => ?_⟩
  case refine_1 => simp [hc.files, isStaging_keyName]
  case refine_2 =>
    rw [hc.files]
    split
    case isTrue     => rfl
    case isFalse hm =>
      by_contra hsome
      exact hm ⟨(hl.right name).mpr (.inl (Option.isSome_iff_ne_none.mpr hsome)), hstaging⟩

theorem completes_readSecret {inode : Nat} (hl : (s.auth.content inode).length = secretBytes)
    (hf : s.auth.files keyName = some inode) :
    readSecret.Completes (Effect t)
      (fun r s' => ∃ secret, r = .ok secret ∧ s'.key = some secret ∧ SameRest s s') s := by
  have ht : (s.auth.content inode).take (secretBytes + 1) = s.auth.content inode :=
    List.take_of_length_le (hl.trans_le (Nat.le_succ _))
  refine .perform_bind ⟨_, _, .openFile hf⟩ fun file s' he => ?_
  cases he
  case openFile hf' =>
    obtain rfl : inode = file := Option.some.inj (hf.symm.trans hf')
    refine .perform_bind ⟨_, _, .metadataLen⟩ fun length s' he => ?_
    cases he
    rw [if_neg (not_not.mpr hl)]
    refine .perform_bind ⟨_, _, .readToEnd⟩ fun bytes s' he => ?_
    cases he
    rw [ht, if_pos hl]
    exact ⟨_, rfl, by rw [Shared.key, hf]; rfl, .refl⟩

structure Staged (staging : Name) (file : Nat) (written : Bytes) (s s' : Shared) : Prop
    extends SameRest s s' where
  staged : s'.auth.Staged staging file written

theorem completes_writeAll {rounds : Nat} {s' : Shared} (h : Staged staging file written s s')
    (hd : data.length ≤ rounds) :
    (writeAll file rounds data).Completes (Effect t)
      (fun r s' => r = .ok () ∧ Staged staging file (written ++ data) s s') s' := by
  induction rounds generalizing data written s'
  case zero =>
    obtain rfl := List.length_eq_zero_iff.mp (Nat.le_zero.mp hd)
    exact ⟨rfl, by rwa [List.append_nil]⟩
  case succ rounds ih =>
    rw [writeAll]
    split
    case isTrue he  => exact ⟨rfl, by rwa [he, List.append_nil]⟩
    case isFalse hn =>
      have hpos : 0 < data.length := List.length_pos_iff.mpr hn
      refine .perform_bind ⟨_, _, .write hpos le_rfl⟩ fun count s'' he => ?_
      cases he
      case write hpos _ =>
        have hl : (data.drop count).length ≤ rounds := by
          rw [List.length_drop]
          omega
        have hs : Staged staging file (written ++ data.take count) s
            { s' with auth := s'.auth.append file (data.take count) } :=
          ⟨⟨h.lock, h.derivers⟩, h.staged.absent, h.staged.staged, by
            rw [content_append, h.staged.content]⟩
        have ih := ih hs hl
        rwa [List.append_assoc, List.take_append_drop] at ih

theorem completes_persistSecret (hn : isStaging staging = true)
    (hk : s.auth.files keyName = none) (hf : s.auth.files staging = none) :
    (persistSecret staging secret).Completes (Effect t)
      (fun r s' => r = .ok () ∧ s'.key = some secret ∧ SameRest s s') s := by
  have hne := (ne_keyName hn).symm
  refine .perform_bind ⟨_, _, .createNew hf⟩ fun file s₁ he => ?_
  cases he
  have hs : Staged staging s.auth.created [] s { s with auth := s.auth.create staging } := by
    refine ⟨⟨rfl, rfl⟩, ?_, ?_, Function.update_self ..⟩
    · rw [files_create, if_neg hne, hk]
    · rw [files_create, if_pos rfl]
  refine (completes_writeAll hs le_rfl).bind ?_ fun _ _ h => by cases h.left
  rintro _ s₂ ⟨-, hs⟩
  refine .perform_bind ⟨_, _, .syncAll⟩ fun _ s₃ he => ?_
  cases he
  refine .perform_bind ⟨_, _, .hardLink hs.staged.staged hs.staged.absent⟩ fun _ s₄ he => ?_
  cases he
  case hardLink inode hi _ =>
    obtain rfl : inode = s.auth.created := Option.some.inj (hi.symm.trans hs.staged.staged)
    refine .perform_bind ⟨_, _, .syncDirectory⟩ fun _ s₅ he => ?_
    cases he
    have hl : (s₂.auth.link keyName s.auth.created).files staging = some s.auth.created := by
      rw [files_link, if_neg (ne_keyName hn), hi]
    refine .perform_bind ⟨_, _, .removeFile hl⟩ fun _ s₆ he => ?_
    cases he
    refine .perform_bind ⟨_, _, .syncDirectory⟩ fun _ s₇ he => ?_
    cases he
    refine ⟨rfl, ?_, hs.lock, hs.derivers⟩
    have hh : (s₂.auth.link keyName s.auth.created).Holds secret := by
      rw [Auth.Holds, files_link, if_pos rfl]
      exact congrArg some hs.staged.content
    exact holds_remove hn hh

theorem completes_createSecret (hk : s.auth.files keyName = none)
    (hf : ∀ name, isStaging name = true → s.auth.files name = none) :
    createSecret.Completes (Effect t)
      (fun r s' => ∃ secret, r = .ok secret ∧ s'.key = some secret ∧ SameRest s s') s := by
  refine .perform_bind ⟨Vector.replicate _ 0, _, .getrandom⟩ fun secret s₁ he => ?_
  cases he
  refine .perform_bind ⟨Vector.replicate _ 0, _, .getrandom⟩ fun suffix s₂ he => ?_
  cases he
  have hn := isStaging_stagingName suffix
  refine (completes_persistSecret hn hk (hf _ hn)).attempt_bind ?_
  rintro _ s' ⟨rfl, hs⟩
  exact ⟨_, rfl, hs⟩

theorem completes_loadLocked (hs : s.Sound) (ht : Tidy s) :
    loadLocked.Completes (Effect t)
      (fun r s' => ∃ secret, r = .ok secret ∧ s'.key = some secret ∧ SameRest s s') s := by
  refine (completes_cleanupStagingKeys hs ht).bind ?_ fun _ _ h => by cases h.left
  rintro _ s₁ ⟨-, hrest, hc, hf, hn⟩
  refine .perform_bind ⟨_, _, .symlinkMetadata⟩ fun found s₂ he => ?_
  cases he
  cases hk : s₁.auth.files keyName
  case none =>
    refine (completes_createSecret hk hn).mono ?_
    rintro r s' ⟨secret, hr, hk, hrest'⟩
    exact ⟨secret, hr, hk, hrest.trans hrest'⟩
  case some inode =>
    have hold := hf.symm.trans hk
    have hread : (s₁.auth.content inode).length = secretBytes :=
      (congrArg (fun content => (content inode).length) hc).trans (hs.auth.key inode hold)
    refine (completes_readSecret hread hk).mono ?_
    rintro r s' ⟨secret, hr, hk, hrest'⟩
    exact ⟨secret, hr, hk, hrest.trans hrest'⟩

theorem completes_locked (hs : s.Sound) (ht : Tidy s) :
    (do
      let result ← loadLocked.attempt
      perform .unlock
      Program.done result : Routine Bytes).Completes (Effect t) (fun r s' =>
        ∃ secret, r = .ok secret ∧ s'.lock = none ∧ s'.derivers = s.derivers) s := by
  refine (completes_loadLocked hs ht).attempt_bind ?_
  rintro _ s' ⟨secret, rfl, -, hrest⟩
  refine .perform_bind ⟨_, _, .unlock⟩ fun _ s'' he => ?_
  cases he
  exact ⟨secret, rfl, rfl, hrest.derivers⟩

end Alone

section Loading

variable {lib : Libraries} {t : Thread} {s s' : Shared} {α β : Type}
variable {R : Except String β → Shared → Prop}

-- A thread that loads the secret can do so.
structure Ready (t : Thread) (s : Shared) : Prop extends Outside t s where
  sound    : s.Sound
  unlocked : s.lock = none
  tidy     : Tidy s

theorem Idle.not_ready (h : Idle t s) : ¬ Ready t s :=
  fun hr => h.free hr.gate

-- What the thread leaves behind before it lets go of the gate, if `done` is what it has done.
structure Leaves (t : Thread) (done : Prop) (s : Shared) : Prop where
  unlocked : s.lock = none
  gate     : Gated t s
  rest     : done ∨ Tidy s

theorem Ready.leaves {done : Prop} (h : Ready t s) : Leaves t done s :=
  ⟨h.unlocked, h.gate, .inr h.tidy⟩

theorem progresses_bind {x : Routine α} {f : α → Routine β}
    (hm : x.Meets ((discipline lib).contract t) (fun _ => Outside t) s)
    (hp : x.Progresses ((discipline lib).contract t) (Ready t) (Effect t) (fun _ => Ready t) s)
    (hf : ∀ a s, Outside t s →
      (f a).Progresses ((discipline lib).contract t) (Ready t) (Effect t) R s)
    (he : ∀ e s, Ready t s → R (.error e) s) :
    (x >>= f).Progresses ((discipline lib).contract t) (Ready t) (Effect t) R s :=
  .bind hm hp (fun a s _ => hf a s) (fun e s _ _ => he e s)
    (fun a s h => (hf a s h.toOutside).completes h.sound h) he

theorem progresses_call {call : Call} (he : ∀ s, Ready t s → ∃ a s', Effect t s call a s')
    (hs : ∀ s a s', Ready t s → Effect t s call a s' → Ready t s') :
    (perform call).Progresses ((discipline lib).contract t) (Ready t) (Effect t)
      (fun _ => Ready t) s :=
  fun s' _ _ => ⟨fun hr => .perform (he s' hr) fun a s'' => hs s' a s'' hr, fun _ _ _ _ _ _ => id⟩

def Call.keepsLock : Call → Bool
  | .unlock => false
  | _       => true

theorem calls_writeAll {file rounds : Nat} {data : Bytes} :
    (writeAll file rounds data).Calls (·.keepsLock = true) := by
  fun_induction writeAll file rounds data
  case case1 => trivial
  case case2 => trivial
  case case3 hi => exact .perform_bind rfl hi

theorem calls_cleanupEntries {inspected removed : Nat} {names : List Name} :
    (cleanupEntries inspected removed names).Calls (·.keepsLock = true) := by
  fun_induction cleanupEntries inspected removed names
  case case1    => trivial
  case case2    => trivial
  case case3 hi => exact hi
  case case4    => trivial
  case case5 hi => exact .perform_bind rfl fun _ => hi

theorem calls_readSecret : readSecret.Calls (·.keepsLock = true) := by
  refine .perform_bind rfl fun file => .perform_bind rfl fun length => ?_
  split
  case isTrue  => trivial
  case isFalse =>
    refine .perform_bind rfl fun bytes => ?_
    split
    case isTrue  => trivial
    case isFalse => trivial

theorem calls_persistSecret {staging : Name} {secret : Bytes} :
    (persistSecret staging secret).Calls (·.keepsLock = true) := by
  refine .perform_bind rfl fun file => calls_writeAll.bind fun _ => .perform_bind rfl fun _ => ?_
  exact .perform_bind rfl fun _ => .perform_bind rfl fun _ => .perform_bind rfl fun _ =>
    ⟨rfl, fun _ => trivial⟩

theorem calls_createSecret : createSecret.Calls (·.keepsLock = true) := by
  refine .perform_bind rfl fun secret => .perform_bind rfl fun suffix => ?_
  refine calls_persistSecret.attempt_bind fun result => ?_
  cases result
  case ok    => trivial
  case error => exact ⟨rfl, fun answer => by cases answer <;> trivial⟩

theorem calls_loadLocked : loadLocked.Calls (·.keepsLock = true) := by
  have hc : cleanupStagingKeys.Calls (·.keepsLock = true) :=
    .perform_bind rfl fun _ => calls_cleanupEntries
  refine hc.bind fun _ => .perform_bind rfl fun found => ?_
  cases found
  case true  => exact calls_readSecret
  case false => exact calls_createSecret

-- Until it unlocks the directory, the thread is not ready.
theorem progresses_loadLocked {Q : Except String Bytes → Shared → Prop} (hl : s.lock = some t) :
    loadLocked.Progresses ((discipline lib).contract t) (Ready t) (Effect t) Q s := by
  refine .of_calls (J := fun s => s.lock = some t) calls_loadLocked hl
    (fun s s' hl hr => (hr.lock hl).left) (fun s call answer s' hc hl ha => ?_)
    fun s hl hr => hr.lock hl
  cases ha
  case error => exact hl
  case ok he =>
    cases he
    case unlock           => cases hc
    case tryLockExclusive => rfl
    all_goals exact hl

theorem progresses_locked (ho : Owns t (fun _ => True) s) :
    (do
      let result ← loadLocked.attempt
      perform .unlock
      Program.done result : Routine Bytes).Progresses ((discipline lib).contract t) (Ready t)
        (Effect t) (fun r => Leaves t (∃ secret, r = .ok secret)) s := by
  refine .attempt_bind (Q := fun _ _ => False) (meets_loadLocked ho)
    (progresses_loadLocked ho.lock) (fun result s _ hy => ?_) fun _ _ h => h.elim
  have hl := hy.owns.lock
  refine fun s' hr _ => ⟨fun hready => absurd (hr.lock hl).left hready.lock, fun answer s'' _ => ?_⟩
  cases answer
  case ok    => exact fun s₃ _ _ hready => hready.leaves
  case error => exact fun s₃ _ _ hready => hready.leaves

theorem progresses_tryLockExclusive :
    (perform .tryLockExclusive).Progresses ((discipline lib).contract t) (Ready t) (Effect t)
      (fun r s => match r with
        | .ok _    => s.Sound ∧ Tidy s ∧ s.lock = some t ∧ Gated t s
        | .error _ => Ready t s) s := by
  intro s' hr hi
  refine ⟨fun hready => .perform ⟨_, _, .tryLockExclusive hready.unlocked⟩ fun a s'' he => ?_,
    fun answer s'' ha => ?_⟩
  case refine_1 =>
    cases he
    exact ⟨⟨hi.auth, hi.derivers, hi.gates⟩, hready.tidy, rfl, hready.gate⟩
  case refine_2 =>
    cases answer
    case error => exact fun _ _ _ => id
    case ok    =>
      intro s₃ hr' _ hready
      cases ha
      case ok he =>
        cases he
        exact absurd (hr'.lock rfl).left hready.lock

theorem progresses_loadOrCreateSecret (h : Outside t s) :
    loadOrCreateSecret.Progresses ((discipline lib).contract t) (Ready t) (Effect t)
      (fun r => Leaves t (∃ secret, r = .ok secret)) s := by
  refine progresses_bind (meets_quiet h fun _ _ _ he => by cases he; rfl)
    (progresses_call (fun _ _ => ⟨_, _, .ensureSafeParent⟩) fun s a s' hr he => by
      cases he
      exact hr)
    (fun _ s h => ?_) fun _ _ => Ready.leaves
  refine progresses_bind (meets_openLock h) (progresses_call (fun _ _ => ⟨_, _, .openLock⟩) ?_)
    (fun _ s h => ?_) fun _ _ => Ready.leaves
  case refine_1 =>
    intro s a s' hr he
    cases he
    have hs : { s with lockFile := true }.Sound :=
      ⟨hr.sound.auth, hr.sound.derivers, hr.sound.gates⟩
    exact ⟨⟨hr.gate, hr.lock⟩, hs, hr.unlocked, hr.tidy⟩
  refine progresses_bind (meets_quiet h fun _ _ _ he => by cases he; rfl)
    (progresses_call (fun _ _ => ⟨_, _, .restrictLock⟩) fun s a s' hr he => by
      cases he
      exact hr)
    (fun _ s h => ?_) fun _ _ => Ready.leaves
  refine .bind (meets_tryLockExclusive h) progresses_tryLockExclusive
    (fun _ s _ ho => progresses_locked ho) (fun _ _ _ _ => Ready.leaves) (fun _ s h => ?_)
    fun _ _ => Ready.leaves
  obtain ⟨hs, ht, -, hg⟩ := h
  refine (completes_locked hs ht).mono ?_
  rintro r s' ⟨secret, he, hl, hd⟩
  exact ⟨hl, by rwa [Gated, Shared.deriver, hd], .inl ⟨secret, he⟩⟩

-- What the thread has put into its deriver.
theorem completes_setSecret {secret : Bytes} :
    (perform (.setSecret secret)).Completes (Effect t)
      (fun r s' => r = .ok () ∧ (s'.deriver t).secret.isSome = true ∧ s'.lock = s.lock ∧
        (s'.deriver t).loadGate = (s.deriver t).loadGate) s := by
  refine .perform ⟨_, _, .setSecret⟩ fun a s' he => ?_
  cases he
  rw [deriver_setDeriver_self]
  refine ⟨rfl, ?_, rfl, rfl⟩
  cases (s.deriver t).secret
  case none => rfl
  case some => rfl

theorem leaves_setSecret {secret : Bytes} {done : Prop} (h : Leaves t done s) :
    (perform (.setSecret secret)).Completes (Effect t)
      (fun _ s => Leaves t ((s.deriver t).secret.isSome = true) s) s := by
  refine completes_setSecret.mono ?_
  rintro _ _ ⟨-, hs, hl, hg⟩
  exact ⟨hl.trans h.unlocked, hg.trans h.gate, .inl hs⟩

theorem progresses_setSecret {secret : Bytes} :
    (perform (.setSecret secret)).Progresses ((discipline lib).contract t) (Ready t) (Effect t)
      (fun _ s => Leaves t ((s.deriver t).secret.isSome = true) s) s := by
  refine fun s' hr hi => ⟨fun hready => ?_, fun answer s'' _ => ?_⟩
  case refine_1 => exact leaves_setSecret (hready.leaves : Leaves t True s')
  case refine_2 => exact fun s₃ _ _ hready => hready.leaves

theorem progresses_loadSecret (h : Outside t s) :
    loadSecret.Progresses ((discipline lib).contract t) (Ready t) (Effect t)
      (fun _ s => Leaves t ((s.deriver t).secret.isSome = true) s) s := by
  refine progresses_bind (meets_quiet h fun _ _ _ he => by cases he; rfl)
    (progresses_call (fun _ _ => ⟨_, _, .getSecret⟩) fun s a s' hr he => by
      cases he
      exact hr)
    (fun found s h => ?_) fun _ _ => Ready.leaves
  split
  case isFalse => exact fun s' _ _ hr => hr.leaves
  case isTrue  =>
    refine .bind (meets_loadOrCreateSecret h) (progresses_loadOrCreateSecret h)
      (fun _ _ _ _ => progresses_setSecret) (fun _ _ _ _ => Ready.leaves)
      (fun _ _ => leaves_setSecret) fun e s h => ⟨h.unlocked, h.gate, .inr ?_⟩
    obtain ⟨_, he⟩ | ht := h.rest
    case inl => cases he
    case inr => exact ht

-- What the thread leaves behind in the end.
structure Settled (t : Thread) (s : Shared) : Prop where
  unlocked : s.lock = none
  free     : (s.deriver t).loadGate = none
  rest     : (s.deriver t).secret.isSome = true ∨ Tidy s

theorem completes_unlockGate {result : Except String Unit} :
    (do
      perform .unlockGate
      Program.done result : Routine Unit).Completes (Effect t)
        (fun r s' => r = result ∧ s' = s.setDeriver t { s.deriver t with loadGate := none }) s := by
  refine .perform_bind ⟨_, _, .unlockGate⟩ fun a s' he => ?_
  cases he
  exact ⟨rfl, rfl⟩

theorem Leaves.settled (h : Leaves t ((s.deriver t).secret.isSome = true) s) :
    Settled t (s.setDeriver t { s.deriver t with loadGate := none }) := by
  refine ⟨h.unlocked, congrArg Deriver.loadGate deriver_setDeriver_self, h.rest.imp_left ?_⟩
  exact fun hs => by rwa [deriver_setDeriver_self]

theorem settled_unlockGate {result : Except String Unit}
    (h : Leaves t ((s.deriver t).secret.isSome = true) s) :
    (do
      perform .unlockGate
      Program.done result : Routine Unit).Completes (Effect t) (fun _ => Settled t) s :=
  completes_unlockGate.mono fun _ _ hd => hd.right ▸ h.settled

theorem progresses_unlockGate {result : Except String Unit} (h : Outside t s) :
    (do
      perform .unlockGate
      Program.done result : Routine Unit).Progresses ((discipline lib).contract t) (Ready t)
        (Effect t) (fun _ => Settled t) s := by
  refine fun s' hr hi => ⟨fun hready => settled_unlockGate hready.leaves, fun answer s'' ha => ?_⟩
  have hm : (perform .unlockGate).Meets ((discipline lib).contract t) (fun _ => Idle t) s :=
    meets_unlockGate h
  obtain ⟨-, hi, hn⟩ := hm s' hr hi answer s'' ha
  have hd := hn.result hi
  cases answer
  case ok    => exact fun s₃ hr' _ hready => absurd hready (hd.rely hr').not_ready
  case error => exact fun s₃ hr' _ hready => absurd hready (hd.rely hr').not_ready

theorem progresses_gated (h : Outside t s) :
    (do
      let result ← loadSecret.attempt
      perform .unlockGate
      Program.done result : Routine Unit).Progresses ((discipline lib).contract t) (Ready t)
        (Effect t) (fun _ => Settled t) s :=
  .attempt_bind (meets_loadSecret h) (progresses_loadSecret h)
    (fun _ _ _ h => progresses_unlockGate h) fun _ _ h => settled_unlockGate h

theorem progresses_guarded (h : Idle t s) :
    (Program.within (perform .lockGate) (perform .unlockGate) loadSecret).Progresses
      ((discipline lib).contract t) (Ready t) (Effect t) (fun _ => Settled t) s := by
  refine .bind (Q := fun r s => r = .ok () ∧ Ready t s) (meets_lockGate h)
    (fun s' hr _ => ⟨fun hready => absurd hready (h.rely hr).not_ready, fun answer s'' ha => ?_⟩)
    (fun _ _ _ h => progresses_gated h.right) (fun _ _ _ h => ?_)
    (fun _ s h => (@progresses_gated lib t s h.right.toOutside).completes h.right.sound h.right)
    fun _ _ h => ?_
  case refine_1 =>
    cases ha
    case ok       => exact fun s₃ _ _ hready => ⟨rfl, hready⟩
    case error hf => cases hf
  case refine_2 => cases h.left
  case refine_3 => cases h.left

theorem completes_digest {message : Bytes} : (digest lib message).Completes (Effect t)
    (fun r s' => s' = s ∧ ∀ secret, (s.deriver t).secret = some secret →
      r = .ok (lib.hmac secret message)) s := by
  refine .perform_bind ⟨_, _, .getSecret⟩ fun found s' he => ?_
  cases he
  cases hs : (s.deriver t).secret
  case none        => exact ⟨rfl, fun _ he => by cases he⟩
  case some secret => exact ⟨rfl, fun _ he => Option.some.inj he ▸ rfl⟩

-- A thread that holds no gate need not be left alone.
theorem progresses_idle {call : Call} {Q : Except String call.Answer → Shared → Prop}
    (h : Idle t s) (hs : ∀ s a s', Effect t s call a s' → s' = s) :
    (perform call).Progresses ((discipline lib).contract t) (Ready t) (Effect t) Q s := by
  refine fun s' hr _ => ⟨fun hready => absurd hready (h.rely hr).not_ready, fun answer s'' ha => ?_⟩
  have he : s'' = s' := by
    cases ha
    case ok he => exact hs _ _ _ he
    case error => rfl
  exact fun s₃ hr' _ hready => absurd hready ((h.rely hr).rely (he ▸ hr')).not_ready

theorem progresses_digest {message : Bytes} (h : Idle t s) :
    (digest lib message).Progresses ((discipline lib).contract t) (Ready t) (Effect t)
      (fun _ => Settled t) s := by
  refine .bind (Q := fun _ _ => False) meets_getSecret
    (progresses_idle h fun _ _ _ he => by cases he; rfl) (fun found s _ hf => ?_)
    (fun _ _ _ hf => ?_) (fun _ _ h => h.elim) fun _ _ h => h.elim
  case refine_1 =>
    obtain ⟨_, -, hr, -⟩ := hf
    have h := h.rely hr
    cases found
    case none => exact fun s' hr' _ hready => absurd hready (h.rely hr').not_ready
    case some => exact fun s' hr' _ hready => absurd hready (h.rely hr').not_ready
  case refine_2 =>
    obtain ⟨_, he, -⟩ := hf
    cases he

theorem progresses_deriveScopedBytes {scope : String} {value : Bytes} (h : Idle t s) :
    (deriveScopedBytes lib scope value).Progresses ((discipline lib).contract t) (Ready t)
      (Effect t) (fun _ => Settled t) s := by
  refine .bind (Q := fun _ _ => False) meets_getSecret
    (progresses_idle h fun _ _ _ he => by cases he; rfl) (fun found s _ hf => ?_)
    (fun _ _ _ hf => ?_) (fun _ _ h => h.elim) fun _ _ h => h.elim
  case refine_2 =>
    obtain ⟨_, he, -⟩ := hf
    cases he
  obtain ⟨_, -, hr, -⟩ := hf
  have h := h.rely hr
  split
  case isFalse => exact progresses_digest h
  case isTrue  =>
    refine .bind (meets_guarded h) (progresses_guarded h) (fun _ _ _ h => progresses_digest h)
      (fun _ _ _ h hready => absurd hready h.not_ready) (fun _ s h => ?_) fun _ _ => id
    exact completes_digest.mono fun _ _ hd => hd.left ▸ h

theorem progresses_serve (lib : Libraries) (t : Thread) (s : Shared) (h : Idle t s) :
    (serve lib t.request).Progresses ((discipline lib).contract t) (Ready t) (Effect t)
      (fun _ => Settled t) s := by
  have hb {scope start : String} {value : Bytes} : (do
      let digest ← deriveScopedBytes lib scope value
      return start ++ digest : Routine String).Progresses ((discipline lib).contract t) (Ready t)
        (Effect t) (fun _ => Settled t) s :=
    .bind (meets_deriveScopedBytes h) (progresses_deriveScopedBytes h)
      (fun _ _ _ h s' hr _ hready => absurd hready (h.toIdle.rely hr).not_ready)
      (fun _ _ _ h hready => absurd hready h.toIdle.not_ready) (fun _ _ => id) fun _ _ => id
  cases t.request
  case derive apiKey            => exact hb
  case fingerprint scope value  =>
    rw [serve, fingerprint]
    split
    case isTrue  => exact hb
    case isFalse => exact fun s' hr _ hready => absurd hready (h.rely hr).not_ready

end Loading

section Next

variable {lib : Libraries} {t g : Thread} {s : Shared}
variable {c : Machine.Pool Thread Call Call.Answer String String Shared}

def Request.Valid : Request → Prop
  | .derive _            => True
  | .fingerprint scope _ => validScope scope = true

-- If it is left alone and no call fails, the thread answers with the secret in the directory.
def Succeeds (lib : Libraries) (t : Thread) (s : Shared) : Prop :=
  (serve lib t.request).Completes (Effect t)
    (fun r s => ∃ secret, s.key = some secret ∧ r = .ok (t.request.answer lib secret)) s

-- The secret is in memory, or nothing is in the way of loading it.
def Available (t : Thread) (s : Shared) : Prop :=
  (s.deriver t).secret.isSome = true ∨ s.lock = none ∧ (s.deriver t).loadGate = none ∧ Tidy s

theorem completes_loadOrCreateSecret (h : Ready t s) :
    loadOrCreateSecret.Completes (Effect t) (fun r _ => ∃ secret, r = .ok secret) s := by
  refine .perform_bind ⟨_, _, .ensureSafeParent⟩ fun _ s₁ he => ?_
  cases he
  refine .perform_bind ⟨_, _, .openLock⟩ fun _ s₂ he => ?_
  cases he
  refine .perform_bind ⟨_, _, .restrictLock⟩ fun _ s₃ he => ?_
  cases he
  refine .perform_bind ⟨_, _, .tryLockExclusive h.unlocked⟩ fun _ s₄ he => ?_
  cases he
  have hs : { s with lockFile := true, lock := some t }.Sound :=
    ⟨h.sound.auth, h.sound.derivers, h.sound.gates⟩
  refine (completes_locked hs h.tidy).mono ?_
  rintro _ _ ⟨secret, he, -⟩
  exact ⟨secret, he⟩

theorem completes_loadSecret (h : Ready t s) : loadSecret.Completes (Effect t)
    (fun r s' => r = .ok () ∧ (s'.deriver t).secret.isSome = true) s := by
  refine .perform_bind ⟨_, _, .getSecret⟩ fun found s₁ he => ?_
  cases he
  cases hs : (s.deriver t).secret
  case some secret => exact ⟨rfl, Option.isSome_iff_exists.mpr ⟨secret, hs⟩⟩
  case none =>
    refine (completes_loadOrCreateSecret h).bind (fun secret s' _ => ?_) ?_
    case refine_1 => exact completes_setSecret.mono fun _ _ h => ⟨h.left, h.right.left⟩
    case refine_2 =>
      rintro _ _ ⟨_, he⟩
      cases he

theorem completes_guarded (hs : s.Sound) (hi : Idle t s) (hl : s.lock = none)
    (hg : (s.deriver t).loadGate = none) (ht : Tidy s) :
    (Program.within (perform .lockGate) (perform .unlockGate) loadSecret).Completes (Effect t)
      (fun r s => r = .ok () ∧ (s.deriver t).secret.isSome = true) s := by
  refine .perform_bind ⟨_, _, .lockGate hg⟩ fun _ s₁ he => ?_
  cases he
  have hr : Ready t (s.setDeriver t { s.deriver t with loadGate := some t }) := {
    gate     := congrArg Deriver.loadGate deriver_setDeriver_self
    lock     := hi.idle
    sound    := hs.setDeriver (.inr rfl) fun x hx => hs.derivers _ _ x hx
    unlocked := hl
    tidy     := ht
  }
  refine (completes_loadSecret hr).attempt_bind ?_
  rintro _ s₂ ⟨rfl, hsecret⟩
  refine completes_unlockGate.mono ?_
  rintro r _ ⟨rfl, rfl⟩
  exact ⟨rfl, by rwa [deriver_setDeriver_self]⟩

theorem digest_succeeds {message : Bytes} (h : (s.deriver t).secret.isSome = true) :
    (digest lib message).Completes (Effect t) (fun r _ => ∃ text, r = .ok text) s := by
  obtain ⟨secret, hs⟩ := Option.isSome_iff_exists.mp h
  exact completes_digest.mono fun _ _ hd => ⟨_, hd.right secret hs⟩

theorem completes_deriveScopedBytes {scope : String} {value : Bytes} (hs : s.Sound)
    (hi : Idle t s) (ha : Available t s) : (deriveScopedBytes lib scope value).Completes (Effect t)
      (fun r _ => ∃ text, r = .ok text) s := by
  refine .perform_bind ⟨_, _, .getSecret⟩ fun found s₁ he => ?_
  cases he
  cases hsecret : (s.deriver t).secret
  case some secret => exact digest_succeeds (Option.isSome_iff_exists.mpr ⟨secret, hsecret⟩)
  case none =>
    obtain hc | ⟨hl, hg, ht⟩ := ha
    case inl => simp [hsecret] at hc
    case inr =>
      refine (completes_guarded hs hi hl hg ht).bind (fun _ _ h => digest_succeeds h.right) ?_
      exact fun _ _ h => by cases h.left

theorem succeeds_of_available (hs : s.Sound) (hi : Idle t s) (ha : Available t s)
    (hv : t.request.Valid) : Succeeds lib t s := by
  have hb {scope start : String} {value : Bytes} : (do
      let digest ← deriveScopedBytes lib scope value
      return start ++ digest : Routine String).Completes (Effect t)
        (fun r _ => ∃ text, r = .ok text) s := by
    refine (completes_deriveScopedBytes hs hi ha).bind (fun digest _ _ => ⟨_, rfl⟩) ?_
    rintro _ _ ⟨_, he⟩
    cases he
  have hc : (serve lib t.request).Completes (Effect t) (fun r _ => ∃ text, r = .ok text) s := by
    cases hrequest : t.request
    case derive apiKey           => exact hb
    case fingerprint scope value =>
      have hv : validScope scope = true := by rwa [hrequest] at hv
      rw [serve, fingerprint, if_pos hv]
      exact hb
  have hm := hc.and_meets (meets_serve lib t s hi) hs fun _ _ _ _ => .ok
  refine hm.mono ?_
  rintro _ s' ⟨⟨text, rfl⟩, ha, -⟩
  obtain ⟨secret, hk, rfl⟩ := ha.answer text rfl
  exact ⟨secret, hk, rfl⟩

theorem Settled.available (h : Settled g s) (hd : s.deriver t = s.deriver g) : Available t s :=
  h.rest.imp (fun hs => hd ▸ hs) fun ht => ⟨h.unlocked, hd ▸ h.free, ht⟩

theorem Settled.idle (h : Settled g s) (hd : s.deriver t = s.deriver g) : Idle t s where
  idle := h.unlocked ▸ (Option.some_ne_none t).symm
  free := hd ▸ h.free ▸ (Option.some_ne_none t).symm

theorem deriver_eq (hp : g.process = t.process) (hd : g.deriver = t.deriver) (s : Shared) :
    s.deriver t = s.deriver g := by
  rw [Shared.deriver, Shared.deriver, hp, hd]

-- Who holds a gate is in the middle of loading.
theorem exists_program (hr : (derivers lib).system.Reachable c)
    (hg : (c.shared.deriver t).loadGate = some g) :
    g.process = t.process ∧ g.deriver = t.deriver ∧ ∃ p, c.threads g = some p := by
  have hs := (upheld lib).sound hr
  have hi : c.shared.Sound := hs.invariant
  obtain ⟨hp, hd⟩ := hi.gates t.process t.deriver g hg
  refine ⟨hp, hd, Option.ne_none_iff_exists'.mp fun hn => ?_⟩
  have hidle : Idle g c.shared := hs.idle g hn
  exact hidle.free (deriver_eq hp hd c.shared ▸ hg)

-- If there is no lock and the staging files are not too many, a request succeeds as soon as whoever
-- is loading for the same deriver has come to its end.
theorem next_request_succeeds (hr : (derivers lib).system.Reachable c)
    (hl : ∀ other, (c.threads other).isSome = true → c.shared.lock ≠ some other)
    (ht : Tidy c.shared) (hn : c.threads t = none) (hv : t.request.Valid) :
    ((c.shared.deriver t).loadGate = none → Succeeds lib t c.shared) ∧
      ∀ g, (c.shared.deriver t).loadGate = some g → ∃ p, c.threads g = some p ∧
        p.Completes (Effect g) (fun _ s => Succeeds lib t s) c.shared := by
  have hs := (upheld lib).sound hr
  have hi : c.shared.Sound := hs.invariant
  have hu : c.shared.lock = none := by
    by_contra hsome
    obtain ⟨other, ho⟩ := Option.ne_none_iff_exists'.mp hsome
    cases hp : c.threads other
    case some => exact hl other (by rw [hp]; rfl) ho
    case none =>
      have hidle : Idle other c.shared := hs.idle other hp
      exact hidle.idle ho
  refine ⟨fun hg => succeeds_of_available hi (hs.idle t hn) (.inr ⟨hu, hg, ht⟩) hv, fun g hg => ?_⟩
  obtain ⟨hp, hd, p, he⟩ := exists_program hr hg
  have hready : Ready g c.shared := {
    gate     := by rwa [Gated, ←deriver_eq hp hd]
    lock     := hu ▸ (Option.some_ne_none g).symm
    sound    := hi
    unlocked := hu
    tidy     := ht
  }
  have hpr := (upheld lib).progresses (fun t s _ => progresses_serve lib t s) hr he
  have hc := hpr.completes hi hready
  refine ⟨p, he, (hc.and_meets (hs.meets g p he) hi fun _ _ _ _ => .ok).mono ?_⟩
  rintro _ s ⟨hsettled, -, hsound⟩
  have hd := deriver_eq hp hd s
  exact succeeds_of_available hsound (hsettled.idle hd) (hsettled.available hd) hv

def sampleLibraries : Libraries :=
  ⟨fun _ _ => "0a"⟩

def sampleThread : Thread :=
  ⟨0, 0, 0, .derive "credential"⟩

theorem tidy_initial : Tidy Shared.initial :=
  ⟨[], ⟨List.nodup_nil, fun _ => ⟨fun h => (by cases h), fun h => (by cases h.left)⟩⟩,
    Nat.zero_le _⟩

theorem init_sample : (derivers sampleLibraries).system.Init ⟨fun _ => none, .initial⟩ :=
  ⟨rfl, fun _ => rfl⟩

theorem idle_initial {t : Thread} : Idle t Shared.initial :=
  (initial_sound sampleLibraries rfl).right t

theorem next_request_sample : Succeeds sampleLibraries sampleThread Shared.initial := by
  have hv : sampleThread.request.Valid := trivial
  exact (next_request_succeeds ⟨[], .init init_sample⟩ (fun _ h => by cases h) tidy_initial rfl
    hv).left rfl

end Next

section Runs

open Machine (Event Pool)

variable {lib : Libraries} {c c' : Pool Thread Call Call.Answer String String Shared}
variable {h : List (Event Thread String String × Unit)}

-- There is one secret, all answers so far have been made with it, and it stays.
structure Consistent (lib : Libraries) (h : List (Event Thread String String × Unit))
    (c : Pool Thread Call Call.Answer String String Shared) : Prop where
  answered   : ∀ t text, (.finished t (.ok text), ()) ∈ h →
    ∃ secret, c.shared.key = some secret ∧ text = t.request.answer lib secret
  length     : ∀ secret, c.shared.key = some secret → secret.length = secretBytes
  cached     : ∀ process deriver secret,
    (c.shared.derivers process deriver).secret = some secret → c.shared.key = some secret
  held       : ∀ t, c.shared.lock = some t ∨ (c.shared.deriver t).loadGate = some t →
    (c.threads t).isSome = true
  persistent : ∀ h' c', (derivers lib).system.Path c h' c' →
    ∀ secret, c.shared.key = some secret → c'.shared.key = some secret

theorem answered_of_run (r : (derivers lib).system.Run h c) {t : Thread} {text : String}
    (hm : (.finished t (.ok text), ()) ∈ h) :
    ∃ secret, c.shared.key = some secret ∧ text = t.request.answer lib secret := by
  have hi := r.invariant (I := fun h c => ∀ t text, (.finished t (.ok text), ()) ∈ h →
    ∃ secret, c.shared.key = some secret ∧ text = t.request.answer lib secret) ?_ ?_
  case refine_1 => exact fun _ _ _ _ hm => by cases hm
  case refine_2 =>
    intro h c e o c' r hi hc t text hm
    have hs := (upheld lib).sound ⟨h, r⟩
    obtain he | hm := List.mem_cons.mp hm
    case inr =>
      obtain ⟨secret, hk, ht⟩ := hi t text hm
      exact ⟨secret, key_of_kept (hs.shared hc).right hk, ht⟩
    case inl =>
      obtain ⟨rfl, -⟩ := Prod.mk.inj he
      exact (hs.finished hc).answer text rfl
  exact hi t text hm

theorem length_of_key {s : Shared} {secret : Bytes} (h : s.Sound) (hk : s.key = some secret) :
    secret.length = secretBytes := by
  obtain ⟨inode, hf, rfl⟩ := Option.map_eq_some_iff.mp hk
  exact h.auth.key inode hf

theorem consistent_of_run (r : (derivers lib).system.Run h c) : Consistent lib h c := by
  have hs := (upheld lib).sound ⟨h, r⟩
  have hi : c.shared.Sound := hs.invariant
  refine ⟨fun _ _ => answered_of_run r, fun _ => length_of_key hi, hi.derivers, fun t hl => ?_, ?_⟩
  case refine_1 =>
    cases ht : c.threads t
    case some => rfl
    case none =>
      have hidle : Idle t c.shared := hs.idle t ht
      obtain hl | hg := hl
      case inl => exact absurd hl hidle.idle
      case inr => exact absurd hg hidle.free
  case refine_2 =>
    exact fun h' c' p secret => key_of_kept ((upheld lib).steady ⟨h, r⟩ p)

theorem consistent_sample : ∃ h c text,
    (.finished sampleThread (.ok text), ()) ∈ h ∧ Consistent sampleLibraries h c := by
  have hs : Succeeds sampleLibraries sampleThread Shared.initial :=
    succeeds_of_available sound_initial idle_initial (.inr ⟨rfl, rfl, tidy_initial⟩) trivial
  have ho (s i o s') : Effect sampleThread s i o s' →
      (derivers sampleLibraries).Answers sampleThread s i (.ok o) s' := Answers.ok
  have hstart : (derivers sampleLibraries).Step ⟨fun _ => none, .initial⟩
      (.started sampleThread) () ⟨Function.update (fun _ => none) sampleThread
        (some (serve sampleLibraries sampleThread.request)), .initial⟩ := .start rfl
  have ht : Function.update (fun _ => none) sampleThread
      (some (serve sampleLibraries sampleThread.request)) sampleThread =
        some (serve sampleLibraries sampleThread.request) := Function.update_self ..
  obtain ⟨h, c, result, hr, ht, secret, -, rfl⟩ :=
    Machine.exists_run ho (.step (.init init_sample) hstart) ht hs
  exact ⟨_, _, _, List.mem_cons_self .., consistent_of_run (hr.step (.finish ht))⟩

end Runs

end RuntimeControl.Security
