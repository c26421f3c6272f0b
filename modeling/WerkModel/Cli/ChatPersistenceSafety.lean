import WerkModel.Cli.ChatPersistence

-- What a chat has saved is found by the next one, however its saves were cut off.
open Api (ChatMessage)
open Checks
open Faulty (Meets)

namespace Cli.History

-- What is written of an archive is read as this archive.
structure Faithful (lib : Libraries) (archive : ChatArchive) : Prop where
  messages : ∀ message ∈ archive.messages, lib.deserialize (lib.serialize message) = some message
  text     : lib.parse (lib.print (archive.toJson lib)).flatten = some (archive.toJson lib)

section Archives

variable {lib : Libraries} {identity : Identity} {archive : ChatArchive} {bytes written : Bytes}
variable {messages : List ChatMessage} {now : UInt64} {ttl expires : Option UInt64}

theorem foldlM_write {pieces : List Bytes}
    (h : pieces.foldlM BoundedBytes.write written = .ok bytes)
    (hw : written.length ≤ maxArchiveBytes) :
    bytes = written ++ pieces.flatten ∧ bytes.length ≤ maxArchiveBytes := by
  induction pieces generalizing written
  case nil =>
    obtain rfl := Except.ok.inj h
    simpa using hw
  case cons piece pieces hi =>
    rw [List.foldlM_cons, bind_eq_ok] at h
    obtain ⟨next, hn, h⟩ := h
    rw [BoundedBytes.write] at hn
    split at hn
    case isTrue  => cases hn
    case isFalse hl =>
      obtain rfl := Except.ok.inj hn
      have hl' : (written ++ piece).length ≤ maxArchiveBytes := by
        rw [List.length_append]
        omega
      rw [List.flatten_cons, ←List.append_assoc]
      exact hi h hl'

theorem toWriter_eq_ok (h : toWriter lib archive = .ok bytes) :
    bytes = (lib.print (archive.toJson lib)).flatten ∧ bytes.length ≤ maxArchiveBytes := by
  have := foldlM_write h (Nat.zero_le _)
  rwa [List.nil_append] at this

theorem mapM_deserialize
    (h : ∀ message ∈ messages, lib.deserialize (lib.serialize message) = some message) :
    (messages.map lib.serialize).mapM lib.deserialize = some messages := by
  induction messages
  case nil => rfl
  case cons message messages hi =>
    obtain ⟨hm, h⟩ := List.forall_mem_cons.mp h
    simp [hm, hi h]

theorem asUInt32_toUInt64 (version : UInt32) :
    asUInt32 (.unsigned version.toUInt64) = some version := by
  simpa [asUInt32, asUInt64] using version.toNat_lt

theorem asOptional_getD (value : Option UInt64) :
    asOptional ((value.map Json.unsigned).getD .null) = some value := by
  cases value <;> rfl

theorem nodup_fields : ChatArchive.fields.Nodup := by
  decide

theorem ofJson_toJson (hf : Faithful lib archive) :
    ChatArchive.ofJson lib (archive.toJson lib) = some archive := by
  have hv : ChatArchive.ofValues lib (.unsigned archive.schemaVersion.toUInt64)
      (.string archive.sessionFingerprint) (.unsigned archive.updatedUnixSeconds)
      ((archive.expiresUnixSeconds.map Json.unsigned).getD .null)
      (.array (archive.messages.map lib.serialize)) = some archive := by
    simp [ChatArchive.ofValues, asUInt32_toUInt64, asOptional_getD, mapM_deserialize hf.messages,
      Json.asString, Json.asArray, asUInt64]
  rw [ChatArchive.toJson, ChatArchive.ofJson]
  exact (if_pos ⟨nodup_fields, fun _ => id⟩).trans hv

theorem expiry_lt (h : expiry now ttl = .ok expires) (ht : ∀ seconds ∈ ttl, seconds ≠ 0) :
    ∀ expiry ∈ expires, now < expiry := by
  intro expiry he
  cases ttl
  case none      => cases h; cases he
  case some seconds =>
    have hz : seconds.toNat ≠ 0 := fun hz => ht seconds rfl (UInt64.toNat.inj hz)
    rw [Cli.History.expiry, checkedAdd] at h
    split at h
    case h_1 => cases h
    case h_2 sum hs =>
      split at hs
      case isFalse => cases hs
      case isTrue hlt =>
        cases hs
        cases h
        cases he
        rw [UInt64.lt_iff_toNat_lt, UInt64.toNat_add, Nat.mod_eq_of_lt hlt]
        omega

-- What has been written for a save is read as what was saved.
theorem readArchive_of_toWriter
    (hf : Faithful lib (archiveOf lib identity messages now expires))
    (hm : validateMessages messages = .ok ()) (he : expiry now ttl = .ok expires)
    (ht : ∀ seconds ∈ ttl, seconds ≠ 0)
    (hw : toWriter lib (archiveOf lib identity messages now expires) = .ok bytes) :
    readArchive lib (fingerprint lib identity) bytes =
      .ok (archiveOf lib identity messages now expires) := by
  obtain ⟨rfl, hlen⟩ := toWriter_eq_ok hw
  have hp : parseArchive lib (lib.print
      ((archiveOf lib identity messages now expires).toJson lib)).flatten =
      .ok (archiveOf lib identity messages now expires) := by
    rw [parseArchive, hf.text, Option.bind_some, ofJson_toJson hf]
  rw [readArchive, ensure_bind_eq_ok, bind_eq_ok]
  refine ⟨hlen, _, hp, ?_⟩
  rw [ensure_bind_eq_ok, ensure_bind_eq_ok]
  refine ⟨⟨rfl, rfl⟩, expiry_lt he ht, ?_⟩
  exact seq_eq_ok.mpr ⟨hm, rfl⟩

end Archives

section Saves

open Faulty

variable {lib : Libraries} {identity : Identity} {persistence : ChatPersistence}
variable {archive : ChatArchive} {bytes : Bytes} {messages : List ChatMessage} {now : UInt64}
variable {random : Option (Vector UInt8 12)} {suffix : Vector UInt8 12} {file : Option Bytes}
variable {w₀ w : World} {P : World → Prop}

structure Framed (w₀ w : World) : Prop where
  locks  : w.locks = w₀.locks
  chats  : w.chats = w₀.chats
  opened : w.opened = w₀.opened

-- At most staging files have changed.
structure Unsaved (w₀ w : World) : Prop extends Framed w₀ w where
  content : w.files .archive = w₀.files .archive
  renamed : w.renamed = w₀.renamed

structure Saved (w₀ : World) (archive : ChatArchive) (bytes : Bytes) (w : World) : Prop
    extends Framed w₀ w where
  content : w.files .archive = some bytes
  renamed : w.renamed = some archive

theorem archive_ne_staging : Path.archive ≠ .staging suffix :=
  fun h => by cases h

theorem files_write_self {path : Path} : (w.write path file).files path = file :=
  Function.update_self ..

theorem files_write_staging :
    (w.write (.staging suffix) file).files .archive = w.files .archive := by
  simp [World.write, archive_ne_staging]

theorem Unsaved.refl : Unsaved w w :=
  ⟨⟨rfl, rfl, rfl⟩, rfl, rfl⟩

theorem Unsaved.write (h : Unsaved w₀ w) : Unsaved w₀ (w.write (.staging suffix) file) :=
  ⟨⟨h.locks, h.chats, h.opened⟩, files_write_staging.trans h.content, h.renamed⟩

theorem Saved.write (h : Saved w₀ archive bytes w) :
    Saved w₀ archive bytes (w.write (.staging suffix) file) :=
  ⟨⟨h.locks, h.chats, h.opened⟩, files_write_staging.trans h.content, h.renamed⟩

theorem meets_inspect {α : Type} {f : World → Except String α} :
    Meets P (inspect f) (fun a w => P w ∧ f w = .ok a) P := by
  refine .step (fun w a w' hp hs => ?_) (fun _ h => h) fun _ _ h => h
  cases hf : f w
  case ok    => simp_all [Except.map]
  case error => simp_all [Except.map]

theorem meets_sync : Meets P sync (fun _ => P) P :=
  meets_inspect.mono (fun _ h => h) (fun _ _ h => h.left) fun _ h => h

theorem meets_createNew : Meets (Unsaved w₀) (createNew (.staging suffix))
    (fun _ w => Unsaved w₀ w ∧ w.files (.staging suffix) = some []) (Unsaved w₀) := by
  refine .step (fun w a w' hp hs => ?_) (fun _ h => h) fun _ _ h => h
  split at hs
  case isTrue  => cases hs
  case isFalse =>
    cases hs
    exact ⟨hp.write, files_write_self⟩

theorem meets_writeAll :
    Meets (fun w => Unsaved w₀ w ∧ w.files (.staging suffix) = some [])
      (writeAll (.staging suffix) bytes)
      (fun _ w => Unsaved w₀ w ∧ w.files (.staging suffix) = some bytes) (Unsaved w₀) := by
  refine .step (fun w a w' hp hs => ?_) (fun _ h => h.left) fun w n hp => hp.left.write
  cases hs
  exact ⟨hp.left.write, files_write_self.trans (congrArg _ hp.right)⟩

theorem meets_replaceArchive :
    Meets (fun w => Unsaved w₀ w ∧ w.files (.staging suffix) = some bytes)
      (replaceArchive (.staging suffix) archive)
      (fun _ => Saved w₀ archive bytes) (Unsaved w₀) := by
  refine .step (fun w a w' hp hs => ?_) (fun _ h => h.left) fun _ _ h => h.left
  rw [hp.right] at hs
  cases hs
  exact ⟨⟨hp.left.locks, hp.left.chats, hp.left.opened⟩, by simp [World.write], rfl⟩

theorem meets_writeAndRename : Meets (Unsaved w₀) (writeAndRename (.staging suffix) archive bytes)
    (fun _ => Saved w₀ archive bytes) fun w => Unsaved w₀ w ∨ Saved w₀ archive bytes w := by
  have hu {α : Type} {P : World → Prop} {p : Program α} {Q : α → World → Prop}
      (h : Meets P p Q (Unsaved w₀)) :
      Meets P p Q fun w => Unsaved w₀ w ∨ Saved w₀ archive bytes w :=
    h.mono (fun _ => id) (fun _ _ => id) fun _ => .inl
  refine .bind (hu meets_createNew) fun _ => .bind (hu meets_writeAll) fun _ => ?_
  refine .bind (meets_sync.mono (fun _ => id) (fun _ _ => id) fun _ h => .inl h.left) fun _ => ?_
  refine .bind (hu meets_replaceArchive) fun _ => ?_
  exact meets_sync.mono (fun _ => id) (fun _ _ => id) fun _ => .inr

theorem meets_ignore_removeFile (hp : ∀ w, P w → P (w.write (.staging suffix) none)) :
    Meets P (ignore (removeFile (.staging suffix))) (fun _ => P) P := by
  have hr : Meets P (removeFile (.staging suffix)) (fun _ => P) P := by
    refine .step (fun w a w' h hs => ?_) (fun _ => id) fun _ _ => id
    split at hs
    case isTrue  => cases hs; exact hp w h
    case isFalse => cases hs
  refine .bind hr.attempt fun r => .pure fun w hw => ?_
  cases r
  case ok    => exact hw
  case error => exact hw

theorem meets_publish : Meets (Unsaved w₀) (publish archive bytes random)
    (fun _ => Saved w₀ archive bytes) fun w => Unsaved w₀ w ∨ Saved w₀ archive bytes w := by
  cases random
  case none        => exact .throw fun _ => .inl
  case some suffix =>
    refine .bind meets_writeAndRename.attempt fun r => ?_
    cases r
    case ok    => exact .pure fun _ => id
    case error =>
      refine .bind (meets_ignore_removeFile ?_) fun _ => .throw fun _ => id
      exact fun w => Or.imp Unsaved.write Saved.write

-- A save of the messages that has put them in the place of the archive.
def Published (lib : Libraries) (identity : Identity) (persistence : ChatPersistence)
    (messages : List ChatMessage) (now : UInt64) (w₀ w : World) : Prop :=
  ∃ expires bytes, validateMessages messages = .ok () ∧
    expiry now persistence.policy.ttlSeconds = .ok expires ∧
    toWriter lib (archiveOf lib identity messages now expires) = .ok bytes ∧
    Saved w₀ (archiveOf lib identity messages now expires) bytes w

theorem meets_lift {α : Type} {x : Except String α} : Meets P (.lift x : Program α)
    (fun a w => x = .ok a ∧ P w) P :=
  .lift (fun _ _ hx hp => ⟨hx, hp⟩) fun _ => id

theorem meets_saveAt : Meets (Unsaved w₀) (saveAt lib identity persistence messages now random)
    (fun _ w => persistence.disk = none ∧ Unsaved w₀ w ∨
      Published lib identity persistence messages now w₀ w)
    fun w => Unsaved w₀ w ∨ Published lib identity persistence messages now w₀ w := by
  have hl {α : Type} {x : Except String α} {P : World → Prop} (h : ∀ w, P w → Unsaved w₀ w) :
      Meets P (.lift x : Program α) (fun a w => x = .ok a ∧ P w)
        fun w => Unsaved w₀ w ∨ Published lib identity persistence messages now w₀ w :=
    meets_lift.mono (fun _ => id) (fun _ _ => id) fun w hw => .inl (h w hw)
  rw [saveAt]
  refine .bind (hl fun _ => id) fun _ => .of_pure fun hm => ?_
  cases hd : persistence.disk
  case none => exact .pure fun w hw => .inl ⟨rfl, hw⟩
  case some =>
    refine .bind (hl fun _ => id) fun expires => .of_pure fun he => ?_
    refine .bind (hl fun _ => id) fun bytes => .of_pure fun hw => ?_
    refine .bind (meets_sync.mono (fun _ => id) (fun _ _ => id) fun _ => .inl) fun _ => ?_
    refine .bind (meets_sync.mono (fun _ => id) (fun _ _ => id) fun _ => .inl) fun _ => ?_
    have hp (w : World)
        (h : Saved w₀ (archiveOf lib identity messages now expires) bytes w) :
        Published lib identity persistence messages now w₀ w :=
      ⟨expires, bytes, hm, he, hw, h⟩
    exact meets_publish.mono (fun _ => id) (fun _ w h => .inr (hp w h)) fun w => Or.imp_right (hp w)

theorem succeeds_inspect {α : Type} {f : World → Except String α} {a : α}
    (h : ∀ w, P w → f w = .ok a) : Succeeds P (inspect f) fun b w => b = a ∧ P w :=
  .step fun w hw => ⟨a, w, by rw [h w hw]; rfl, rfl, hw⟩

theorem succeeds_sync : Succeeds P sync fun _ => P :=
  (succeeds_inspect (a := ()) fun _ _ => rfl).mono (fun _ => id) fun _ _ => And.right

-- Without a place to put them, messages that are valid are not kept.
theorem succeeds_saveAt_memory (hd : persistence.disk = none)
    (hm : validateMessages messages = .ok ()) :
    Succeeds (· = w₀) (saveAt lib identity persistence messages now random) fun _ w => w = w₀ := by
  rw [saveAt]
  refine .bind (.lift hm) fun _ => .of_pure fun _ => ?_
  rw [hd]
  exact .pure fun _ => id

-- A save of which no step fails, with a suffix that is not in use.
theorem succeeds_writeAndRename (hs : w₀.files (.staging suffix) = none) :
    Succeeds (· = w₀) (writeAndRename (.staging suffix) archive bytes) fun _ w =>
      w.renamed = some archive ∧ w.locks = w₀.locks ∧ w.chats = w₀.chats ∧
        w.opened = w₀.opened := by
  refine .bind (Q := fun _ w => w = w₀.write (.staging suffix) (some [])) (.step ?_) fun _ => ?_
  case refine_1 =>
    rintro w rfl
    exact ⟨(), _, if_neg (by simp [hs]), rfl⟩
  refine .bind (Q := fun _ w => w = w₀.write (.staging suffix) (some bytes)) (.step ?_) fun _ => ?_
  case refine_1 =>
    rintro w rfl
    exact ⟨(), _, rfl, by simp [World.write]⟩
  refine .bind succeeds_sync fun _ => ?_
  refine .bind (.step ?_) fun _ => succeeds_sync
  rintro w rfl
  have hw : (w₀.write (.staging suffix) (some bytes)).files (.staging suffix) = some bytes :=
    files_write_self
  refine ⟨(), ?w, ?_, ?_⟩
  case refine_1 => simp only [hw]; rfl
  case refine_2 => exact ⟨rfl, rfl, rfl, rfl⟩

theorem succeeds_saveAt {expires : Option UInt64} (hd : persistence.disk ≠ none)
    (hm : validateMessages messages = .ok ())
    (he : expiry now persistence.policy.ttlSeconds = .ok expires)
    (ht : toWriter lib (archiveOf lib identity messages now expires) = .ok bytes)
    (hs : w₀.files (.staging suffix) = none) :
    Succeeds (· = w₀) (saveAt lib identity persistence messages now (some suffix)) fun _ w =>
      w.renamed = some (archiveOf lib identity messages now expires) ∧ w.locks = w₀.locks ∧
        w.chats = w₀.chats ∧ w.opened = w₀.opened := by
  rw [saveAt]
  refine .bind (.lift hm) fun _ => .of_pure fun _ => ?_
  cases hn : persistence.disk
  case none => exact absurd hn hd
  case some =>
    refine .bind (.lift he) fun _ => .of_pure fun hx => ?_
    subst hx
    refine .bind (.lift ht) fun _ => .of_pure fun hx => ?_
    subst hx
    refine .bind succeeds_sync fun _ => .bind succeeds_sync fun _ => ?_
    refine .bind (succeeds_writeAndRename hs).attempt fun r => ?_
    rintro w ⟨a, rfl, hw⟩
    exact ⟨(), w, rfl, hw⟩

end Saves

section Opens

open Faulty

variable {lib : Libraries} {identity : Identity} {policy : PersistencePolicy} {now : UInt64}
variable {persistence : ChatPersistence} {archive : ChatArchive} {bytes : Bytes} {chat : Nat}
variable {w w₀ : World} {P : World → Prop}

def World.lock (w : World) (chat : Nat) : World :=
  { w with locks := Flock.acquire (exclusive chat) w.locks }

def Identity.Valid (identity : Identity) : Prop :=
  validateLabel identity.session "session" 256 = .ok () ∧
    validateLabel identity.modelId "model" 1024 = .ok ()

-- A chat that is being opened may have taken the lock.
def Opening (w₀ : World) (chat : Nat) (w : World) : Prop :=
  w = w₀ ∨ Flock.Grants w₀.locks (exclusive chat) ∧ w = w₀.lock chat

structure Opened (identity : Identity) (policy : PersistencePolicy) (w₀ : World) (chat : Nat)
    (persistence : ChatPersistence) (w : World) : Prop where
  identity : identity.Valid
  accepted : validatePolicy policy = .ok ()
  policy   : persistence.policy = policy
  disk     : persistence.disk = none ∧ w = w₀ ∨ persistence.disk = some chat ∧
    Flock.Grants w₀.locks (exclusive chat) ∧ w = w₀.lock chat

theorem meets_tryLockExclusive : Meets (· = w₀) (tryLockExclusive chat)
    (fun _ w => Flock.Grants w₀.locks (exclusive chat) ∧ w = w₀.lock chat) (· = w₀) := by
  refine .step (fun w a w' hp hs => ?_) (fun _ => id) fun _ _ => id
  subst hp
  split at hs
  case isFalse   => cases hs
  case isTrue hg => cases hs; exact ⟨hg, rfl⟩

-- Nothing is written any more, so that an archive that is found does not change what is locked.
theorem meets_resume :
    Meets P (resume lib identity persistence now)
      (fun r w => (r.1.policy = persistence.policy ∧ r.1.disk = persistence.disk) ∧ P w) P := by
  rw [resume]
  refine .bind (meets_inspect.mono (fun _ => id) (fun _ _ h => h.left) fun _ => id) fun bytes => ?_
  refine .bind (meets_lift.mono (fun _ => id) (fun _ _ h => h.right) fun _ => id) fun archive => ?_
  split
  case isTrue  =>
    split
    case isTrue  => exact .throw fun _ => id
    case isFalse => exact .pure fun _ hw => ⟨⟨rfl, rfl⟩, hw⟩
  case isFalse => exact .pure fun _ hw => ⟨⟨rfl, rfl⟩, hw⟩

theorem meets_openArchive {found : Bool} :
    Meets P (openArchive lib identity persistence now found)
      (fun r w => (r.1.policy = persistence.policy ∧ r.1.disk = persistence.disk) ∧ P w) P := by
  rw [openArchive]
  split
  case isTrue  => exact .pure fun _ hw => ⟨⟨rfl, rfl⟩, hw⟩
  case isFalse =>
    split
    case isTrue =>
      split
      case isTrue  => exact .throw fun _ => id
      case isFalse => exact .pure fun _ hw => ⟨⟨rfl, rfl⟩, hw⟩
    case isFalse => exact meets_resume

theorem meets_openDurable : Meets (· = w₀) (openDurable lib identity policy now chat)
    (fun r w => (r.1.policy = policy ∧ r.1.disk = some chat) ∧
      Flock.Grants w₀.locks (exclusive chat) ∧ w = w₀.lock chat) (Opening w₀ chat) := by
  rw [openDurable]
  refine .bind (meets_sync.mono (fun _ => id) (fun _ _ => id) fun _ => .inl) fun _ => ?_
  refine .bind (meets_sync.mono (fun _ => id) (fun _ _ => id) fun _ => .inl) fun _ => ?_
  refine .bind (meets_tryLockExclusive.mono (fun _ => id) (fun _ _ => id) fun _ => .inl) fun _ => ?_
  refine .bind (meets_inspect.mono (fun _ => id) (fun _ _ h => h.left) fun _ => .inr) fun _ => ?_
  exact meets_openArchive.mono (fun _ => id) (fun _ _ => id) fun _ => .inr

theorem meets_openAt : Meets (· = w₀) (openAt lib identity policy now chat)
    (fun r => Opened identity policy w₀ chat r.1) (Opening w₀ chat) := by
  have hl {x : Except String Unit} : Meets (· = w₀) (.lift x : Program Unit)
      (fun _ w => x = .ok () ∧ w = w₀) (Opening w₀ chat) :=
    meets_lift.mono (fun _ => id) (fun _ _ => id) fun _ => .inl
  rw [openAt]
  refine .bind hl fun _ => .of_pure fun hs => ?_
  refine .bind hl fun _ => .of_pure fun hm => ?_
  refine .bind hl fun _ => .of_pure fun hp => ?_
  split
  case isTrue =>
    refine meets_openDurable.mono (fun _ => id) (fun r w h => ?_) fun _ => id
    exact ⟨⟨hs, hm⟩, hp, h.left.left, .inr ⟨h.left.right, h.right⟩⟩
  case isFalse =>
    split
    case isTrue  => exact .throw fun _ => .inl
    case isFalse => exact .pure fun w hw => ⟨⟨hs, hm⟩, hp, rfl, .inl ⟨rfl, hw⟩⟩

theorem succeeds_openAt {found : Bool} {Q : ChatPersistence × List ChatMessage → World → Prop}
    (hi : identity.Valid) (hp : validatePolicy policy = .ok ()) (hd : policy.isDurable)
    (hg : Flock.Grants w₀.locks (exclusive chat)) (hf : (w₀.files .archive).isSome = found)
    (ha : Succeeds (· = w₀.lock chat)
      (openArchive lib identity ⟨some chat, policy, false, none⟩ now found) Q) :
    Succeeds (· = w₀) (openAt lib identity policy now chat) Q := by
  rw [openAt]
  refine .bind (.lift hi.left) fun _ => .of_pure fun _ => ?_
  refine .bind (.lift hi.right) fun _ => .of_pure fun _ => ?_
  refine .bind (.lift hp) fun _ => .of_pure fun _ => ?_
  rw [if_pos hd, openDurable]
  refine .bind succeeds_sync fun _ => .bind succeeds_sync fun _ => ?_
  refine .bind (Q := fun _ w => w = w₀.lock chat) (.step ?_) fun _ => ?_
  case refine_1 =>
    rintro w rfl
    exact ⟨(), w.lock chat, if_pos hg, rfl⟩
  refine .bind (succeeds_inspect (a := found) ?_) fun b => .of_pure fun hb => ?_
  case refine_1 =>
    rintro w rfl
    exact congrArg _ hf
  exact hb ▸ ha

-- An archive that has not expired is resumed.
theorem succeeds_openAt_resumed (hi : identity.Valid) (hp : validatePolicy policy = .ok ())
    (hd : policy.isDurable) (hr : policy.reuse ≠ .disabled)
    (hg : Flock.Grants w₀.locks (exclusive chat)) (hf : w₀.files .archive = some bytes)
    (ha : readArchive lib (fingerprint lib identity) bytes = .ok archive)
    (he : ∀ expiry ∈ archive.expiresUnixSeconds, now < expiry) :
    Succeeds (· = w₀) (openAt lib identity policy now chat)
      fun r _ => r = (⟨some chat, policy, true, none⟩, archive.messages) := by
  have hn : archive.expiresUnixSeconds.any (· ≤ now) = false := by
    cases hx : archive.expiresUnixSeconds
    case none        => rfl
    case some expiry => simpa using he expiry hx
  refine succeeds_openAt hi hp hd hg (congrArg Option.isSome hf) ?_
  rw [openArchive, if_neg hr, if_neg (by simp), resume]
  refine .bind (succeeds_inspect (a := bytes) ?_) fun found => .of_pure fun hb => ?_
  case refine_1 =>
    rintro w rfl
    simp [World.lock, hf]
  subst hb
  refine .bind (.lift (a := archive) (by rw [ha]; rfl)) fun read => .of_pure fun hread => ?_
  subst hread
  rw [hn, if_neg Bool.false_ne_true]
  exact .pure fun _ _ => rfl

theorem succeeds_openAt_new (hi : identity.Valid) (hp : validatePolicy policy = .ok ())
    (hd : policy.isDurable) (hr : policy.reuse = .prefer)
    (hg : Flock.Grants w₀.locks (exclusive chat)) (hf : w₀.files .archive = none) :
    Succeeds (· = w₀) (openAt lib identity policy now chat)
      fun r w => r = (⟨some chat, policy, false, none⟩, []) ∧ w = w₀.lock chat := by
  refine succeeds_openAt hi hp hd hg (congrArg Option.isSome hf) ?_
  rw [openArchive, hr]
  exact .pure fun _ hw => ⟨rfl, hw⟩

theorem succeeds_openAt_memory (hi : identity.Valid) (hp : validatePolicy policy = .ok ())
    (hd : policy.isDurable = false) (hr : policy.reuse ≠ .required) :
    Succeeds (· = w₀) (openAt lib identity policy now chat)
      fun r w => r = (⟨none, policy, false, none⟩, []) ∧ w = w₀ := by
  rw [openAt]
  refine .bind (.lift hi.left) fun _ => .of_pure fun _ => ?_
  refine .bind (.lift hi.right) fun _ => .of_pure fun _ => ?_
  refine .bind (.lift hp) fun _ => .of_pure fun _ => ?_
  rw [hd, if_neg Bool.false_ne_true, if_neg hr]
  exact .pure fun _ hw => ⟨rfl, hw⟩

end Opens

section Runs

variable {lib : Libraries} {identity : Identity} {policy : PersistencePolicy} {now : UInt64}
variable {persistence : ChatPersistence} {archive : ChatArchive} {messages : List ChatMessage}
variable {random : Option (Vector UInt8 12)} {fates : List Fate} {chat : Nat} {w w' : World}
variable {operation : Operation} {outcome : Outcome} {h : List (Operation × Outcome)}

def Outcome.published? : Outcome → Option ChatArchive
  | .saved _ published => published
  | _                  => none

-- What has taken the place of the archive at last.
def lastPublished (h : List (Operation × Outcome)) : Option ChatArchive :=
  h.findSome? fun step => step.2.published?

def Operation.Faithful (lib : Libraries) (identity : Identity) (w : World) : Operation → Prop
  | .saveAt chat messages now _ _ => ∀ persistence expires, w.chats chat = some persistence →
    expiry now persistence.policy.ttlSeconds = .ok expires →
      History.Faithful lib (archiveOf lib identity messages now expires)
  | _ => True

-- Runs that save what the libraries are faithful to.
def faithfulChats (lib : Libraries) (identity : Identity) : System World Operation Outcome :=
  (chats lib identity).restrict fun w operation _ _ => operation.Faithful lib identity w

-- The locks are those of the durable chats.
structure Held (identity : Identity) (w : World) : Prop where
  chats : ∀ chat persistence, w.chats chat = some persistence → chat < w.opened ∧
    identity.Valid ∧ validatePolicy persistence.policy = .ok () ∧
    (persistence.disk = none ∨ persistence.disk = some chat ∧ exclusive chat ∈ w.locks)
  locks : ∀ lock ∈ w.locks, lock = exclusive lock.holder ∧
    ∃ persistence, w.chats lock.holder = some persistence ∧ persistence.disk = some lock.holder

def Stored (lib : Libraries) (identity : Identity) (archive : ChatArchive) (w : World) : Prop :=
  identity.Valid ∧ ∃ bytes, w.files .archive = some bytes ∧
    readArchive lib (fingerprint lib identity) bytes = .ok archive

structure Kept (lib : Libraries) (identity : Identity) (h : List (Operation × Outcome))
    (w : World) : Prop where
  held   : Held identity w
  absent : lastPublished h = none → w.files .archive = none
  stored : ∀ archive, lastPublished h = some archive → Stored lib identity archive w

theorem Held.of_framed (hh : Held identity w) (hf : Framed w w') : Held identity w' := by
  obtain ⟨hl, hc, ho⟩ := hf
  refine ⟨?_, ?_⟩
  · rw [hl, hc, ho]
    exact hh.chats
  · rw [hl, hc]
    exact hh.locks

theorem mem_locks_release {lock : Flock.Lock Nat Unit} :
    lock ∈ (w.release chat).locks ↔ lock ∈ w.locks ∧ lock.holder ≠ chat := by
  simp [World.release]

theorem Held.release (hh : Held identity w) : Held identity (w.release chat) := by
  refine ⟨fun i persistence hi => ?_, fun lock hl => ?_⟩
  case refine_1 =>
    by_cases he : i = chat
    case pos => simp [World.release, he] at hi
    case neg =>
      have hi : w.chats i = some persistence := by simpa [World.release, he] using hi
      obtain ⟨ho, hv, hp, hd⟩ := hh.chats i persistence hi
      exact ⟨ho, hv, hp, hd.imp_right fun h => ⟨h.left, mem_locks_release.mpr ⟨h.right, he⟩⟩⟩
  case refine_2 =>
    obtain ⟨hl, hn⟩ := mem_locks_release.mp hl
    obtain ⟨he, persistence, hc, hd⟩ := hh.locks lock hl
    exact ⟨he, persistence, by simpa [World.release, hn] using hc, hd⟩

theorem Held.opened_free (hh : Held identity w) : w.chats w.opened = none := by
  cases hc : w.chats w.opened
  case none             => rfl
  case some persistence => exact absurd (hh.chats _ _ hc).left (Nat.lt_irrefl _)

theorem Held.holder_ne (hh : Held identity w) {lock : Flock.Lock Nat Unit} (hl : lock ∈ w.locks) :
    lock.holder ≠ w.opened := by
  obtain ⟨-, persistence, hc, -⟩ := hh.locks lock hl
  exact (hh.chats _ _ hc).left.ne

-- Nobody is granted the lock while a durable chat is open.
theorem Held.grants_iff (hh : Held identity w) : Flock.Grants w.locks (exclusive w.opened) ↔
    ∀ chat persistence, w.chats chat = some persistence → persistence.disk = none := by
  constructor
  case mp =>
    intro hg chat persistence hc
    obtain hd | ⟨-, hl⟩ := (hh.chats chat persistence hc).right.right.right
    case inl => exact hd
    case inr =>
      have hx := (hg _ hl (hh.holder_ne hl) rfl).left
      cases hx
  case mpr =>
    intro hn lock hl
    obtain ⟨-, persistence, hc, hd⟩ := hh.locks lock hl
    rw [hn _ _ hc] at hd
    cases hd

theorem release_lock (hh : Held identity w) : (w.lock w.opened).release w.opened = w := by
  have hl : Flock.release (· = w.opened) (Flock.acquire (exclusive w.opened) w.locks) =
      w.locks := by
    simp only [Flock.acquire, Flock.release, exclusive]
    rw [List.filter_cons_of_neg (by simp), List.filter_filter]
    exact List.filter_eq_self.mpr fun lock hl => by simp [hh.holder_ne hl]
  have hc : Function.update w.chats w.opened none = w.chats :=
    Function.update_eq_self_iff.mpr hh.opened_free.symm
  rw [World.release, World.lock]
  simp only [hl, hc]

theorem release_self (hh : Held identity w) : w.release w.opened = w := by
  have hl : Flock.release (· = w.opened) w.locks = w.locks :=
    List.filter_eq_self.mpr fun lock hl => by simp [hh.holder_ne hl]
  have hc : Function.update w.chats w.opened none = w.chats :=
    Function.update_eq_self_iff.mpr hh.opened_free.symm
  rw [World.release]
  simp only [hl, hc]

-- What is left when a chat could not be opened.
theorem release_opening (hh : Held identity w) (ho : Opening w w.opened w') :
    w'.release w.opened = w := by
  obtain rfl | ⟨-, rfl⟩ := ho
  case inl => exact release_self hh
  case inr => exact release_lock hh

-- What an opening does.
inductive Attempted (lib : Libraries) (identity : Identity) (policy : PersistencePolicy)
    (w : World) : World → Outcome → Prop
  | opened {w₁ persistence messages} :
    Opened identity policy w w.opened persistence w₁ →
    Attempted lib identity policy w
      { w₁ with
        chats  := Function.update w₁.chats w.opened (some persistence)
        opened := w.opened + 1 } (.opened (.ok (persistence, messages)))
  | refused {exit} :
    (∀ result, exit ≠ .ok result) →
    Attempted lib identity policy w { w with opened := w.opened + 1 } (.opened exit)

theorem attempted_of_step (hh : Held identity w)
    (hs : w.step lib identity (.openAt policy now fates) = some (w', outcome)) :
    Attempted lib identity policy w w' outcome := by
  have hm : Meets (· = w) (openAt lib identity policy now w.opened)
    (fun r => Opened identity policy w w.opened r.1) (Opening w w.opened) := meets_openAt
  have hm := hm w fates rfl
  have hs := Option.some.inj hs
  rw [World.openChat] at hs
  rcases hr : openAt lib identity policy now w.opened w fates with
    ⟨⟨persistence, messages⟩ | error | _, w₁, rest⟩ <;> rw [hr] at hm hs
  case ok =>
    cases hs
    exact .opened hm
  case error =>
    dsimp only at hs
    rw [release_opening hh hm] at hs
    cases hs
    exact .refused fun _ => by simp
  case crashed =>
    dsimp only at hs
    rw [release_opening hh hm] at hs
    cases hs
    exact .refused fun _ => by simp

-- A chat whose process has crashed is gone.
def World.after (w : World) (chat : Nat) : Exit String Unit → World
  | .crashed => w.release chat
  | _        => w

-- What a save does.
inductive Written (lib : Libraries) (identity : Identity) (chat : Nat)
    (messages : List ChatMessage) (now : UInt64) (w : World) : World → Outcome → Prop
  | unsaved {w₁ exit persistence} :
    w.chats chat = some persistence → (exit = .ok () → persistence.disk = none) →
    Unsaved { w with renamed := none } w₁ →
    Written lib identity chat messages now w (w₁.after chat exit)
      (.saved exit none)
  | saved {w₁ exit persistence expires bytes} :
    w.chats chat = some persistence → validateMessages messages = .ok () →
    expiry now persistence.policy.ttlSeconds = .ok expires →
    toWriter lib (archiveOf lib identity messages now expires) = .ok bytes →
    Saved { w with renamed := none } (archiveOf lib identity messages now expires) bytes w₁ →
    Written lib identity chat messages now w (w₁.after chat exit)
      (.saved exit (some (archiveOf lib identity messages now expires)))

theorem written_of_step
    (hs : w.step lib identity (.saveAt chat messages now random fates) = some (w', outcome)) :
    Written lib identity chat messages now w w' outcome := by
  obtain ⟨persistence, hc, hs⟩ := Option.map_eq_some_iff.mp hs
  have hm : Meets (Unsaved { w with renamed := none })
      (saveAt lib identity persistence messages now random)
      (fun _ w₁ => persistence.disk = none ∧ Unsaved { w with renamed := none } w₁ ∨
        Published lib identity persistence messages now { w with renamed := none } w₁)
      fun w₁ => Unsaved { w with renamed := none } w₁ ∨
        Published lib identity persistence messages now { w with renamed := none } w₁ :=
    meets_saveAt
  have hm := hm { w with renamed := none } fates .refl
  rw [World.saveChat] at hs
  have hu (exit : Exit String Unit) {w₁ : World} (he : exit = .ok () → persistence.disk = none)
      (hw : Unsaved { w with renamed := none } w₁) : Written lib identity chat messages now w
        (w₁.after chat exit) (.saved exit w₁.renamed) := by
    rw [hw.renamed]
    exact .unsaved hc he hw
  have hp (exit : Exit String Unit) {w₁ : World}
      (hw : Published lib identity persistence messages now { w with renamed := none } w₁) :
      Written lib identity chat messages now w
        (w₁.after chat exit) (.saved exit w₁.renamed) := by
    obtain ⟨expires, bytes, hv, he, ht, hw⟩ := hw
    rw [hw.renamed]
    exact .saved hc hv he ht hw
  rcases hr : saveAt lib identity persistence messages now random { w with renamed := none } fates
    with ⟨_ | error | _, w₁, rest⟩ <;> rw [hr] at hm hs
  case ok =>
    cases hs
    exact hm.elim (fun ⟨hd, hw⟩ => hu (.ok ()) (fun _ => hd) hw) (hp (.ok ()))
  case error =>
    cases hs
    exact hm.elim (hu (.error error) fun he => by cases he) (hp (.error error))
  case crashed =>
    cases hs
    exact hm.elim (hu .crashed fun he => by cases he) (hp .crashed)

theorem Opened.files_eq {w₁ : World}
    (ho : Opened identity policy w chat persistence w₁) : w₁.files = w.files := by
  obtain ⟨-, rfl⟩ | ⟨-, -, rfl⟩ := ho.disk
  case inl => rfl
  case inr => rfl

theorem Opened.chats_eq {w₁ : World}
    (ho : Opened identity policy w chat persistence w₁) : w₁.chats = w.chats := by
  obtain ⟨-, rfl⟩ | ⟨-, -, rfl⟩ := ho.disk
  case inl => rfl
  case inr => rfl

theorem Opened.mem_locks {w₁ : World} {lock : Flock.Lock Nat Unit} (hh : Held identity w)
    (ho : Opened identity policy w w.opened persistence w₁) : lock ∈ w₁.locks ↔
      lock ∈ w.locks ∨ persistence.disk = some w.opened ∧ lock = exclusive w.opened := by
  obtain ⟨hd, rfl⟩ | ⟨hd, -, rfl⟩ := ho.disk
  case inl => simp [hd]
  case inr =>
    rw [World.lock, Flock.mem_acquire, hd]
    constructor
    case mp  => exact fun hl => hl.elim (fun he => .inr ⟨rfl, he⟩) fun hl => .inl hl.left
    case mpr =>
      exact fun hl => hl.elim (fun hl => .inr ⟨hl, hh.holder_ne hl⟩) fun he => .inl he.right

theorem Held.opened {w₁ : World} (hh : Held identity w)
    (ho : Opened identity policy w w.opened persistence w₁) : Held identity { w₁ with
      chats  := Function.update w₁.chats w.opened (some persistence)
      opened := w.opened + 1 } := by
  refine ⟨fun i q hi => ?_, fun lock hl => ?_⟩
  case refine_1 =>
    dsimp only at hi ⊢
    by_cases he : i = w.opened
    case pos =>
      subst he
      rw [Function.update_self] at hi
      cases hi
      refine ⟨Nat.lt_succ_self _, ho.identity, ho.policy ▸ ho.accepted, ?_⟩
      refine ho.disk.imp And.left fun hd => ⟨hd.left, ?_⟩
      exact (ho.mem_locks hh).mpr (.inr ⟨hd.left, rfl⟩)
    case neg =>
      rw [Function.update_of_ne he, ho.chats_eq] at hi
      obtain ⟨hlt, hv, hp, hd⟩ := hh.chats i q hi
      refine ⟨Nat.lt_succ_of_lt hlt, hv, hp, hd.imp_right fun ⟨hd, hl⟩ => ⟨hd, ?_⟩⟩
      exact (ho.mem_locks hh).mpr (.inl hl)
  case refine_2 =>
    dsimp only at hl ⊢
    obtain hl | ⟨hd, rfl⟩ := (ho.mem_locks hh).mp hl
    case inl =>
      rw [Function.update_of_ne (hh.holder_ne hl), ho.chats_eq]
      exact hh.locks lock hl
    case inr => exact ⟨rfl, persistence, Function.update_self .., hd⟩

theorem Held.succ (hh : Held identity w) : Held identity { w with opened := w.opened + 1 } :=
  ⟨fun i q hi => (hh.chats i q hi).imp_left Nat.lt_succ_of_lt, hh.locks⟩

theorem Held.after {exit : Exit String Unit} (hh : Held identity w) :
    Held identity (w.after chat exit) := by
  cases exit
  case crashed => exact hh.release
  case ok      => exact hh
  case error   => exact hh

theorem files_after {exit : Exit String Unit} : (w.after chat exit).files = w.files := by
  cases exit <;> rfl

theorem validatePolicy_ttl (hp : validatePolicy policy = .ok ()) :
    ∀ seconds ∈ policy.ttlSeconds, seconds ≠ 0 := by
  rw [validatePolicy, seq_eq_ok, ensure_eq_ok, ensure_eq_ok] at hp
  exact fun seconds hs hz => hp.right seconds hs (.inl hz)

theorem Kept.of_unpublished (hk : Kept lib identity h w) (hh : Held identity w')
    (hf : w'.files .archive = w.files .archive) (ho : outcome.published? = none) :
    Kept lib identity ((operation, outcome) :: h) w' := by
  have hl : lastPublished ((operation, outcome) :: h) = lastPublished h := by
    simp [lastPublished, ho]
  refine ⟨hh, fun hn => ?_, fun archive ha => ?_⟩
  case refine_1 => exact hf.trans (hk.absent (hl ▸ hn))
  case refine_2 =>
    obtain ⟨hi, bytes, hb, hr⟩ := hk.stored archive (hl ▸ ha)
    exact ⟨hi, bytes, hf.trans hb, hr⟩

theorem Kept.step (hk : Kept lib identity h w) (hf : operation.Faithful lib identity w)
    (hs : w.step lib identity operation = some (w', outcome)) :
    Kept lib identity ((operation, outcome) :: h) w' := by
  cases operation
  case openAt =>
    cases attempted_of_step hk.held hs
    case opened ho  => exact hk.of_unpublished (hk.held.opened ho) (congrFun ho.files_eq _) rfl
    case refused    => exact hk.of_unpublished hk.held.succ rfl rfl
  case drop =>
    cases Option.some.inj hs
    exact hk.of_unpublished hk.held.release rfl rfl
  case saveAt chat messages now random fates =>
    have hw {w₁ : World} (hw : Framed { w with renamed := none } w₁) : Held identity w₁ :=
      hk.held.of_framed ⟨hw.locks, hw.chats, hw.opened⟩
    cases written_of_step hs
    case unsaved hu =>
      refine hk.of_unpublished (hw hu.toFramed).after ?_ rfl
      rw [files_after]
      exact hu.content
    case saved w₁ exit persistence expires bytes hc hm he ht hsaved =>
      obtain ⟨-, hi, hp, -⟩ := hk.held.chats _ _ hc
      refine ⟨(hw hsaved.toFramed).after, fun hn => ?_, fun archive ha => ?_⟩
      case refine_1 => cases hn
      case refine_2 =>
        cases ha
        rw [Stored, files_after]
        refine ⟨hi, bytes, hsaved.content, ?_⟩
        have hf := hf persistence expires hc he
        exact readArchive_of_toWriter hf hm he (validatePolicy_ttl hp) ht

theorem kept_of_run (r : (faithfulChats lib identity).Run h w) : Kept lib identity h w := by
  refine r.invariant (fun w hi => ?_) fun h w operation outcome w' _ hk hs => ?_
  case refine_1 =>
    obtain rfl : w = World.initial := hi
    refine ⟨⟨fun _ _ hc => ?_, fun _ hl => ?_⟩, fun _ => rfl, fun _ ha => ?_⟩
    · cases hc
    · cases hl
    · cases ha
  case refine_2 => exact hk.step hs.right hs.left

-- What has taken the place of the archive at last is found by the next chat.
structure Resumable (lib : Libraries) (identity : Identity) (h : List (Operation × Outcome))
    (w : World) : Prop where
  published : ∀ archive, lastPublished h = some archive → ∃ bytes,
    w.files .archive = some bytes ∧ readArchive lib (fingerprint lib identity) bytes = .ok archive
  -- A save puts its messages there, or nothing. It does if it succeeds in a durable chat.
  saved     : ∀ chat messages now random fates exit published w',
    w.step lib identity (.saveAt chat messages now random fates) =
      some (w', .saved exit published) →
    (∀ archive ∈ published, archive.messages = messages) ∧
      (exit = .ok () → ∀ persistence, w.chats chat = some persistence →
        persistence.disk ≠ none → published ≠ none)
  resumed   : ∀ archive policy now, lastPublished h = some archive →
    validatePolicy policy = .ok () → policy.isDurable → policy.reuse ≠ .disabled →
    (∀ chat persistence, w.chats chat = some persistence → persistence.disk = none) →
    (∀ expiry ∈ archive.expiresUnixSeconds, now < expiry) →
    ∃ w' persistence, w.step lib identity (.openAt policy now []) =
      some (w', .opened (.ok (persistence, archive.messages))) ∧ persistence.resumed = true
  exclusive : ∀ policy now fates persistence messages w',
    w.step lib identity (.openAt policy now fates) =
      some (w', .opened (.ok (persistence, messages))) → persistence.disk ≠ none →
    ∀ chat other, w.chats chat = some other → other.disk = none

theorem Kept.resumed (hk : Kept lib identity h w) (ha : lastPublished h = some archive)
    (hp : validatePolicy policy = .ok ()) (hd : policy.isDurable) (hr : policy.reuse ≠ .disabled)
    (hn : ∀ chat persistence, w.chats chat = some persistence → persistence.disk = none)
    (he : ∀ expiry ∈ archive.expiresUnixSeconds, now < expiry) :
    ∃ w' persistence, w.step lib identity (.openAt policy now []) =
      some (w', .opened (.ok (persistence, archive.messages))) ∧ persistence.resumed = true := by
  obtain ⟨hi, bytes, hb, hread⟩ := hk.stored archive ha
  obtain ⟨_, w₁, ho, rfl⟩ :=
    succeeds_openAt_resumed hi hp hd hr (hk.held.grants_iff.mpr hn) hb hread he w rfl
  have hs : w.step lib identity (.openAt policy now []) = some ({ w₁ with
      chats  := Function.update w₁.chats w.opened (some ⟨some w.opened, policy, true, none⟩)
      opened := w.opened + 1
    }, .opened (.ok (⟨some w.opened, policy, true, none⟩, archive.messages))) := by
    rw [World.step, World.openChat, ho]
  exact ⟨_, _, hs, rfl⟩

theorem Kept.exclusive {fates : List Fate} (hk : Kept lib identity h w)
    (hs : w.step lib identity (.openAt policy now fates) =
      some (w', .opened (.ok (persistence, messages)))) (hd : persistence.disk ≠ none) :
    ∀ chat other, w.chats chat = some other → other.disk = none := by
  cases attempted_of_step hk.held hs
  case opened ho =>
    obtain ⟨hn, -⟩ | ⟨-, hg, -⟩ := ho.disk
    case inl => exact absurd hn hd
    case inr => exact hk.held.grants_iff.mp hg
  case refused hn => exact absurd rfl (hn _)

theorem messages_of_step {exit : Exit String Unit} {published : Option ChatArchive}
    (hs : w.step lib identity (.saveAt chat messages now random fates) =
      some (w', .saved exit published)) :
    (∀ archive ∈ published, archive.messages = messages) ∧
      (exit = .ok () → ∀ persistence, w.chats chat = some persistence →
        persistence.disk ≠ none → published ≠ none) := by
  cases written_of_step hs
  case unsaved hc _ hd =>
    refine ⟨fun _ ha => (by cases ha), fun he persistence hp hn => ?_⟩
    exact absurd (hd he) (Option.some.inj (hc.symm.trans hp) ▸ hn)
  case saved =>
    refine ⟨fun archive ha => ?_, fun _ _ _ _ hn => (by cases hn)⟩
    cases ha
    rfl

theorem resumable_of_run (r : (faithfulChats lib identity).Run h w) :
    Resumable lib identity h w := by
  have hk := kept_of_run r
  exact {
    published := fun archive ha => (hk.stored archive ha).right
    saved     := fun _ _ _ _ _ _ _ _ => messages_of_step
    resumed   := fun _ _ _ => hk.resumed
    exclusive := fun _ _ _ _ _ _ => hk.exclusive
  }

end Runs

section Sample

def sampleMessage : ChatMessage where
  role    := "assistant"
  content := some (.text "Hello")

def sampleMessageJson : Json :=
  .object [("role", .string "assistant"), ("content", .string "Hello")]

def sampleJson : Json :=
  .object [
    ("schema_version", .unsigned 1),
    ("session_fingerprint", .string "f0"),
    ("updated_unix_seconds", .unsigned 101),
    ("expires_unix_seconds", .null),
    ("messages", .array [sampleMessageJson])]

def sampleText : Bytes :=
  ("\x7b\"schema_version\":1,\"session_fingerprint\":\"f0\",\"updated_unix_seconds\":101," ++
    "\"expires_unix_seconds\":null,\"messages\":[\x7b\"role\":\"assistant\",\"content\":" ++
    "\"Hello\"\x7d]\x7d").toList.map fun c => c.toNat.toUInt8

-- What the libraries do with one archive.
def sampleLib : Libraries where
  fingerprint _ _ := "f0"
  serialize _     := sampleMessageJson
  deserialize _   := some sampleMessage
  print _         := [sampleText]
  parse _         := some sampleJson

def sampleIdentity : Identity where
  modelId := "owner/model"
  session := "default"

def sampleSuffix : Vector UInt8 12 :=
  Vector.replicate 12 7

def sampleArchive : ChatArchive where
  schemaVersion      := 1
  sessionFingerprint := "f0"
  updatedUnixSeconds := 101
  expiresUnixSeconds := none
  messages           := [sampleMessage]

theorem sampleIdentity_valid : sampleIdentity.Valid :=
  ⟨by decide, by decide⟩

theorem sampleMessage_valid : validateMessages [sampleMessage] = .ok () := by
  decide

set_option maxRecDepth 4000 in
theorem sampleText_length : sampleText.length ≤ 200 := by
  decide

theorem toWriter_sampleArchive : toWriter sampleLib sampleArchive = .ok sampleText := by
  have hl : ¬maxArchiveBytes - ([] : Bytes).length < sampleText.length :=
    not_lt.mpr (sampleText_length.trans (by decide))
  have hp : sampleLib.print (sampleArchive.toJson sampleLib) = [sampleText] := rfl
  rw [toWriter, hp, List.foldlM_cons, BoundedBytes.write, if_neg hl, List.nil_append]
  exact bind_eq_ok.mpr ⟨sampleText, rfl, rfl⟩

theorem faithful_sampleArchive : Faithful sampleLib sampleArchive where
  messages _ hm := List.mem_singleton.mp hm ▸ rfl
  text          := rfl

def samplePolicy (mode : PersistenceMode) : PersistencePolicy where
  mode := mode

theorem samplePolicy_valid (mode : PersistenceMode) :
    validatePolicy (samplePolicy mode) = .ok () := by
  rw [validatePolicy, ensure_bind_eq_ok, ensure_eq_ok]
  exact ⟨rfl, fun _ ht => by cases ht⟩

-- A chat in memory, or on disk where it has locked the session.
def sampleChat (mode : PersistenceMode) (disk : Option Nat) : ChatPersistence where
  disk    := disk
  policy  := samplePolicy mode
  resumed := false
  notice  := none

def sampleWorld (mode : PersistenceMode) (disk : Option Nat)
    (locks : List (Flock.Lock Nat Unit)) : World where
  files _ := none
  locks   := locks
  chats   := Function.update (fun _ => none) 0 (some (sampleChat mode disk))
  opened  := 1
  renamed := none

theorem step_sampleOpen :
    World.initial.step sampleLib sampleIdentity (.openAt (samplePolicy .auto) 100 []) =
      some (sampleWorld .auto (some 0) [exclusive 0],
        .opened (.ok (sampleChat .auto (some 0), []))) := by
  have hs : Faulty.Succeeds (· = World.initial)
      (openAt sampleLib sampleIdentity (samplePolicy .auto) 100 0)
      fun r w => r = (sampleChat .auto (some 0), []) ∧ w = World.initial.lock 0 :=
    succeeds_openAt_new sampleIdentity_valid (samplePolicy_valid .auto) rfl rfl
      (fun _ hl => by cases hl) rfl
  obtain ⟨_, _, ho, rfl, rfl⟩ := hs World.initial rfl
  have hz : World.initial.opened = 0 := rfl
  rw [World.step, World.openChat, hz, ho]
  rfl

theorem step_sampleSave : ∃ w, (sampleWorld .auto (some 0) [exclusive 0]).step sampleLib
    sampleIdentity (.saveAt 0 [sampleMessage] 101 (some sampleSuffix) []) =
      some (w, .saved (.ok ()) (some sampleArchive)) := by
  have hs : Faulty.Succeeds (· = sampleWorld .auto (some 0) [exclusive 0])
      (saveAt sampleLib sampleIdentity (sampleChat .auto (some 0)) [sampleMessage] 101
        (some sampleSuffix)) fun _ w => w.renamed = some sampleArchive ∧ _ :=
    succeeds_saveAt (Option.some_ne_none 0) sampleMessage_valid rfl toWriter_sampleArchive rfl
  obtain ⟨_, w, ho, hr, -⟩ := hs _ rfl
  have hc : (sampleWorld .auto (some 0) [exclusive 0]).chats 0 =
    some (sampleChat .auto (some 0)) := rfl
  have hw : { sampleWorld .auto (some 0) [exclusive 0] with renamed := none } =
    sampleWorld .auto (some 0) [exclusive 0] := rfl
  refine ⟨w, ?_⟩
  rw [World.step, hc, Option.map_some, World.saveChat, hw, ho]
  dsimp only
  rw [hr]

theorem resumable_sample : ∃ h w, Resumable sampleLib sampleIdentity h w ∧
    lastPublished h = some sampleArchive := by
  obtain ⟨w, hs⟩ := step_sampleSave
  have r : (faithfulChats sampleLib sampleIdentity).Run
      [(.drop 0, .dropped), (.saveAt 0 [sampleMessage] 101 (some sampleSuffix) [],
        .saved (.ok ()) (some sampleArchive)),
      (.openAt (samplePolicy .auto) 100 [],
        .opened (.ok (sampleChat .auto (some 0), [])))] (w.release 0) := by
    refine .step (.step (.step (.init rfl) ⟨step_sampleOpen, trivial⟩) ⟨hs, ?_⟩) ⟨rfl, trivial⟩
    intro persistence expires hc he
    cases hc
    cases he
    exact faithful_sampleArchive
  exact ⟨_, _, resumable_of_run r, rfl⟩

theorem step_memoryOpen :
    World.initial.step sampleLib sampleIdentity (.openAt (samplePolicy .memory) 100 []) =
      some (sampleWorld .memory none [], .opened (.ok (sampleChat .memory none, []))) := by
  have hs : Faulty.Succeeds (· = World.initial)
      (openAt sampleLib sampleIdentity (samplePolicy .memory) 100 0)
      fun r w => r = (sampleChat .memory none, []) ∧ w = World.initial :=
    succeeds_openAt_memory sampleIdentity_valid (samplePolicy_valid .memory) rfl (by decide)
  obtain ⟨_, _, ho, rfl, rfl⟩ := hs World.initial rfl
  have hz : World.initial.opened = 0 := rfl
  rw [World.step, World.openChat, hz, ho]
  rfl

theorem step_memorySave : (sampleWorld .memory none []).step sampleLib sampleIdentity
    (.saveAt 0 [sampleMessage] 101 (some sampleSuffix) []) =
      some (sampleWorld .memory none [], .saved (.ok ()) none) := by
  have hs : Faulty.Succeeds (· = sampleWorld .memory none [])
      (saveAt sampleLib sampleIdentity (sampleChat .memory none) [sampleMessage] 101
        (some sampleSuffix)) fun _ w => w = sampleWorld .memory none [] :=
    succeeds_saveAt_memory rfl sampleMessage_valid
  obtain ⟨_, _, ho, rfl⟩ := hs _ rfl
  have hc : (sampleWorld .memory none []).chats 0 = some (sampleChat .memory none) := rfl
  have hw : { sampleWorld .memory none [] with renamed := none } =
    sampleWorld .memory none [] := rfl
  rw [World.step, hc, Option.map_some, World.saveChat, hw, ho]
  rfl

-- A chat in memory keeps nothing that another chat could resume.
theorem not_resumed_of_memory : ∃ h w w' persistence,
    (faithfulChats sampleLib sampleIdentity).Run h w ∧
    h.head? = some (.saveAt 0 [sampleMessage] 101 (some sampleSuffix) [], .saved (.ok ()) none) ∧
    w.step sampleLib sampleIdentity (.openAt (samplePolicy .auto) 102 []) =
      some (w', .opened (.ok (persistence, []))) := by
  have r : (faithfulChats sampleLib sampleIdentity).Run
      [(.saveAt 0 [sampleMessage] 101 (some sampleSuffix) [], .saved (.ok ()) none),
      (.openAt (samplePolicy .memory) 100 [], .opened (.ok (sampleChat .memory none, [])))]
      (sampleWorld .memory none []) := by
    refine .step (.step (.init rfl) ⟨step_memoryOpen, trivial⟩) ⟨step_memorySave, ?_⟩
    intro persistence expires hc he
    cases hc
    cases he
    exact faithful_sampleArchive
  have hs : Faulty.Succeeds (· = sampleWorld .memory none [])
      (openAt sampleLib sampleIdentity (samplePolicy .auto) 102 1)
      fun r w => r = (sampleChat .auto (some 1), []) ∧ w = (sampleWorld .memory none []).lock 1 :=
    succeeds_openAt_new sampleIdentity_valid (samplePolicy_valid .auto) rfl rfl
      (fun _ hl => by cases hl) rfl
  obtain ⟨_, _, ho, rfl, rfl⟩ := hs _ rfl
  have hz : (sampleWorld .memory none []).opened = 1 := rfl
  have hn : ∃ w', (sampleWorld .memory none []).step sampleLib sampleIdentity
      (.openAt (samplePolicy .auto) 102 []) =
        some (w', .opened (.ok (sampleChat .auto (some 1), []))) := by
    rw [World.step, World.openChat, hz, ho]
    exact ⟨_, rfl⟩
  exact hn.elim fun w' hn => ⟨_, _, w', _, r, rfl, hn⟩

end Sample

end Cli.History
