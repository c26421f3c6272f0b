import WerkModel.Backend.ChatPersistence

-- The index names a complete snapshot whenever a save fails or is cut off by a crash.
open Checks Faulty

namespace Backend.ChatPersistence

section Files

variable {s s₀ : Session} {path other target : Path} {file file' : Option Bytes} {content : Bytes}
variable {expected : Nat} {P E : Session → Prop} {α : Type}

@[simp] theorem files_write_self : (s.write path file).files path = file :=
  Function.update_self ..

@[simp] theorem files_write_of_ne (h : other ≠ path) :
    (s.write path file).files other = s.files other :=
  Function.update_of_ne h ..

@[simp] theorem write_write : (s.write path file).write path file' = s.write path file' := by
  simp [Session.write]

@[simp] theorem write_files : s.write path (s.files path) = s := by
  simp [Session.write]

theorem meets_inspect {f : Session → Except String α} :
    Meets P (inspect f) (fun a s => P s ∧ f s = .ok a) P := by
  refine .step (fun s a s' hp hs => ?_) (fun _ h => h) fun _ _ h => h
  cases hf : f s
  case ok => simp_all [Except.map]
  case error => simp_all [Except.map]

theorem meets_sync : Meets P sync (fun _ => P) P :=
  meets_inspect.mono (fun _ h => h) (fun _ _ h => h.left) fun _ h => h

theorem meets_createNew : Meets (· = s₀) (createNew path)
    (fun _ s => s₀.files path = none ∧ s = s₀.write path (some [])) (· = s₀) := by
  refine .step (fun s a s' hp hs => ?_) (fun _ h => h) fun _ _ h => h
  subst hp
  split at hs
  case isTrue     => nomatch hs
  case isFalse hn =>
    obtain ⟨_, rfl⟩ := Prod.mk.inj (Except.ok.inj hs)
    exact ⟨by simpa using hn, rfl⟩

theorem meets_append {copied data : Bytes} :
    Meets (· = s₀.write path (some copied)) (append path data)
      (fun _ s => s = s₀.write path (some (copied ++ data)))
      (fun s => ∃ file, s = s₀.write path (some file)) := by
  refine .step (fun s a s' hp hs => ?_) (fun s hp => ⟨copied, hp⟩) fun s n hp => ?_
  case refine_1 =>
    obtain ⟨_, rfl⟩ := Prod.mk.inj (Except.ok.inj hs)
    simp [hp]
  case refine_2 => exact ⟨copied ++ data.take n, by simp [hp]⟩

-- A file that is not needed any more may or may not be removed.
theorem meets_ignore_removeFile {Q : Session → Prop}
    (hw : ∀ s, P s → (s.files path).isSome = true → Q (s.write path none))
    (hq : ∀ s, P s → Q s) : Meets P (ignore (removeFile path)) (fun _ => Q) Q := by
  have hr : Meets P (removeFile path) (fun _ => Q) Q := by
    refine .step (fun s a s' hp hs => ?_) hq fun s _ => hq s
    split at hs
    case isTrue hf => exact (Prod.mk.inj (Except.ok.inj hs)).right ▸ hw s hp hf
    case isFalse   => nomatch hs
  refine .bind hr.attempt fun r => .pure fun s hs => ?_
  cases r
  case ok    => exact hs
  case error => exact hs

theorem meets_openBoundedRegularFile {size : Option Nat} :
    Meets P (openBoundedRegularFile path size)
      (fun content s => P s ∧ s.files path = some content ∧ content ≠ [] ∧
        content.length ≤ stateSnapshotMaxBytes ∧ ∀ n ∈ size, content.length = n) P := by
  refine meets_inspect.mono (fun _ h => h) (fun content s h => ⟨h.left, ?_⟩) fun _ h => h
  cases hf : s.files path
  case none => simp [hf] at h
  case some found =>
    simp only [hf] at h
    obtain ⟨_, h⟩ := h
    split at h
    case isTrue     => nomatch h
    case isFalse hn =>
      cases h
      simp only [not_or] at hn
      refine ⟨rfl, ?_, by omega, ?_⟩
      · simpa using hn.left
      · cases size <;> simp_all

theorem meets_copyChunks {copied rest : Bytes} :
    Meets (· = s₀.write path (some copied)) (copyChunks path expected copied rest)
      (fun all s => all = copied ++ rest ∧ s = s₀.write path (some all))
      (fun s => ∃ file, s = s₀.write path (some file)) := by
  fun_induction copyChunks path expected copied rest
  case case1 copied rest hi =>
    refine .bind (meets_sync.mono (fun _ h => h) (fun _ _ h => h) fun s h => ⟨copied, h⟩) fun _ => ?_
    split
    case isTrue hr  => exact .pure fun s hs => by simp [hr, hs]
    case isFalse hr =>
      have hi := hi hr
      dsimp only at hi ⊢
      rw [List.append_assoc, List.take_append_drop] at hi
      split
      case isTrue  => exact .throw fun s h => ⟨copied, h⟩
      case isFalse => exact .bind meets_append fun _ => hi

theorem meets_copyContent : Meets (· = s₀.write path (some [])) (copyContent path expected content)
    (fun copied s => copied = content ∧ content.length = expected ∧ s = s₀.write path (some content))
    (fun s => ∃ file, s = s₀.write path (some file)) := by
  refine .bind meets_copyChunks fun copied => ?_
  split
  case isTrue  => exact .throw fun s hs => ⟨copied, hs.right⟩
  case isFalse h =>
    have hs {P : Session → Prop} (hp : ∀ s, P s → ∃ file, s = s₀.write path (some file)) :
        Meets P sync (fun _ => P) fun s => ∃ file, s = s₀.write path (some file) :=
      meets_sync.mono (fun _ h => h) (fun _ _ h => h) hp
    refine .bind (hs fun s h => ⟨copied, h.right⟩) fun _ => ?_
    refine .bind (hs fun s h => ⟨copied, h.right⟩) fun _ => .pure fun s ⟨hc, hs⟩ => ?_
    rw [List.nil_append] at hc
    exact ⟨hc, by simpa [hc] using h, hc ▸ hs⟩

-- At most one new file is written.
def Fresh (s₀ : Session) (path : Path) (s : Session) : Prop :=
  s = s₀ ∨ s₀.files path = none ∧ ∃ file, s = s₀.write path file

theorem meets_copySnapshotFile : Meets (· = s₀) (copySnapshotFile path content expected)
    (fun copied s => copied = content ∧ content.length = expected ∧ s₀.files path = none ∧
      s = s₀.write path (some content)) (Fresh s₀ path) := by
  rw [copySnapshotFile]
  split
  case isTrue  => exact .throw fun s h => .inl h
  case isFalse =>
    refine .bind (meets_createNew.mono (fun _ h => h) (fun _ _ h => h) fun s h => .inl h) fun _ => ?_
    refine .of_pure fun hn => ?_
    refine .bind (meets_copyContent.attempt.mono (fun _ h => h) (fun _ _ h => h)
      fun s ⟨file, h⟩ => .inr ⟨hn, _, h⟩) fun r => ?_
    cases r
    case ok copied => exact .pure fun s ⟨hc, hl, hs⟩ => ⟨hc, hl, hn, hs⟩
    case error error =>
      refine .bind (meets_ignore_removeFile ?_ ?_) fun _ => .throw fun s h => h
      · rintro s ⟨file, rfl⟩ _
        exact .inr ⟨hn, none, write_write⟩
      · rintro s ⟨file, rfl⟩
        exact .inr ⟨hn, _, rfl⟩

theorem meets_copySnapshotWithSha256 {lib : Libraries} {source : Path} :
    Meets (· = s₀) (copySnapshotWithSha256 lib source path expected)
      (fun sha256 s => ∃ content, s₀.files source = some content ∧ content ≠ [] ∧
        content.length ≤ stateSnapshotMaxBytes ∧ content.length = expected ∧
        sha256 = lib.sha256 content ∧ s₀.files path = none ∧ s = s₀.write path (some content))
      (Fresh s₀ path) := by
  refine .bind (meets_openBoundedRegularFile.mono (fun _ h => h) (fun _ _ h => h)
    fun s h => .inl h) fun content => ?_
  intro s fates ⟨hs, hf, hn, hm, hl⟩
  subst hs
  refine Meets.bind meets_copySnapshotFile (fun copied => .pure fun s' h => ?_) s fates rfl
  obtain ⟨rfl, hl, hp, hs⟩ := h
  exact ⟨copied, hf, hn, hm, hl, rfl, hp, hs⟩

end Files

section Index

variable {s s₀ : Session} {path target : Path} {content index : Bytes} {P : Session → Prop}
variable {lib : Libraries} {record : Record} {note : Session → Session}

-- What the index says.
def Reads (lib : Libraries) (s : Session) : Option Record → Prop
  | none        => s.files latest = none
  | some record => validateRecord record = .ok () ∧
    ∃ index, s.files latest = some index ∧ lib.decode index = some record

theorem meets_readRecord : Meets P (readRecord lib) (fun r s => P s ∧ Reads lib s r) P := by
  refine .bind (meets_inspect.mono (fun _ h => h) (fun _ _ h => h) fun _ h => h) fun found => ?_
  split
  case isTrue hf =>
    refine .pure fun s ⟨hp, hs⟩ => ⟨hp, ?_⟩
    rw [hf] at hs
    exact Option.isNone_iff_eq_none.mp (by simpa using hs)
  case isFalse hf =>
    refine .bind (meets_openBoundedRegularFile.mono (fun _ h => h.left) (fun _ _ h => h)
      fun _ h => h) fun content => ?_
    split
    case isTrue  => exact .throw fun _ h => h.left
    case isFalse =>
      refine .bind (meets_inspect.mono (fun _ h => h) (fun _ _ h => h) fun _ h => h.left)
        fun record => ?_
      refine .bind (.lift (Q := fun _ s => P s ∧ Reads lib s (some record)) ?_ ?_)
        fun _ => .pure fun s h => h
      · intro a s ha ⟨⟨hp, hf, _⟩, hd⟩
        refine ⟨hp, ha, content, hf, ?_⟩
        cases hdec : lib.decode content <;> simp_all
      · exact fun s h => h.left.left

-- Temporary files are neither the index nor a snapshot.
def temporary (id : Name) : Path :=
  ⟨.session, "index_".toList ++ id⟩

-- A file takes the place of the target.
def Session.publish (s : Session) (path target : Path) (content : Bytes)
    (note : Session → Session) : Session :=
  note <| (s.write path none).write target (some (content ++ [10]))

theorem meets_rename : Meets (· = s₀.write path (some (content ++ [10]))) (rename path target note)
    (fun _ s => s = s₀.publish path target content note)
    (· = s₀.write path (some (content ++ [10]))) := by
  refine .step (fun s a s' hs h => ?_) (fun s h => h) fun s _ h => h
  subst hs
  simp only [files_write_self, write_write, Except.ok.injEq, Prod.mk.injEq, true_and] at h
  exact h.symm

theorem meets_writeAndRename : Meets (· = s₀) (writeAndRename path target content note)
    (fun _ s => s = s₀.publish path target content note)
    (fun s => (∃ file, s = s₀.write path file) ∨ s = s₀.publish path target content note) := by
  have hw {s : Session} (h : ∃ file, s = s₀.write path (some file)) :
      (∃ file, s = s₀.write path file) ∨ s = s₀.publish path target content note :=
    .inl (h.imp' some fun _ h => h)
  refine .bind (meets_createNew.mono (fun _ h => h) (fun _ _ h => h.right)
    fun s h => .inl ⟨s₀.files path, by simpa using h⟩) fun _ => ?_
  refine .bind (meets_append.mono (fun _ h => h) (fun _ _ h => h) fun _ => hw) fun _ => ?_
  refine .bind (meets_append.mono (fun _ h => h) (fun _ _ h => h) fun _ => hw) fun _ => ?_
  refine .bind (meets_sync.mono (fun _ h => h) (fun _ _ h => h) fun s h => hw ⟨_, h⟩) fun _ => ?_
  refine .bind (meets_rename.mono (fun _ h => h) (fun _ _ h => h) fun s h => hw ⟨_, h⟩) fun _ => ?_
  exact meets_sync.mono (fun _ h => h) (fun _ _ h => h) fun s h => .inr h

-- Up to a temporary file, a failure leaves the directory as it was or with the new target.
theorem meets_publishCacheJson {random : Option (Vector UInt8 16)}
    (hn : ∀ s, (note s).files = s.files) (ht : ∀ id, temporary id ≠ target) :
    Meets (· = s₀) (publishCacheJson target content random note)
      (fun _ s => ∃ id, s = s₀.publish (temporary id) target content note)
      (fun s => ∃ id, (∃ file, s = s₀.write (temporary id) file) ∨
        s = s₀.publish (temporary id) target content note) := by
  refine .bind (.lift (Q := fun id s => (∃ rest, id = "index_".toList ++ rest) ∧ s = s₀) ?_ ?_)
    fun id => .of_pure ?_
  · intro id s h hs
    refine ⟨?_, hs⟩
    cases random
    case none => nomatch h
    case some => exact ⟨_, (Except.ok.inj h).symm⟩
  · exact fun s hs => ⟨[], .inl ⟨s₀.files (temporary []), by simpa using hs⟩⟩
  rintro ⟨rest, rfl⟩
  have hw : Meets (· = s₀) (writeAndRename (temporary rest) target content note) _ _ :=
    meets_writeAndRename
  refine .bind (hw.attempt.mono (fun _ h => h) (fun _ _ h => h) fun s h => ⟨rest, h⟩) fun r => ?_
  cases r
  case ok          => exact .pure fun s h => ⟨rest, h⟩
  case error error =>
    refine .bind (meets_ignore_removeFile ?_ ?_) fun _ => .throw fun s h => h
    · rintro s (⟨file, rfl⟩ | rfl) hf
      · exact ⟨rest, .inl ⟨none, write_write⟩⟩
      · have hf : ((s₀.publish (temporary rest) target content note).files
          (temporary rest)).isSome = true := hf
        rw [Session.publish, hn, files_write_of_ne (ht rest), files_write_self] at hf
        nomatch hf
    · exact fun s h => ⟨rest, h⟩

end Index

-- What the code relies on: digests have their form, and what is written of a record can be read
-- back within the limit for its size.
structure Libraries.Lawful (lib : Libraries) : Prop where
  digest : ∀ content, isDigest (lib.sha256 content) = true
  decode : ∀ record, validateRecord record = .ok () →
    lib.decode (lib.encode record ++ [10]) = some record
  length : ∀ record, validateRecord record = .ok () → (lib.encode record).length < 4096

-- The file that a record names is the whole snapshot.
structure Stored (lib : Libraries) (s : Session) (record : Record) (content : Bytes) : Prop where
  valid  : validateRecord record = .ok ()
  file   : s.files ⟨.session, record.filename⟩ = some content
  length : content.length = record.bytes
  digest : lib.sha256 content = record.sha256

structure Sound (lib : Libraries) (s : Session) : Prop where
  cold  : s.files latest = none → s.published = []
  index : ∀ index, s.files latest = some index → index ≠ [] ∧ index.length ≤ 4096 ∧
    ∃ record content rest, lib.decode index = some record ∧ Stored lib s record content ∧
      s.published = ⟨record.tokens, content⟩ :: rest

section Sound

variable {lib : Libraries} {s s' : Session} {record : Record} {path : Path} {name : Name}
variable {file : Option Bytes} {content : Bytes}

theorem exists_of_stripPrefix {start text rest : List Char}
    (h : stripPrefix start text = some rest) : text = start ++ rest := by
  rw [stripPrefix] at h
  split at h
  case isTrue hp =>
    obtain ⟨rest', rfl⟩ := hp
    simpa using h
  case isFalse => nomatch h

theorem stripPrefix_append (start rest : List Char) :
    stripPrefix start (start ++ rest) = some rest := by
  simp [stripPrefix]

theorem isHexdigit_hexDigits (byte : UInt8) : ∀ c ∈ hexDigits byte, isHexdigit c = true := by
  have hd : ∀ n < 16, isHexdigit (Nat.digitChar n) = true := by decide
  have hb := byte.toNat_lt
  simp only [hexDigits, List.forall_mem_cons, List.not_mem_nil, false_imp_iff, implies_true,
    and_true]
  exact ⟨hd _ (by omega), hd _ (by omega)⟩

theorem isSnapshotName_start (h : isSnapshotName name = true) :
    ∃ rest, name = "chat_".toList ++ rest := by
  obtain ⟨id, hid, _⟩ := (Option.any_eq_true ..).mp h
  obtain ⟨rest, hr, _⟩ := Option.bind_eq_some_iff.mp hid
  exact ⟨rest, exists_of_stripPrefix hr⟩

theorem validateRecord_eq_ok : validateRecord record = .ok () ↔
    record.version = 1 ∧ record.tokens ≠ 0 ∧ record.bytes ≠ 0 ∧
      record.bytes ≤ stateSnapshotMaxBytes ∧ isSnapshotName record.filename = true ∧
      isDigest record.sha256 = true :=
  ensure_eq_ok

theorem temporary_ne_latest (id : Name) : temporary id ≠ latest := by
  simp [temporary, latest]

theorem temporary_ne_capability (id : Name) : temporary id ≠ capability := by
  simp [temporary, capability]

theorem snapshot_ne (h : isSnapshotName name = true) : (⟨.session, name⟩ : Path) ≠ latest ∧
    (⟨.session, name⟩ : Path) ≠ capability ∧ ∀ id, (⟨.session, name⟩ : Path) ≠ temporary id := by
  obtain ⟨rest, rfl⟩ := isSnapshotName_start h
  simp [temporary, latest, capability]

-- A file that the index does not name does not matter.
theorem Sound.write (h : Sound lib s) (hl : path ≠ latest)
    (hn : ∀ record content, Stored lib s record content → Reads lib s (some record) →
      path ≠ ⟨.session, record.filename⟩) : Sound lib (s.write path file) where
  cold hf := h.cold (by rwa [files_write_of_ne (Ne.symm hl)] at hf)
  index index hf := by
    rw [files_write_of_ne (Ne.symm hl)] at hf
    obtain ⟨hne, hlen, record, content, rest, hd, hs, hp⟩ := h.index index hf
    have hpath := hn record content hs ⟨hs.valid, index, hf, hd⟩
    refine ⟨hne, hlen, record, content, rest, hd, ⟨hs.valid, ?_, hs.length, hs.digest⟩, hp⟩
    rw [files_write_of_ne (Ne.symm hpath), hs.file]

theorem Sound.write_server (h : Sound lib s) (name : Name) (file : Option Bytes) :
    Sound lib (s.write ⟨.server, name⟩ file) :=
  h.write (by simp [latest]) fun _ _ _ _ => by simp

theorem Sound.write_temporary (h : Sound lib s) (id : Name) (file : Option Bytes) :
    Sound lib (s.write (temporary id) file) :=
  h.write (temporary_ne_latest id) fun _ _ hs _ =>
    ((snapshot_ne (validateRecord_eq_ok.mp hs.valid).right.right.right.right.left).right.right id).symm

theorem Sound.write_capability (h : Sound lib s) (file : Option Bytes) :
    Sound lib (s.write capability file) :=
  h.write (by simp [latest, capability]) fun _ _ hs _ =>
    (snapshot_ne (validateRecord_eq_ok.mp hs.valid).right.right.right.right.left).right.left.symm

theorem Sound.write_new (h : Sound lib s) (hl : path ≠ latest) (hn : s.files path = none)
    (file : Option Bytes) : Sound lib (s.write path file) := by
  refine h.write hl fun record content hs _ he => ?_
  rw [he, hs.file] at hn
  nomatch hn

theorem Sound.fresh (h : Sound lib s) (hl : path ≠ latest) (hf : Fresh s path s') :
    Sound lib s' := by
  rcases hf with rfl | ⟨hn, file, rfl⟩
  case inl => exact h
  case inr => exact h.write_new hl hn file

end Sound

section Save

variable {lib : Libraries} {s s₀ s₁ : Session} {record other : Record} {path : Path} {name : Name}
variable {content : Bytes} {input : SaveInput} {tokens : UInt64} {id : Name}

theorem meets_saveLlamaSlot : Meets (· = s₀) (saveLlamaSlot input name tokens)
    (fun bytes s => ∃ content, input.saved = some content ∧ content.length = bytes ∧
      content ≠ [] ∧ content.length ≤ stateSnapshotMaxBytes ∧
      s = s₀.write ⟨.server, name⟩ (some content))
    (fun s => ∃ file, s = s₀.write ⟨.server, name⟩ file) := by
  refine .bind (.step (Q := fun _ s => s = s₀.write ⟨.server, name⟩ input.saved) ?_ ?_ ?_)
    fun _ => ?_
  · intro s _ s' hs h
    subst hs
    exact (Prod.mk.inj (Except.ok.inj h)).right.symm
  · exact fun s hs => ⟨s₀.files ⟨.server, name⟩, by simpa using hs⟩
  · rintro s n rfl
    exact ⟨_, rfl⟩
  refine .bind (.lift (fun _ s _ hs => hs) fun s hs => ⟨_, hs⟩) fun _ => ?_
  refine .bind (.lift (fun _ s _ hs => hs) fun s hs => ⟨_, hs⟩) fun written => ?_
  refine .bind (meets_openBoundedRegularFile.mono (fun _ h => h) (fun _ _ h => h)
    fun s hs => ⟨_, hs⟩) fun content => .pure fun s ⟨hs, hf, hne, hm, hl⟩ => ?_
  rw [hs, files_write_self] at hf
  exact ⟨content, hf, hl written rfl, hne, hm, by rw [hs, hf]⟩

-- A snapshot that is complete, with a copy that the server holds.
structure Copied (lib : Libraries) (s : Session) (record : Record) (content : Bytes) : Prop
    extends Stored lib s record content where
  server : s.files ⟨.server, record.filename⟩ = some content

theorem Copied.isSnapshotName (h : Copied lib s record content) :
    isSnapshotName record.filename = true :=
  (validateRecord_eq_ok.mp h.valid).right.right.right.right.left

theorem files_publish (hl : path ≠ latest) (ht : path ≠ temporary id) :
    (s.publish (temporary id) latest (lib.encode record) record.note).files path =
      s.files path := by
  simp [Session.publish, Record.note, hl, ht]

theorem index_publish :
    (s.publish (temporary id) latest (lib.encode record) record.note).files latest =
      some (lib.encode record ++ [10]) := by
  simp [Session.publish, Record.note]

theorem Copied.published_publish (h : Copied lib s record content) :
    (s.publish (temporary id) latest (lib.encode record) record.note).published =
      ⟨record.tokens, content⟩ :: s.published := by
  simp [Session.publish, Record.note, latest, temporary, h.server, Session.write]

theorem Copied.reads_publish (law : lib.Lawful) (h : Copied lib s record content)
    (hr : Reads lib (s.publish (temporary id) latest (lib.encode record) record.note)
      (some other)) : other = record := by
  obtain ⟨_, index, hi, hd⟩ := hr
  rw [index_publish] at hi
  cases hi
  exact Option.some.inj (hd.symm.trans (law.decode record h.valid))

-- The index may name a snapshot once it is complete.
theorem Copied.sound_publish (law : lib.Lawful) (h : Copied lib s record content) :
    Sound lib (s.publish (temporary id) latest (lib.encode record) record.note) where
  cold hf := by
    rw [index_publish] at hf
    nomatch hf
  index index hf := by
    rw [index_publish] at hf
    cases hf
    have hlen := law.length record h.valid
    have hn := snapshot_ne h.isSnapshotName
    refine ⟨by simp, by rw [List.length_append, List.length_singleton]; omega, record, content,
      s.published, law.decode record h.valid, ⟨h.valid, ?_, h.length, h.digest⟩,
      h.published_publish⟩
    rw [files_publish hn.left (hn.right.right id), h.file]

theorem published_fresh (h : Fresh s₀ path s) : s.published = s₀.published := by
  rcases h with rfl | ⟨_, file, rfl⟩ <;> rfl

-- The snapshot that a record names is not the one that is about to take its place.
theorem Sound.reads_ne (hs : Sound lib s) (hn : s.files ⟨.session, name⟩ = none)
    (hr : Reads lib s (some other)) : other.filename ≠ name := by
  rintro rfl
  obtain ⟨_, index, hi, hd⟩ := hr
  obtain ⟨_, _, record, content, _, hd', hstored, _⟩ := hs.index index hi
  obtain rfl : record = other := Option.some.inj (hd'.symm.trans hd)
  rw [hstored.file] at hn
  nomatch hn

theorem meets_publish {random : Option (Vector UInt8 16)} :
    Meets (· = s₀) (publish lib record random)
      (fun _ s => ∃ id, s = s₀.publish (temporary id) latest (lib.encode record) record.note)
      (fun s => ∃ id, (∃ file, s = s₀.write (temporary id) file) ∨
        s = s₀.publish (temporary id) latest (lib.encode record) record.note) :=
  meets_publishCacheJson (fun _ => rfl) temporary_ne_latest

theorem reads_write (hl : path ≠ latest) {file : Option Bytes} :
    Reads lib (s.write path file) (some other) ↔ Reads lib s (some other) := by
  rw [Reads, Reads, files_write_of_ne (Ne.symm hl)]

theorem Reads.ne_latest (h : Reads lib s (some other)) :
    (⟨.session, other.filename⟩ : Path) ≠ latest :=
  (snapshot_ne (validateRecord_eq_ok.mp h.left).right.right.right.right.left).left

-- The old snapshot goes once the new one is published, and the new one if it cannot be.
theorem meets_replaceSnapshot (law : lib.Lawful) (hs : Sound lib s₀)
    (hc : Copied lib s₀ record content) {random : Option (Vector UInt8 16)}
    {previous : Option Record}
    (hn : ∀ other, Reads lib s₀ (some other) → other.filename ≠ record.filename)
    (hp : ∀ other ∈ previous, Reads lib s₀ (some other)) :
    Meets (· = s₀) (replaceSnapshot lib record random previous)
      (fun result s => result = record.tokens ∧ Sound lib s ∧
        s.published = ⟨record.tokens, content⟩ :: s₀.published)
      (fun s => Sound lib s ∧ (s.published = s₀.published ∨
        s.published = ⟨record.tokens, content⟩ :: s₀.published)) := by
  have hcut {s : Session} (h : ∃ id, (∃ file, s = s₀.write (temporary id) file) ∨
      s = s₀.publish (temporary id) latest (lib.encode record) record.note) :
      Sound lib s ∧ (s.published = s₀.published ∨
        s.published = ⟨record.tokens, content⟩ :: s₀.published) := by
    obtain ⟨id, ⟨file, rfl⟩ | rfl⟩ := h
    · exact ⟨hs.write_temporary id file, .inl rfl⟩
    · exact ⟨hc.sound_publish law, .inr hc.published_publish⟩
  refine .bind (meets_publish.attempt.mono (fun _ h => h) (fun _ _ h => h) fun _ => hcut) fun r => ?_
  cases r
  case ok =>
    refine .exists fun id => ?_
    cases previous
    case none => exact .pure fun s h => ⟨rfl, h ▸ hc.sound_publish law, h ▸ hc.published_publish⟩
    case some previous =>
      have hp := hp previous rfl
      refine .bind ((meets_ignore_removeFile (Q := fun s => Sound lib s ∧
        s.published = ⟨record.tokens, content⟩ :: s₀.published) ?_ ?_).mono (fun _ h => h)
        (fun _ _ h => h) fun s h => ⟨h.left, .inr h.right⟩) fun _ => .pure fun s h => ⟨rfl, h⟩
      · rintro s rfl _
        refine ⟨(hc.sound_publish law).write hp.ne_latest fun other _ _ ho he => ?_,
          hc.published_publish⟩
        rw [hc.reads_publish law ho] at he
        exact hn previous hp (congrArg Path.name he)
      · rintro s rfl
        exact ⟨hc.sound_publish law, hc.published_publish⟩
  case error error =>
    refine .bind (meets_readRecord.attempt.mono (fun _ h => h) (fun _ _ h => h) fun _ => hcut)
      fun current => ?_
    cases current
    case error => exact .throw fun _ => hcut
    case ok current =>
      dsimp only
      split
      case isFalse          => exact .throw fun s h => hcut h.left
      case isTrue hcurrent =>
        refine .bind (meets_ignore_removeFile ?_ fun s h => hcut h.left) fun _ => .throw fun s h => h
        rintro s ⟨⟨id, ⟨file, rfl⟩ | rfl⟩, hr⟩ _
        · refine ⟨(hs.write_temporary id file).write (snapshot_ne hc.isSnapshotName).left
            fun other _ _ ho he => ?_, .inl rfl⟩
          exact hn other ((reads_write (temporary_ne_latest id)).mp ho) (congrArg Path.name he).symm
        · cases current
          case none =>
            rw [Reads, index_publish] at hr
            nomatch hr
          case some other => simp [hc.reads_publish law hr, Except.toOption] at hcurrent

-- What the server has saved.
def SaveInput.snapshot (input : SaveInput) : Option Snapshot :=
  match input.status, input.saved with
  | .ok status, some content => some ⟨status.promptTokens, content⟩
  | _, _                     => none

def Saved (lib : Libraries) (s₀ : Session) (input : SaveInput) (s : Session) : Prop :=
  Sound lib s ∧ ∃ snapshot ∈ input.snapshot, s.published = snapshot :: s₀.published

-- What a save may leave behind when it does not come to its end.
def Interrupted (lib : Libraries) (s₀ : Session) (input : SaveInput) (s : Session) : Prop :=
  Sound lib s ∧ (s.published = s₀.published ∨
    ∃ snapshot ∈ input.snapshot, s.published = snapshot :: s₀.published)

-- A copy that is complete can be published.
theorem copied_write (law : lib.Lawful) (hn : isSnapshotName name = true) (ht : tokens ≠ 0)
    (hne : content ≠ []) (hm : content.length ≤ stateSnapshotMaxBytes) :
    Copied lib ((s.write ⟨.server, name⟩ (some content)).write ⟨.session, name⟩ (some content))
      { version := 1, filename := name, tokens, bytes := content.length,
        sha256 := lib.sha256 content } content where
  valid  := validateRecord_eq_ok.mpr
    ⟨rfl, ht, by simpa using hne, hm, hn, law.digest content⟩
  file   := files_write_self
  length := rfl
  digest := rfl
  server := by simp

-- The previous record is taken from the index, if it can be read.
theorem meets_previous : Meets (· = s₁) (readRecord lib).attempt
    (fun previous s => (∀ other ∈ previous.toOption.join, Reads lib s₁ (some other)) ∧ s = s₁)
    (· = s₁) := by
  refine meets_readRecord.attempt.mono (fun _ h => h) (fun previous s h => ?_) fun _ h => h
  cases previous
  case error       => exact ⟨by simp [Except.toOption], h⟩
  case ok previous =>
    obtain ⟨rfl, hr⟩ := h
    refine ⟨fun other ho => ?_, rfl⟩
    obtain rfl : previous = some other := by simpa [Except.toOption] using ho
    exact hr

theorem meets_saveNamed (law : lib.Lawful) (hs : Sound lib s₀) (hname : isSnapshotName name = true)
    {status : LlamaSlotStatus} (hstatus : input.status = .ok status)
    (htokens : status.promptTokens ≠ 0) :
    Meets (· = s₀) (saveNamed lib input name status.promptTokens)
      (fun tokens s => tokens = status.promptTokens ∧ Saved lib s₀ input s)
      (Interrupted lib s₀ input) := by
  refine .bind (meets_saveLlamaSlot.mono (fun _ h => h) (fun _ _ h => h) ?_) fun bytes => ?_
  · rintro s ⟨file, rfl⟩
    exact ⟨hs.write_server name file, .inl rfl⟩
  refine .exists fun content => .of_pure fun hsaved => .of_pure fun hbytes => .of_pure fun hne =>
    .of_pure fun hmax => ?_
  have hs₁ := hs.write_server name (some content)
  have hl := (snapshot_ne hname).left
  refine .bind (meets_copySnapshotWithSha256.mono (fun _ h => h) (fun _ _ h => h) ?_)
    fun sha256 => ?_
  · intro s h
    have hp := published_fresh h
    exact ⟨hs₁.fresh hl h, .inl hp⟩
  refine .exists fun copied => .of_pure fun hf => .of_pure fun _ => .of_pure fun _ =>
    .of_pure fun hlen => .of_pure fun hdigest => .of_pure fun hnew => ?_
  obtain rfl : content = copied := by simpa using hf
  subst hdigest hbytes
  have hs₂ : Sound lib ((s₀.write ⟨.server, name⟩ (some content)).write ⟨.session, name⟩
    (some content)) := hs₁.write_new hl hnew _
  have hc := copied_write (s := s₀) law hname htokens hne hmax
  refine .bind (meets_previous.mono (fun _ h => h) (fun _ _ h => h)
    fun s h => ⟨h ▸ hs₂, .inl (h ▸ rfl)⟩) fun previous => .of_pure fun hp => ?_
  have hsnapshot : ⟨status.promptTokens, content⟩ ∈ input.snapshot := by
    simp [SaveInput.snapshot, hstatus, hsaved]
  have hn (other : Record) (ho : Reads lib ((s₀.write ⟨.server, name⟩ (some content)).write
      ⟨.session, name⟩ (some content)) (some other)) : other.filename ≠ name :=
    hs₁.reads_ne hnew ((reads_write hl).mp ho)
  refine (meets_replaceSnapshot law hs₂ hc hn hp).mono (fun _ h => h) ?_ ?_
  · exact fun tokens s ⟨ht, hs, hp⟩ => ⟨ht, hs, _, hsnapshot, hp⟩
  · exact fun s ⟨hs, hp⟩ => ⟨hs, hp.imp id fun h => ⟨_, hsnapshot, h⟩⟩

theorem isSnapshotName_random {random : Option (Vector UInt8 16)}
    (h : randomPrivateId "chat_" random = .ok name) :
    isSnapshotName (name ++ ".bin".toList) = true := by
  cases random
  case none        => nomatch h
  case some random =>
    obtain rfl := Except.ok.inj h
    have hs : stripSuffix ".bin".toList (random.toList.flatMap hexDigits ++ ".bin".toList) =
        some (random.toList.flatMap hexDigits) := by
      rw [stripSuffix, List.reverse_append, stripPrefix_append, Option.map_some, List.reverse_reverse]
    have hl : (random.toList.flatMap hexDigits).length = 32 := by
      simp [hexDigits, List.length_flatMap]
    rw [isSnapshotName, List.append_assoc, stripPrefix_append, Option.bind_some, hs, Option.any_some]
    simp only [decide_eq_true_eq, hl, true_and, List.all_eq_true]
    intro c hc
    obtain ⟨byte, _, hc⟩ := List.mem_flatMap.mp hc
    exact isHexdigit_hexDigits byte c hc

theorem Saved.interrupted (h : Saved lib s₀ input s) : Interrupted lib s₀ input s :=
  ⟨h.left, .inr h.right⟩

theorem meets_removePrivateSnapshot {P : Session → Prop}
    (hp : ∀ s, P s → P (s.write ⟨.server, name⟩ none)) :
    Meets P (removePrivateSnapshot name) (fun _ => P) P :=
  meets_ignore_removeFile (fun s h _ => hp s h) fun _ h => h

theorem meets_saveInner (law : lib.Lawful) (hs : Sound lib s₀) :
    Meets (· = s₀) (saveInner lib input) (fun _ => Saved lib s₀ input)
      (Interrupted lib s₀ input) := by
  have hstart {s : Session} (h : s = s₀) : Interrupted lib s₀ input s := by
    subst h
    exact ⟨hs, .inl rfl⟩
  refine .bind (meets_inspect.mono (fun _ h => h) (fun _ _ h => h) fun _ => hstart) fun status => ?_
  split
  case isTrue  => exact .throw fun s h => hstart h.left
  case isFalse hstatus =>
    refine .bind (.lift (Q := fun id s => isSnapshotName (id ++ ".bin".toList) = true ∧
      input.status = .ok status ∧ s = s₀) ?_ fun s h => hstart h.left) fun id => ?_
    · exact fun id s hid h => ⟨isSnapshotName_random hid, h.right, h.left⟩
    refine .of_pure fun hname => .of_pure fun hok => ?_
    have hn := meets_saveNamed law hs hname hok (by simpa using (not_or.mp hstatus).right)
    refine .bind (hn.attempt.mono (fun _ h => h) (fun _ _ h => h) fun _ h => h) fun result => ?_
    cases result
    case ok tokens =>
      refine .bind ((meets_removePrivateSnapshot fun s h =>
        ⟨h.left, h.right.left.write_server _ _, h.right.right⟩).mono (fun _ h => h)
          (fun _ _ h => h) fun s h => h.right.interrupted) fun _ => ?_
      exact .lift (fun _ s _ h => h.right) fun s h => h.right.interrupted
    case error =>
      refine .bind (meets_removePrivateSnapshot fun s h =>
        ⟨h.left.write_server _ _, h.right⟩) fun _ => ?_
      exact .lift (fun _ s h => nomatch h) fun _ h => h

theorem meets_save (law : lib.Lawful) (hs : Sound lib s₀) :
    Meets (· = s₀) (save lib input) (fun _ => Interrupted lib s₀ input)
      (Interrupted lib s₀ input) := by
  refine .bind (meets_saveInner law hs).attempt fun result => ?_
  cases result
  case ok    => exact .pure fun s h => h.interrupted
  case error => exact .pure fun s h => h

end Save

section Restore

variable {lib : Libraries} {s s₀ : Session} {record : Record} {name : Name} {content : Bytes}
variable {input : RestoreInput} {tokens : UInt64}

-- A restore leaves the directory as it is, and loads nothing but what the index names.
structure Restores (lib : Libraries) (s₀ s : Session) : Prop where
  sound     : Sound lib s
  published : s.published = s₀.published
  slot      : s.slot = s₀.slot ∨ s.slot = none ∨
    ∃ snapshot ∈ s₀.published.head?, s.slot = some snapshot.content

-- The slot holds the snapshot that the index names.
def Restored (s₀ : Session) (tokens : UInt64) (s : Session) : Prop :=
  ∃ snapshot ∈ s₀.published.head?, snapshot.tokens = tokens ∧ s.slot = some snapshot.content

theorem Restores.refl (hs : Sound lib s₀) : Restores lib s₀ s₀ :=
  ⟨hs, rfl, .inl rfl⟩

theorem Restores.write_server (h : Restores lib s₀ s) (name : Name) (file : Option Bytes) :
    Restores lib s₀ (s.write ⟨.server, name⟩ file) :=
  ⟨h.sound.write_server name file, h.published, h.slot⟩

theorem Restores.write_capability (h : Restores lib s₀ s) (file : Option Bytes) :
    Restores lib s₀ (s.write capability file) :=
  ⟨h.sound.write_capability file, h.published, h.slot⟩

theorem Sound.setSlot (h : Sound lib s) (slot : Option Bytes) : Sound lib { s with slot } :=
  ⟨h.cold, fun index hi =>
    have ⟨hne, hl, record, content, rest, hd, hs, hp⟩ := h.index index hi
    ⟨hne, hl, record, content, rest, hd, ⟨hs.valid, hs.file, hs.length, hs.digest⟩, hp⟩⟩

theorem meets_restoreLlamaSlot {bytes : Nat} (hs : Restores lib s₀ s)
    (hf : s.files ⟨.server, name⟩ = some content)
    (hp : ⟨tokens, content⟩ ∈ s₀.published.head?) :
    Meets (· = s) (restoreLlamaSlot input name tokens bytes)
      (fun _ s => Restores lib s₀ s ∧ Restored s₀ tokens s) (Restores lib s₀) := by
  have hstart {s' : Session} (h : s' = s) : Restores lib s₀ s' := h ▸ hs
  refine .bind (meets_openBoundedRegularFile.mono (fun _ h => h) (fun _ _ h => h) fun _ => hstart)
    fun opened => ?_
  refine .bind (.step (Q := fun _ s => Restores lib s₀ s ∧ Restored s₀ tokens s) ?_
    (fun _ h => hstart h.left) fun _ _ h => hstart h.left) fun _ => ?_
  · intro s' _ next hopened h
    obtain ⟨rfl, hopened, _⟩ := hopened
    obtain rfl : content = opened := Option.some.inj (hf.symm.trans hopened)
    obtain rfl := (Prod.mk.inj (Except.ok.inj h)).right
    exact ⟨⟨hs.sound.setSlot _, hs.published, .inr (.inr ⟨_, hp, rfl⟩)⟩, _, hp, rfl, rfl⟩
  refine .bind (.lift (fun _ _ _ h => h) fun _ h => h.left) fun response => ?_
  refine .bind (.lift (fun _ _ _ h => h) fun _ h => h.left) fun _ => ?_
  refine .bind (.lift (fun _ _ _ h => h) fun _ h => h.left) fun slot => ?_
  split
  case isTrue  => exact .throw fun _ h => h.left
  case isFalse => exact .pure fun _ h => h

theorem meets_restoreNamed (hs : Sound lib s₀) (hr : Reads lib s₀ (some record)) :
    Meets (· = s₀) (restoreNamed lib input record name)
      (fun tokens s => Restores lib s₀ s ∧ Restored s₀ tokens s) (Restores lib s₀) := by
  obtain ⟨_, index, hi, hd⟩ := hr
  obtain ⟨_, _, stored, content, rest, hd', hstored, hp⟩ := hs.index index hi
  obtain rfl : stored = record := Option.some.inj (hd'.symm.trans hd)
  have hhead : ⟨stored.tokens, content⟩ ∈ s₀.published.head? := by simp [hp]
  have hcopied {s : Session} (h : ∃ file, s = s₀.write ⟨.server, name⟩ file) :
      Restores lib s₀ s := by
    obtain ⟨file, rfl⟩ := h
    exact (Restores.refl hs).write_server name file
  refine .bind (meets_copySnapshotWithSha256.mono (fun _ h => h) (fun _ _ h => h) ?_) fun sha256 => ?_
  · rintro s (rfl | ⟨_, file, rfl⟩)
    · exact .refl hs
    · exact hcopied ⟨file, rfl⟩
  refine .exists fun copied => .of_pure fun hf => .of_pure fun _ => .of_pure fun _ =>
    .of_pure fun _ => .of_pure fun _ => .of_pure fun _ => ?_
  obtain rfl : content = copied := Option.some.inj (hstored.file.symm.trans hf)
  split
  case isTrue  => exact .throw fun s h => hcopied ⟨_, h⟩
  case isFalse =>
    refine .bind (meets_restoreLlamaSlot ((Restores.refl hs).write_server name (some content)) ?_
      hhead) fun _ => .pure fun s h => h
    exact files_write_self

theorem meets_restoreInner (hs : Sound lib s₀) :
    Meets (· = s₀) (restoreInner lib input)
      (fun result s => Restores lib s₀ s ∧ (result = none → s₀.published = []) ∧
        ∀ tokens ∈ result, Restored s₀ tokens s) (Restores lib s₀) := by
  have hstart {s : Session} (h : s = s₀) : Restores lib s₀ s := h ▸ .refl (h ▸ hs)
  refine .bind (meets_readRecord.mono (fun _ h => h) (fun _ _ h => h) fun _ => hstart)
    fun result => ?_
  cases result
  case none =>
    refine .pure fun s h => ⟨hstart h.left, fun _ => hs.cold ?_, nofun⟩
    obtain ⟨rfl, hr⟩ := h
    exact hr
  case some record =>
    refine .bind (.lift (fun _ _ _ h => h) fun _ h => hstart h.left) fun id => ?_
    have hn : Meets (fun s => s = s₀ ∧ Reads lib s (some record))
        (restoreNamed lib input record (id ++ ".bin".toList))
        (fun tokens s => Restores lib s₀ s ∧ Restored s₀ tokens s) (Restores lib s₀) := by
      rintro s fates ⟨rfl, hr⟩
      exact meets_restoreNamed hs hr s fates rfl
    refine .bind (hn.attempt.mono (fun _ h => h) (fun _ _ h => h) fun _ h => h) fun result => ?_
    cases result
    case ok tokens =>
      refine .bind ((meets_removePrivateSnapshot fun s h =>
        ⟨h.left.write_server _ _, h.right⟩).mono (fun _ h => h) (fun _ _ h => h) fun s h => h.left)
        fun _ => ?_
      refine .bind (.lift (Q := fun tokens s => Restores lib s₀ s ∧ Restored s₀ tokens s) ?_
        fun _ h => h.left) fun tokens => .pure fun s h => ⟨h.left, nofun, ?_⟩
      · intro tokens' s ht h
        exact Except.ok.inj ht ▸ h
      · intro tokens' ht
        exact Option.some.inj ht ▸ h.right
    case error =>
      refine .bind (meets_removePrivateSnapshot fun s h => h.write_server _ _) fun _ => ?_
      refine .bind (.lift (Q := fun _ _ => False) (fun _ s h => nomatch h) fun _ h => h) fun _ => ?_
      exact fun _ _ h => h.elim

theorem meets_eraseLlamaSlot : Meets (Restores lib s₀) (eraseLlamaSlot input)
    (fun _ => Restores lib s₀) (Restores lib s₀) := by
  refine .bind (.step (Q := fun _ => Restores lib s₀) ?_ (fun _ h => h) fun _ _ h => h) fun _ => ?_
  · intro s _ s' hs h
    obtain rfl := (Prod.mk.inj (Except.ok.inj h)).right
    exact ⟨hs.sound.setSlot none, hs.published, .inr (.inl rfl)⟩
  refine .bind (.lift (fun _ _ _ h => h) fun _ h => h) fun response => ?_
  exact .lift (fun _ _ _ h => h) fun _ h => h

theorem Restores.setAttempted (h : Restores lib s₀ s) (restoreAttempted : Bool) :
    Restores lib s₀ { s with restoreAttempted } :=
  ⟨⟨h.sound.cold, fun index hi =>
    have ⟨hne, hl, record, content, rest, hd, hs, hp⟩ := h.sound.index index hi
    ⟨hne, hl, record, content, rest, hd, ⟨hs.valid, hs.file, hs.length, hs.digest⟩, hp⟩⟩,
    h.published, h.slot⟩

theorem meets_restore (hs : Sound lib s₀) : Meets (· = s₀) (restore lib input)
    (fun result s => Restores lib s₀ s ∧ ∀ tokens ∈ result.2, Restored s₀ tokens s)
    (Restores lib s₀) := by
  refine .bind (.get (Q := fun now s => now = s₀ ∧ s = s₀) fun s h => ⟨h, h⟩) fun now => ?_
  refine .of_pure fun hnow => .bind (.modify (Q := fun _ s => s = { s₀ with restoreAttempted := true })
    fun s h => by rw [h]) fun _ => ?_
  have hr : Restores lib s₀ { s₀ with restoreAttempted := true } := (Restores.refl hs).setAttempted true
  split
  case isTrue  => exact .pure fun s h => ⟨h ▸ hr, nofun⟩
  case isFalse =>
    have hi : Meets _ (restoreInner lib input) _ _ := meets_restoreInner hr.sound
    have hc {s : Session} (h : Restores lib { s₀ with restoreAttempted := true } s) :
        Restores lib s₀ s := ⟨h.sound, h.published, h.slot⟩
    refine .bind (hi.attempt.mono (fun _ h => h) (fun _ _ h => h) fun _ => hc) fun result => ?_
    rcases result with error | _ | tokens
    case error =>
      refine .bind (meets_ignore_removeFile (Q := Restores lib s₀)
        (fun s h _ => (hc h).write_capability none) fun _ => hc) fun _ => ?_
      refine .bind (meets_eraseLlamaSlot.attempt) fun erased => ?_
      cases erased
      case ok    => exact .pure fun s h => ⟨h, nofun⟩
      case error =>
        refine .bind (.modify (Q := fun _ => Restores lib s₀) fun s h => h.setAttempted false) fun _ => ?_
        exact .throw fun _ h => h
    case ok.none => exact .pure fun s h => ⟨hc h.left, nofun⟩
    case ok.some => exact .pure fun s h => ⟨hc h.left, h.right.right⟩

end Restore
end Backend.ChatPersistence
