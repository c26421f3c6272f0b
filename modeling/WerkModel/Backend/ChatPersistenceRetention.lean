import WerkModel.Backend.ChatPersistenceRuns

-- The snapshots that stay in the directory of a chat. A save removes its predecessor, and a save
-- that is interrupted may leave a file that no later one removes.
open Checks Faulty

namespace Backend.ChatPersistence

def isChatFile (name : Name) : Bool :=
  "chat_".toList.isPrefixOf name && ".bin".toList.isSuffixOf name

namespace Session

variable (lib : Libraries) (s : Session)

def snapshots : Set Name :=
  { name | isChatFile name = true ∧ (s.files ⟨.session, name⟩).isSome = true }

-- What the index names, if it can be read.
def indexed : Set Name :=
  { name | ∃ record, Reads lib s (some record) ∧ record.filename = name }

def abandoned : Set Name :=
  s.snapshots \ s.indexed lib

end Session

section Snapshots

variable {lib : Libraries} {s s₀ : Session} {path : Path} {name id : Name} {file : Option Bytes}
variable {record : Record} {content : Bytes}

theorem isChatFile_of_isSnapshotName (h : isSnapshotName name = true) : isChatFile name = true := by
  obtain ⟨id, hs, -⟩ := (Option.any_eq_true ..).mp h
  obtain ⟨rest, hr, hs⟩ := Option.bind_eq_some_iff.mp hs
  obtain ⟨reversed, hrev, rfl⟩ := Option.map_eq_some_iff.mp hs
  have hrest : rest = reversed.reverse ++ ".bin".toList := by
    simpa using congrArg List.reverse (exists_of_stripPrefix hrev)
  rw [exists_of_stripPrefix hr, hrest, isChatFile, Bool.and_eq_true, List.isPrefixOf_iff_prefix,
    List.isSuffixOf_iff_suffix, ←List.append_assoc]
  exact ⟨⟨_, (List.append_assoc ..).symm⟩, ⟨_, rfl⟩⟩

theorem server_ne_latest : (⟨.server, name⟩ : Path) ≠ latest := by
  simp [latest]

theorem isChatFile_temporary (id : Name) : isChatFile (temporary id).name = false := by
  simp [isChatFile, temporary]

theorem snapshots_write (h : path.folder = .server ∨ isChatFile path.name = false) :
    (s.write path file).snapshots = s.snapshots := by
  refine Set.ext fun name => and_congr_right fun hn => ?_
  rw [files_write_of_ne]
  rintro rfl
  obtain hf | hf := h
  · nomatch hf
  · rw [hn] at hf
    nomatch hf

theorem snapshots_write_some (h : isChatFile name = true) :
    (s.write ⟨.session, name⟩ (some content)).snapshots = insert name s.snapshots := by
  refine Set.ext fun other => ?_
  by_cases ho : other = name
  case pos => simp [Session.snapshots, ho, h]
  case neg =>
    have hp : (⟨.session, other⟩ : Path) ≠ ⟨.session, name⟩ := by simpa using ho
    simp [Session.snapshots, ho, hp]

theorem snapshots_write_none :
    (s.write ⟨.session, name⟩ none).snapshots = s.snapshots \ {name} := by
  refine Set.ext fun other => ?_
  by_cases ho : other = name
  case pos => simp [Session.snapshots, ho]
  case neg =>
    have hp : (⟨.session, other⟩ : Path) ≠ ⟨.session, name⟩ := by simpa using ho
    simp [Session.snapshots, ho, hp]

theorem snapshots_publish :
    (s.publish (temporary id) latest (lib.encode record) record.note).snapshots = s.snapshots := by
  have hf : isChatFile latest.name = false := by decide
  exact (snapshots_write (.inr hf)).trans (snapshots_write (.inr (isChatFile_temporary id)))

theorem indexed_congr (h : s.files latest = s₀.files latest) : s.indexed lib = s₀.indexed lib := by
  simp only [Session.indexed, Reads, h]

theorem indexed_write (h : path ≠ latest) : (s.write path file).indexed lib = s.indexed lib :=
  indexed_congr (files_write_of_ne h.symm)

theorem Copied.indexed_publish (law : lib.Lawful) (h : Copied lib s record content) :
    (s.publish (temporary id) latest (lib.encode record) record.note).indexed lib =
      {record.filename} := by
  refine Set.ext fun name => ⟨?_, ?_⟩
  · rintro ⟨other, ho, rfl⟩
    exact congrArg Record.filename (h.reads_publish law ho)
  · rintro rfl
    exact ⟨record, ⟨h.valid, _, index_publish, law.decode record h.valid⟩, rfl⟩

theorem subsingleton_indexed : (s.indexed lib).Subsingleton := by
  rintro _ ⟨record, ⟨_, index, hi, hd⟩, rfl⟩ _ ⟨other, ⟨_, index', hi', hd'⟩, rfl⟩
  rw [hi] at hi'
  cases hi'
  rw [hd] at hd'
  cases hd'
  rfl

-- What the index names is in the directory.
theorem Sound.indexed_subset (h : Sound lib s) : s.indexed lib ⊆ s.snapshots := by
  rintro _ ⟨record, ⟨hv, index, hi, hd⟩, rfl⟩
  obtain ⟨_, _, other, content, _, hd', hs, _⟩ := h.index index hi
  obtain rfl : other = record := Option.some.inj (hd'.symm.trans hd)
  refine ⟨isChatFile_of_isSnapshotName (validateRecord_eq_ok.mp hv).right.right.right.right.left, ?_⟩
  rw [hs.file, Option.isSome_some]

end Snapshots

-- What any save leaves, however its steps end: one file more, with the index as it was, or with an
-- index that names this file.
section Left

variable {lib : Libraries} {s s₀ s₁ : Session} {path : Path} {name : Name} {file : Option Bytes}
variable {record : Record} {content : Bytes} {input : SaveInput} {tokens : UInt64}

structure Left (lib : Libraries) (name : Name) (s₀ s : Session) : Prop where
  snapshots : s.snapshots ⊆ insert name s₀.snapshots
  index     : s.indexed lib = s₀.indexed lib ∨ s.indexed lib = {name}

theorem Left.refl : Left lib name s s where
  snapshots := Set.subset_insert ..
  index     := .inl rfl

theorem Left.write (l : Left lib name s₀ s) (hp : path ≠ latest)
    (h : path.folder = .server ∨ isChatFile path.name = false) :
    Left lib name s₀ (s.write path file) where
  snapshots := (snapshots_write h).trans_subset l.snapshots
  index     := by rw [indexed_write hp]; exact l.index

theorem Left.write_temporary (l : Left lib name s₀ s) (id : Name) :
    Left lib name s₀ (s.write (temporary id) file) :=
  l.write (temporary_ne_latest id) (.inr (isChatFile_temporary id))

theorem Left.write_name (l : Left lib name s₀ s) (hn : isSnapshotName name = true) :
    Left lib name s₀ (s.write ⟨.session, name⟩ file) where
  snapshots := by
    cases file
    case none   => exact snapshots_write_none.trans_subset (Set.sdiff_subset.trans l.snapshots)
    case some _ =>
      rw [snapshots_write_some (isChatFile_of_isSnapshotName hn)]
      exact Set.insert_subset (Set.mem_insert ..) l.snapshots
  index     := by rw [indexed_write (snapshot_ne hn).left]; exact l.index

theorem Left.remove (l : Left lib name s₀ s) {other : Name}
    (h : (⟨.session, other⟩ : Path) ≠ latest) :
    Left lib name s₀ (s.write ⟨.session, other⟩ none) where
  snapshots := snapshots_write_none.trans_subset (Set.sdiff_subset.trans l.snapshots)
  index     := by rw [indexed_write h]; exact l.index

theorem Left.fresh (l : Left lib name s₀ s) (hn : isSnapshotName name = true)
    (h : Fresh s ⟨.session, name⟩ s₁) : Left lib name s₀ s₁ := by
  obtain rfl | ⟨_, file, rfl⟩ := h
  · exact l
  · exact l.write_name hn

-- One file more is not named by the index.
theorem Left.abandoned (l : Left lib name s₀ s) :
    ∃ other, s.abandoned lib ⊆ insert other (s₀.abandoned lib) := by
  obtain hi | hi := l.index
  case inl =>
    refine ⟨name, fun other ho => ?_⟩
    obtain ho' | ho' := l.snapshots ho.left
    · exact .inl ho'
    · exact .inr ⟨ho', hi ▸ ho.right⟩
  case inr =>
    obtain hn | ⟨previous, hp⟩ := (s₀.indexed lib).eq_empty_or_nonempty
    case inl =>
      refine ⟨name, fun other ho => ?_⟩
      obtain ho' | ho' := l.snapshots ho.left
      · exact .inl ho'
      · exact .inr ⟨ho', by rw [hn]; exact id⟩
    case inr =>
      refine ⟨previous, fun other ho => ?_⟩
      have hne : other ≠ name := fun h => ho.right (hi ▸ h)
      by_cases he : other = previous
      case pos => exact .inl he
      case neg =>
        have ho' := (l.snapshots ho.left).resolve_left hne
        exact .inr ⟨ho', fun h => he (subsingleton_indexed h hp)⟩

theorem meets_replaceSnapshot_left (law : lib.Lawful) (hc : Copied lib s₁ record content)
    (l : Left lib record.filename s₀ s₁) {random : Option (Vector UInt8 16)}
    {previous : Option Record} (hp : ∀ other ∈ previous, Reads lib s₁ (some other)) :
    Meets (· = s₁) (replaceSnapshot lib record random previous)
      (fun _ s => Left lib record.filename s₀ s ∧ s.indexed lib = {record.filename})
      (Left lib record.filename s₀) := by
  have hpublish (id : Name) : Left lib record.filename s₀
      (s₁.publish (temporary id) latest (lib.encode record) record.note) :=
    ⟨snapshots_publish.trans_subset l.snapshots, .inr (hc.indexed_publish law)⟩
  have hcut {s : Session} (h : ∃ id, (∃ file, s = s₁.write (temporary id) file) ∨
      s = s₁.publish (temporary id) latest (lib.encode record) record.note) :
      Left lib record.filename s₀ s := by
    obtain ⟨id, ⟨file, rfl⟩ | rfl⟩ := h
    · exact l.write_temporary id
    · exact hpublish id
  refine .bind (meets_publish.attempt.mono (fun _ h => h) (fun _ _ h => h) fun _ => hcut) fun r => ?_
  cases r
  case ok =>
    refine .exists fun id => ?_
    have hi : (s₁.publish (temporary id) latest (lib.encode record) record.note).indexed lib = _ :=
      hc.indexed_publish law
    cases previous
    case none => exact .pure fun s h => h ▸ ⟨hpublish id, hi⟩
    case some previous =>
      have hl := (hp previous rfl).ne_latest
      refine .bind ((meets_ignore_removeFile (Q := fun s => Left lib record.filename s₀ s ∧
        s.indexed lib = {record.filename}) ?_ ?_).mono (fun _ h => h) (fun _ _ h => h)
        fun s h => h.left) fun _ => .pure fun s h => h
      · rintro s rfl _
        exact ⟨(hpublish id).remove hl, (indexed_write hl).trans hi⟩
      · rintro s rfl
        exact ⟨hpublish id, hi⟩
  case error error =>
    refine .bind (meets_readRecord.attempt.mono (fun _ h => h) (fun _ _ h => h) fun _ => hcut)
      fun current => ?_
    cases current
    case error => exact .throw fun _ => hcut
    case ok current =>
      dsimp only
      split
      case isFalse => exact .throw fun s h => hcut h.left
      case isTrue  =>
        refine .bind (meets_ignore_removeFile (fun s h _ => ?_) fun s h => hcut h.left) fun _ =>
          .throw fun s h => h
        exact (hcut h.left).remove (snapshot_ne hc.isSnapshotName).left

theorem meets_saveNamed_left (law : lib.Lawful) (hn : isSnapshotName name = true)
    (ht : tokens ≠ 0) :
    Meets (· = s₀) (saveNamed lib input name tokens)
      (fun _ s => Left lib name s₀ s ∧ s.indexed lib = {name}) (Left lib name s₀) := by
  have hserver (file : Option Bytes) : Left lib name s₀ (s₀.write ⟨.server, name⟩ file) :=
    Left.refl.write server_ne_latest (.inl rfl)
  refine .bind (meets_saveLlamaSlot.mono (fun _ h => h) (fun _ _ h => h) ?_) fun bytes => ?_
  · rintro s ⟨file, rfl⟩
    exact hserver file
  refine .exists fun content => .of_pure fun _ => .of_pure fun hbytes => .of_pure fun hne =>
    .of_pure fun hmax => ?_
  refine .bind (meets_copySnapshotWithSha256.mono (fun _ h => h) (fun _ _ h => h)
    fun s h => (hserver _).fresh hn h) fun sha256 => ?_
  refine .exists fun copied => .of_pure fun hf => .of_pure fun _ => .of_pure fun _ =>
    .of_pure fun hlen => .of_pure fun hdigest => .of_pure fun _ => ?_
  obtain rfl : content = copied := by simpa using hf
  subst hdigest hbytes
  have hc := copied_write (s := s₀) law hn ht hne hmax
  have hl : Left lib name s₀ ((s₀.write ⟨.server, name⟩ (some content)).write ⟨.session, name⟩
    (some content)) := (hserver (some content)).write_name hn
  refine .bind (meets_previous.mono (fun _ h => h) (fun _ _ h => h) fun s h => h ▸ hl)
    fun previous => .of_pure fun hp => ?_
  exact meets_replaceSnapshot_left law hc hl hp

def SaveInput.Named (input : SaveInput) (name : Name) : Prop :=
  ∃ id, randomPrivateId "chat_" input.random = .ok id ∧ name = id ++ ".bin".toList

theorem SaveInput.Named.unique {other : Name} (h : input.Named name) (h' : input.Named other) :
    name = other := by
  obtain ⟨id, hid, rfl⟩ := h
  obtain ⟨id', hid', rfl⟩ := h'
  rw [hid] at hid'
  rw [Except.ok.inj hid']

theorem meets_saveInner_left (law : lib.Lawful) : Meets (· = s₀) (saveInner lib input)
    (fun _ s => ∃ name, input.Named name ∧ Left lib name s₀ s ∧ s.indexed lib = {name})
    (fun s => ∃ name, Left lib name s₀ s) := by
  have hstart {s : Session} (h : s = s₀) : ∃ name, Left lib name s₀ s := ⟨[], h ▸ .refl⟩
  refine .bind (meets_inspect.mono (fun _ h => h) (fun _ _ h => h) fun _ => hstart) fun status => ?_
  split
  case isTrue  => exact .throw fun s h => hstart h.left
  case isFalse hstatus =>
    refine .bind (.lift (Q := fun id s => randomPrivateId "chat_" input.random = .ok id ∧ s = s₀)
      (fun id s hid h => ⟨hid, h.left⟩) fun s h => hstart h.left) fun id => .of_pure fun hid => ?_
    have hname := isSnapshotName_random hid
    have hserver {s : Session} (l : Left lib (id ++ ".bin".toList) s₀ s) :
        Left lib (id ++ ".bin".toList) s₀ (s.write ⟨.server, id ++ ".bin".toList⟩ none) :=
      l.write server_ne_latest (.inl rfl)
    have hn : Meets (· = s₀) (saveNamed lib input _ status.promptTokens) _ _ :=
      meets_saveNamed_left law hname (by simpa using (not_or.mp hstatus).right)
    refine .bind (hn.attempt.mono (fun _ h => h) (fun _ _ h => h) fun _ h => ⟨_, h⟩) fun result => ?_
    cases result
    case ok tokens =>
      have hindexed {s : Session} (h : s.indexed lib = {id ++ ".bin".toList}) :
          (s.write ⟨.server, id ++ ".bin".toList⟩ none).indexed lib = {id ++ ".bin".toList} :=
        (indexed_write server_ne_latest).trans h
      refine .bind ((meets_removePrivateSnapshot fun s h => h.imp hserver hindexed).mono
        (fun _ h => h) (fun _ _ h => h) fun s h => ⟨_, h.left⟩) fun _ => ?_
      exact .lift (fun _ s _ h => ⟨_, ⟨id, hid, rfl⟩, h⟩) fun s h => ⟨_, h.left⟩
    case error =>
      refine .bind ((meets_removePrivateSnapshot fun s h => hserver h).mono
        (fun _ h => h) (fun _ _ h => h) fun s h => ⟨_, h⟩) fun _ => ?_
      exact .lift (fun _ s h => nomatch h) fun _ h => ⟨_, h⟩

end Left

-- What a save leaves if none of its steps fails or is cut off.
section Undisturbed

variable {lib : Libraries} {s s₀ s₁ : Session} {path target : Path} {name : Name}
variable {record : Record} {content : Bytes} {expected : Nat} {input : SaveInput} {tokens : UInt64}
variable {P : Session → Prop} {α : Type}

-- A save that is cut off is not considered here.
def anywhere : Session → Prop :=
  fun _ => True

theorem ensures_inspect {f : Session → Except String α} :
    Ensures P (inspect f) (fun a s => P s ∧ f s = .ok a) (fun s => P s ∧ ∃ e, f s = .error e)
      anywhere := by
  refine .step (fun s a s' hp hs => ?_) (fun s e hp hs => ?_) fun _ _ => trivial
  case refine_1 =>
    cases hf : f s
    case ok => simp_all [Except.map]
    case error => simp_all [Except.map]
  case refine_2 =>
    cases hf : f s
    case ok => simp_all [Except.map]
    case error e => exact ⟨hp, e, rfl⟩

theorem ensures_sync {E : Session → Prop} : Ensures P sync (fun _ => P) E anywhere :=
  ensures_inspect.mono (fun _ h => h) (fun _ _ h => h.left) (fun _ h => by simp at h) fun _ h => h

theorem ensures_createNew : Ensures (· = s₀) (createNew path)
    (fun _ s => s₀.files path = none ∧ s = s₀.write path (some [])) (· = s₀) anywhere := by
  refine .step (fun s a s' hp hs => ?_) (fun s e h _ => h) fun _ _ => trivial
  subst hp
  split at hs
  case isTrue     => nomatch hs
  case isFalse hn =>
    obtain ⟨_, rfl⟩ := Prod.mk.inj (Except.ok.inj hs)
    exact ⟨by simpa using hn, rfl⟩

theorem ensures_append {copied data : Bytes} {E : Session → Prop} :
    Ensures (· = s₀.write path (some copied)) (append path data)
      (fun _ s => s = s₀.write path (some (copied ++ data))) E anywhere := by
  refine .parted (fun s a s' hp hs => ?_) (fun s e _ h => nomatch h) fun _ _ _ => trivial
  obtain ⟨_, rfl⟩ := Prod.mk.inj (Except.ok.inj hs)
  simp [hp]

theorem ensures_ignore_removeFile {Q E : Session → Prop} (h : ∀ s, P s → Q (s.write path none)) :
    Ensures P (ignore (removeFile path)) (fun _ => Q) E anywhere := by
  have hr : Ensures P (removeFile path) (fun _ => Q) Q anywhere := by
    refine .step (fun s a s' hp hs => ?_) (fun s e hp hs => ?_) fun _ _ => trivial
    case refine_1 =>
      split at hs
      case isTrue  => exact (Prod.mk.inj (Except.ok.inj hs)).right ▸ h s hp
      case isFalse => nomatch hs
    case refine_2 =>
      split at hs
      case isTrue     => nomatch hs
      case isFalse hf =>
        have hw : s.write path none = s := by
          rw [←Option.not_isSome_iff_eq_none.mp hf, write_files]
        exact hw ▸ h s hp
  refine .bind hr.attempt fun r => .pure fun s hs => ?_
  cases r
  case ok    => exact hs
  case error => exact hs

theorem ensures_openBoundedRegularFile {size : Option Nat} (hf : s₀.files path = some content) :
    Ensures (· = s₀) (openBoundedRegularFile path size)
      (fun opened s => opened = content ∧ s = s₀) (· = s₀) anywhere := by
  refine ensures_inspect.mono (fun _ h => h) ?_ (fun _ h => h.left) fun _ h => h
  rintro opened s ⟨rfl, h⟩
  simp only [hf] at h
  split at h
  case isTrue  => nomatch h
  case isFalse => exact ⟨(Except.ok.inj h).symm, rfl⟩

theorem ensures_copyChunks {copied rest : Bytes} :
    Ensures (· = s₀.write path (some copied)) (copyChunks path expected copied rest)
      (fun all s => all = copied ++ rest ∧ s = s₀.write path (some all))
      (fun s => ∃ file, s = s₀.write path (some file)) anywhere := by
  fun_induction copyChunks path expected copied rest
  case case1 copied rest hi =>
    refine .bind ensures_sync fun _ => ?_
    split
    case isTrue hr  => exact .pure fun s hs => by simp [hr, hs]
    case isFalse hr =>
      have hi := hi hr
      dsimp only at hi ⊢
      rw [List.append_assoc, List.take_append_drop] at hi
      split
      case isTrue  => exact .throw fun s h => ⟨copied, h⟩
      case isFalse => exact .bind ensures_append fun _ => hi

theorem ensures_copyContent : Ensures (· = s₀.write path (some []))
    (copyContent path expected content)
    (fun copied s => copied = content ∧ content.length = expected ∧
      s = s₀.write path (some content))
    (fun s => ∃ file, s = s₀.write path (some file)) anywhere := by
  refine .bind ensures_copyChunks fun copied => ?_
  split
  case isTrue  => exact .throw fun s hs => ⟨copied, hs.right⟩
  case isFalse h =>
    refine .bind ensures_sync fun _ => .bind ensures_sync fun _ => .pure fun s hs => ?_
    obtain ⟨hc, hs⟩ := hs
    rw [List.nil_append] at hc
    exact ⟨hc, by simpa [hc] using h, hc ▸ hs⟩

-- A copy that fails is removed.
theorem ensures_copySnapshotFile : Ensures (· = s₀) (copySnapshotFile path content expected)
    (fun copied s => copied = content ∧ content.length = expected ∧ s₀.files path = none ∧
      s = s₀.write path (some content)) (· = s₀) anywhere := by
  rw [copySnapshotFile]
  split
  case isTrue  => exact .throw fun s h => h
  case isFalse =>
    refine .bind ensures_createNew fun _ => .of_pure fun hn => ?_
    refine .bind ensures_copyContent.attempt fun r => ?_
    cases r
    case ok copied   => exact .pure fun s h => ⟨h.left, h.right.left, hn, h.right.right⟩
    case error error =>
      refine .bind (ensures_ignore_removeFile ?_) fun _ => .throw fun s h => h
      rintro s ⟨file, rfl⟩
      rw [write_write, ←hn, write_files]

theorem ensures_copySnapshotWithSha256 {source : Path} (hf : s₀.files source = some content) :
    Ensures (· = s₀) (copySnapshotWithSha256 lib source path expected)
      (fun sha256 s => sha256 = lib.sha256 content ∧ content.length = expected ∧
        s₀.files path = none ∧ s = s₀.write path (some content)) (· = s₀) anywhere := by
  refine .bind (ensures_openBoundedRegularFile hf) fun opened => .of_pure fun ho => ?_
  subst ho
  refine .bind ensures_copySnapshotFile fun copied => .pure fun s h => ?_
  exact ⟨congrArg lib.sha256 h.left, h.right⟩

theorem ensures_inspect_ok {f : Session → Except String α} {a : α} {E : Session → Prop}
    (h : f s₀ = .ok a) :
    Ensures (· = s₀) (inspect f) (fun b s => b = a ∧ s = s₀) E anywhere := by
  refine ensures_inspect.mono (fun _ h => h) ?_ ?_ fun _ h => h
  · rintro b s ⟨rfl, hb⟩
    exact ⟨Except.ok.inj (hb.symm.trans h), rfl⟩
  · rintro s ⟨rfl, e, he⟩
    nomatch h.symm.trans he

theorem ensures_index {index : Bytes} {E : Session → Prop} (hi : s₀.files latest = some index)
    (hn : index ≠ []) (hl : index.length ≤ 4096) (hd : lib.decode index = some record)
    (hv : validateRecord record = .ok ()) :
    Ensures (· = s₀) (readRecord lib) (fun r s => r = some record ∧ s = s₀) E anywhere := by
  refine .bind (ensures_inspect_ok (a := true) (by simp [hi])) fun found => .of_pure fun hf => ?_
  rw [hf, if_neg (by simp)]
  have hm : ¬(index.length = 0 ∨ stateSnapshotMaxBytes < index.length ∨
      (none : Option Nat).any (· ≠ index.length)) := by
    have : 4096 ≤ stateSnapshotMaxBytes := by decide
    simp [hn]
    omega
  have hopen : Ensures (· = s₀) (openBoundedRegularFile latest none)
      (fun content s => content = index ∧ s = s₀) E anywhere :=
    ensures_inspect_ok (by simp only [hi, if_neg hm])
  refine .bind hopen fun opened => .of_pure fun ho => ?_
  rw [ho, if_neg (by omega)]
  refine .bind (ensures_inspect_ok (a := record) (by simp [hd])) fun decoded => .of_pure fun hdec => ?_
  subst hdec
  refine .bind (.lift (Q := fun _ s => s = s₀) (fun _ _ _ h => h) fun e s he _ => ?_) fun _ =>
    .pure fun s h => ⟨rfl, h⟩
  rw [hv] at he
  nomatch he

-- An index can be read.
theorem ensures_readRecord {E : Session → Prop} (hs : Sound lib s₀) : Ensures (· = s₀)
    (readRecord lib) (fun r s => Reads lib s₀ r ∧ s = s₀) E anywhere := by
  cases hi : s₀.files latest
  case none =>
    refine .bind (ensures_inspect_ok (a := false) (by simp [hi])) fun found => .of_pure fun hf => ?_
    rw [if_pos hf]
    exact .pure fun s h => ⟨hi, h⟩
  case some index =>
    obtain ⟨hn, hl, record, content, rest, hd, hstored, _⟩ := hs.index index hi
    refine (ensures_index hi hn hl hd hstored.valid).result ?_
    rintro _ s ⟨rfl, h⟩
    exact ⟨⟨hstored.valid, index, hi, hd⟩, h⟩

theorem ensures_writeAndRename {note : Session → Session} :
    Ensures (· = s₀) (writeAndRename path target content note)
      (fun _ s => s = s₀.publish path target content note) (fun s => ∃ file, s = s₀.write path file)
      anywhere := by
  refine .bind (ensures_createNew.stops (fun s h => ⟨s₀.files path, by simpa using h⟩) fun _ h => h)
    fun _ => .of_pure fun _ => ?_
  refine .bind ensures_append fun _ => .bind ensures_append fun _ => .bind ensures_sync fun _ => ?_
  have hrename : Ensures (· = s₀.write path (some (content ++ [10]))) (rename path target note)
      (fun _ s => s = s₀.publish path target content note) (fun s => ∃ file, s = s₀.write path file)
      anywhere := by
    refine .step (fun s a s' hs h => ?_) (fun s e hs h => ?_) fun _ _ => trivial
    · subst hs
      simp only [files_write_self, write_write, Except.ok.injEq, Prod.mk.injEq, true_and] at h
      exact h.symm
    · exact ⟨_, hs⟩
  exact .bind hrename fun _ => ensures_sync

theorem ensures_publish {random : Option (Vector UInt8 16)} :
    Ensures (· = s₀) (publish lib record random)
      (fun _ s => ∃ id, s = s₀.publish (temporary id) latest (lib.encode record) record.note)
      (fun s => ∃ id file, s = s₀.write (temporary id) file) anywhere := by
  have hstart {s : Session} (h : s = s₀) : ∃ id file, s = s₀.write (temporary id) file :=
    ⟨[], s₀.files (temporary []), by simpa using h⟩
  refine .bind (.lift (Q := fun id s => (∃ rest, id = "index_".toList ++ rest) ∧ s = s₀) ?_
    fun _ s _ => hstart) fun id => .of_pure ?_
  · intro id s h hs
    refine ⟨?_, hs⟩
    cases random
    case none => nomatch h
    case some => exact ⟨_, (Except.ok.inj h).symm⟩
  rintro ⟨rest, rfl⟩
  have hw : Ensures (· = s₀) (writeAndRename (temporary rest) latest (lib.encode record) record.note)
      _ _ anywhere := ensures_writeAndRename
  refine .bind hw.attempt fun r => ?_
  cases r
  case ok          => exact .pure fun s h => ⟨rest, h⟩
  case error error =>
    refine .bind (ensures_ignore_removeFile ?_) fun _ => .throw fun s h => h
    rintro s ⟨file, rfl⟩
    exact ⟨rest, none, write_write⟩

-- The predecessor is removed, or the new file if it cannot be published.
theorem ensures_replaceSnapshot (hs : Sound lib s₁) (hc : Copied lib s₁ record content)
    {random : Option (Vector UInt8 16)} {previous : Option Record}
    (hn : record.filename ∉ s₁.indexed lib) (hp : Reads lib s₁ previous) :
    Ensures (· = s₁) (replaceSnapshot lib record random previous)
      (fun _ s => s.snapshots = s₁.snapshots \ s₁.indexed lib)
      (fun s => s.snapshots = s₁.snapshots \ {record.filename} ∧ s.indexed lib = s₁.indexed lib)
      anywhere := by
  refine .bind ensures_publish.attempt fun r => ?_
  cases r
  case ok =>
    refine .exists fun id => ?_
    cases previous
    case none =>
      have he : s₁.indexed lib = ∅ := by
        refine Set.eq_empty_of_forall_notMem fun _ ⟨other, ⟨_, index, hi, _⟩, _⟩ => ?_
        rw [hp] at hi
        nomatch hi
      refine .pure fun s h => ?_
      rw [h, snapshots_publish, he, Set.sdiff_empty]
    case some previous =>
      have he : s₁.indexed lib = {previous.filename} :=
        Set.eq_singleton_iff_unique_mem.mpr
          ⟨⟨previous, hp, rfl⟩, fun _ h => subsingleton_indexed h ⟨previous, hp, rfl⟩⟩
      refine .bind (ensures_ignore_removeFile ?_) fun _ => .pure fun s h => h
      rintro s rfl
      rw [snapshots_write_none, snapshots_publish, he]
  case error error =>
    refine .exists fun id => .exists fun file => ?_
    have hi : (s₁.write (temporary id) file).indexed lib = s₁.indexed lib :=
      indexed_write (temporary_ne_latest id)
    have hr : Ensures (· = s₁.write (temporary id) file) (readRecord lib) _ (fun _ => False)
        anywhere := ensures_readRecord (hs.write_temporary id file)
    refine .bind hr.attempt fun current => ?_
    cases current
    case error       => exact .throw fun s h => h.elim
    case ok current =>
      refine .of_pure fun hcurrent => ?_
      have hremoves : (Except.ok current : Except String (Option Record)).toOption.any
          (fun current => current.all (·.filename ≠ record.filename)) = true := by
        cases current
        case none       => rfl
        case some other =>
          simp only [Except.toOption, Option.any_some, Option.all_some, decide_eq_true_eq]
          exact fun h => hn (hi ▸ ⟨other, hcurrent, h⟩)
      rw [if_pos hremoves]
      refine .bind (ensures_ignore_removeFile ?_) fun _ => .throw fun s h => h
      rintro s rfl
      refine ⟨?_, (indexed_write (snapshot_ne hc.isSnapshotName).left).trans hi⟩
      rw [snapshots_write_none, snapshots_write (.inr (isChatFile_temporary id))]

theorem ensures_saveLlamaSlot : Ensures (· = s₀) (saveLlamaSlot input name tokens)
    (fun bytes s => ∃ content, content.length = bytes ∧ content ≠ [] ∧
      content.length ≤ stateSnapshotMaxBytes ∧ s = s₀.write ⟨.server, name⟩ (some content))
    (fun s => ∃ file, s = s₀.write ⟨.server, name⟩ file) anywhere := by
  refine .bind (.parted (Q := fun _ s => ∃ file, s = s₀.write ⟨.server, name⟩ file) ?_ ?_
    fun _ _ _ => trivial) fun _ => ?_
  · intro s _ s' hs h
    subst hs
    exact ⟨_, (Prod.mk.inj (Except.ok.inj h)).right.symm⟩
  · exact fun s _ _ h => nomatch h
  refine .bind (.lift (fun _ s _ hs => hs) fun _ s _ hs => hs) fun _ => ?_
  refine .bind (.lift (fun _ s _ hs => hs) fun _ s _ hs => hs) fun written => ?_
  refine .bind (ensures_inspect.stops (fun _ h => h.left) fun _ h => h) fun content =>
    .pure fun s h => ?_
  obtain ⟨⟨file, rfl⟩, h⟩ := h
  cases file
  case none => simp at h
  case some found =>
    simp only [files_write_self, Option.any_some, decide_eq_true_eq] at h
    split at h
    case isTrue     => nomatch h
    case isFalse hn =>
      cases h
      simp only [not_or, not_not] at hn
      exact ⟨content, hn.right.right.symm, by simpa using hn.left, by omega, rfl⟩

theorem ensures_saveNamed (law : lib.Lawful) (hs : Sound lib s₀) (hn : isSnapshotName name = true)
    (ht : tokens ≠ 0) :
    Ensures (· = s₀) (saveNamed lib input name tokens)
      (fun _ s => s.snapshots = insert name (s₀.snapshots \ s₀.indexed lib))
      (fun s => s.snapshots = s₀.snapshots ∧ s.indexed lib = s₀.indexed lib) anywhere := by
  have hserver {file : Option Bytes} : (s₀.write ⟨.server, name⟩ file).snapshots = s₀.snapshots ∧
      (s₀.write ⟨.server, name⟩ file).indexed lib = s₀.indexed lib :=
    ⟨snapshots_write (.inl rfl), indexed_write server_ne_latest⟩
  refine .bind (ensures_saveLlamaSlot.stops (fun s h => ?_) fun _ h => h) fun bytes => ?_
  · obtain ⟨file, rfl⟩ := h
    exact hserver
  refine .exists fun content => .of_pure fun hbytes => .of_pure fun hne => .of_pure fun hmax => ?_
  have hs₁ := hs.write_server name (some content)
  have hl := (snapshot_ne hn).left
  have hcopy : Ensures (· = s₀.write ⟨.server, name⟩ (some content))
      (copySnapshotWithSha256 lib ⟨.server, name⟩ ⟨.session, name⟩ bytes) _ _ anywhere :=
    ensures_copySnapshotWithSha256 files_write_self
  refine .bind (hcopy.stops (fun s h => h ▸ hserver) fun _ h => h) fun sha256 => ?_
  refine .of_pure fun hdigest => .of_pure fun _ => .of_pure fun hnew => ?_
  subst hdigest hbytes
  have hc := copied_write (s := s₀) law hn ht hne hmax
  have hs₂ : Sound lib ((s₀.write ⟨.server, name⟩ (some content)).write ⟨.session, name⟩
    (some content)) := hs₁.write_new hl hnew _
  have hsnapshots : ((s₀.write ⟨.server, name⟩ (some content)).write ⟨.session, name⟩
      (some content)).snapshots = insert name s₀.snapshots := by
    rw [snapshots_write_some (isChatFile_of_isSnapshotName hn), hserver.left]
  have hindexed : ((s₀.write ⟨.server, name⟩ (some content)).write ⟨.session, name⟩
      (some content)).indexed lib = s₀.indexed lib := (indexed_write hl).trans hserver.right
  have hfree : name ∉ s₀.snapshots := fun h => by
    rw [files_write_of_ne (by simp)] at hnew
    simpa [hnew] using h.right
  have hni : name ∉ s₀.indexed lib := fun h => hfree (hs.indexed_subset h)
  have hread : Ensures (· = (s₀.write ⟨.server, name⟩ (some content)).write ⟨.session, name⟩
      (some content)) (readRecord lib) _ (fun _ => False) anywhere := ensures_readRecord hs₂
  refine .bind hread.attempt fun previous => ?_
  cases previous
  case error       => exact fun _ _ h => h.elim
  case ok previous =>
    refine .of_pure fun hprevious => ?_
    refine (ensures_replaceSnapshot hs₂ hc (by rwa [hindexed]) hprevious).mono (fun _ h => h)
      (fun _ s h => ?_) (fun s h => ?_) fun _ h => h
    · rw [h, hsnapshots, hindexed, Set.insert_sdiff_of_notMem _ hni]
    · refine ⟨?_, h.right.trans hindexed⟩
      rw [h.left, hsnapshots]
      exact Set.insert_sdiff_self_of_notMem hfree

theorem ensures_saveInner (law : lib.Lawful) (hs : Sound lib s₀) :
    Ensures (· = s₀) (saveInner lib input)
      (fun _ s => ∃ name, input.Named name ∧
        s.snapshots = insert name (s₀.snapshots \ s₀.indexed lib))
      (fun s => s.snapshots = s₀.snapshots ∧ s.indexed lib = s₀.indexed lib) anywhere := by
  have hstart {s : Session} (h : s = s₀) : s.snapshots = s₀.snapshots ∧
      s.indexed lib = s₀.indexed lib := by
    subst h
    exact ⟨rfl, rfl⟩
  refine .bind (ensures_inspect.stops (fun s h => hstart h.left) fun _ h => h) fun status => ?_
  split
  case isTrue  => exact .throw fun s h => hstart h.left
  case isFalse hstatus =>
    refine .bind (.lift (Q := fun id s => randomPrivateId "chat_" input.random = .ok id ∧ s = s₀)
      (fun id s hid h => ⟨hid, h.left⟩) fun _ s _ h => hstart h.left) fun id => .of_pure fun hid => ?_
    have hname := isSnapshotName_random hid
    have hsnapshots {s : Session} {name : Name} {names : Set Name} (h : s.snapshots = names) :
        (s.write ⟨.server, name⟩ none).snapshots = names := (snapshots_write (.inl rfl)).trans h
    have hindexed {s : Session} {name : Name} {names : Set Name} (h : s.indexed lib = names) :
        (s.write ⟨.server, name⟩ none).indexed lib = names :=
      (indexed_write server_ne_latest).trans h
    have hn : Ensures (· = s₀) (saveNamed lib input _ status.promptTokens) _ _ anywhere :=
      ensures_saveNamed law hs hname (by simpa using (not_or.mp hstatus).right)
    refine .bind hn.attempt fun result => ?_
    cases result
    case ok tokens =>
      refine .bind (Q := fun _ s => s.snapshots = insert _ (s₀.snapshots \ s₀.indexed lib))
        (ensures_ignore_removeFile fun s => hsnapshots) fun _ => ?_
      exact .lift (fun _ s _ h => ⟨_, ⟨id, hid, rfl⟩, h⟩) fun _ s h => nomatch h
    case error error =>
      refine .bind (Q := fun _ s => s.snapshots = s₀.snapshots ∧ s.indexed lib = s₀.indexed lib)
        (ensures_ignore_removeFile fun s h => h.imp hsnapshots hindexed) fun _ => ?_
      exact .lift (fun _ s h => nomatch h) fun _ s _ h => h

end Undisturbed

-- No other operation has an effect on the snapshots.
section Same

variable {lib : Libraries} {s s₀ s₁ : Session} {path : Path} {name : Name} {record : Record}
variable {file : Option Bytes} {tokens : UInt64} {bytes : Nat} {input : RestoreInput} {α : Type}

structure Same (s₀ s : Session) : Prop where
  snapshots : s.snapshots = s₀.snapshots
  index     : s.files latest = s₀.files latest

theorem Same.refl : Same s s where
  snapshots := rfl
  index     := rfl

theorem Same.write (h : Same s₀ s) (hp : path ≠ latest)
    (hf : path.folder = .server ∨ isChatFile path.name = false) : Same s₀ (s.write path file) where
  snapshots := (snapshots_write hf).trans h.snapshots
  index     := (files_write_of_ne hp.symm).trans h.index

theorem Same.write_server (h : Same s₀ s) : Same s₀ (s.write ⟨.server, name⟩ file) :=
  h.write server_ne_latest (.inl rfl)

theorem Same.write_capability (h : Same s₀ s) : Same s₀ (s.write capability file) :=
  h.write (by simp [capability, latest]) (.inr (by decide))

theorem Same.abandoned (h : Same s₀ s) : s.abandoned lib = s₀.abandoned lib := by
  rw [Session.abandoned, Session.abandoned, h.snapshots, indexed_congr h.index]

theorem meets_same_inspect {f : Session → Except String α} :
    Meets (Same s₀) (inspect f) (fun _ => Same s₀) (Same s₀) :=
  meets_inspect.mono (fun _ h => h) (fun _ _ h => h.left) fun _ h => h

theorem meets_same_lift {x : Except String α} :
    Meets (Same s₀) (.lift x : Program α) (fun _ => Same s₀) (Same s₀) :=
  .lift (fun _ _ _ h => h) fun _ h => h

theorem meets_same_readRecord :
    Meets (Same s₀) (readRecord lib) (fun _ => Same s₀) (Same s₀) :=
  meets_readRecord.mono (fun _ h => h) (fun _ _ h => h.left) fun _ h => h

theorem meets_same_restoreNamed :
    Meets (Same s₀) (restoreNamed lib input record name) (fun _ => Same s₀) (Same s₀) := by
  have hcopy : Meets (Same s₀) (copySnapshotWithSha256 lib ⟨.session, record.filename⟩
      ⟨.server, name⟩ record.bytes) (fun _ => Same s₀) (Same s₀) := by
    intro s₁ fates hs
    refine meets_copySnapshotWithSha256.mono (fun _ h => h) ?_ ?_ s₁ fates rfl
    · rintro _ s ⟨content, _, _, _, _, _, _, rfl⟩
      exact hs.write_server
    · rintro s (rfl | ⟨_, file, rfl⟩)
      · exact hs
      · exact hs.write_server
  refine .bind hcopy fun sha256 => ?_
  split
  case isTrue  => exact .throw fun _ h => h
  case isFalse =>
    refine .bind ?_ fun _ => .pure fun _ h => h
    refine .bind meets_same_inspect fun content => ?_
    refine .bind (.step (Q := fun _ => Same s₀) ?_ (fun _ h => h) fun _ _ h => h) fun _ => ?_
    · intro s _ s' h hs
      obtain ⟨_, rfl⟩ := Prod.mk.inj (Except.ok.inj hs)
      exact ⟨h.snapshots, h.index⟩
    refine .bind meets_same_lift fun _ => .bind meets_same_lift fun _ => .bind meets_same_lift
      fun slot => ?_
    split
    case isTrue  => exact .throw fun _ h => h
    case isFalse => exact .pure fun _ h => h

theorem meets_same_restore : Meets (Same s₀) (restore lib input) (fun _ => Same s₀) (Same s₀) := by
  have hinner : Meets (Same s₀) (restoreInner lib input) (fun _ => Same s₀) (Same s₀) := by
    refine .bind meets_same_readRecord fun r => ?_
    cases r
    case none        => exact .pure fun _ h => h
    case some record =>
      refine .bind meets_same_lift fun id => ?_
      have hn : Meets (Same s₀) (restoreNamed lib input record (id ++ ".bin".toList))
        (fun _ => Same s₀) (Same s₀) := meets_same_restoreNamed
      refine .bind (Q := fun _ => Same s₀) (hn.attempt.mono (fun _ h => h) (fun r _ h => ?_)
        fun _ h => h) fun r => ?_
      · cases r <;> exact h
      refine .bind (meets_removePrivateSnapshot fun _ h => h.write_server) fun _ => ?_
      exact .bind meets_same_lift fun _ => .pure fun _ h => h
  refine .bind (.get (Q := fun _ => Same s₀) fun _ h => h) fun now => ?_
  refine .bind (.modify (Q := fun _ => Same s₀) fun _ h => ⟨h.snapshots, h.index⟩) fun _ => ?_
  split
  case isTrue  => exact .pure fun _ h => h
  case isFalse =>
    refine .bind hinner.attempt fun r => ?_
    rcases r with error | _ | tokens
    case ok.none => exact .pure fun _ h => h
    case ok.some => exact .pure fun _ h => h
    case error   =>
      refine .bind (meets_ignore_removeFile (Q := Same s₀) (fun _ h _ => h.write_capability)
        fun _ h => h) fun _ => ?_
      have herase : Meets (Same s₀) (eraseLlamaSlot input) (fun _ => Same s₀) (Same s₀) := by
        refine .bind (.step (Q := fun _ => Same s₀) ?_ (fun _ h => h) fun _ _ h => h) fun _ => ?_
        · intro s _ s' h hs
          obtain ⟨_, rfl⟩ := Prod.mk.inj (Except.ok.inj hs)
          exact ⟨h.snapshots, h.index⟩
        exact .bind meets_same_lift fun _ => meets_same_lift
      refine .bind herase.attempt fun erased => ?_
      cases erased
      case ok    => exact .pure fun _ h => h
      case error =>
        refine .bind (.modify (Q := fun _ => Same s₀) fun _ h => ⟨h.snapshots, h.index⟩) fun _ => ?_
        exact .throw fun _ h => h

theorem meets_same_observeReuse {input : Observation} :
    Meets (Same s₀) (observeReuse input) (fun _ => Same s₀) (Same s₀) := by
  rw [observeReuse]
  split
  case h_1 => exact .pure fun _ h => h
  case h_2 => exact .pure fun _ h => h
  case h_3 =>
    split_ifs
    case pos =>
      have hp : Meets (Same s₀) (publishCacheJson capability input.receipt input.random id)
          (fun _ => Same s₀) (Same s₀) := by
        intro s₁ fates hs
        have ht {id : Name} {file : Option Bytes} : Same s₀ (s₁.write (temporary id) file) :=
          hs.write (temporary_ne_latest id) (.inr (isChatFile_temporary id))
        refine (meets_publishCacheJson (fun _ => rfl) temporary_ne_capability).mono
          (fun _ h => h) ?_ ?_ s₁ fates rfl
        · rintro _ s ⟨id, rfl⟩
          exact ht.write_capability
        · rintro s ⟨id, ⟨file, rfl⟩ | rfl⟩
          · exact ht
          · exact ht.write_capability
      refine .bind (.bind hp.attempt fun r => .pure fun s h => ?_) fun _ => .pure fun s h => h
      cases r <;> exact h
    all_goals exact .pure fun _ h => h

end Same

section Runs

variable {lib : Libraries} {s s' : Session} {h : List (Operation × Outcome)} {input : SaveInput}
variable {fates rest : List Fate} {tokens : UInt64}

-- A save of which some step fails or is cut off.
def Operation.isInterrupted : Operation → Bool
  | .save _ fates => fates.any (· ≠ .succeeds)
  | _             => false

-- The directory of a chat holds no snapshot in the beginning.
def chats (lib : Libraries) : System Session Operation Outcome where
  Init s := (sessions lib).Init s ∧ s.snapshots = ∅
  Step   := (sessions lib).Step

def interruptions (h : List (Operation × Outcome)) : Nat :=
  h.countP (·.1.isInterrupted)

theorem save_eq : (s.step lib (.save input fates)).1 = (saveInner lib input s fates).2.1 := by
  simp only [Session.step, save, Faulty.attempt, Bind.bind]
  rcases saveInner lib input s fates with ⟨_ | _ | _, s', rest⟩ <;> rfl

theorem abandoned_save (law : lib.Lawful) : ∃ other,
    ((s.step lib (.save input fates)).1.abandoned lib) ⊆ insert other (s.abandoned lib) := by
  obtain ⟨name, l⟩ : ∃ name, Left lib name s (saveInner lib input s fates).2.1 :=
    meets_exit (Q := fun s' => ∃ name, Left lib name s s')
      ((meets_saveInner_left law).mono (fun _ h => h) (fun _ _ ⟨name, _, l, _⟩ => ⟨name, l⟩)
        fun _ h => h) (fun _ h => h) fates
  rw [save_eq]
  exact l.abandoned

-- A save that completes publishes its own file.
theorem indexed_save (law : lib.Lawful) (hs : Sound lib s)
    (h : saveInner lib input s fates = (.ok tokens, s', rest)) :
    ∃ name, input.Named name ∧ s'.indexed lib = {name} ∧ name ∈ s'.snapshots := by
  have hl : Meets (· = s) (saveInner lib input) _ _ := meets_saveInner_left law
  have hl := hl s fates rfl
  have hi : Meets (· = s) (saveInner lib input) _ _ := meets_saveInner law hs
  have hi := hi s fates rfl
  rw [h] at hl hi
  obtain ⟨name, hn, _, hx⟩ := hl
  exact ⟨name, hn, hx, hi.left.indexed_subset (hx ▸ rfl)⟩

-- It removes its predecessor, and nothing else.
theorem abandoned_eq_of_save (law : lib.Lawful) (hs : Sound lib s)
    (hf : fates.any (· ≠ .succeeds) = false)
    (h : saveInner lib input s fates = (.ok tokens, s', rest)) :
    ∃ name, input.Named name ∧ s'.snapshots = insert name (s.abandoned lib) := by
  have hc : Calm fates := fun part hm => by simpa using List.any_eq_false.mp hf _ hm
  exact (ensures_saveInner law hs).ok rfl hc h

theorem abandoned_save_subset (law : lib.Lawful) (hs : Sound lib s)
    (hf : fates.any (· ≠ .succeeds) = false) :
    (s.step lib (.save input fates)).1.abandoned lib ⊆ s.abandoned lib := by
  rw [save_eq]
  have hc : Calm fates := fun part hm => by simpa using List.any_eq_false.mp hf _ hm
  rcases hr : saveInner lib input s fates with ⟨tokens | error | _, s', rest⟩
  case ok =>
    obtain ⟨name, hn, hx, _⟩ := indexed_save law hs hr
    obtain ⟨name', hn', hx'⟩ := abandoned_eq_of_save law hs hf hr
    obtain rfl := hn.unique hn'
    rw [Session.abandoned, hx, hx']
    exact fun other ho => ho.left.resolve_left ho.right
  case error =>
    obtain ⟨hx, hi⟩ := (ensures_saveInner law hs).error rfl hc hr
    rw [Session.abandoned, hx, hi]
    exact subset_rfl
  case crashed =>
    obtain ⟨_, part, hm⟩ := (ensures_saveInner law hs).crashed rfl hc hr
    simpa using List.any_eq_false.mp hf _ hm

-- Each interrupted save leaves one file at most that no later one removes.
theorem abandoned_le (law : lib.Lawful) (r : (chats lib).Run h s) :
    Sound lib s ∧ (s.abandoned lib).encard ≤ interruptions h := by
  refine r.invariant (I := fun h s => Sound lib s ∧ (s.abandoned lib).encard ≤ interruptions h)
    (fun s hi => ?_) fun h s operation outcome s' _ i hs => ?_
  case refine_1 =>
    refine ⟨(sessions_sound law).init s hi.left, ?_⟩
    rw [Session.abandoned, hi.right, Set.empty_sdiff, Set.encard_empty]
    exact zero_le
  case refine_2 =>
    obtain ⟨hsound, hle⟩ := i
    refine ⟨(sessions_sound law).step s operation outcome s' hsound hs, ?_⟩
    obtain rfl : (s.step lib operation).1 = s' := congrArg Prod.fst hs
    rw [interruptions, List.countP_cons, ←interruptions]
    cases operation
    case save input fates =>
      cases hf : fates.any (· ≠ .succeeds)
      case false =>
        exact (Set.encard_le_encard (abandoned_save_subset law hsound hf)).trans
          (hle.trans (by exact_mod_cast Nat.le_add_right ..))
      case true =>
        obtain ⟨other, hsub⟩ : ∃ other, (s.step lib (.save input fates)).1.abandoned lib ⊆
          insert other (s.abandoned lib) := abandoned_save law
        have hn : (Operation.save input fates).isInterrupted = true := hf
        rw [if_pos hn, Nat.cast_add, Nat.cast_one]
        exact (Set.encard_le_encard hsub).trans ((Set.encard_insert_le _ _).trans (by gcongr))
    case begin serverFiles =>
      refine le_trans (le_of_eq (congrArg _ ?_)) (hle.trans (by exact_mod_cast Nat.le_add_right ..))
      rfl
    case restore input fates =>
      have hsame : Same s (s.step lib (.restore input fates)).1 :=
        meets_exit (meets_same_restore.mono (fun _ h => h ▸ .refl) (fun _ _ h => h) fun _ h => h)
          (fun _ h => h) fates
      rw [hsame.abandoned]
      exact hle.trans (by exact_mod_cast Nat.le_add_right ..)
    case observeReuse input fates =>
      have hsame : Same s (s.step lib (.observeReuse input fates)).1 :=
        meets_exit (meets_same_observeReuse.mono (fun _ h => h ▸ .refl) (fun _ _ h => h)
          fun _ h => h) (fun _ h => h) fates
      rw [hsame.abandoned]
      exact hle.trans (by exact_mod_cast Nat.le_add_right ..)

theorem snapshots_of_save (law : lib.Lawful) (r : (chats lib).Run h s)
    (hs : saveInner lib input s fates = (.ok tokens, s', rest)) :
    ∃ name, input.Named name ∧ s'.indexed lib = {name} ∧ name ∈ s'.snapshots ∧
      (s'.snapshots \ {name}).encard ≤
        interruptions h + (if fates.any (· ≠ .succeeds) then 1 else 0) ∧
      (fates.any (· ≠ .succeeds) = false → s'.snapshots = insert name (s.abandoned lib)) ∧
      (fates.any (· ≠ .succeeds) = false → interruptions h = 0 → s'.snapshots = {name}) := by
  obtain ⟨hsound, hle⟩ := abandoned_le law r
  obtain ⟨name, hn, hx, hm⟩ := indexed_save law hsound hs
  have hstep : (sessions lib).Step s (.save input fates) (s.step lib (.save input fates)).2
      (s.step lib (.save input fates)).1 := rfl
  have hle' := (abandoned_le law (System.Run.step r hstep)).right
  rw [save_eq, hs, Session.abandoned, hx, interruptions, List.countP_cons, Nat.cast_add] at hle'
  have hall (hf : fates.any (· ≠ .succeeds) = false) :
      s'.snapshots = insert name (s.abandoned lib) := by
    obtain ⟨name', hn', hx'⟩ := abandoned_eq_of_save law hsound hf hs
    rwa [hn.unique hn']
  refine ⟨name, hn, hx, hm, ?_, hall, fun hf hi => ?_⟩
  · exact_mod_cast hle'
  · rw [hi, Nat.cast_zero, nonpos_iff_eq_zero, Set.encard_eq_zero] at hle
    rw [hall hf, hle, insert_empty_eq]

-- A save that a crash cuts off after it has copied the snapshot, and a save of the next session.
def cutFates : List Fate :=
  .replicate 10 .succeeds ++ [.crashes 0]

def cutSession : Session :=
  ((emptySession.step sampleLibraries (.save sampleSave cutFates)).1).begin fun _ => none

def nextSave : SaveInput :=
  { sampleSave with
    random := some (.replicate 16 2)
    action := .ok {
      idSlot   := some 0
      filename := some ("chat_02020202020202020202020202020202.bin".toList)
      tokens   := some 3
      bytes    := some 3
    }
    index  := some (.replicate 16 3) }

def nextSession : Session :=
  (saveInner sampleLibraries nextSave cutSession []).2.1

theorem run_cutSession : ∃ h, (chats sampleLibraries).Run h cutSession ∧ interruptions h = 1 := by
  have hi : (chats sampleLibraries).Run [] emptySession := by
    refine .init ⟨⟨rfl, rfl⟩, Set.eq_empty_of_forall_notMem fun name hn => ?_⟩
    simp [Session.snapshots, emptySession] at hn
  have hs : (chats sampleLibraries).Step emptySession (.save sampleSave cutFates) _
    (emptySession.step sampleLibraries (.save sampleSave cutFates)).1 := rfl
  have hb : (chats sampleLibraries).Step _ (.begin fun _ => none) _ cutSession := rfl
  exact ⟨_, (hi.step hs).step hb, rfl⟩

theorem saveInner_cutSession :
    ∃ rest, saveInner sampleLibraries nextSave cutSession [] = (.ok 3, nextSession, rest) := by
  have h : (saveInner sampleLibraries nextSave cutSession []).1 = .ok 3 := by decide +kernel
  exact ⟨_, Prod.ext h rfl⟩

theorem snapshots_of_save_cutSession : ∃ name, nextSave.Named name ∧
    nextSession.indexed sampleLibraries = {name} ∧ name ∈ nextSession.snapshots ∧
    (nextSession.snapshots \ {name}).encard ≤ 1 := by
  obtain ⟨h, r, hi⟩ := run_cutSession
  obtain ⟨rest, hs⟩ := saveInner_cutSession
  obtain ⟨name, hn, hx, hm, hle, _⟩ := snapshots_of_save sampleLibraries_lawful r hs
  rw [hi] at hle
  exact ⟨name, hn, hx, hm, by simpa using hle⟩

theorem snapshots_not_unique : ¬∀ lib : Libraries, lib.Lawful →
    ∀ h s input tokens s' rest, (chats lib).Run h s →
      saveInner lib input s [] = (.ok tokens, s', rest) →
      ∃ name, s'.snapshots = {name} ∧ s'.indexed lib = {name} := by
  intro hu
  obtain ⟨h, r, _⟩ := run_cutSession
  obtain ⟨rest, hs⟩ := saveInner_cutSession
  obtain ⟨name, hn, _⟩ := hu _ sampleLibraries_lawful h _ _ _ _ rest r hs
  have hfirst : "chat_00000000000000000000000000000000.bin".toList ∈ nextSession.snapshots := by
    constructor <;> decide +kernel
  have hnext : "chat_02020202020202020202020202020202.bin".toList ∈ nextSession.snapshots := by
    constructor <;> decide +kernel
  rw [hn] at hfirst hnext
  exact absurd (hfirst.trans hnext.symm) (by decide)

end Runs

end Backend.ChatPersistence
