import WerkModel.Backend.ChatPersistenceSafety

-- Runs of sessions over one directory, and what the next session finds in it.
open Checks Faulty

namespace Backend.ChatPersistence

section Fortunate

variable {s₀ : Session} {path source : Path} {content : Bytes} {expected : Nat} {α : Type}

theorem succeeds_inspect {f : Session → Except String α} {a : α} (h : f s₀ = .ok a) :
    Succeeds (· = s₀) (inspect f) fun b s => b = a ∧ s = s₀ := by
  refine .step fun s hs => ⟨a, s, ?_, rfl, hs⟩
  rw [hs, h]
  rfl

theorem succeeds_sync : Succeeds (· = s₀) sync fun _ s => s = s₀ := by
  have h : Succeeds (· = s₀) sync fun b s => b = () ∧ s = s₀ := succeeds_inspect rfl
  exact h.mono (fun _ h => h) fun _ _ h => h.right

theorem succeeds_createNew (h : s₀.files path = none) :
    Succeeds (· = s₀) (createNew path) fun _ s => s = s₀.write path (some []) := by
  refine .step fun s hs => ⟨(), s₀.write path (some []), ?_, rfl⟩
  simp [hs, h]

theorem succeeds_append {copied data : Bytes} :
    Succeeds (· = s₀.write path (some copied)) (append path data)
      fun _ s => s = s₀.write path (some (copied ++ data)) := by
  refine .step fun s hs => ⟨(), _, rfl, ?_⟩
  simp [hs]

theorem succeeds_ignore_removeFile {P Q : Session → Prop} (h : ∀ s, P s → Q (s.write path none)) :
    Succeeds P (ignore (removeFile path)) fun _ => Q := by
  intro s hs
  refine ⟨(), s.write path none, ?_, h s hs⟩
  cases hf : s.files path
  case none =>
    have hw : s.write path none = s := hf ▸ write_files
    simp [ignore, removeFile, Faulty.attempt, Faulty.step, Bind.bind, Pure.pure, hf, hw]
  case some => simp [ignore, removeFile, Faulty.attempt, Faulty.step, Bind.bind, Pure.pure, hf]

theorem succeeds_openBoundedRegularFile {size : Option Nat} (hf : s₀.files path = some content)
    (hn : content ≠ []) (hm : content.length ≤ stateSnapshotMaxBytes)
    (hs : ∀ n ∈ size, content.length = n) :
    Succeeds (· = s₀) (openBoundedRegularFile path size) fun opened s =>
      opened = content ∧ s = s₀ := by
  refine succeeds_inspect ?_
  have he : ¬(content.length = 0 ∨ stateSnapshotMaxBytes < content.length ∨
      size.any (· ≠ content.length)) := by
    cases size <;> simp_all [eq_comm]
  simp only [hf, if_neg he]

theorem succeeds_copyChunks {copied rest : Bytes} (he : (copied ++ rest).length ≤ expected)
    (hm : (copied ++ rest).length ≤ stateSnapshotMaxBytes) :
    Succeeds (· = s₀.write path (some copied)) (copyChunks path expected copied rest)
      fun all s => all = copied ++ rest ∧ s = s₀.write path (some all) := by
  fun_induction copyChunks path expected copied rest
  case case1 copied rest hi =>
    refine .bind succeeds_sync fun _ => ?_
    split
    case isTrue hr  => exact .pure fun s hs => by simp [hr, hs]
    case isFalse hr =>
      have hi := hi hr
      dsimp only at hi ⊢
      rw [List.append_assoc, List.take_append_drop] at hi
      have hl : (copied ++ rest.take bufferSize).length ≤ (copied ++ rest).length := by
        simp [List.length_take]
      rw [if_neg (by omega)]
      exact .bind succeeds_append fun _ => hi he hm

theorem succeeds_copySnapshotWithSha256 {lib : Libraries} (hs : s₀.files source = some content)
    (hp : s₀.files path = none) (hn : content ≠ []) (hm : content.length ≤ stateSnapshotMaxBytes)
    (he : content.length = expected) :
    Succeeds (· = s₀) (copySnapshotWithSha256 lib source path expected)
      fun sha256 s => sha256 = lib.sha256 content ∧ s = s₀.write path (some content) := by
  refine .bind (succeeds_openBoundedRegularFile hs hn hm (by simpa using he)) fun opened =>
    .of_pure fun ho => ?_
  subst ho
  refine .bind (Q := fun copied s => copied = opened ∧ s = s₀.write path (some opened)) ?_
    fun copied => .of_pure fun hc => .pure fun s h => ⟨by rw [hc], h⟩
  rw [copySnapshotFile, if_neg (by omega)]
  refine .bind (succeeds_createNew hp) fun _ => ?_
  have hc : Succeeds (· = s₀.write path (some [])) (copyContent path expected opened)
      fun copied s => copied = opened ∧ s = s₀.write path (some opened) := by
    refine .bind (succeeds_copyChunks (by simp [he]) (by simpa using hm)) fun copied =>
      .of_pure fun hcopied => ?_
    rw [List.nil_append] at hcopied
    subst hcopied
    rw [if_neg (by simpa using he)]
    exact .bind succeeds_sync fun _ => .bind succeeds_sync fun _ => .pure fun s h => ⟨rfl, h⟩
  refine .bind hc.attempt fun r => ?_
  rintro s ⟨copied, rfl, h⟩
  exact ⟨copied, s, rfl, h⟩

-- What a server answers that has loaded a snapshot.
structure RestoreInput.Honest (input : RestoreInput) (name : Name) (snapshot : Snapshot) :
    Prop where
  random : ∃ id, randomPrivateId "chat_restore_" input.random = .ok id ∧ name = id ++ ".bin".toList
  action : input.action = .ok {
    idSlot   := some stateSlotId
    filename := some name
    tokens   := some snapshot.tokens
    bytes    := some (UInt64.ofNat snapshot.content.length)
  }
  status : ∃ status, input.status = .ok status ∧ status.isProcessing = false ∧
    (status.promptTokensReported = true → status.promptTokens = snapshot.tokens)

theorem succeeds_readRecord {lib : Libraries} {record : Record} {index : Bytes}
    (hf : s₀.files latest = some index) (hn : index ≠ []) (hl : index.length ≤ 4096)
    (hd : lib.decode index = some record) (hv : validateRecord record = .ok ()) :
    Succeeds (· = s₀) (readRecord lib) fun r s => r = some record ∧ s = s₀ := by
  refine .bind (succeeds_inspect (a := true) (by simp [hf])) fun found => .of_pure fun hfound => ?_
  rw [hfound, if_neg (by simp)]
  have hm : index.length ≤ stateSnapshotMaxBytes := hl.trans (by decide)
  refine .bind (succeeds_openBoundedRegularFile hf hn hm nofun) fun opened => .of_pure fun ho => ?_
  rw [ho, if_neg (by omega)]
  refine .bind (succeeds_inspect (a := record) (by simp [hd])) fun decoded => .of_pure fun hdec => ?_
  subst hdec
  exact .bind (.lift hv) fun _ => .pure fun s h => ⟨rfl, h.right⟩

theorem succeeds_restoreLlamaSlot {input : RestoreInput} {name : Name} {snapshot : Snapshot}
    (hh : input.Honest name snapshot) (hf : s₀.files ⟨.server, name⟩ = some snapshot.content)
    (hn : snapshot.content ≠ []) (hm : snapshot.content.length ≤ stateSnapshotMaxBytes) :
    Succeeds (· = s₀)
      (restoreLlamaSlot input name snapshot.tokens snapshot.content.length)
      fun _ s => s = { s₀ with slot := some snapshot.content } := by
  obtain ⟨status, hstatus, hbusy, htokens⟩ := hh.status
  have hlen : (UInt64.ofNat snapshot.content.length).toNat = snapshot.content.length :=
    UInt64.toNat_ofNat_of_lt' (hm.trans_lt (by decide))
  refine .bind (succeeds_openBoundedRegularFile hf hn hm (by simp)) fun opened =>
    .of_pure fun ho => ?_
  subst ho
  refine .bind (.step (Q := fun _ s => s = { s₀ with slot := some snapshot.content })
    fun s hs => ⟨(), _, rfl, by rw [hs]⟩) fun _ => ?_
  refine .bind (.lift hh.action) fun response => .of_pure fun hr => ?_
  subst hr
  refine .bind (.lift (a := ()) ?_) fun _ => .of_pure fun _ => ?_
  · simp [validateRestore, validateSlotActionIdentity, requiredU64, ensure, Bind.bind,
      Except.bind, hlen]
  refine .bind (.lift hstatus) fun slot => .of_pure fun hslot => ?_
  subst hslot
  rw [if_neg (by simpa [hbusy] using htokens)]
  exact .pure fun s hs => hs

variable {lib : Libraries} {snapshot : Snapshot} {name : Name} {input : RestoreInput}

-- What the index names can be restored.
theorem succeeds_restoreInner (hs : Sound lib s₀) (hp : snapshot ∈ s₀.published.head?)
    (hh : input.Honest name snapshot) (hf : s₀.files ⟨.server, name⟩ = none) :
    Succeeds (· = s₀) (restoreInner lib input) fun result s => result = some snapshot.tokens ∧
      s.slot = some snapshot.content := by
  have hi : s₀.files latest ≠ none := fun h => by simp [hs.cold h] at hp
  obtain ⟨index, hi⟩ := Option.ne_none_iff_exists'.mp hi
  obtain ⟨hne, hl, record, content, rest, hd, hstored, hpublished⟩ := hs.index index hi
  obtain rfl : ⟨record.tokens, content⟩ = snapshot := by simpa [hpublished] using hp
  obtain ⟨id, hid, rfl⟩ := hh.random
  have hv := validateRecord_eq_ok.mp hstored.valid
  have hn : content ≠ [] := by
    rintro rfl
    exact hv.right.right.left hstored.length.symm
  have hm : content.length ≤ stateSnapshotMaxBytes := hstored.length ▸ hv.right.right.right.left
  refine .bind (succeeds_readRecord hi hne hl hd hstored.valid) fun r => .of_pure fun hr => ?_
  subst hr
  refine .bind (.lift hid) fun id' => .of_pure fun hid' => ?_
  subst hid'
  have hnamed : Succeeds (· = s₀) (restoreNamed lib input record (id' ++ ".bin".toList))
      fun tokens s => tokens = record.tokens ∧ s.slot = some content := by
    refine .bind (succeeds_copySnapshotWithSha256 hstored.file hf hn hm hstored.length)
      fun sha256 => .of_pure fun hsha256 => ?_
    rw [if_neg (by simp [hsha256, hstored.digest]), ←hstored.length]
    refine .bind (succeeds_restoreLlamaSlot hh ?_ hn hm) fun _ => .pure fun s h => ⟨rfl, by rw [h]⟩
    exact files_write_self
  refine .bind hnamed.attempt fun r => ?_
  refine .bind (Q := fun _ s => r = .ok record.tokens ∧ s.slot = some content)
    (succeeds_ignore_removeFile ?_) fun _ => .of_pure fun hr => ?_
  · rintro s ⟨tokens, hr, ht, hslot⟩
    exact ⟨ht ▸ hr, hslot⟩
  refine .bind (.lift hr) fun tokens => .of_pure fun ht => .pure fun s h => ?_
  exact ⟨congrArg some ht, h⟩

-- Without an index there is nothing to restore.
theorem succeeds_restoreInner_cold (h : s₀.files latest = none) :
    Succeeds (· = s₀) (restoreInner lib input) fun result _ => result = none := by
  refine .bind (Q := fun r _ => r = none) ?_ fun r s h => ?_
  · refine .bind (succeeds_inspect (a := false) (by simp [h])) fun found => .of_pure fun hf => ?_
    rw [if_pos hf]
    exact .pure fun _ _ => rfl
  · subst h
    exact ⟨none, s, rfl, rfl⟩

theorem succeeds_restore {result : Option UInt64} {Q : Session → Prop}
    (h : Succeeds (· = { s₀ with restoreAttempted := true }) (restoreInner lib input)
      fun r s => r = result ∧ Q s) (ha : s₀.restoreAttempted = false) :
    Succeeds (· = s₀) (restore lib input) fun r s => r.2 = result ∧ Q s := by
  refine .bind (.get (Q := fun now s => now = s₀ ∧ s = s₀) fun s h => ⟨h, h⟩) fun now =>
    .of_pure fun hnow => ?_
  subst hnow
  refine .bind (.modify (Q := fun _ s => s = { now with restoreAttempted := true })
    fun s h => by rw [h]) fun _ => ?_
  rw [if_neg (by simp [ha])]
  refine .bind h.attempt fun r => ?_
  rintro s ⟨tokens, rfl, ht, hq⟩
  cases tokens
  case none => exact ⟨_, s, rfl, ht, hq⟩
  case some => exact ⟨_, s, rfl, ht, hq⟩

end Fortunate
section Runs

variable {lib : Libraries} {s s₀ s' : Session} {outcome : Outcome}

theorem Sound.begin (h : Sound lib s) (serverFiles : Name → Option Bytes) :
    Sound lib (s.begin serverFiles) :=
  ⟨h.cold, fun index hi =>
    have ⟨hne, hl, record, content, rest, hd, hs, hp⟩ := h.index index hi
    ⟨hne, hl, record, content, rest, hd, ⟨hs.valid, hs.file, hs.length, hs.digest⟩, hp⟩⟩

theorem meets_observeReuse {input : Observation} (hs : Sound lib s₀) :
    Meets (· = s₀) (observeReuse input) (fun _ s => Sound lib s ∧ s.published = s₀.published)
      (fun s => Sound lib s ∧ s.published = s₀.published) := by
  have hstart {s : Session} (h : s = s₀) : Sound lib s ∧ s.published = s₀.published := by
    subst h
    exact ⟨hs, rfl⟩
  rw [observeReuse]
  split
  case h_1 => exact .pure fun _ => hstart
  case h_2 => exact .pure fun _ => hstart
  case h_3 =>
    split_ifs
    case pos =>
      have hp : Meets (· = s₀) (publishCacheJson capability input.receipt input.random id)
          (fun _ s => Sound lib s ∧ s.published = s₀.published)
          (fun s => Sound lib s ∧ s.published = s₀.published) := by
        refine (meets_publishCacheJson (fun _ => rfl) temporary_ne_capability).mono
          (fun _ h => h) ?_ ?_
        · rintro _ s ⟨id, rfl⟩
          exact ⟨(hs.write_temporary id none).write_capability _, rfl⟩
        · rintro s ⟨id, ⟨file, rfl⟩ | rfl⟩
          · exact ⟨hs.write_temporary id file, rfl⟩
          · exact ⟨(hs.write_temporary id none).write_capability _, rfl⟩
      refine .bind (.bind hp.attempt fun r => .pure fun s h => ?_) fun _ => .pure fun s h => h
      cases r
      case ok    => exact h
      case error => exact h
    all_goals exact .pure fun _ => hstart

-- What a whole program establishes, however it ends.
theorem meets_exit {α : Type} {p : Program α} {Q E : Session → Prop}
    (h : Meets (· = s) p (fun _ => Q) E) (he : ∀ s, E s → Q s) (fates : List Fate) :
    Q (p s fates).2.1 := by
  have h := h s fates rfl
  rcases hr : p s fates with ⟨a | error | _, s', fates'⟩ <;> rw [hr] at h
  case ok      => exact h
  case error   => exact he _ h
  case crashed => exact he _ h

theorem Sound.save (law : lib.Lawful) (hs : Sound lib s) (input : SaveInput) (fates : List Fate) :
    Interrupted lib s input (s.step lib (.save input fates)).1 :=
  meets_exit (meets_save law hs) (fun _ h => h) fates

theorem Sound.restore (hs : Sound lib s) (input : RestoreInput) (fates : List Fate) :
    Restores lib s (s.step lib (.restore input fates)).1 :=
  meets_exit ((meets_restore hs).mono (fun _ h => h) (fun _ _ h => h.left) fun _ h => h)
    (fun _ h => h) fates

theorem Sound.observeReuse (hs : Sound lib s) (input : Observation) (fates : List Fate) :
    Sound lib (s.step lib (.observeReuse input fates)).1 ∧
      (s.step lib (.observeReuse input fates)).1.published = s.published :=
  meets_exit (meets_observeReuse hs) (fun _ h => h) fates

theorem sessions_sound (law : lib.Lawful) : (sessions lib).Invariant (Sound lib) where
  init s hi := ⟨fun _ => hi.right, fun index hf => by simp [hi.left] at hf⟩
  step s operation outcome s' hs h := by
    obtain rfl : (s.step lib operation).1 = s' := congrArg Prod.fst h
    cases operation
    case begin serverFiles => exact hs.begin serverFiles
    case save input fates         => exact (hs.save law input fates).left
    case restore input fates      => exact (hs.restore input fates).sound
    case observeReuse input fates => exact (hs.observeReuse input fates).left

-- What holds of the directory at any time, whatever has failed or crashed before.
structure CrashSafe (lib : Libraries) (s : Session) : Prop where
  -- The index names a complete file, and it is the snapshot that was published last.
  sound    : Sound lib s
  -- A save publishes what the server has saved, or nothing.
  save     : ∀ input fates, (s.step lib (.save input fates)).1.published = s.published ∨
    ∃ snapshot ∈ input.snapshot,
      (s.step lib (.save input fates)).1.published = snapshot :: s.published
  saved    : ∀ input fates tokens s' fates', saveInner lib input s fates = (.ok tokens, s', fates') →
    ∃ snapshot ∈ input.snapshot, s'.published = snapshot :: s.published
  -- No other operation publishes anything.
  restore  : ∀ input fates, (s.step lib (.restore input fates)).1.published = s.published
  observed : ∀ input fates, (s.step lib (.observeReuse input fates)).1.published = s.published
  begun    : ∀ serverFiles, (s.begin serverFiles).published = s.published
  -- A restore that succeeds has loaded the snapshot that was published last.
  restored : ∀ input fates text tokens s',
    s.step lib (.restore input fates) = (s', .restored (.ok (text, some tokens))) →
    ∃ snapshot ∈ s.published.head?, snapshot.tokens = tokens ∧ s'.slot = some snapshot.content
  -- The next session can restore this snapshot, and begins without one if there is none.
  later    : ∀ serverFiles input name, ∀ snapshot ∈ s.published.head?, input.Honest name snapshot →
    serverFiles name = none → ∃ text s', (s.begin serverFiles).step lib (.restore input []) =
      (s', .restored (.ok (text, some snapshot.tokens))) ∧ s'.slot = some snapshot.content
  cold     : s.published = [] → ∀ serverFiles input, ∃ text s',
    (s.begin serverFiles).step lib (.restore input []) = (s', .restored (.ok (text, none)))

theorem files_latest_of_published (hs : Sound lib s) (hp : s.published = []) :
    s.files latest = none := by
  by_contra h
  obtain ⟨index, hi⟩ := Option.ne_none_iff_exists'.mp h
  obtain ⟨_, _, _, _, _, _, _, hp'⟩ := hs.index index hi
  rw [hp] at hp'
  nomatch hp'

theorem chat_snapshots_crash_safe (law : lib.Lawful) (r : (sessions lib).Reachable s) :
    CrashSafe lib s := by
  have hs := (sessions_sound law).reachable r
  constructor
  case sound    => exact hs
  case save     => exact fun input fates => (hs.save law input fates).right
  case restore  => exact fun input fates => (hs.restore input fates).published
  case observed => exact fun input fates => (hs.observeReuse input fates).right
  case begun    => exact fun _ => rfl
  case saved =>
    intro input fates tokens s' fates' h
    have hi : Meets (· = s) (saveInner lib input) _ _ := meets_saveInner law hs
    have hm := hi s fates rfl
    rw [h] at hm
    exact hm.right
  case restored =>
    intro input fates text tokens s' h
    have hi : Meets (· = s) (ChatPersistence.restore lib input) _ _ := meets_restore hs
    have hm := hi s fates rfl
    rcases hr : ChatPersistence.restore lib input s fates with ⟨result | _ | _, s'', fates'⟩ <;>
      simp only [Session.step, hr, Prod.mk.injEq, Outcome.restored.injEq, Exit.ok.injEq,
        reduceCtorEq, and_false] at h
    obtain ⟨rfl, rfl⟩ := h
    rw [hr] at hm
    exact hm.right tokens rfl
  case later =>
    intro serverFiles input name snapshot hp hh hf
    have hb : Sound lib { s.begin serverFiles with restoreAttempted := true } :=
      ((Restores.refl (hs.begin serverFiles)).setAttempted true).sound
    obtain ⟨⟨text, _⟩, s', hr, rfl, hslot⟩ :=
      succeeds_restore (succeeds_restoreInner hb hp hh hf) rfl (s.begin serverFiles) rfl
    exact ⟨text, s', by simp only [Session.step, hr], hslot⟩
  case cold =>
    intro hp serverFiles input
    have hf : s.files latest = none := files_latest_of_published hs hp
    have hf : { s.begin serverFiles with restoreAttempted := true }.files latest = none := hf
    have hi : Succeeds (· = { s.begin serverFiles with restoreAttempted := true })
        (restoreInner lib input) fun r _ => r = none ∧ True :=
      (succeeds_restoreInner_cold hf).mono (fun _ h => h) fun _ _ h => ⟨h, trivial⟩
    obtain ⟨⟨text, _⟩, s', hr, rfl, _⟩ := succeeds_restore hi rfl (s.begin serverFiles) rfl
    exact ⟨text, s', by simp only [Session.step, hr]⟩

end Runs
section Json

variable {record : Record} {name start : List Char} {n : Nat}

-- The index as it is written. None of its texts needs an escape.
structure Keys where
  version  : List Char := "\x7b\"version\":".toList
  filename : List Char := ",\"filename\":\"".toList
  tokens   : List Char := "\",\"tokens\":".toList
  bytes    : List Char := ",\"bytes\":".toList
  sha256   : List Char := ",\"sha256\":\"".toList
  stop     : List Char := "\"\x7d".toList

def Record.json (record : Record) (keys : Keys) : List Char :=
  keys.version ++ (Nat.toDigits 10 record.version ++ (keys.filename ++ (record.filename ++
    (keys.tokens ++ (Nat.toDigits 10 record.tokens.toNat ++ (keys.bytes ++
      (Nat.toDigits 10 record.bytes ++ (keys.sha256 ++ (record.sha256 ++ keys.stop)))))))))

def takeNumber (text : List Char) : Nat × List Char :=
  (Nat.ofDigitChars 10 (text.takeWhile Char.isDigit) 0, text.dropWhile Char.isDigit)

def parseJson (keys : Keys) (text : List Char) : Option Record := do
  let rest ← stripPrefix keys.version text
  let (version, rest) := takeNumber rest
  let rest ← stripPrefix keys.filename rest
  let filename := rest.take 41
  let rest ← stripPrefix keys.tokens (rest.drop 41)
  let (tokens, rest) := takeNumber rest
  let rest ← stripPrefix keys.bytes rest
  let (bytes, rest) := takeNumber rest
  let rest ← stripPrefix keys.sha256 rest
  let _ ← stripPrefix keys.stop (rest.drop 71)
  return { version, filename, tokens := UInt64.ofNat tokens, bytes, sha256 := rest.take 71 }

theorem takeNumber_toDigits {stop : List Char} (hs : ∃ c ∈ stop.head?, c.isDigit = false)
    (rest : List Char) :
    takeNumber (Nat.toDigits 10 n ++ (stop ++ rest)) = (n, stop ++ rest) := by
  have hd : ∀ d ∈ Nat.toDigits 10 n, d.isDigit = true := fun d hd =>
    Nat.isDigit_of_mem_toDigits (by decide) (by decide) hd
  obtain ⟨c, hc, hn⟩ := hs
  obtain ⟨stop, rfl⟩ : ∃ tail, stop = c :: tail := by
    cases stop <;> simp_all
  rw [takeNumber, List.takeWhile_append_of_pos hd, List.dropWhile_append_of_pos hd,
    List.cons_append, List.takeWhile_cons_of_neg (by simp [hn]),
    List.dropWhile_cons_of_neg (by simp [hn]), List.append_nil, Nat.ofDigitChars_ten_toDigits]

theorem length_of_stripPrefix {rest : List Char} (h : stripPrefix start name = some rest) :
    name.length = start.length + rest.length := by
  rw [exists_of_stripPrefix h, List.length_append]

theorem length_of_isDigest (h : isDigest name = true) : name.length = 71 := by
  obtain ⟨hash, hs, hl⟩ := (Option.any_eq_true ..).mp h
  rw [length_of_stripPrefix hs]
  simp only [decide_eq_true_eq] at hl
  rw [hl.left]
  rfl

theorem length_of_isSnapshotName (h : isSnapshotName name = true) : name.length = 41 := by
  obtain ⟨id, hs, hl⟩ := (Option.any_eq_true ..).mp h
  obtain ⟨rest, hr, hs⟩ := Option.bind_eq_some_iff.mp hs
  obtain ⟨reversed, hrev, rfl⟩ := Option.map_eq_some_iff.mp hs
  simp only [decide_eq_true_eq, List.length_reverse] at hl
  have hrest := length_of_stripPrefix hrev
  rw [List.length_reverse, hl.left] at hrest
  rw [length_of_stripPrefix hr, hrest]
  rfl

theorem parseJson_json (h : validateRecord record = .ok ()) (rest : List Char) :
    parseJson {} (record.json {} ++ rest) = some record := by
  obtain ⟨_, _, _, _, hf, hd⟩ := validateRecord_eq_ok.mp h
  have hf := length_of_isSnapshotName hf
  have hd := length_of_isDigest hd
  have hfilename : ∃ c ∈ ({} : Keys).filename.head?, c.isDigit = false := ⟨_, rfl, rfl⟩
  have hbytes : ∃ c ∈ ({} : Keys).bytes.head?, c.isDigit = false := ⟨_, rfl, rfl⟩
  have hsha256 : ∃ c ∈ ({} : Keys).sha256.head?, c.isDigit = false := ⟨_, rfl, rfl⟩
  generalize ({} : Keys) = keys at *
  simp only [parseJson, Record.json, List.append_assoc, stripPrefix_append, Option.bind_eq_bind,
    Option.bind_some, takeNumber_toDigits, hfilename, hbytes, hsha256, List.take_left' hf,
    List.drop_left' hf, List.take_left' hd, List.drop_left' hd]
  cases record
  simp

def isAscii (text : List Char) : Bool :=
  text.all (·.toNat < 128)

theorem isAscii_append {text text' : List Char} (h : isAscii text = true)
    (h' : isAscii text' = true) : isAscii (text ++ text') = true := by
  rw [isAscii, List.all_append, Bool.and_eq_true]
  exact ⟨h, h'⟩

theorem lt_of_isHexdigit {c : Char} (h : isHexdigit c = true) : c.toNat < 128 := by
  simp only [isHexdigit, Char.isDigit, Bool.decide_or, Bool.or_eq_true, decide_eq_true_eq,
    Bool.and_eq_true, Char.le_def, UInt32.le_iff_toNat_le] at h
  have hd : '9'.val.toNat = 57 := rfl
  have hf : 'f'.val.toNat = 102 := rfl
  have hF : 'F'.val.toNat = 70 := rfl
  change c.val.toNat < 128
  omega

theorem isAscii_of_isHexdigit {text : List Char} (h : text.all isHexdigit = true) :
    isAscii text = true := by
  rw [List.all_eq_true] at h
  exact List.all_eq_true.mpr fun c hc => decide_eq_true (lt_of_isHexdigit (h c hc))

theorem isAscii_toDigits (n : Nat) : isAscii (Nat.toDigits 10 n) = true := by
  refine isAscii_of_isHexdigit (List.all_eq_true.mpr fun c hc => ?_)
  simp [isHexdigit, Nat.isDigit_of_mem_toDigits (by decide) (by decide) hc]

theorem isAscii_of_isDigest (h : isDigest name = true) : isAscii name = true := by
  obtain ⟨hash, hs, hl⟩ := (Option.any_eq_true ..).mp h
  rw [decide_eq_true_eq] at hl
  rw [exists_of_stripPrefix hs]
  exact isAscii_append (by decide) (isAscii_of_isHexdigit hl.right)

theorem isAscii_of_isSnapshotName (h : isSnapshotName name = true) : isAscii name = true := by
  obtain ⟨id, hs, hl⟩ := (Option.any_eq_true ..).mp h
  obtain ⟨rest, hr, hs⟩ := Option.bind_eq_some_iff.mp hs
  obtain ⟨reversed, hrev, rfl⟩ := Option.map_eq_some_iff.mp hs
  rw [decide_eq_true_eq] at hl
  have hrest : rest = reversed.reverse ++ ".bin".toList := by
    have := congrArg List.reverse (exists_of_stripPrefix hrev)
    simpa using this
  rw [exists_of_stripPrefix hr, hrest]
  exact isAscii_append (by decide) (isAscii_append (isAscii_of_isHexdigit hl.right) (by decide))

def toBytes (text : List Char) : Bytes :=
  text.map fun c => UInt8.ofNat c.toNat

def fromBytes (bytes : Bytes) : List Char :=
  bytes.map fun byte => Char.ofNat byte.toNat

theorem fromBytes_toBytes {text : List Char} (h : isAscii text = true) (rest : Bytes) :
    fromBytes (toBytes text ++ rest) = text ++ fromBytes rest := by
  rw [fromBytes, List.map_append, toBytes, List.map_map]
  congr 1
  refine (List.map_congr_left fun c hc => ?_).trans (List.map_id text)
  have hc : c.toNat < 128 := of_decide_eq_true (List.all_eq_true.mp h c hc)
  have hn : (UInt8.ofNat c.toNat).toNat = c.toNat := UInt8.toNat_ofNat_of_lt' (hc.trans (by decide))
  simp only [Function.comp_apply, hn, Char.ofNat_toNat, id_eq]

theorem isAscii_json (h : validateRecord record = .ok ()) : isAscii (record.json {}) = true := by
  obtain ⟨_, _, _, _, hf, hd⟩ := validateRecord_eq_ok.mp h
  have hf := isAscii_of_isSnapshotName hf
  have hd := isAscii_of_isDigest hd
  repeat' apply isAscii_append
  all_goals first | decide | apply isAscii_toDigits | assumption

theorem length_json (h : validateRecord record = .ok ()) : (record.json {}).length < 4096 := by
  obtain ⟨hv, _, _, hb, hf, hd⟩ := validateRecord_eq_ok.mp h
  have hf := length_of_isSnapshotName hf
  have hd := length_of_isDigest hd
  have htokens : (Nat.toDigits 10 record.tokens.toNat).length ≤ 20 :=
    (Nat.length_toDigits_le_iff (by decide) (by decide)).mpr
      (record.tokens.toNat_lt.trans (by decide))
  have hbytes : (Nat.toDigits 10 record.bytes).length ≤ 10 :=
    (Nat.length_toDigits_le_iff (by decide) (by decide)).mpr (hb.trans_lt (by decide))
  have hversion : (Nat.toDigits 10 record.version).length = 1 := by rw [hv]; rfl
  have hkeys : ({} : Keys).version.length + ({} : Keys).filename.length +
      ({} : Keys).tokens.length + ({} : Keys).bytes.length + ({} : Keys).sha256.length +
      ({} : Keys).stop.length = 57 := rfl
  generalize ({} : Keys) = keys at *
  simp only [Record.json, List.length_append, hversion, hf, hd]
  omega

-- One file and its digest, with the index as it is written and read.
def sampleLibraries : Libraries where
  sha256 _      := "sha256:039058c6f2c0cb492c533b0a4d14ef77cc0f78abccced5287d84a1a2011cfb81".toList
  encode record := toBytes (record.json {})
  decode bytes  := parseJson {} (fromBytes bytes)

theorem sampleLibraries_lawful : sampleLibraries.Lawful where
  digest content := by
    change isDigest "sha256:039058c6f2c0cb492c533b0a4d14ef77cc0f78abccced5287d84a1a2011cfb81".toList =
      true
    decide
  decode record h := by
    change parseJson {} (fromBytes (toBytes (record.json {}) ++ [10])) = some record
    rw [fromBytes_toBytes (isAscii_json h)]
    exact parseJson_json h _
  length record h := by
    change (toBytes (record.json {})).length < 4096
    rw [toBytes, List.length_map]
    exact length_json h

-- A first chat, whose snapshot is saved and published.
def sampleSave : SaveInput where
  status := .ok { promptTokens := 3, promptTokensReported := true, isProcessing := false }
  random := some (.replicate 16 0)
  saved  := some [1, 2, 3]
  action := .ok {
    idSlot   := some 0
    filename := some ("chat_00000000000000000000000000000000.bin".toList)
    tokens   := some 3
    bytes    := some 3
  }
  index  := some (.replicate 16 1)

def emptySession : Session where
  files _          := none
  slot             := none
  restoreAttempted := false
  published        := []

def sampleSession : Session :=
  (emptySession.step sampleLibraries (.save sampleSave [])).1

theorem reachable_sampleSession : (sessions sampleLibraries).Reachable sampleSession := by
  have hi : (sessions sampleLibraries).Reachable emptySession := .init ⟨rfl, rfl⟩
  exact hi.step (show emptySession.step sampleLibraries (.save sampleSave []) = (sampleSession, _)
    from rfl)

theorem chat_snapshots_crash_safe_sample :
    sampleSession.published = [⟨3, [1, 2, 3]⟩] ∧ CrashSafe sampleLibraries sampleSession :=
  ⟨by decide +kernel, chat_snapshots_crash_safe sampleLibraries_lawful reachable_sampleSession⟩

end Json
end Backend.ChatPersistence
