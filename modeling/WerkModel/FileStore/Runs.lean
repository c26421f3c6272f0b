import WerkModel.FileStore.Operations
import WerkModel.Lib.System

-- The runs of a file store, and what holds of its directories throughout.
open Checks

namespace FileStore

section Texts

variable {text text' : Name} {c : Char} {random : List UInt8} {file : StoredFile} {n k : Nat}

@[simp]
theorem len_nil : len [] = 0 :=
  rfl

@[simp]
theorem len_cons : len (c :: text) = c.utf8Size + len text := by
  simp [len]

@[simp]
theorem len_append : len (text ++ text') = len text + len text' := by
  simp [len]

theorem len_ascii (h : ∀ c ∈ text, c.utf8Size = 1) : len text = text.length := by
  induction text
  case nil => rfl
  case cons c text hi =>
    rw [List.forall_mem_cons] at h
    rw [len_cons, List.length_cons, h.left, hi h.right, Nat.add_comm]

-- An identifier consists of letters, digits and an underscore.
theorem mem_fileId (h : c ∈ fileId random) :
    (c.isAlphanum ∨ c = '_') ∧ c.utf8Size = 1 ∧ ¬isControl c := by
  have digits : ∀ n < 16, ((Nat.digitChar n).isAlphanum ∨ Nat.digitChar n = '_') ∧
      (Nat.digitChar n).utf8Size = 1 ∧ ¬isControl (Nat.digitChar n) := by decide
  have start : "file_".toList.all fun c =>
      (c.isAlphanum ∨ c = '_') ∧ c.utf8Size = 1 ∧ ¬isControl c := by decide
  obtain h | h := List.mem_append.mp h
  case inl => exact of_decide_eq_true (List.all_eq_true.mp start c h)
  case inr =>
    obtain ⟨byte, _, hc⟩ := List.mem_flatMap.mp h
    have hb := byte.toNat_lt
    simp only [List.mem_cons, List.not_mem_nil, or_false] at hc
    obtain rfl | rfl := hc
    case inl => exact digits _ (by omega)
    case inr => exact digits _ (Nat.mod_lt _ (by omega))

theorem length_fileId : (fileId random).length = 5 + 2 * random.length := by
  induction random
  case nil => rfl
  case cons byte random hi =>
    simp only [fileId, List.flatMap_cons, List.length_append, List.length_cons,
      List.length_nil] at hi ⊢
    omega

theorem safe_fileId (h : random.length = 24) : safeComponent (fileId random) := by
  have hl : len (fileId random) = 53 := by
    rw [len_ascii fun c hc => (mem_fileId hc).right.left, length_fileId, h]
  have hn : fileId random ≠ [] := by simp [fileId]
  simp only [safeComponent, decide_eq_true_eq, List.all_eq_true, hl]
  exact ⟨hn, by omega, fun c hc => (mem_fileId hc).left⟩

theorem not_staged_fileId {principal : Name} : ¬(⟨principal, fileId random⟩ : Location).staged := by
  simp [Location.staged, stagePrefix, fileId]

-- At most a backslash is added to what is not a control character.
theorem len_escape (h : ¬isControl c) : len (escape c) ≤ 2 * c.utf8Size := by
  have hp := c.utf8Size_pos
  simp only [isControl, decide_eq_true_eq, not_or, not_lt] at h
  rw [escape]
  split
  case isTrue => simpa using (by decide : '\\'.utf8Size + '"'.utf8Size ≤ 2).trans (by omega)
  case isFalse =>
    split
    case isTrue => simpa using (by decide : '\\'.utf8Size + '\\'.utf8Size ≤ 2).trans (by omega)
    case isFalse =>
      iterate 6 rw [if_neg (by omega)]
      rw [len_cons, len_nil]
      omega

theorem len_quote (h : ∀ c ∈ text, ¬isControl c) : len (quote text) ≤ 2 + 2 * len text := by
  have hq : '"'.utf8Size = 1 := rfl
  have escaped : len (text.flatMap escape) ≤ 2 * len text := by
    induction text
    case nil => exact le_rfl
    case cons c text hi =>
      rw [List.forall_mem_cons] at h
      have hc := len_escape h.left
      have hi := hi h.right
      rw [List.flatMap_cons, len_append, len_cons]
      omega
  rw [quote, len_append, len_cons, len_cons, len_nil, hq]
  omega

theorem len_number (h : n < 2 ^ 64) : len (number n) ≤ 20 := by
  have digits : ∀ c ∈ number n, c.utf8Size = 1 := by
    intro c hc
    have hd := Nat.isDigit_of_mem_toDigits (by omega) (by omega) hc
    have hle := (Char.isDigit_iff_toNat.mp hd).right
    rw [Char.utf8Size_eq_one_iff, UInt32.le_iff_toNat_le]
    exact hle.trans (by decide)
  rw [len_ascii digits, number, Nat.length_toDigits_le_iff (by omega) (by omega)]
  omega

def purposes : List Name :=
  ["user_data".toList, "assistants".toList, "batch".toList, "fine-tune".toList, "vision".toList,
    "evals".toList]

theorem len_purpose (h : text ∈ purposes) : len (quote text) ≤ 22 := by
  have bound : purposes.all fun text => len (quote text) ≤ 22 := by decide
  exact of_decide_eq_true (List.all_eq_true.mp bound text h)

theorem len_json : len file.json = 80 + len (quote file.id) + len (quote file.filename) +
    len (quote file.mimeType) + len (number file.bytes) + len (number file.createdAt.toNat) +
    len (file.expiresAt.elim "null".toList (number ·.toNat)) + len (quote file.purpose) := by
  have h₁ : len "\x7b\"id\":".toList = 6 := by decide
  have h₂ : len ",\"filename\":".toList = 12 := by decide
  have h₃ : len ",\"mime_type\":".toList = 13 := by decide
  have h₄ : len ",\"bytes\":".toList = 9 := by decide
  have h₅ : len ",\"created_at\":".toList = 14 := by decide
  have h₆ : len ",\"expires_at\":".toList = 14 := by decide
  have h₇ : len ",\"purpose\":".toList = 11 := by decide
  have h₈ : len ['\x7d'] = 1 := by decide
  unfold StoredFile.json
  generalize "\x7b\"id\":".toList = k₁ at *
  generalize ",\"filename\":".toList = k₂ at *
  generalize ",\"mime_type\":".toList = k₃ at *
  generalize ",\"bytes\":".toList = k₄ at *
  generalize ",\"created_at\":".toList = k₅ at *
  generalize ",\"expires_at\":".toList = k₆ at *
  generalize ",\"purpose\":".toList = k₇ at *
  generalize "null".toList = absent
  simp only [len_append]
  linarith only [h₁, h₂, h₃, h₄, h₅, h₆, h₇, h₈]

-- The metadata of an upload can be read back.
theorem len_json_le {upload : Upload} {clock : Clock} (hn : upload.named) (ht : upload.typed)
    (hb : upload.data.length ≤ maxFileBytes) (hr : random.length = 24)
    (hp : upload.purpose ∈ purposes) :
    len (upload.file clock (fileId random)).json ≤ 8192 := by
  simp only [Upload.named, Upload.typed, decide_eq_true_eq, List.all_eq_true] at hn ht
  obtain ⟨_, hn, hnc⟩ := hn
  obtain ⟨_, ht, htc⟩ := ht
  have hid := len_quote fun c hc => (@mem_fileId c random hc).right.right
  have hidl : len (fileId random) = 53 := by
    rw [len_ascii fun c hc => (mem_fileId hc).right.left, length_fileId, hr]
  have hname := len_quote fun c hc => (hnc c hc).left
  have htype := len_quote htc
  have hpurpose := len_purpose hp
  have hlt : upload.data.length < 2 ^ 64 := hb.trans_lt (by norm_num [maxFileBytes])
  have hbytes := len_number hlt
  have hcreated := len_number clock.created.toNat_lt
  have hexpires : len (upload.expiresAt.elim "null".toList (number ·.toNat)) ≤ 20 := by
    cases upload.expiresAt
    case none      => decide
    case some time => exact len_number time.toNat_lt
  refine (le_of_eq len_json).trans ?_
  simp only [Upload.file]
  linarith only [hid, hidl, hname, hn, htype, ht, hpurpose, hbytes, hcreated, hexpires]

end Texts

section Invariants

variable {s s' t : Store} {clock : Clock} {item : Location × Entry} {drawn drawn' : List Name}
variable {keep : Location × Entry → Prop} {location : Location} {principal : Name}
variable {upload : Upload} {random : List UInt8} {entry entry' : Entry}

-- What holds of a published entry as far as it has been written, and has not been removed.
structure Published (drawn : List Name) (item : Location × Entry) : Prop where
  id       : ∃ random, random.length = 24 ∧ item.1.name = fileId random
  drawn    : item.1.name ∈ drawn
  metadata : ∀ file, item.2.metadata = some file →
    readMetadata item.2 = .ok file ∧ item.1.name = file.id
  data     : ∀ file data, item.2.metadata = some file → item.2.data = some data →
    data.length = file.bytes

structure Store.Sound (drawn : List Name) (s : Store) : Prop where
  nodup     : (s.entries.map Prod.fst).Nodup
  distinct  : s.namespaces.Nodup
  owned     : ∀ item ∈ s.entries, item.1.principal ∈ s.namespaces
  safe      : ∀ principal ∈ s.namespaces, safeComponent principal
  published : ∀ item ∈ s.entries, ¬item.1.staged → Published drawn item
  files     : ((s.entries.map Prod.fst).filter (¬·.staged)).length ≤ maxFiles
  stages    : ((s.entries.map Prod.fst).filter (·.staged)).length ≤ 1
  users     : s.namespaces.length ≤ maxFiles

-- No published entry has lost its metadata.
def Store.Complete (s : Store) : Prop :=
  ∀ item ∈ s.entries, ¬item.1.staged → item.2.metadata.isSome

theorem Published.left (h : Published drawn (location, entry)) (hl : entry.Left entry') :
    Published drawn (location, entry') := by
  have hm {file} (hf : entry'.metadata = some file) : entry.metadata = some file :=
    hl.metadata.elim (fun hn => by rw [hn] at hf; cases hf) fun he => he ▸ hf
  refine ⟨h.id, h.drawn, fun file hf => ?_, fun file data hf hd => ?_⟩
  case refine_1 =>
    obtain ⟨hr, hid⟩ := h.metadata file (hm hf)
    exact ⟨read_metadata_eq_ok.mpr ⟨hf, (read_metadata_eq_ok.mp hr).right⟩, hid⟩
  case refine_2 =>
    refine h.data file data (hm hf) (hl.data.elim (fun hn => ?_) fun he => he ▸ hd)
    rw [hn] at hd
    cases hd

theorem Published.mono (h : Published drawn item) (hs : drawn ⊆ drawn') : Published drawn' item :=
  { h with drawn := hs h.drawn }

namespace Store

theorem Sound.mono (h : s.Sound drawn) (hs : drawn ⊆ drawn') : s.Sound drawn' :=
  { h with published := fun item hm hn => (h.published item hm hn).mono hs }

-- What is left of a store is sound.
theorem Sound.remains (h : s.Sound drawn) (hr : s.Remains keep s') : s'.Sound drawn where
  nodup    := hr.locations.nodup h.nodup
  distinct := hr.namespaces.nodup h.distinct
  owned    := hr.owned
  safe principal hm := h.safe principal (hr.namespaces.subset hm)
  files    := (hr.locations.filter _).length_le.trans h.files
  stages   := (hr.locations.filter _).length_le.trans h.stages
  users    := hr.namespaces.length_le.trans h.users
  published item hm hn := by
    obtain ⟨entry, hm, he | ⟨_, hl⟩⟩ := hr.entries item hm
    case inl =>
      have hp := h.published _ hm hn
      rwa [←he] at hp
    case inr => exact (h.published _ hm hn).left hl

theorem Sound.readable (h : s.Sound drawn) (hc : s.Complete) : s.Readable where
  nodup    := h.nodup
  distinct := h.distinct
  owned    := h.owned
  safe     := h.safe
  files item hm hn := by
    obtain ⟨file, hf⟩ := Option.isSome_iff_exists.mp (hc item hm hn)
    exact ⟨file, (h.published item hm hn).metadata file hf⟩
  visits   := by
    have hsplit := List.length_eq_length_filter_add (l := s.entries.map Prod.fst) (·.staged)
    have hfiles := h.files
    have hstages := h.stages
    have husers := h.users
    simp only [List.length_map, decide_not, Bool.decide_eq_true, maxFiles] at *
    omega

theorem Complete.remove (h : s.Complete) : (s.remove location).Complete :=
  fun item hm => h item (mem_remove.mp hm).left

theorem Complete.scanned (h : s.Complete) : (s.scanned clock).Complete :=
  fun item hm => h item (mem_scanned.mp hm).left

-- The files of a store with their principals.
def stored (s : Store) : List (Name × StoredFile) :=
  s.entries.filterMap fun item => item.2.metadata.map (item.1.principal, ·)

theorem inventory_perm (h : s.Readable) :
    (inventory clock s).Perm (s.scanned clock).stored := by
  refine ((listing_perm h).filterMap _).trans (.of_eq ?_)
  rw [stored, scanned, List.filterMap_filter]
  refine List.filterMap_congr fun item _ => ?_
  by_cases hk : Keeps clock item
  case pos =>
    obtain ⟨hn, file, hf, he⟩ := keeps_iff.mp hk
    simp [hk, kept, hn, hf, he]
  case neg => simp [hk, Option.not_isSome_iff_eq_none.mp hk]

theorem length_stored_scanned : (s.scanned clock).stored.length = (s.scanned clock).entries.length := by
  rw [stored, List.length_filterMap_eq_countP, List.countP_eq_length]
  intro item hm
  obtain ⟨_, file, hf, _⟩ := keeps_iff.mp (mem_scanned.mp hm).right
  simp [hf]

theorem not_staged_of_mem_scanned (hm : item ∈ (s.scanned clock).entries) : ¬item.1.staged :=
  (keeps_iff.mp (mem_scanned.mp hm).right).left

theorem length_namespaces_scanned (h : s.Readable) :
    (s.scanned clock).namespaces.length ≤ (s.scanned clock).entries.length := by
  have hd : (s.scanned clock).namespaces.Nodup := List.filter_sublist.nodup h.distinct
  have hs : (s.scanned clock).namespaces ⊆ (s.scanned clock).entries.map (·.1.principal) := by
    intro principal hp
    obtain ⟨_, hp⟩ := List.mem_filter.mp hp
    obtain ⟨item, hm, hk⟩ := of_decide_eq_true hp
    obtain ⟨hi, rfl⟩ := mem_listing.mp hm
    exact List.mem_map_of_mem (mem_scanned.mpr ⟨hi, hk⟩)
  exact (List.subperm_of_subset hd hs).length_le.trans_eq (List.length_map _)

theorem mem_namespaces_privateDir {other : Name} :
    other ∈ (s.privateDir principal).namespaces ↔ other ∈ s.namespaces ∨ other = principal := by
  rw [privateDir]
  split
  case isTrue hp => exact ⟨.inl, fun h => h.elim id fun he => he ▸ hp⟩
  case isFalse => simp

theorem Sound.privateDir (h : s.Sound drawn) (hs : safeComponent principal)
    (hu : s.namespaces.length < maxFiles) : (s.privateDir principal).Sound drawn where
  nodup := by rw [entries_privateDir]; exact h.nodup
  distinct := by
    rw [Store.privateDir]
    split
    case isTrue => exact h.distinct
    case isFalse hn =>
      exact h.distinct.append (List.nodup_singleton _) (List.disjoint_singleton.mpr hn)
  owned item hm := by
    rw [entries_privateDir] at hm
    exact mem_namespaces_privateDir.mpr (.inl (h.owned item hm))
  safe other ho := by
    obtain ho | rfl := mem_namespaces_privateDir.mp ho
    case inl => exact h.safe other ho
    case inr => exact hs
  published := by rw [entries_privateDir]; exact h.published
  files := by rw [entries_privateDir]; exact h.files
  stages := by rw [entries_privateDir]; exact h.stages
  users := by
    rw [Store.privateDir]
    split
    case isTrue => exact h.users
    case isFalse => rw [List.length_append]; exact hu

theorem Sound.add (h : s.Sound drawn) (hne : ∀ item ∈ s.entries, item.1 ≠ location)
    (ho : location.principal ∈ s.namespaces)
    (hp : ¬location.staged → Published drawn (location, entry))
    (hf : ¬location.staged → ((s.entries.map Prod.fst).filter (¬·.staged)).length < maxFiles)
    (hs : location.staged → (s.entries.map Prod.fst).filter (·.staged) = []) :
    (s.add location entry).Sound drawn where
  distinct := h.distinct
  safe     := h.safe
  users    := h.users
  nodup    := by
    rw [Store.add, List.map_append]
    refine h.nodup.append (List.nodup_singleton _) (List.disjoint_singleton.mpr fun hm => ?_)
    obtain ⟨item, hm, he⟩ := List.mem_map.mp hm
    exact hne item hm he
  owned item hm := by
    obtain hm | hm := List.mem_append.mp hm
    case inl => exact h.owned item hm
    case inr => rwa [List.mem_singleton.mp hm]
  published item hm hn := by
    obtain hm | hm := List.mem_append.mp hm
    case inl => exact h.published item hm hn
    case inr =>
      rw [List.mem_singleton.mp hm] at hn ⊢
      exact hp hn
  files := by
    rw [Store.add, List.map_append, List.filter_append, List.length_append]
    by_cases hl : location.staged
    case pos => simpa [hl] using h.files
    case neg =>
      have := hf hl
      simp [hl] at this ⊢
      omega
  stages := by
    rw [Store.add, List.map_append, List.filter_append, List.length_append]
    by_cases hl : location.staged
    case pos => simp [hl, hs hl]
    case neg => simpa [hl] using h.stages

theorem staged_scanned : ((s.scanned clock).entries.map Prod.fst).filter (·.staged) = [] := by
  refine List.filter_eq_nil_iff.mpr fun location hl => ?_
  obtain ⟨item, hm, rfl⟩ := List.mem_map.mp hl
  exact not_staged_of_mem_scanned hm

-- An admitted upload finds the directory of its principal, and room for another file.
theorem Sound.prepared (h : s.Sound drawn) (hc : s.Complete)
    (ha : s.Admits clock principal upload) : (s.prepared clock principal).Sound drawn ∧
      (s.prepared clock principal).entries.length < maxFiles := by
  have hr := h.readable hc
  have hl : (s.scanned clock).entries.length < maxFiles := by
    rw [←length_stored_scanned, ←(inventory_perm hr).length_eq]
    exact ha.right.left
  refine ⟨(h.remains (remains_scanned hr)).privateDir ha.left.user
    ((length_namespaces_scanned hr).trans_lt hl), ?_⟩
  rwa [Store.prepared, entries_privateDir]

theorem Sound.stage {suffix : Name} (h : s.Sound drawn) (hc : s.Complete)
    (ha : s.Admits clock principal upload) :
    ((s.prepared clock principal).add ⟨principal, stagePrefix ++ suffix⟩ entry).Sound drawn := by
  have hl : (⟨principal, stagePrefix ++ suffix⟩ : Location).staged := by
    rw [Location.staged, List.isPrefixOf_iff_prefix]
    exact List.prefix_append ..
  refine (h.prepared hc ha).left.add (fun _ => ne_stage_of_mem_prepared suffix)
    (mem_namespaces_privateDir.mpr (.inr rfl)) (absurd hl) (absurd hl) fun _ => ?_
  rw [Store.prepared, entries_privateDir]
  exact staged_scanned

-- A new file.
def publish (s : Store) (clock : Clock) (principal : Name) (upload : Upload)
    (random : List UInt8) : Store :=
  (s.prepared clock principal).add ⟨principal, fileId random⟩
    ⟨some (upload.file clock (fileId random)), some upload.data⟩

theorem Sound.publish (h : s.Sound drawn) (hc : s.Complete)
    (ha : s.Admits clock principal upload) (hr : random.length = 24)
    (hp : upload.purpose ∈ purposes) (hd : fileId random ∉ drawn) :
    (s.publish clock principal upload random).Sound (fileId random :: drawn) := by
  have hn := @not_staged_fileId random principal
  have hsub : drawn ⊆ fileId random :: drawn := List.subset_cons_self ..
  obtain ⟨hs, hl⟩ := h.prepared hc ha
  have hsize := ha.left.size.right
  refine (hs.mono hsub).add (fun item hm he => ?_) (mem_namespaces_privateDir.mpr (.inr rfl))
    (fun _ => ⟨⟨random, hr, rfl⟩, List.mem_cons_self, fun file hf => ?_, fun file data hf hd => ?_⟩)
    (fun _ => ?_) (absurd · hn)
  case refine_1 =>
    have hm' := hs.published item hm (he ▸ hn)
    have hdrawn := hm'.drawn
    rw [he] at hdrawn
    exact hd hdrawn
  case refine_2 =>
    cases hf
    exact ⟨read_metadata_eq_ok.mpr ⟨rfl, len_json_le ha.left.named ha.left.typed hsize hr hp,
      hsize⟩, rfl⟩
  case refine_3 =>
    cases hf
    cases hd
    rfl
  case refine_4 => exact (List.length_filter_le ..).trans_lt (by rwa [List.length_map])

end Store

end Invariants

inductive Operation
  | put (principal : Name) (upload : Upload) (random : List UInt8) (suffix : Name)
  | list (principal : Name)
  | get (principal id : Name)
  | metadata (principal id : Name)
  | delete (principal id : Name)

inductive Value
  | file (file : StoredFile)
  | files (files : List StoredFile)
  | content (file : StoredFile) (data : Bytes)
  | done
  deriving DecidableEq

-- An operation with what it reads from the clock, the order in which files are removed from their
-- directories, and the fates of its steps.
structure Input where
  operation : Operation
  clock     : Clock
  finish    : UInt64
  first     : Location → Part
  fates     : List Fate

abbrev Output := Exit String Value

def Operation.perform (clock : Clock) (first : Location → Part) : Operation → Program Value
  | put principal upload random suffix =>
    .file <$> FileStore.put clock first principal upload random suffix
  | list principal => .files <$> FileStore.list clock first principal
  | get principal id =>
    (fun r => .content r.1 r.2) <$> FileStore.get clock first principal id
  | metadata principal id => .file <$> FileStore.metadata clock first principal id
  | delete principal id => (fun _ => .done) <$> FileStore.delete first principal id

def Operation.drawn : Operation → List Name
  | put _ _ random _ => [fileId random]
  | _                => []

-- The order in which directories are listed may change at any time.
structure Store.Reorders (s t : Store) : Prop where
  namespaces : t.namespaces.Perm s.namespaces
  entries    : t.entries.Perm s.entries

structure State where
  store : Store
  drawn : List Name
  now   : UInt64

def State.empty : State where
  store := ⟨[], []⟩
  drawn := []
  now   := 0

-- Uploads come with the purposes that the interface accepts, and with identifiers of their own.
def Operation.Possible (drawn : List Name) : Operation → Prop
  | put _ upload random _ =>
    upload.purpose ∈ purposes ∧ random.length = 24 ∧ fileId random ∉ drawn
  | _ => True

structure State.Performs (s : State) (input : Input) (output : Output) (s' : State) : Prop where
  calm     : Faulty.Calm input.fates
  possible : input.operation.Possible s.drawn
  performs : ∃ t rest, s.store.Reorders t ∧
    input.operation.perform input.clock input.first t input.fates = (output, s'.store, rest)
  drawn    : s'.drawn = input.operation.drawn ++ s.drawn
  now      : s'.now = input.finish

def stores : System State Input Output where
  Init s := s = State.empty
  Step s input output s' := s.Performs input output s'

section Steps

variable {s s' t : Store} {drawn : List Name} {keep keep' : Location × Entry → Prop}
variable {input : Input} {output : Output} {rest : List Fate} {clock : Clock}
variable {first : Location → Part}

theorem Store.Sound.reorders (h : s.Sound drawn) (hr : s.Reorders t) : t.Sound drawn where
  nodup     := (hr.entries.map _).nodup_iff.mpr h.nodup
  distinct  := hr.namespaces.nodup_iff.mpr h.distinct
  owned item hm := hr.namespaces.mem_iff.mpr (h.owned item (hr.entries.mem_iff.mp hm))
  safe principal hm := h.safe principal (hr.namespaces.mem_iff.mp hm)
  published item hm := h.published item (hr.entries.mem_iff.mp hm)
  files     := ((hr.entries.map _).filter _).length_eq.trans_le h.files
  stages    := ((hr.entries.map _).filter _).length_eq.trans_le h.stages
  users     := hr.namespaces.length_eq.trans_le h.users

theorem Store.Complete.reorders (h : s.Complete) (hr : s.Reorders t) : t.Complete :=
  fun item hm => h item (hr.entries.mem_iff.mp hm)

-- What an operation returns, and what it leaves.
def Operation.Returns (clock : Clock) (s : Store) : Operation → Value → Store → Prop
  | put principal upload random _, .file file, s' =>
    s.Admits clock principal upload ∧ file = upload.file clock (fileId random) ∧
      s' = s.publish clock principal upload random
  | list principal, .files files, s' =>
    files = ((inventory clock s).filter (·.1 = principal)).map Prod.snd ∧ s' = s.scanned clock
  | get principal id, .content file data, s' => s.Holds clock principal id file data ∧ s' = s
  | metadata principal id, .file file, s' =>
    (∃ entry, s.Describes clock principal id entry file) ∧ s' = s
  | delete principal id, .done, s' => s.Deletes principal id ∧ s' = s.remove ⟨principal, id⟩
  | _, _, _ => False

def Operation.Fails (clock : Clock) (s : Store) : Operation → Store → Prop
  | put principal upload _ _, s' =>
    (s' = s ∨ s' = s.scanned clock) ∧ ¬s.Admits clock principal upload
  | list _, _ => False
  | get principal id, s' =>
    (s' = s ∨ s.Expires clock principal id ∧ s' = s.remove ⟨principal, id⟩) ∧
      ∀ file data, ¬s.Holds clock principal id file data
  | metadata principal id, s' => s' = s ∨ s.Expires clock principal id ∧ s' = s.remove ⟨principal, id⟩
  | delete principal id, s' => s' = s ∧ ¬s.Deletes principal id

def Operation.Stops (clock : Clock) (s : Store) : Operation → Store → Prop
  | put principal upload random suffix, s' =>
    s.Remains (Keeps clock) s' ∨ s.Admits clock principal upload ∧
      (s' = s.prepared clock principal ∨
        (∃ entry, s' = (s.prepared clock principal).add
          ⟨principal, stagePrefix ++ suffix⟩ entry) ∨
        s' = s.publish clock principal upload random)
  | list _, s' => s.Remains (Keeps clock) s'
  | get principal id, s' | metadata principal id, s' =>
    s.Expires clock principal id ∧ s.Remains (·.1 ≠ ⟨principal, id⟩) s'
  | delete principal id, s' => s.Deletes principal id ∧ s.Remains (·.1 ≠ ⟨principal, id⟩) s'

theorem map_ensures {α β : Type} {f : α → β} {p : Program α} {P E C : Store → Prop}
    {Q : β → Store → Prop} (h : Faulty.Ensures P p (fun a => Q (f a)) E C) :
    Faulty.Ensures P (f <$> p) Q E C :=
  h.bind fun _ => .pure fun _ => id

theorem perform_ensures (h : s.Sound drawn) (hc : s.Complete) (operation : Operation) :
    Faulty.Ensures (· = s) (operation.perform clock first) (operation.Returns clock s)
      (operation.Fails clock s) (operation.Stops clock s) := by
  cases operation
  case put      =>
    refine map_ensures ((put_ensures (h.readable hc)).result ?_)
    rintro _ _ ⟨ha, rfl, rfl⟩
    exact ⟨ha, rfl, rfl⟩
  case list     => exact map_ensures (list_ensures (h.readable hc))
  case get      => exact map_ensures (get_ensures h.owned)
  case metadata => exact map_ensures (metadata_ensures h.owned)
  case delete   => exact map_ensures (delete_ensures h.owned)

theorem perform_complete (hc : s.Complete) {operation : Operation} {r : Value}
    (h : operation.Returns clock s r s') : s'.Complete := by
  have publish {principal upload random} (item : Location × Entry)
      (hm : item ∈ (s.publish clock principal upload random).entries) (hn : ¬item.1.staged) :
      item.2.metadata.isSome := by
    obtain hm | hm := List.mem_append.mp hm
    case inl =>
      rw [Store.prepared, Store.entries_privateDir] at hm
      exact hc.scanned item hm hn
    case inr =>
      rw [List.mem_singleton.mp hm]
      rfl
  cases operation <;> cases r
  case put.file      => exact h.right.right ▸ publish
  case list.files    => exact h.right ▸ hc.scanned
  case get.content   => exact h.right ▸ hc
  case metadata.file => exact h.right ▸ hc
  case delete.done   => exact h.right ▸ hc.remove
  all_goals cases h

theorem fails_complete (hc : s.Complete) {operation : Operation}
    (h : operation.Fails clock s s') : s'.Complete := by
  cases operation
  case put      => exact h.left.elim (· ▸ hc) (· ▸ hc.scanned)
  case list     => cases h
  case get      => exact h.left.elim (· ▸ hc) fun h => h.right ▸ hc.remove
  case metadata => exact h.elim (· ▸ hc) fun h => h.right ▸ hc.remove
  case delete   => exact h.left ▸ hc

end Steps

end FileStore
