import WerkModel.FileStore.Runs

-- What survives in a file store whose operations may be cut off by crashes.
open Checks

namespace FileStore

structure Deposit where
  principal : Name
  file      : StoredFile
  data      : Bytes
  deriving DecidableEq

def Deposit.location (deposit : Deposit) : Location :=
  ⟨deposit.principal, deposit.file.id⟩

def Deposit.item (deposit : Deposit) : Location × Entry :=
  (deposit.location, ⟨some deposit.file, some deposit.data⟩)

namespace Input

variable (input : Input) (output : Output)

-- Unless it is refused, a deletion affects its file, also if it is cut off.
def deletes (location : Location) : Bool :=
  match input.operation, output with
  | .delete _ _, .error _ => false
  | .delete principal id, _ => location = ⟨principal, id⟩
  | _, _ => false

def deposits : List Deposit :=
  match input.operation, output with
  | .put principal upload _ _, .ok (.file file) => [⟨principal, file, upload.data⟩]
  | _, _ => []

def Uninterrupted : Prop :=
  ∀ part, .crashes part ∉ input.fates

-- An inventory of the store has been completed.
def inventories : Prop :=
  match input.operation, output with
  | .put _ _ _ _, .ok _ => True
  | .list _, .ok _      => True
  | _, _                => False

end Input

-- The files that have been put, and that have neither expired nor been deleted.
def survivors : List (Input × Output) → List Deposit
  | [] => []
  | (input, output) :: earlier =>
    (survivors earlier).filter (fun deposit =>
      ¬deposit.file.expired (input.clock.entry deposit.location) ∧
        ¬input.deletes output deposit.location) ++ input.deposits output

-- A crash leaves no file without its metadata, and files that have lost their data have expired
-- when they are seen by an inventory.
structure Undisturbed (s : State) (input : Input) (output : Output) (s' : State) : Prop where
  metadata : output = .crashed → s'.store.Complete
  data     : input.inventories output → ∀ item ∈ s.store.entries, ∀ file,
    item.2.metadata = some file → item.2.data = none → file.expired (input.clock.entry item.1)

-- What is promised after any run.
structure Recovered (h : List (Input × Output)) (s : State) : Prop where
  lists     : ∀ input output s' principal, s.Performs input output s' → input.Uninterrupted →
    input.operation = .list principal → ∃ files, output = .ok (.files files)
  puts      : ∀ input output s' principal upload random suffix, s.Performs input output s' →
    input.Uninterrupted → input.operation = .put principal upload random suffix →
    upload.Acceptable input.clock principal →
    upload.fits principal (inventory input.clock s.store) → ∃ file, output = .ok (.file file)
  gets      : ∀ deposit ∈ survivors h, ∀ input output s', s.Performs input output s' →
    input.Uninterrupted → input.operation = .get deposit.principal deposit.file.id →
    ¬deposit.file.expired (input.clock.entry deposit.location) →
    output = .ok (.content deposit.file deposit.data)
  reclaimed : ∀ input output earlier, h = (input, output) :: earlier → input.inventories output →
    ∀ item ∈ s.store.entries, ¬item.1.staged ∧ item.2.metadata.isSome ∧ item.2.data.isSome

section Steps

variable {s s' : Store} {drawn : List Name} {clock : Clock} {operation : Operation} {r : Value}
variable {item : Location × Entry} {principal id : Name} {input : Input}

theorem returns_sound (h : s.Sound drawn) (hc : s.Complete) (hp : operation.Possible drawn)
    (hr : operation.Returns clock s r s') : s'.Sound (operation.drawn ++ drawn) := by
  cases operation <;> cases r
  case put.file =>
    obtain ⟨ha, _, rfl⟩ := hr
    exact h.publish hc ha hp.right.left hp.left hp.right.right
  case list.files    => exact hr.right ▸ h.remains (Store.remains_scanned (h.readable hc))
  case get.content   => exact hr.right ▸ h
  case metadata.file => exact hr.right ▸ h
  case delete.done   => exact hr.right ▸ h.remains (.remove h.owned)
  all_goals cases hr

theorem fails_sound (h : s.Sound drawn) (hc : s.Complete) (hr : operation.Fails clock s s') :
    s'.Sound drawn := by
  have scanned : (s.scanned clock).Sound drawn :=
    h.remains (Store.remains_scanned (h.readable hc))
  have removed {location} : (s.remove location).Sound drawn := h.remains (.remove h.owned)
  cases operation
  case put      => exact hr.left.elim (· ▸ h) (· ▸ scanned)
  case list     => cases hr
  case get      => exact hr.left.elim (· ▸ h) fun hr => hr.right ▸ removed
  case metadata => exact hr.elim (· ▸ h) fun hr => hr.right ▸ removed
  case delete   => exact hr.left ▸ h

theorem stops_sound (h : s.Sound drawn) (hc : s.Complete) (hp : operation.Possible drawn)
    (hr : operation.Stops clock s s') : s'.Sound (operation.drawn ++ drawn) := by
  cases operation
  case put principal upload random suffix =>
    have hsub : drawn ⊆ fileId random :: drawn := List.subset_cons_self ..
    obtain hr | ⟨ha, rfl | ⟨_, rfl⟩ | rfl⟩ := hr
    case inl         => exact (h.remains hr).mono hsub
    case inr.inl     => exact (h.prepared hc ha).left.mono hsub
    case inr.inr.inl => exact (h.stage hc ha).mono hsub
    case inr.inr.inr => exact h.publish hc ha hp.right.left hp.left hp.right.right
  case list     => exact h.remains hr
  case get      => exact h.remains hr.right
  case metadata => exact h.remains hr.right
  case delete   => exact h.remains hr.right

-- An access does not remove what an inventory keeps.
theorem ne_of_expires (h : s.Sound drawn) (he : s.Expires clock principal id)
    (hm : item ∈ s.entries) (hk : Keeps clock item) : item.1 ≠ ⟨principal, id⟩ := by
  obtain ⟨entry, file, hl, hf, hexp⟩ := he
  intro heq
  have hfound := (Store.find_eq_some h.nodup).mp hl.found
  obtain rfl := List.inj_on_of_nodup_map h.nodup hm hfound heq
  obtain ⟨_, file', hf', hne⟩ := keeps_iff.mp hk
  rw [(read_metadata_eq_ok.mp hf).left] at hf'
  cases hf'
  exact hne hexp

theorem returns_keeps (hr : operation.Returns clock s r s') (hm : item ∈ s.entries)
    (hk : Keeps clock item) (hd : ∀ principal id, operation = .delete principal id →
      item.1 ≠ ⟨principal, id⟩) : item ∈ s'.entries := by
  have hscanned : item ∈ (s.scanned clock).entries := Store.mem_scanned.mpr ⟨hm, hk⟩
  cases operation <;> cases r
  case put.file =>
    rw [hr.right.right]
    refine List.mem_append_left _ ?_
    rwa [Store.prepared, Store.entries_privateDir]
  case list.files    => exact hr.right ▸ hscanned
  case get.content   => exact hr.right ▸ hm
  case metadata.file => exact hr.right ▸ hm
  case delete.done   => exact hr.right ▸ Store.mem_remove.mpr ⟨hm, hd _ _ rfl⟩
  all_goals cases hr

theorem fails_keeps (h : s.Sound drawn) (hr : operation.Fails clock s s') (hm : item ∈ s.entries)
    (hk : Keeps clock item) : item ∈ s'.entries := by
  have removed {principal id} (he : s.Expires clock principal id) :
      item ∈ (s.remove ⟨principal, id⟩).entries :=
    Store.mem_remove.mpr ⟨hm, ne_of_expires h he hm hk⟩
  cases operation
  case put      => exact hr.left.elim (· ▸ hm) (· ▸ Store.mem_scanned.mpr ⟨hm, hk⟩)
  case list     => cases hr
  case get      => exact hr.left.elim (· ▸ hm) fun hr => hr.right ▸ removed hr.left
  case metadata => exact hr.elim (· ▸ hm) fun hr => hr.right ▸ removed hr.left
  case delete   => exact hr.left ▸ hm

theorem stops_keeps (h : s.Sound drawn) (hr : operation.Stops clock s s') (hm : item ∈ s.entries)
    (hk : Keeps clock item) (hd : ∀ principal id, operation = .delete principal id →
      item.1 ≠ ⟨principal, id⟩) : item ∈ s'.entries := by
  have prepared {principal} : item ∈ (s.prepared clock principal).entries := by
    rw [Store.prepared, Store.entries_privateDir]
    exact Store.mem_scanned.mpr ⟨hm, hk⟩
  cases operation
  case put =>
    obtain hr | ⟨ha, rfl | ⟨_, rfl⟩ | rfl⟩ := hr
    case inl         => exact hr.kept item hm hk
    case inr.inl     => exact prepared
    case inr.inr.inl => exact List.mem_append_left _ prepared
    case inr.inr.inr => exact List.mem_append_left _ prepared
  case list     => exact hr.kept item hm hk
  case get      => exact hr.right.kept item hm (ne_of_expires h hr.left hm hk)
  case metadata => exact hr.right.kept item hm (ne_of_expires h hr.left hm hk)
  case delete   => exact hr.right.kept item hm (hd _ _ rfl)

end Steps

section Runs

variable {s s' : State} {input : Input} {output : Output} {h : List (Input × Output)}
variable {deposit : Deposit} {t : Store} {rest : List Fate}

theorem mem_deposits (hm : deposit ∈ input.deposits output) : ∃ upload random suffix,
    input.operation = .put deposit.principal upload random suffix ∧
      output = .ok (.file deposit.file) ∧ deposit.data = upload.data := by
  unfold Input.deposits at hm
  split at hm
  case h_2 => cases hm
  case h_1 principal upload random suffix file ho =>
    obtain rfl := List.mem_singleton.mp hm
    exact ⟨upload, random, suffix, ho, rfl, rfl⟩

-- The state after a run without disturbances.
structure Kept (h : List (Input × Output)) (s : State) : Prop where
  sound    : s.store.Sound s.drawn
  complete : s.store.Complete
  deposits : ∀ deposit ∈ survivors h, deposit.item ∈ s.store.entries ∧ ¬deposit.location.staged

-- How an operation ends.
def Input.Ends (input : Input) (t : Store) : Output → Store → Prop
  | .ok r, s'    => input.operation.Returns input.clock t r s'
  | .error _, s' => input.operation.Fails input.clock t s'
  | .crashed, s' => input.operation.Stops input.clock t s' ∧ ¬input.Uninterrupted

theorem perform_ends {drawn : List Name} (hs : t.Sound drawn) (hc : t.Complete)
    (hcalm : Faulty.Calm input.fates)
    (hp : input.operation.perform input.clock input.first t input.fates = (output, s'.store, rest)) :
    input.Ends t output s'.store := by
  have he := @perform_ensures _ _ input.clock input.first hs hc input.operation t input.fates rfl
    hcalm
  rw [hp] at he
  cases output
  case ok      => exact he.left
  case error   => exact he.left
  case crashed => exact ⟨he.left, fun hu => he.right.elim fun part hm => hu part hm⟩

theorem Kept.step (k : Kept h s) (hp : s.Performs input output s')
    (hu : Undisturbed s input output s') : Kept ((input, output) :: h) s' := by
  obtain ⟨t, rest, hr, hperform⟩ := hp.performs
  have hs := k.sound.reorders hr
  have hc := k.complete.reorders hr
  have hcases := perform_ends hs hc hp.calm hperform
  have keeps {deposit} (hm : deposit ∈ survivors h)
      (he : ¬deposit.file.expired (input.clock.entry deposit.location)) :
      deposit.item ∈ t.entries ∧ Keeps input.clock deposit.item :=
    have hk := k.deposits deposit hm
    ⟨hr.entries.mem_iff.mpr hk.left, keeps_iff.mpr ⟨hk.right, deposit.file, rfl, he⟩⟩
  have deletes {deposit : Deposit} (hd : ¬input.deletes output deposit.location)
      (ho : ∀ error, output ≠ .error error) (principal id : Name)
      (hi : input.operation = .delete principal id) : deposit.item.1 ≠ ⟨principal, id⟩ := by
    intro (he : deposit.location = ⟨principal, id⟩)
    refine hd ?_
    cases output
    case error error => exact absurd rfl (ho error)
    all_goals simpa [Input.deletes, hi] using he
  refine ⟨?_, ?_, ?_⟩
  case refine_1 =>
    rw [hp.drawn]
    cases output
    case ok      => exact returns_sound hs hc hp.possible hcases
    case error   => exact (fails_sound hs hc hcases).mono (List.subset_append_right ..)
    case crashed => exact stops_sound hs hc hp.possible hcases.left
  case refine_2 =>
    cases output
    case ok      => exact perform_complete hc hcases
    case error   => exact fails_complete hc hcases
    case crashed => exact hu.metadata rfl
  case refine_3 =>
    intro deposit hm
    obtain hm | hm := List.mem_append.mp hm
    case inl =>
      obtain ⟨hm, hd⟩ := List.mem_filter.mp hm
      obtain ⟨he, hd⟩ := of_decide_eq_true hd
      obtain ⟨hi, hk⟩ := keeps hm he
      refine ⟨?_, (k.deposits deposit hm).right⟩
      cases output
      case ok      => exact returns_keeps hcases hi hk (deletes hd fun _ he => by cases he)
      case error   => exact fails_keeps hs hcases hi hk
      case crashed => exact stops_keeps hs hcases.left hi hk (deletes hd fun _ he => by cases he)
    case inr =>
      obtain ⟨upload, random, suffix, ho, rfl, hdata⟩ := mem_deposits hm
      obtain ⟨operation, _, _, _, _⟩ := input
      obtain rfl : operation = _ := ho
      obtain ⟨_, hfile, hstore⟩ := hcases
      rw [Deposit.item, Deposit.location, hstore, hfile, hdata]
      exact ⟨List.mem_append_right _ (List.mem_singleton_self _), not_staged_fileId⟩

theorem Kept.init : Kept [] State.empty := by
  refine ⟨⟨List.nodup_nil, List.nodup_nil, ?_, ?_, ?_, ?_, ?_, ?_⟩, ?_, ?_⟩
  all_goals simp [State.empty, Store.Complete, survivors]

theorem kept_of_run (r : (stores.restrict Undisturbed).Run h s) : Kept h s :=
  r.invariant (I := Kept) (fun _ hi => hi ▸ .init) fun _ _ _ _ _ _ k hs => k.step hs.left hs.right

theorem Store.inventory_reorders {clock : Clock} (hs : s.store.Readable) (ht : t.Readable)
    (hr : s.store.Reorders t) : (inventory clock t).Perm (inventory clock s.store) :=
  (inventory_perm ht).trans (.trans ((hr.entries.filter _).filterMap _) (inventory_perm hs).symm)

theorem Upload.fits_perm {upload : Upload} {principal : Name} {l l' : List (Name × StoredFile)}
    (hp : l.Perm l') (h : upload.fits principal l) : upload.fits principal l' := by
  have ho := hp.filter (·.1 = principal)
  obtain ⟨hl, hol, hb, hob⟩ := h
  exact ⟨hp.length_eq ▸ hl, ho.length_eq ▸ hol, (hp.map (·.2.bytes)).sum_eq ▸ hb,
    (ho.map (·.2.bytes)).sum_eq ▸ hob⟩

theorem Published.holds {drawn : List Name} (hs : t.Sound drawn)
    (hm : deposit.item ∈ t.entries) (hn : ¬deposit.location.staged)
    (he : ¬deposit.file.expired (input.clock.entry deposit.location)) :
    t.Holds input.clock deposit.principal deposit.file.id deposit.file deposit.data := by
  have hp := hs.published _ hm hn
  obtain ⟨random, hr, hid⟩ := hp.id
  obtain ⟨hf, hname⟩ := hp.metadata deposit.file rfl
  have hlen := hp.data deposit.file deposit.data rfl rfl
  have hsize := (read_metadata_eq_ok.mp hf).right.right
  have hfolder := hs.owned _ hm
  refine ⟨_, ⟨⟨?_, ?_, hs.safe _ hfolder, hfolder, (Store.find_eq_some hs.nodup).mpr hm⟩, hf, rfl,
    he⟩, ?_, hlen⟩
  case refine_1 =>
    change deposit.file.id = fileId random at hid
    rw [hid]
    exact List.prefix_append ..
  case refine_2 =>
    change deposit.file.id = fileId random at hid
    rw [hid]
    exact safe_fileId hr
  case refine_3 =>
    rw [readData]
    exact ensure_bind_eq_ok.mpr ⟨hlen ▸ hsize, rfl⟩

theorem Kept.ends (k : Kept h s) (hp : s.Performs input output s') :
    ∃ t, s.store.Reorders t ∧ t.Sound s.drawn ∧ t.Complete ∧ input.Ends t output s'.store := by
  obtain ⟨t, _, hr, hperform⟩ := hp.performs
  have hs := k.sound.reorders hr
  have hc := k.complete.reorders hr
  exact ⟨t, hr, hs, hc, perform_ends hs hc hp.calm hperform⟩

-- A file that is there can be read.
theorem Kept.gets (k : Kept h s) (hp : s.Performs input output s') (hu : input.Uninterrupted)
    (ho : input.operation = .get deposit.principal deposit.file.id)
    (hm : deposit.item ∈ s.store.entries) (hn : ¬deposit.location.staged)
    (hcurrent : ¬deposit.file.expired (input.clock.entry deposit.location)) :
    output = .ok (.content deposit.file deposit.data) := by
  obtain ⟨t, hr, hs, hc, he⟩ := k.ends hp
  have hholds := Published.holds hs (hr.entries.mem_iff.mpr hm) hn hcurrent
  obtain ⟨operation, _, _, _, _⟩ := input
  obtain rfl : operation = _ := ho
  cases output
  case error   => exact absurd hholds (he.right _ _)
  case crashed => exact absurd hu he.right
  case ok r =>
    cases r
    case content file data =>
      obtain ⟨_, hd, hdata, _⟩ := he.left
      obtain ⟨_, hd', hdata', _⟩ := hholds
      obtain rfl := hd.unique hd'.located hd'.metadata
      rw [hd.located.unique hd'.located, hdata'] at hdata
      cases hdata
      rfl
    all_goals cases he

-- What an inventory leaves is there as a whole.
theorem whole_of_keeps {clock : Clock} {item : Location × Entry} (hk : Keeps clock item)
    (hd : ∀ file, item.2.metadata = some file → item.2.data = none →
      file.expired (clock.entry item.1)) :
    ¬item.1.staged ∧ item.2.metadata.isSome ∧ item.2.data.isSome := by
  obtain ⟨hn, file, hf, he⟩ := keeps_iff.mp hk
  refine ⟨hn, by rw [hf]; rfl, Option.isSome_iff_ne_none.mpr fun hnone => ?_⟩
  exact he (hd file hf hnone)

theorem store_recovers (r : (stores.restrict Undisturbed).Run h s) : Recovered h s := by
  have k := kept_of_run r
  refine ⟨?_, ?_, ?_, ?_⟩
  case refine_1 =>
    intro input output s' principal hp hu ho
    obtain ⟨t, hr, hs, hc, he⟩ := k.ends hp
    obtain ⟨operation, _, _, _, _⟩ := input
    obtain rfl : operation = _ := ho
    cases output
    case error   => cases he
    case crashed => exact absurd hu he.right
    case ok r =>
      cases r
      case files files => exact ⟨files, rfl⟩
      all_goals cases he
  case refine_2 =>
    intro input output s' principal upload random suffix hp hu ho ha hfits
    obtain ⟨t, hr, hs, hc, he⟩ := k.ends hp
    obtain ⟨operation, _, _, _, _⟩ := input
    obtain rfl : operation = _ := ho
    have hreadable := k.sound.readable k.complete
    cases output
    case error =>
      exact absurd ⟨ha, Upload.fits_perm
        (Store.inventory_reorders hreadable (hs.readable hc) hr).symm hfits⟩ he.right
    case crashed => exact absurd hu he.right
    case ok r =>
      cases r
      case file file => exact ⟨file, rfl⟩
      all_goals cases he
  case refine_3 =>
    intro deposit hm input output s' hp hu ho hcurrent
    obtain ⟨hm, hn⟩ := k.deposits deposit hm
    exact k.gets hp hu ho hm hn hcurrent
  case refine_4 =>
    rintro input output earlier rfl hi
    cases r
    case step s₀ r hstep =>
      have k := kept_of_run r
      obtain ⟨t, hr, hs, hc, he⟩ := k.ends hstep.left
      have hdata := hstep.right.data hi
      have scanned (item : Location × Entry) (hm : item ∈ (t.scanned input.clock).entries) :
          ¬item.1.staged ∧ item.2.metadata.isSome ∧ item.2.data.isSome :=
        have hm := Store.mem_scanned.mp hm
        whole_of_keeps hm.right (hdata item (hr.entries.mem_iff.mp hm.left))
      obtain ⟨operation, _, _, _, _⟩ := input
      cases output
      case error   => cases operation <;> cases hi
      case crashed => cases operation <;> cases hi
      case ok r =>
        cases operation <;> cases r
        case list.files =>
          rw [he.right]
          exact scanned
        case put.file =>
          rw [he.right.right]
          intro item hm
          obtain hm | hm := List.mem_append.mp hm
          case inl =>
            rw [Store.prepared, Store.entries_privateDir] at hm
            exact scanned item hm
          case inr =>
            rw [List.mem_singleton.mp hm]
            exact ⟨not_staged_fileId, rfl, rfl⟩
        all_goals first | cases hi; done | cases he

end Runs

section Examples

def sampleUpload : Upload where
  filename  := "a".toList
  mimeType  := "b".toList
  purpose   := "user_data".toList
  expiresAt := none
  data      := [1]

def sampleRandom : List UInt8 :=
  List.replicate 24 0

def sampleInput (operation : Operation) (fates : List Fate) : Input where
  operation := operation
  clock     := ⟨0, 0, fun _ => 0⟩
  finish    := 0
  first _   := .metadata
  fates     := fates

def sampleFile : StoredFile :=
  sampleUpload.file ⟨0, 0, fun _ => 0⟩ (fileId sampleRandom)

def sampleLocation : Location := ⟨"alice".toList, fileId sampleRandom⟩

def samplePut : Input :=
  sampleInput (.put "alice".toList sampleUpload sampleRandom []) []

def sampleStored : State where
  store := ⟨["alice".toList], [(sampleLocation, ⟨some sampleFile, some [1]⟩)]⟩
  drawn := [fileId sampleRandom]
  now   := 0

theorem perform_put : State.empty.Performs samplePut (.ok (.file sampleFile)) sampleStored where
  calm     := by simp [Faulty.Calm, samplePut, sampleInput]
  possible := ⟨by decide, rfl, List.not_mem_nil⟩
  performs := ⟨State.empty.store, [], ⟨.refl _, .refl _⟩, by decide +kernel⟩
  drawn    := rfl
  now      := rfl

theorem store_recovers_sample : ∃ (h : List (Input × Output)) (s : State),
    survivors h = [⟨"alice".toList, sampleFile, [1]⟩] ∧ Recovered h s := by
  have r : (stores.restrict Undisturbed).Run [(samplePut, .ok (.file sampleFile))] sampleStored :=
    .step (.init rfl) ⟨perform_put, ⟨fun hc => (by cases hc), fun _ _ hm => (by cases hm)⟩⟩
  exact ⟨_, _, by decide +kernel, store_recovers r⟩

def sampleDelete : Input :=
  sampleInput (.delete "alice".toList sampleFile.id) [.succeeds, .crashes 0]

-- The directory of the file is left without its metadata.
def sampleCut : State :=
  { sampleStored with store := ⟨["alice".toList], [(sampleLocation, ⟨none, some [1]⟩)]⟩ }

theorem perform_delete : sampleStored.Performs sampleDelete .crashed sampleCut where
  calm     := by simp [Faulty.Calm, sampleDelete, sampleInput]
  possible := trivial
  performs := ⟨sampleStored.store, [], ⟨.refl _, .refl _⟩, by decide +kernel⟩
  drawn    := rfl
  now      := rfl

-- Another principal cannot list its files any more.
theorem store_wedges : ∃ (h : List (Input × Output)) (s : State) (input : Input)
    (output : Output) (s' : State), stores.Run h s ∧ s.Performs input output s' ∧
      input.Uninterrupted ∧ input.operation = .list "bob".toList ∧
      ∀ files, output ≠ .ok (.files files) := by
  have r : stores.Run [(sampleDelete, .crashed), (samplePut, .ok (.file sampleFile))] sampleCut :=
    .step (.step (.init rfl) perform_put) perform_delete
  refine ⟨_, _, sampleInput (.list "bob".toList) [], .error "no such file", sampleCut, r,
    ⟨?_, trivial, ⟨sampleCut.store, [], ⟨.refl _, .refl _⟩, by decide +kernel⟩, rfl, rfl⟩, ?_, rfl, ?_⟩
  case refine_1 => simp [Faulty.Calm, sampleInput]
  case refine_2 => simp [Input.Uninterrupted, sampleInput]
  case refine_3 => exact fun _ he => by cases he

end Examples

end FileStore
