import WerkModel.FileStore.Crashes

-- The files of each principal, and the room that they take.
open Checks

namespace FileStore

-- The files that have been put and not been deleted.
def deposited : List (Input × Output) → List Deposit
  | [] => []
  | (input, output) :: earlier =>
    (deposited earlier).filter (fun deposit => ¬input.deletes output deposit.location) ++
      input.deposits output

def Deposit.current (deposit : Deposit) (now : UInt64) : Bool :=
  ¬deposit.file.expired now

-- An operation is not cut off, and the clock is not turned back.
structure Steady (s : State) (input : Input) (output : Output) (s' : State) : Prop where
  uninterrupted : input.Uninterrupted
  earliest      : ∀ location, s.now ≤ input.clock.entry location
  latest        : ∀ location, input.clock.entry location ≤ input.finish

def steady : System State Input Output :=
  stores.restrict Steady

structure Quotas (files : List (Name × StoredFile)) : Prop where
  count          : files.length ≤ maxFiles
  bytes          : (files.map (·.2.bytes)).sum ≤ maxStoreBytes
  principalCount : ∀ principal, (files.filter (·.1 = principal)).length ≤ 256
  principalBytes : ∀ principal,
    ((files.filter (·.1 = principal)).map (·.2.bytes)).sum ≤ maxPrincipalBytes

def Deposit.entry (deposit : Deposit) : Name × StoredFile :=
  (deposit.principal, deposit.file)

-- What is promised about the files after any run, and about the next operation.
structure Isolated (h : List (Input × Output)) (s : State) : Prop where
  quotas   : ∀ now, s.now ≤ now →
    Quotas (((deposited h).filter (·.current now)).map Deposit.entry)
  sizes    : ∀ deposit ∈ deposited h, deposit.file.bytes = deposit.data.length
  lists    : ∀ input output s' principal, s.Performs input output s' → Steady s input output s' →
    input.operation = .list principal → ∃ files, output = .ok (.files files) ∧ files.Nodup ∧
      ∀ file, file ∈ files ↔ ∃ deposit ∈ deposited h, deposit.principal = principal ∧
        deposit.file = file ∧ deposit.current (input.clock.entry deposit.location)
  gets     : ∀ input output s' principal id, s.Performs input output s' →
    Steady s input output s' → input.operation = .get principal id → ∀ file data,
      output = .ok (.content file data) ↔ ⟨principal, file, data⟩ ∈ deposited h ∧ file.id = id ∧
        ¬file.expired (input.clock.entry ⟨principal, id⟩)
  metadata : ∀ input output s' principal id file, s.Performs input output s' →
    Steady s input output s' → input.operation = .metadata principal id →
      output = .ok (.file file) → file.id = id ∧ ∃ data, ⟨principal, file, data⟩ ∈ deposited h
  deletes  : ∀ input output s' principal id, s.Performs input output s' →
    Steady s input output s' → input.operation = .delete principal id → output = .ok .done →
      ∃ deposit ∈ deposited h, deposit.location = ⟨principal, id⟩
  refused  : ∀ input s' principal upload random suffix error,
    s.Performs input (.error error) s' → Steady s input (.error error) s' →
    input.operation = .put principal upload random suffix →
      deposited ((input, .error error) :: h) = deposited h ∧
        ∀ deposit ∈ deposited h, deposit.current (input.clock.entry deposit.location) →
          deposit.item ∈ s.store.entries ∧ deposit.item ∈ s'.store.entries

section Bounds

variable {files files' : List (Name × StoredFile)} {principal : Name} {upload : Upload}
variable {file : StoredFile} {s : Store} {clock : Clock}

theorem Quotas.sublist (h : Quotas files) (hs : files'.Sublist files) : Quotas files' where
  count            := hs.length_le.trans h.count
  bytes            := (hs.map _).sum_le_sum (fun _ _ => Nat.zero_le _) |>.trans h.bytes
  principalCount p := (hs.filter _).length_le.trans (h.principalCount p)
  principalBytes p := ((hs.filter _).map _).sum_le_sum (fun _ _ => Nat.zero_le _) |>.trans
    (h.principalBytes p)

theorem Quotas.perm (h : Quotas files) (hp : files.Perm files') : Quotas files' where
  count            := hp.length_eq ▸ h.count
  bytes            := (hp.map (·.2.bytes)).sum_eq ▸ h.bytes
  principalCount p := (hp.filter (·.1 = p)).length_eq ▸ h.principalCount p
  principalBytes p := ((hp.filter (·.1 = p)).map (·.2.bytes)).sum_eq ▸ h.principalBytes p

-- An upload that fits does not exceed the quotas.
theorem Quotas.fits (h : Quotas files) (hf : upload.fits principal files)
    (hb : file.bytes = upload.data.length) : Quotas (files ++ [(principal, file)]) := by
  obtain ⟨hl, hol, hbytes, hobytes⟩ := hf
  refine ⟨?_, ?_, fun p => ?_, fun p => ?_⟩
  case refine_1 => rw [List.length_append]; exact hl
  case refine_2 => simpa [hb] using hbytes
  case refine_3 =>
    by_cases hp : principal = p
    case pos =>
      subst hp
      simpa using hol
    case neg => simpa [hp] using h.principalCount p
  case refine_4 =>
    by_cases hp : principal = p
    case pos =>
      subst hp
      simpa [hb] using hobytes
    case neg => simpa [hp] using h.principalBytes p

end Bounds

section Runs

variable {h : List (Input × Output)} {s s' : State} {input : Input} {output : Output}
variable {deposit : Deposit} {t : Store} {location : Location} {now later : UInt64}

theorem current_of_le (h : deposit.current later) (hl : now ≤ later) : deposit.current now := by
  simp only [Deposit.current, StoredFile.expired, decide_eq_true_eq, Option.any_eq_true,
    not_exists, not_and] at h ⊢
  exact fun time ht hle => h time ht (UInt64.le_trans hle hl)

-- The store consists of the files that have been put, less some that have expired.
structure Accounted (h : List (Input × Output)) (s : State) : Prop where
  kept    : Kept h s
  entries : ∀ item ∈ s.store.entries, ∃ deposit ∈ deposited h, deposit.item = item
  current : ∀ deposit ∈ deposited h, deposit.current s.now → deposit ∈ survivors h
  valid   : ∀ deposit ∈ deposited h, ¬deposit.location.staged ∧ deposit.file.id ∈ s.drawn ∧
    deposit.file.bytes = deposit.data.length
  unique  : ((deposited h).map (·.file.id)).Nodup
  quotas  : Quotas s.store.stored

theorem Accounted.init : Accounted [] State.empty := by
  refine ⟨Kept.init, ?_, ?_, ?_, List.nodup_nil, ⟨?_, ?_, ?_, ?_⟩⟩
  all_goals simp [State.empty, deposited, Store.stored]

theorem stored_remains {keep : Location × Entry → Prop} [DecidablePred keep] {t t' : Store}
    (h : t'.entries = t.entries.filter keep) : t'.stored.Sublist t.stored := by
  rw [Store.stored, h]
  exact List.filter_sublist.filterMap _

theorem stored_publish {clock : Clock} {principal : Name} {upload : Upload}
    {random : List UInt8} : (t.publish clock principal upload random).stored =
      (t.scanned clock).stored ++ [(principal, upload.file clock (fileId random))] := by
  rw [Store.stored, Store.publish, Store.add, List.filterMap_append, Store.prepared,
    Store.entries_privateDir]
  rfl

theorem returns_quotas {clock : Clock} {operation : Operation} {r : Value} {t' : Store}
    (hq : Quotas t.stored) (hr : t.Readable) (h : operation.Returns clock t r t') :
    Quotas t'.stored := by
  have scanned : Quotas (t.scanned clock).stored := hq.sublist (stored_remains rfl)
  cases operation <;> cases r
  case put.file principal upload random _ file =>
    obtain ⟨ha, _, rfl⟩ := h
    rw [stored_publish]
    exact scanned.fits (Upload.fits_perm (Store.inventory_perm hr) ha.right) rfl
  case list.files    => exact h.right ▸ scanned
  case get.content   => exact h.right ▸ hq
  case metadata.file => exact h.right ▸ hq
  case delete.done   => exact h.right ▸ hq.sublist (stored_remains rfl)
  all_goals cases h

theorem fails_quotas {clock : Clock} {operation : Operation} {t' : Store}
    (hq : Quotas t.stored) (h : operation.Fails clock t t') : Quotas t'.stored := by
  have scanned : Quotas (t.scanned clock).stored := hq.sublist (stored_remains rfl)
  have removed {location} : Quotas (t.remove location).stored := hq.sublist (stored_remains rfl)
  cases operation
  case put      => exact h.left.elim (· ▸ hq) (· ▸ scanned)
  case list     => cases h
  case get      => exact h.left.elim (· ▸ hq) fun h => h.right ▸ removed
  case metadata => exact h.elim (· ▸ hq) fun h => h.right ▸ removed
  case delete   => exact h.left ▸ hq

-- An operation only leaves entries that have been there, or that it has published.
theorem ends_entries (hu : input.Uninterrupted) (he : input.Ends t output s'.store)
    {item : Location × Entry} (hm : item ∈ s'.store.entries) :
    item ∈ t.entries ∧ ¬input.deletes output item.1 ∨
      ∃ deposit ∈ input.deposits output, deposit.item = item := by
  have scanned (hm : item ∈ (t.scanned input.clock).entries) : item ∈ t.entries :=
    (Store.mem_scanned.mp hm).left
  have removed {location} (hm : item ∈ (t.remove location).entries) : item ∈ t.entries :=
    (Store.mem_remove.mp hm).left
  obtain ⟨operation, clock, finish, first, fates⟩ := input
  cases output
  case crashed => exact absurd hu he.right
  case error =>
    have hstill : item ∈ t.entries := by
      cases operation
      case put      => exact he.left.elim (fun h => h ▸ hm) fun h => scanned (h ▸ hm)
      case list     => cases he
      case get      => exact he.left.elim (fun h => h ▸ hm) fun h => removed (h.right ▸ hm)
      case metadata => exact he.elim (fun h => h ▸ hm) fun h => removed (h.right ▸ hm)
      case delete   => exact he.left ▸ hm
    cases operation <;> exact .inl ⟨hstill, Bool.false_ne_true⟩
  case ok r =>
    cases operation <;> cases r
    case list.files    => exact .inl ⟨scanned (he.right ▸ hm), Bool.false_ne_true⟩
    case get.content   => exact .inl ⟨he.right ▸ hm, Bool.false_ne_true⟩
    case metadata.file => exact .inl ⟨he.right ▸ hm, Bool.false_ne_true⟩
    case delete.done   =>
      obtain ⟨hm, hne⟩ := Store.mem_remove.mp (he.right ▸ hm)
      exact .inl ⟨hm, fun hd => hne (of_decide_eq_true hd)⟩
    case put.file principal upload random _ file =>
      obtain ⟨_, rfl, hstore⟩ := he
      rw [hstore] at hm
      obtain hm | hm := List.mem_append.mp hm
      case inl =>
        rw [Store.prepared, Store.entries_privateDir] at hm
        exact .inl ⟨scanned hm, Bool.false_ne_true⟩
      case inr => exact .inr ⟨_, List.mem_singleton_self _, (List.mem_singleton.mp hm).symm⟩
    all_goals cases he

-- A new file has an identifier of its own.
theorem deposits_spec (hd : input.operation.Possible s.drawn) (he : input.Ends t output s'.store)
    (hm : deposit ∈ input.deposits output) : ¬deposit.location.staged ∧
      deposit.file.id ∈ input.operation.drawn ∧ deposit.file.id ∉ s.drawn ∧
        deposit.file.bytes = deposit.data.length := by
  obtain ⟨upload, random, suffix, ho, rfl, hdata⟩ := mem_deposits hm
  obtain ⟨operation, clock, finish, first, fates⟩ := input
  obtain rfl : operation = _ := ho
  obtain ⟨_, hfile, _⟩ := he
  rw [Deposit.location, hdata, hfile]
  exact ⟨not_staged_fileId, List.mem_singleton_self _, hd.right.right, rfl⟩

theorem nodup_deposits : ((input.deposits output).map (·.file.id)).Nodup := by
  unfold Input.deposits
  split
  case h_1 => exact List.nodup_singleton _
  case h_2 => exact List.nodup_nil

theorem Accounted.undisturbed (a : Accounted h s) (hp : s.Performs input output s')
    (hst : Steady s input output s') : Undisturbed s input output s' where
  metadata ho := by
    obtain ⟨_, _, _, _, he⟩ := a.kept.ends hp
    rw [ho] at he
    exact absurd hst.uninterrupted he.right
  data _ item hm _ _ hn := by
    obtain ⟨_, _, rfl⟩ := a.entries item hm
    cases hn

theorem Accounted.step (a : Accounted h s) (hp : s.Performs input output s')
    (hst : Steady s input output s') : Accounted ((input, output) :: h) s' := by
  obtain ⟨t, hr, hs, hc, he⟩ := a.kept.ends hp
  have hnow (location : Location) : s.now ≤ input.clock.entry location ∧
      input.clock.entry location ≤ s'.now := ⟨hst.earliest _, hp.now ▸ hst.latest _⟩
  refine ⟨a.kept.step hp (a.undisturbed hp hst), ?_, ?_, ?_, ?_, ?_⟩
  case refine_1 =>
    intro item hm
    obtain ⟨hm, hd⟩ | ⟨deposit, hm, hi⟩ := ends_entries hst.uninterrupted he hm
    case inl =>
      obtain ⟨deposit, hdeposit, rfl⟩ := a.entries item (hr.entries.mem_iff.mp hm)
      exact ⟨deposit, List.mem_append_left _ (List.mem_filter.mpr ⟨hdeposit, decide_eq_true hd⟩),
        rfl⟩
    case inr => exact ⟨deposit, List.mem_append_right _ hm, hi⟩
  case refine_2 =>
    intro deposit hm hcurrent
    obtain hm | hm := List.mem_append.mp hm
    case inr => exact List.mem_append_right _ hm
    case inl =>
      obtain ⟨hm, hd⟩ := List.mem_filter.mp hm
      obtain ⟨hle, hle'⟩ := hnow deposit.location
      have hreading := current_of_le hcurrent hle'
      refine List.mem_append_left _ (List.mem_filter.mpr
        ⟨a.current deposit hm (current_of_le hreading hle), ?_⟩)
      exact decide_eq_true ⟨of_decide_eq_true hreading, of_decide_eq_true hd⟩
  case refine_3 =>
    intro deposit hm
    rw [hp.drawn]
    obtain hm | hm := List.mem_append.mp hm
    case inl =>
      obtain ⟨hs, hd, hl⟩ := a.valid deposit (List.mem_filter.mp hm).left
      exact ⟨hs, List.mem_append_right _ hd, hl⟩
    case inr =>
      obtain ⟨hs, hd, _, hl⟩ := deposits_spec hp.possible he hm
      exact ⟨hs, List.mem_append_left _ hd, hl⟩
  case refine_4 =>
    rw [deposited, List.map_append]
    refine ((List.filter_sublist.map _).nodup a.unique).append nodup_deposits fun id hold hnew => ?_
    obtain ⟨old, hm, rfl⟩ := List.mem_map.mp hold
    obtain ⟨new, hnew, hid⟩ := List.mem_map.mp hnew
    refine (deposits_spec hp.possible he hnew).right.right.left ?_
    rw [hid]
    exact (a.valid old (List.mem_of_mem_filter hm)).right.left
  case refine_5 =>
    have hq := a.quotas.perm (hr.entries.filterMap _).symm
    cases output
    case crashed => exact absurd hst.uninterrupted he.right
    case error   => exact fails_quotas hq he
    case ok      => exact returns_quotas hq (hs.readable hc) he

theorem accounted_of_run (r : steady.Run h s) : Accounted h s :=
  r.invariant (I := Accounted) (fun _ hi => hi ▸ .init) fun _ _ _ _ _ _ a hs =>
    a.step hs.left hs.right

theorem Accounted.mem_entries (a : Accounted h s) (hm : deposit ∈ deposited h)
    (hc : deposit.current s.now) : deposit.item ∈ s.store.entries :=
  (a.kept.deposits deposit (a.current deposit hm hc)).left

theorem Accounted.isolated_quotas (a : Accounted h s) (hn : s.now ≤ now) :
    Quotas (((deposited h).filter (·.current now)).map Deposit.entry) := by
  let current := (deposited h).filter (·.current now)
  have hnodup : (current.map Deposit.item).Nodup := by
    refine List.Nodup.of_map (fun item => item.1.name) ?_
    rw [List.map_map]
    exact (List.filter_sublist.map _).nodup a.unique
  have hsub : current.map Deposit.item ⊆ s.store.entries := by
    intro item hm
    obtain ⟨deposit, hd, rfl⟩ := List.mem_map.mp hm
    obtain ⟨hd, hc⟩ := List.mem_filter.mp hd
    exact a.mem_entries hd (current_of_le hc hn)
  obtain ⟨items, hp, hs⟩ := List.subperm_of_subset hnodup hsub
  have hquotas : Quotas (items.filterMap fun item => item.2.metadata.map (item.1.principal, ·)) :=
    a.quotas.sublist (hs.filterMap _)
  refine hquotas.perm ((hp.filterMap _).trans (.of_eq ?_))
  rw [List.filterMap_map, ←List.filterMap_eq_map]
  rfl

-- The entry of a file tells what has been put.
theorem Accounted.deposit_of_mem (a : Accounted h s) {principal id : Name} {entry : Entry}
    (hm : (⟨principal, id⟩, entry) ∈ s.store.entries) : ∃ deposit ∈ deposited h,
      deposit.location = ⟨principal, id⟩ ∧ entry = ⟨some deposit.file, some deposit.data⟩ := by
  obtain ⟨deposit, hd, hi⟩ := a.entries _ hm
  obtain ⟨hl, he⟩ := Prod.mk.inj hi
  exact ⟨deposit, hd, hl, he.symm⟩

theorem Accounted.deposit_of_locates (a : Accounted h s) (hs : t.Sound s.drawn)
    (hr : s.store.Reorders t) {principal id : Name} {entry : Entry}
    (hl : t.Locates principal id entry) : ∃ deposit ∈ deposited h,
      deposit.location = ⟨principal, id⟩ ∧ entry = ⟨some deposit.file, some deposit.data⟩ :=
  a.deposit_of_mem (hr.entries.mem_iff.mp ((Store.find_eq_some hs.nodup).mp hl.found))

theorem Accounted.deposit_of_describes (a : Accounted h s) (hs : t.Sound s.drawn)
    (hr : s.store.Reorders t) {clock : Clock} {principal id : Name} {entry : Entry}
    {file : StoredFile} (hd : t.Describes clock principal id entry file) :
    ∃ data, ⟨principal, file, data⟩ ∈ deposited h ∧ entry = ⟨some file, some data⟩ := by
  obtain ⟨⟨user, file', data⟩, hm, hl, rfl⟩ := a.deposit_of_locates hs hr hd.located
  obtain ⟨hf, _⟩ := read_metadata_eq_ok.mp hd.metadata
  obtain rfl : file' = file := Option.some.inj hf
  obtain rfl : user = principal := congrArg Location.principal hl
  exact ⟨data, hm, rfl⟩

theorem Accounted.mem_inventory (a : Accounted h s) (hs : t.Readable) (hr : s.store.Reorders t)
    (hst : Steady s input output s') {principal : Name} {file : StoredFile} :
    (principal, file) ∈ inventory input.clock t ↔ ∃ deposit ∈ deposited h,
      deposit.principal = principal ∧ deposit.file = file ∧
        deposit.current (input.clock.entry deposit.location) := by
  rw [(Store.inventory_perm hs).mem_iff, Store.stored, List.mem_filterMap]
  constructor
  case mp =>
    rintro ⟨item, hm, hf⟩
    obtain ⟨hm, hk⟩ := Store.mem_scanned.mp hm
    obtain ⟨deposit, hd, rfl⟩ := a.entries item (hr.entries.mem_iff.mp hm)
    obtain ⟨hp, hf⟩ := Prod.mk.inj (Option.some.inj hf)
    obtain ⟨_, _, hf', he⟩ := keeps_iff.mp hk
    obtain rfl := Option.some.inj hf'
    exact ⟨deposit, hd, hp, hf, decide_eq_true he⟩
  case mpr =>
    rintro ⟨deposit, hd, rfl, rfl, hc⟩
    have hm := a.mem_entries hd (current_of_le hc (hst.earliest _))
    refine ⟨deposit.item, Store.mem_scanned.mpr ⟨hr.entries.mem_iff.mpr hm, ?_⟩, rfl⟩
    exact keeps_iff.mpr ⟨(a.valid deposit hd).left, deposit.file, rfl, of_decide_eq_true hc⟩

theorem Accounted.nodup_inventory (a : Accounted h s) (hs : t.Readable) (hr : s.store.Reorders t)
    {clock : Clock} : ((inventory clock t).map Prod.snd).Nodup := by
  refine (((Store.inventory_perm hs).map _).nodup_iff).mpr ?_
  rw [Store.stored, List.map_filterMap, List.Nodup, List.pairwise_filterMap]
  have hentries : (t.scanned clock).entries.Nodup := List.filter_sublist.nodup hs.nodup.of_map
  have hdeposit {item} (hm : item ∈ (t.scanned clock).entries) :
      ∃ deposit ∈ deposited h, deposit.item = item :=
    a.entries item (hr.entries.mem_iff.mp (Store.mem_scanned.mp hm).left)
  refine hentries.imp_of_mem fun {item item'} hm hm' hne file hf file' hf' he => hne ?_
  obtain ⟨deposit, hd, rfl⟩ := hdeposit hm
  obtain ⟨deposit', hd', rfl⟩ := hdeposit hm'
  obtain rfl : deposit.file = file := Option.some.inj hf
  obtain rfl : deposit'.file = file' := Option.some.inj hf'
  rw [List.inj_on_of_nodup_map a.unique hd hd' (congrArg StoredFile.id he)]

theorem files_isolated (r : steady.Run h s) : Isolated h s := by
  have a := accounted_of_run r
  refine ⟨fun now hn => a.isolated_quotas hn, fun d hd => (a.valid d hd).right.right, ?_, ?_, ?_,
    ?_, ?_⟩
  case refine_1 =>
    intro input output s' principal hp hst ho
    obtain ⟨t, hr, hs, hc, he⟩ := a.kept.ends hp
    have hinventory {file} : (principal, file) ∈ inventory input.clock t ↔ _ :=
      a.mem_inventory (hs.readable hc) hr hst
    have hnodup : ((inventory input.clock t).map Prod.snd).Nodup :=
      a.nodup_inventory (hs.readable hc) hr
    obtain ⟨operation, _, _, _, _⟩ := input
    obtain rfl : operation = _ := ho
    cases output
    case error   => cases he
    case crashed => exact absurd hst.uninterrupted he.right
    case ok r =>
      cases r
      case files files =>
        refine ⟨files, rfl, ?_, fun file => ?_⟩
        case refine_1 =>
          rw [he.left]
          exact (List.filter_sublist.map _).nodup hnodup
        case refine_2 =>
          rw [he.left, ←hinventory]
          simp
      all_goals cases he
  case refine_2 =>
    intro input output s' principal id hp hst ho file data
    constructor
    case mp =>
      rintro rfl
      obtain ⟨t, hr, hs, hc, he⟩ := a.kept.ends hp
      obtain ⟨operation, _, _, _, _⟩ := input
      obtain rfl : operation = _ := ho
      obtain ⟨entry, hd, hdata, _⟩ := he.left
      obtain ⟨data', hm, rfl⟩ := a.deposit_of_describes hs hr hd
      obtain rfl : data' = data := (ensure_bind_eq_ok.mp hdata).right |> Except.ok.inj
      exact ⟨hm, hd.named, hd.current⟩
    case mpr =>
      rintro ⟨hm, rfl, hcurrent⟩
      have hc : Deposit.current ⟨principal, file, data⟩ s.now :=
        current_of_le (decide_eq_true hcurrent) (hst.earliest _)
      exact a.kept.gets hp hst.uninterrupted ho (a.mem_entries hm hc) (a.valid _ hm).left hcurrent
  case refine_3 =>
    rintro input _ s' principal id file hp hst ho rfl
    obtain ⟨t, hr, hs, hc, he⟩ := a.kept.ends hp
    obtain ⟨operation, _, _, _, _⟩ := input
    obtain rfl : operation = _ := ho
    obtain ⟨entry, hd⟩ := he.left
    obtain ⟨data, hm, _⟩ := a.deposit_of_describes hs hr hd
    exact ⟨hd.named, data, hm⟩
  case refine_4 =>
    rintro input _ s' principal id hp hst ho rfl
    obtain ⟨t, hr, hs, hc, he⟩ := a.kept.ends hp
    obtain ⟨operation, _, _, _, _⟩ := input
    obtain rfl : operation = _ := ho
    obtain ⟨entry, file, hl, _⟩ := he.left
    obtain ⟨deposit, hm, hl, _⟩ := a.deposit_of_locates hs hr hl
    exact ⟨deposit, hm, hl⟩
  case refine_5 =>
    intro input s' principal upload random suffix error hp hst ho
    obtain ⟨t, hr, hs, hc, he⟩ := a.kept.ends hp
    refine ⟨?_, fun deposit hm hcurrent => ?_⟩
    case refine_1 => simp [deposited, Input.deletes, Input.deposits, ho]
    case refine_2 =>
      have hi := a.mem_entries hm (current_of_le hcurrent (hst.earliest _))
      refine ⟨hi, fails_keeps hs he (hr.entries.mem_iff.mpr hi) ?_⟩
      exact keeps_iff.mpr ⟨(a.valid deposit hm).left, deposit.file, rfl, of_decide_eq_true hcurrent⟩

theorem files_isolated_sample : ∃ (h : List (Input × Output)) (s : State),
    deposited h = [⟨"alice".toList, sampleFile, [1]⟩] ∧ Isolated h s := by
  have r : steady.Run [(samplePut, .ok (.file sampleFile))] sampleStored := by
    refine .step (.init rfl) ⟨perform_put, ⟨?_, fun _ => UInt64.le_refl 0, fun _ => UInt64.le_refl 0⟩⟩
    exact fun _ hm => by cases hm
  exact ⟨_, _, by decide +kernel, files_isolated r⟩

end Runs

end FileStore
