import WerkModel.FileStore.Store

-- What each operation does to a store, also when it is cut off by a crash.
open Checks

namespace FileStore

variable {s s' t : Store} {clock : Clock} {first : Location → Part} {location : Location}
variable {entry entry' : Entry} {item item' : Location × Entry} {principal name : Name}

section Steps

variable {P : Store → Prop} {E C : Store → Prop} {p : Prop} [Decidable p] {error : String}

theorem effect_ensures {f : Store → Store} {Q : Unit → Store → Prop} (ok : ∀ s, P s → Q () (f s))
    (cut : ∀ s, P s → C s) : Faulty.Ensures P (effect f) Q E C := by
  refine .step (fun s a s' hs h => ?_) (fun s e _ h => ?_) cut
  case refine_1 =>
    cases h
    exact ok s hs
  case refine_2 => cases h

-- The next state of a step is known.
theorem effect_bind_ensures {α : Type} {f : Store → Store} {p : Unit → Program α}
    {Q : α → Store → Prop} (cut : C s) (hp : Faulty.Ensures (· = f s) (p ()) Q E C) :
    Faulty.Ensures (· = s) (effect f >>= p) Q E C := by
  refine (effect_ensures (Q := fun _ => (· = f s)) ?_ ?_).bind fun _ => hp
  case refine_1 => rintro _ rfl; rfl
  case refine_2 => rintro _ rfl; exact cut

theorem check_ensures (h : ∀ s, P s → ¬p → E s) :
    Faulty.Ensures P (check p error) (fun _ s => p ∧ P s) E C := by
  refine .lift (fun a s hr hs => ⟨ensure_eq_ok.mp hr, hs⟩) fun e s hr hs => h s hs fun hp => ?_
  rw [ensure_eq_ok.mpr hp] at hr
  cases hr

theorem check_ok_ensures (hp : p) : Faulty.Ensures P (check p error) (fun _ => P) E C :=
  (check_ensures fun _ _ hn => absurd hp hn).result fun _ _ => And.right

theorem lift_ensures {α : Type} {x : Except String α} (h : ∀ s, P s → (∀ a, x ≠ .ok a) → E s) :
    Faulty.Ensures P (.lift x : Program α) (fun a s => x = .ok a ∧ P s) E C := by
  refine .lift (fun a s ha hs => ⟨ha, hs⟩) fun e s he hs => h s hs fun a ha => ?_
  rw [he] at ha
  cases ha

theorem lift_ok_ensures {α : Type} {x : Except String α} {a : α} (hx : x = .ok a) :
    Faulty.Ensures P (.lift x : Program α) (fun b s => b = a ∧ P s) E C := by
  refine (lift_ensures fun s _ hn => absurd hx (hn a)).result fun b s hs => ⟨?_, hs.right⟩
  exact Except.ok.inj (hs.left.symm.trans hx)

theorem check_bind_ensures {α : Type} {f : PUnit → Program α} {Q : α → Store → Prop}
    (h : ∀ s, P s → ¬p → E s) (hf : p → Faulty.Ensures P (f ⟨⟩) Q E C) :
    Faulty.Ensures P (check p error >>= f) Q E C :=
  (check_ensures h).bind fun _ => .of_pure hf

theorem get_bind_ensures {α : Type} {f : Store → Program α} {Q : α → Store → Prop}
    (h : Faulty.Ensures (· = s) (f s) Q E C) : Faulty.Ensures (· = s) (.get >>= f) Q E C := by
  rintro s' fates rfl
  exact h s' fates rfl

end Steps

section Directories

namespace Store

theorem find_eq_some (hn : (s.entries.map Prod.fst).Nodup) :
    s.find location = some entry ↔ (location, entry) ∈ s.entries := by
  rw [find, Option.map_eq_some_iff]
  constructor
  case mp =>
    rintro ⟨item, hf, rfl⟩
    have hl := List.find?_some hf
    simp only [decide_eq_true_eq] at hl
    subst hl
    exact List.mem_of_find?_eq_some hf
  case mpr =>
    intro hm
    obtain ⟨item, hf⟩ := Option.isSome_iff_exists.mp
      (List.find?_isSome.mpr ⟨_, hm, decide_eq_true rfl⟩ :
        (s.entries.find? (·.1 = location)).isSome)
    refine ⟨item, hf, ?_⟩
    have hl := List.find?_some hf
    simp only [decide_eq_true_eq] at hl
    have he := List.inj_on_of_nodup_map hn (List.mem_of_find?_eq_some hf) hm hl
    rw [he]

theorem remove_update (f : Entry → Entry) :
    (s.update location f).remove location = s.remove location := by
  simp only [update, remove, List.filter_map]
  congr 1
  refine (List.map_congr_left fun item hm => ?_).trans ((List.map_id _).trans
    (List.filter_congr fun item _ => ?_))
  case refine_1 =>
    have hne : item.1 ≠ location := by
      intro he
      simp [he] at hm
    simp [hne]
  case refine_2 =>
    by_cases he : item.1 = location
    case pos => simp [he]
    case neg => simp [he]

theorem map_fst_update (f : Entry → Entry) :
    (s.update location f).entries.map Prod.fst = s.entries.map Prod.fst := by
  rw [update, List.map_map]
  refine List.map_congr_left fun item _ => ?_
  by_cases he : item.1 = location
  case pos => simp [he]
  case neg => simp [he]

theorem mem_update {f : Entry → Entry} : item ∈ (s.update location f).entries ↔
    ∃ entry, (item.1, entry) ∈ s.entries ∧
      item.2 = if item.1 = location then f entry else entry := by
  obtain ⟨l, e⟩ := item
  simp only [update, List.mem_map, Prod.exists]
  constructor
  case mp =>
    rintro ⟨l', entry, hm, h⟩
    split at h
    case isTrue hl =>
      cases h
      exact ⟨entry, hm, (if_pos hl).symm⟩
    case isFalse hl =>
      cases h
      exact ⟨_, hm, (if_neg hl).symm⟩
  case mpr =>
    rintro ⟨entry, hm, h⟩
    refine ⟨l, entry, hm, ?_⟩
    split
    case isTrue hl  => rw [h, if_pos hl]
    case isFalse hl => rw [h, if_neg hl]

theorem mem_remove : item ∈ (s.remove location).entries ↔ item ∈ s.entries ∧ item.1 ≠ location := by
  rw [remove, List.mem_filter, decide_eq_true_iff]

end Store

-- What is left of the directory of a file.
structure Entry.Left (entry entry' : Entry) : Prop where
  metadata : entry'.metadata = none ∨ entry'.metadata = entry.metadata
  data     : entry'.data = none ∨ entry'.data = entry.data

theorem Entry.Left.without (part : Part) : entry.Left (entry.without part) := by
  cases part
  case metadata => exact ⟨.inl rfl, .inr rfl⟩
  case data     => exact ⟨.inr rfl, .inl rfl⟩

theorem Entry.Left.trans {entry'' : Entry} (h : entry.Left entry') (h' : entry'.Left entry'') :
    entry.Left entry'' where
  metadata := h'.metadata.elim .inl fun he => he ▸ h.metadata
  data     := h'.data.elim .inl fun he => he ▸ h.data

-- What is left of a store while some files are removed.
structure Store.Remains (keep : Location × Entry → Prop) (s s' : Store) : Prop where
  namespaces : s'.namespaces.Sublist s.namespaces
  locations  : (s'.entries.map Prod.fst).Sublist (s.entries.map Prod.fst)
  entries    : ∀ item' ∈ s'.entries, ∃ entry, (item'.1, entry) ∈ s.entries ∧
    (item'.2 = entry ∨ ¬keep (item'.1, entry) ∧ entry.Left item'.2)
  kept       : ∀ item ∈ s.entries, keep item → item ∈ s'.entries
  owned      : ∀ item' ∈ s'.entries, item'.1.principal ∈ s'.namespaces

variable {keep keep' : Location × Entry → Prop}

theorem Store.Remains.refl (h : ∀ item ∈ s.entries, item.1.principal ∈ s.namespaces) :
    s.Remains keep s where
  namespaces       := .refl _
  locations        := .refl _
  entries item' hm := ⟨item'.2, hm, .inl rfl⟩
  kept _ hm _      := hm
  owned            := h

theorem Store.Remains.trans {u : Store} (h : s.Remains keep t) (h' : t.Remains keep' u)
    (hk : ∀ item ∈ t.entries, keep item → keep' item) : s.Remains keep u where
  namespaces := h'.namespaces.trans h.namespaces
  locations  := h'.locations.trans h.locations
  owned      := h'.owned
  kept item hm hkeep :=
    have ht := h.kept item hm hkeep
    h'.kept item ht (hk item ht hkeep)
  entries item'' hm := by
    obtain ⟨entry', hm', h'⟩ := h'.entries item'' hm
    obtain ⟨entry, hm, h⟩ := h.entries _ hm'
    refine ⟨entry, hm, ?_⟩
    obtain he | ⟨hne, hl⟩ := h
    case inl =>
      simp only at he
      subst he
      exact h'.imp_right fun h' => ⟨fun hkeep => h'.left (hk _ hm' hkeep), h'.right⟩
    case inr =>
      obtain he | ⟨_, hl'⟩ := h'
      case inl => exact .inr ⟨hne, he ▸ hl⟩
      case inr => exact .inr ⟨hne, hl.trans hl'⟩

theorem Store.Remains.update (part : Part) (h : ∀ item ∈ s.entries, item.1.principal ∈ s.namespaces) :
    s.Remains (·.1 ≠ location) (s.update location (·.without part)) where
  namespaces := .refl _
  locations  := by rw [map_fst_update]
  owned item hm := by
    obtain ⟨entry, hm, _⟩ := mem_update.mp hm
    exact h (item.1, entry) hm
  kept item hm hk := mem_update.mpr ⟨item.2, hm, (if_neg hk).symm⟩
  entries item' hm := by
    obtain ⟨entry, hm, he⟩ := mem_update.mp hm
    refine ⟨entry, hm, ?_⟩
    split at he
    case isTrue hl  => exact .inr ⟨fun hn => hn hl, he ▸ .without part⟩
    case isFalse hl => exact .inl he

theorem Store.Remains.remove (h : ∀ item ∈ s.entries, item.1.principal ∈ s.namespaces) :
    s.Remains (·.1 ≠ location) (s.remove location) where
  namespaces       := .refl _
  locations        := List.filter_sublist.map _
  owned item hm    := h item (mem_remove.mp hm).left
  kept _ hm hk     := mem_remove.mpr ⟨hm, hk⟩
  entries item' hm := ⟨item'.2, (mem_remove.mp hm).left, .inl rfl⟩

end Directories

-- A removal that is cut off has only affected its own directory.
theorem remove_dir_all_ensures (h : ∀ item ∈ s.entries, item.1.principal ∈ s.namespaces)
    {E : Store → Prop} :
    Faulty.Ensures (· = s) (removeDirAll first location) (fun _ s' => s' = s.remove location) E
      (s.Remains (·.1 ≠ location)) := by
  let t := s.update location (·.without (first location))
  have ht : s.Remains (·.1 ≠ location) t := .update (first location) h
  have hu : t.Remains (·.1 ≠ location) (t.update location (·.without (first location).other)) :=
    .update (first location).other ht.owned
  have ht' := ht.trans hu fun _ _ => id
  refine effect_bind_ensures (.refl h) (effect_bind_ensures ht (effect_ensures ?_ ?_))
  case refine_1 => rintro _ rfl; rw [Store.remove_update, Store.remove_update]
  case refine_2 => rintro _ rfl; exact ht'

section Scan

-- The file of an entry that an inventory of the store keeps.
def kept (clock : Clock) (item : Location × Entry) : Option StoredFile :=
  if item.1.staged then none
  else item.2.metadata.filter fun file => ¬file.expired (clock.entry item.1)

def Keeps (clock : Clock) (item : Location × Entry) : Prop :=
  (kept clock item).isSome

instance keepsDecidable (clock : Clock) (item : Location × Entry) :
    Decidable (Keeps clock item) :=
  inferInstanceAs (Decidable (_ = _))

def reported (clock : Clock) (items : List (Location × Entry)) : List (Name × StoredFile) :=
  items.filterMap fun item => (kept clock item).map (item.1.principal, ·)

def inventory (clock : Clock) (s : Store) : List (Name × StoredFile) :=
  reported clock (s.namespaces.flatMap s.listing)

-- What is left of a store when some of its namespaces and entries have been visited.
def Store.visited (clock : Clock) (passed : List Name) (items : List (Location × Entry))
    (s : Store) : Store where
  namespaces := s.namespaces.filter fun principal =>
    passed.contains principal → ∃ item ∈ s.listing principal, Keeps clock item
  entries    := s.entries.filter fun item => item ∈ items → Keeps clock item

def Store.scanned (clock : Clock) (s : Store) : Store where
  namespaces := s.namespaces.filter fun principal =>
    ∃ item ∈ s.listing principal, Keeps clock item
  entries    := s.entries.filter fun item => Keeps clock item

-- An inventory of the store can be made.
structure Store.Readable (s : Store) : Prop where
  nodup    : (s.entries.map Prod.fst).Nodup
  distinct : s.namespaces.Nodup
  owned    : ∀ item ∈ s.entries, item.1.principal ∈ s.namespaces
  safe     : ∀ principal ∈ s.namespaces, safeComponent principal
  files    : ∀ item ∈ s.entries, ¬item.1.staged →
    ∃ file, readMetadata item.2 = .ok file ∧ item.1.name = file.id
  visits   : 1 + s.namespaces.length + s.entries.length ≤ maxFiles * 3

theorem read_metadata_eq_ok {file : StoredFile} : readMetadata entry = .ok file ↔
    entry.metadata = some file ∧ len file.json ≤ 8192 ∧ file.bytes ≤ maxFileBytes := by
  rw [readMetadata]
  split
  case h_1 hn => simp [hn]
  case h_2 file' hs =>
    simp only [ensure_bind_eq_ok, hs, Option.some.injEq]
    constructor
    case mp =>
      rintro ⟨hl, hb, h⟩
      cases h
      exact ⟨rfl, hl, hb⟩
    case mpr =>
      rintro ⟨rfl, hl, hb⟩
      exact ⟨hl, hb, rfl⟩

theorem keeps_iff : Keeps clock item ↔ ¬item.1.staged ∧
    ∃ file, item.2.metadata = some file ∧ ¬file.expired (clock.entry item.1) := by
  rw [Keeps, kept]
  split
  case isTrue hs => simp [hs]
  case isFalse hs =>
    rw [Option.isSome_filter]
    cases item.2.metadata <;> simp [hs]

variable {passed : List Name} {items : List (Location × Entry)} {n : Nat}
variable {result : List (Name × StoredFile)}

theorem visit_ensures {P E C : Store → Prop} (h : n + 1 ≤ maxFiles * 3) :
    Faulty.Ensures P (visit n) (fun m s => m = n + 1 ∧ P s) E C :=
  (check_ensures fun _ _ hn => absurd h hn).bind fun _ => .pure fun _ hs => ⟨rfl, hs.right⟩

namespace Store

theorem visited_nil : s.visited clock [] [] = s := by
  simp [visited]

theorem mem_visited : item ∈ (s.visited clock passed items).entries ↔
    item ∈ s.entries ∧ (item ∈ items → Keeps clock item) := by
  rw [visited, List.mem_filter, decide_eq_true_iff]

theorem visited_kept (hk : Keeps clock item) :
    s.visited clock passed (items ++ [item]) = s.visited clock passed items := by
  simp only [visited, Store.mk.injEq, true_and]
  refine List.filter_congr fun other _ => ?_
  by_cases he : other = item
  case pos => simp [he, hk]
  case neg => simp [he]

-- Removing an entry that has been visited.
theorem remove_visited (h : s.Readable) (hm : item ∈ s.entries) (hk : ¬Keeps clock item) :
    (s.visited clock passed items).remove item.1 = s.visited clock passed (items ++ [item]) := by
  simp only [visited, remove, Store.mk.injEq, true_and, List.filter_filter]
  refine List.filter_congr fun other ho => ?_
  by_cases he : other = item
  case pos => simp [he, hk]
  case neg =>
    have hne : other.1 ≠ item.1 := fun hl => he (List.inj_on_of_nodup_map h.nodup ho hm hl)
    simp [he, hne]

theorem remains_visited (h : s.Readable)
    (hc : ∀ principal ∈ passed, ∀ item ∈ s.listing principal, item ∈ items) :
    s.Remains (Keeps clock) (s.visited clock passed items) where
  namespaces       := List.filter_sublist
  locations        := List.filter_sublist.map _
  entries item' hm := ⟨item'.2, (mem_visited.mp hm).left, .inl rfl⟩
  kept _ hm hk     := mem_visited.mpr ⟨hm, fun _ => hk⟩
  owned item hm    := by
    obtain ⟨hm, hk⟩ := mem_visited.mp hm
    refine List.mem_filter.mpr ⟨h.owned item hm, decide_eq_true fun hp => ?_⟩
    have hl : item ∈ s.listing item.1.principal := List.mem_filter.mpr ⟨hm, decide_eq_true rfl⟩
    exact ⟨item, hl, hk (hc _ (List.contains_iff_mem.mp hp) item hl)⟩

end Store

theorem scan_entry_ensures {E : Store → Prop} (h : s.Readable) (hm : item ∈ s.entries)
    (hc : ∀ principal ∈ passed, ∀ item ∈ s.listing principal, item ∈ items)
    (hn : n + 1 ≤ maxFiles * 3) :
    Faulty.Ensures (· = s.visited clock passed items) (scanEntry clock first (n, result) item)
      (fun acc s' => acc = (n + 1, result ++ reported clock [item]) ∧
        s' = s.visited clock passed (items ++ [item])) E (s.Remains (Keeps clock)) := by
  have hr : s.Remains (Keeps clock) (s.visited clock passed items) := Store.remains_visited h hc
  -- The entry is removed, and nothing is reported.
  have removal (hk : ¬Keeps clock item) (m : Nat) : Faulty.Ensures
      (fun s' => m = n + 1 ∧ s' = s.visited clock passed items)
      (do removeDirAll first item.1; return (m, result))
      (fun acc s' => acc = (n + 1, result ++ reported clock [item]) ∧
        s' = s.visited clock passed (items ++ [item])) E (s.Remains (Keeps clock)) := by
    refine .of_pure fun hmn => ?_
    subst hmn
    refine ((remove_dir_all_ensures hr.owned).stops (fun _ => id) fun s' hs' => hr.trans hs' fun other ho hk' he => ?_).bind fun _ => .pure ?_
    case refine_1 =>
      have ho := List.inj_on_of_nodup_map h.nodup (Store.mem_visited.mp ho).left hm he
      exact hk (ho ▸ hk')
    case refine_2 =>
      rintro _ rfl
      rw [Store.remove_visited h hm hk]
      simp [reported, Option.not_isSome_iff_eq_none.mp hk]
  refine (visit_ensures hn).bind fun m => ?_
  by_cases hs : item.1.staged
  case pos =>
    simp only [hs, if_true]
    exact removal (fun hk => (keeps_iff.mp hk).left hs) m
  case neg =>
    obtain ⟨file, hf, hid⟩ := h.files item hm hs
    simp only [hs, if_false, Bool.false_eq_true]
    refine (lift_ok_ensures hf).bind fun file' => .of_pure fun hfile => ?_
    subst hfile
    refine (check_ok_ensures hid).bind fun _ => ?_
    obtain ⟨hmeta, _⟩ := read_metadata_eq_ok.mp hf
    by_cases he : file'.expired (clock.entry item.1)
    case pos =>
      simp only [he, if_true]
      refine removal (fun hk => ?_) m
      obtain ⟨_, file, hfile, hne⟩ := keeps_iff.mp hk
      rw [hmeta] at hfile
      cases hfile
      exact hne he
    case neg =>
      have hk : Keeps clock item := keeps_iff.mpr ⟨hs, file', hmeta, he⟩
      simp only [he, if_false, Bool.false_eq_true]
      refine .pure ?_
      rintro _ ⟨rfl, rfl⟩
      rw [Store.visited_kept hk]
      simp [reported, kept, hs, hmeta, he]

namespace Store

theorem mem_listing : item ∈ s.listing principal ↔
    item ∈ s.entries ∧ item.1.principal = principal := by
  rw [listing, List.mem_filter, decide_eq_true_iff]

-- The entries of a namespace are not affected by visits of others.
theorem listing_visited (hp : principal ∉ passed) :
    (s.visited clock passed (passed.flatMap s.listing)).listing principal =
      s.listing principal := by
  rw [listing, visited, List.filter_filter]
  refine List.filter_congr fun item _ => ?_
  by_cases hl : item.1.principal = principal
  case neg => simp [hl]
  case pos =>
    have hn : item ∉ passed.flatMap s.listing := by
      intro hm
      obtain ⟨other, ho, hm⟩ := List.mem_flatMap.mp hm
      exact hp (hl ▸ (mem_listing.mp hm).right ▸ ho)
    simp [hl, hn]

theorem listing_visited_eq_nil :
    (s.visited clock passed (items ++ s.listing principal)).listing principal = [] ↔
      ¬∃ item ∈ s.listing principal, Keeps clock item := by
  rw [List.eq_nil_iff_forall_not_mem]
  constructor
  case mp =>
    rintro h ⟨item, hm, hk⟩
    obtain ⟨hs, hp⟩ := mem_listing.mp hm
    exact h item (mem_listing.mpr ⟨mem_visited.mpr ⟨hs, fun _ => hk⟩, hp⟩)
  case mpr =>
    intro h item hm
    obtain ⟨hv, hp⟩ := mem_listing.mp hm
    obtain ⟨hs, hk⟩ := mem_visited.mp hv
    have hl := mem_listing.mpr ⟨hs, hp⟩
    exact h ⟨item, hl, hk (List.mem_append_right _ hl)⟩

theorem visited_namespace (hk : ∃ item ∈ s.listing principal, Keeps clock item) :
    s.visited clock (passed ++ [principal]) items = s.visited clock passed items := by
  simp only [visited, Store.mk.injEq, and_true]
  refine List.filter_congr fun other _ => ?_
  by_cases he : other = principal
  case pos => simpa [he] using fun _ => hk
  case neg => simp [he]

theorem remove_namespace_visited (hk : ¬∃ item ∈ s.listing principal, Keeps clock item) :
    (s.visited clock passed items).removeNamespace principal =
      s.visited clock (passed ++ [principal]) items := by
  simp only [visited, removeNamespace, Store.mk.injEq, and_true, List.filter_filter]
  refine List.filter_congr fun other _ => ?_
  by_cases he : other = principal
  case pos => simpa [he] using hk
  case neg => simp [he]

end Store

theorem reported_append :
    reported clock (items ++ [item]) = reported clock items ++ reported clock [item] :=
  List.filterMap_append ..

theorem scan_namespace_ensures {E : Store → Prop} (h : s.Readable)
    (hp : passed ++ [principal] <+: s.namespaces)
    (hn : n + 1 + (s.listing principal).length ≤ maxFiles * 3) :
    Faulty.Ensures (· = s.visited clock passed (passed.flatMap s.listing))
      (scanNamespace clock first (n, result) principal)
      (fun acc s' => acc = (n + 1 + (s.listing principal).length,
          result ++ reported clock (s.listing principal)) ∧
        s' = s.visited clock (passed ++ [principal]) ((passed ++ [principal]).flatMap s.listing))
      E (s.Remains (Keeps clock)) := by
  have hd := hp.sublist.nodup h.distinct
  have hnew : principal ∉ passed := fun hm =>
    List.disjoint_of_nodup_append hd hm (List.mem_singleton_self _)
  have hsafe := h.safe principal (hp.subset (List.mem_append_right _ (List.mem_singleton_self _)))
  have hitems : (passed ++ [principal]).flatMap s.listing =
      passed.flatMap s.listing ++ s.listing principal := by
    rw [List.flatMap_append, List.flatMap_singleton]
  have hc : ∀ other ∈ passed, ∀ item ∈ s.listing other, item ∈ passed.flatMap s.listing :=
    fun other ho item hm => List.mem_flatMap.mpr ⟨other, ho, hm⟩
  refine (visit_ensures (by omega)).bind fun m => .of_pure fun hm => ?_
  subst hm
  refine (check_ok_ensures hsafe).bind fun _ => ?_
  refine get_bind_ensures ?_
  rw [Store.listing_visited hnew]
  have hloop := Faulty.Ensures.foldlM (E := E) (C := s.Remains (Keeps clock))
    (g := scanEntry clock first) (l := s.listing principal) (b := (n + 1, result))
    (I := fun seen acc s' => acc = (n + 1 + seen.length, result ++ reported clock seen) ∧
      s' = s.visited clock passed (passed.flatMap s.listing ++ seen)) ?_
  case refine_1 =>
    intro seen item acc hs
    refine .of_pure fun hacc => ?_
    subst hacc
    have hl := hs.length_le
    rw [List.length_append, List.length_singleton] at hl
    have hm := hs.subset (List.mem_append_right _ (List.mem_singleton_self _))
    refine (scan_entry_ensures h (Store.mem_listing.mp hm).left (fun other ho item hm =>
      List.mem_append_left _ (hc other ho item hm)) (by omega)).result ?_
    rintro _ _ ⟨rfl, rfl⟩
    rw [List.append_assoc, List.append_assoc, ←reported_append, List.length_append,
      List.length_singleton, Nat.add_assoc _ seen.length]
    exact ⟨rfl, rfl⟩
  rw [List.append_nil] at hloop
  refine (hloop.requires fun _ ht => ⟨by simp [reported], ht⟩).bind fun acc => .of_pure fun hacc => get_bind_ensures ?_
  subst hacc
  rw [hitems]
  by_cases hk : ∃ item ∈ s.listing principal, Keeps clock item
  case pos =>
    rw [if_neg (Store.listing_visited_eq_nil.not_left.mpr hk)]
    refine .pure ?_
    rintro _ rfl
    rw [Store.visited_namespace hk]
    exact ⟨rfl, rfl⟩
  case neg =>
    rw [if_pos (Store.listing_visited_eq_nil.mpr hk)]
    refine (effect_ensures ?_ ?_).bind fun _ => .pure fun _ ht => ht
    case refine_1 =>
      rintro _ rfl
      rw [Store.remove_namespace_visited hk]
      exact ⟨rfl, rfl⟩
    case refine_2 =>
      rintro _ rfl
      refine Store.remains_visited h fun other ho item hm => ?_
      exact List.mem_append_left _ (hc other ho item hm)

theorem listing_perm (h : s.Readable) : (s.namespaces.flatMap s.listing).Perm s.entries := by
  have hentries := h.nodup.of_map
  have hn : (s.namespaces.flatMap s.listing).Nodup := by
    rw [List.nodup_flatMap]
    refine ⟨fun _ _ => hentries.filter _, h.distinct.imp fun {a b} hne item ha hb => hne ?_⟩
    rw [←(Store.mem_listing.mp ha).right, (Store.mem_listing.mp hb).right]
  refine (List.perm_ext_iff_of_nodup hn hentries).mpr fun item => ?_
  simp only [List.mem_flatMap, Store.mem_listing]
  constructor
  case mp =>
    rintro ⟨_, _, hm, _⟩
    exact hm
  case mpr => exact fun hm => ⟨_, h.owned item hm, hm, rfl⟩

theorem visited_namespaces (h : s.Readable) :
    s.visited clock s.namespaces (s.namespaces.flatMap s.listing) = s.scanned clock := by
  have hi {item} (hm : item ∈ s.entries) : item ∈ s.namespaces.flatMap s.listing :=
    List.mem_flatMap.mpr ⟨_, h.owned item hm, Store.mem_listing.mpr ⟨hm, rfl⟩⟩
  rw [Store.visited, Store.scanned, Store.mk.injEq]
  refine ⟨List.filter_congr fun principal hm => ?_, List.filter_congr fun item hm => ?_⟩
  case refine_1 => simp [hm]
  case refine_2 => simp [hi hm]

theorem scan_ensures {E : Store → Prop} (h : s.Readable) :
    Faulty.Ensures (· = s) (scan clock first)
      (fun entries s' => entries = inventory clock s ∧ s' = s.scanned clock) E
      (s.Remains (Keeps clock)) := by
  have hvisits := h.visits
  refine (visit_ensures (by omega)).bind fun n => .of_pure fun hn => get_bind_ensures ?_
  subst hn
  have hloop := Faulty.Ensures.foldlM (E := E) (C := s.Remains (Keeps clock))
    (g := scanNamespace clock first) (l := s.namespaces) (b := (0 + 1, []))
    (I := fun passed acc s' => acc = (1 + passed.length + (passed.flatMap s.listing).length,
      reported clock (passed.flatMap s.listing)) ∧
      s' = s.visited clock passed (passed.flatMap s.listing)) ?_
  case refine_1 =>
    intro passed principal acc hp
    refine .of_pure fun hacc => ?_
    subst hacc
    have hl : ((passed ++ [principal]).flatMap s.listing).length ≤ s.entries.length := by
      obtain ⟨rest, hrest⟩ := hp
      rw [←(listing_perm h).length_eq, ←hrest]
      simp only [List.flatMap_append, List.length_append]
      omega
    have hl' := hp.length_le
    rw [List.flatMap_append, List.flatMap_singleton, List.length_append] at hl
    rw [List.length_append, List.length_singleton] at hl'
    refine (scan_namespace_ensures h hp (by omega)).result ?_
    rintro _ _ ⟨rfl, rfl⟩
    refine ⟨Prod.ext ?_ ?_, rfl⟩
    case refine_1 =>
      simp only [List.flatMap_append, List.flatMap_singleton, List.length_append,
        List.length_singleton]
      omega
    case refine_2 => simp [reported, List.flatMap_append]
  refine (hloop.requires fun _ ht => ⟨rfl, ?_⟩).bind fun acc => .pure ?_
  case refine_1 => rw [ht, List.flatMap_nil, Store.visited_nil]
  case refine_2 =>
    rintro _ ⟨rfl, rfl⟩
    exact ⟨rfl, visited_namespaces h⟩

end Scan

section Access

variable {C : Store → Prop} {file : StoredFile} {data : Bytes}

-- A principal has a directory of this name.
structure Store.Locates (s : Store) (principal name : Name) (entry : Entry) : Prop where
  start  : "file_".toList <+: name
  safe   : safeComponent name
  user   : safeComponent principal
  folder : principal ∈ s.namespaces
  found  : s.find ⟨principal, name⟩ = some entry

-- The file at a location can be read, up to its data.
structure Store.Describes (s : Store) (clock : Clock) (principal name : Name) (entry : Entry)
    (file : StoredFile) : Prop where
  located  : s.Locates principal name entry
  metadata : readMetadata entry = .ok file
  named    : file.id = name
  current  : ¬file.expired (clock.entry ⟨principal, name⟩)

def Store.Holds (s : Store) (clock : Clock) (principal name : Name) (file : StoredFile)
    (data : Bytes) : Prop :=
  ∃ entry, s.Describes clock principal name entry file ∧ readData entry = .ok data ∧
    data.length = file.bytes

def Store.Expires (s : Store) (clock : Clock) (principal name : Name) : Prop :=
  ∃ entry file, s.Locates principal name entry ∧ readMetadata entry = .ok file ∧
    file.expired (clock.entry ⟨principal, name⟩)

theorem Store.Locates.unique (h : s.Locates principal name entry)
    (h' : s.Locates principal name entry') : entry = entry' :=
  Option.some.inj (h.found.symm.trans h'.found)

theorem Store.Describes.unique {file' : StoredFile} (h : s.Describes clock principal name entry file)
    (h' : s.Locates principal name entry') (hf : readMetadata entry' = .ok file') :
    file = file' := by
  rw [h'.unique h.located, h.metadata] at hf
  cases hf
  rfl

theorem locate_ensures : Faulty.Ensures (· = s) (locate principal name)
    (fun r s' => (r.1 = ⟨principal, name⟩ ∧ s.Locates principal name r.2) ∧ s' = s)
    (fun s' => s' = s ∧ ∀ entry, ¬s.Locates principal name entry) C := by
  refine (check_ensures fun _ hs hn => ⟨hs, fun _ hl => hn ⟨hl.start, hl.safe⟩⟩).bind
    fun _ => .of_pure fun hid => ?_
  refine (check_ensures fun _ hs hn => ⟨hs, fun _ hl => hn hl.user⟩).bind
    fun _ => .of_pure fun hp => get_bind_ensures ?_
  refine (check_ensures fun _ hs hn => ⟨hs, fun _ hl => hn hl.folder⟩).bind
    fun _ => .of_pure fun hns => ?_
  cases hf : s.find ⟨principal, name⟩
  case none =>
    refine .throw fun _ hs => ⟨hs, fun entry hl => ?_⟩
    have hl := hl.found
    rw [hf] at hl
    cases hl
  case some entry =>
    exact .pure fun _ hs => ⟨⟨rfl, hid.left, hid.right, hp, hns, hf⟩, hs⟩

-- An entry whose file has expired is removed on access.
theorem expired_ensures {α : Type} {Q : α → Store → Prop} {E : Store → Prop}
    (h : ∀ item ∈ s.entries, item.1.principal ∈ s.namespaces)
    (he : E (s.remove location)) (hc : ∀ s', s.Remains (·.1 ≠ location) s' → C s') :
    Faulty.Ensures (· = s) (do removeDirAll first location; .throw "file not found" : Program α)
      Q E C :=
  ((remove_dir_all_ensures h).stops (fun _ => id) hc).bind
    fun _ => .throw fun _ hs => hs ▸ he

theorem not_holds (h : ∀ entry file data, s.Describes clock principal name entry file →
    readData entry = .ok data → data.length ≠ file.bytes) (file : StoredFile) (data : Bytes) :
    ¬s.Holds clock principal name file data :=
  fun ⟨_, hd, hdata, hl⟩ => h _ _ _ hd hdata hl

theorem get_ensures (h : ∀ item ∈ s.entries, item.1.principal ∈ s.namespaces) :
    Faulty.Ensures (· = s) (get clock first principal name)
      (fun r s' => s.Holds clock principal name r.1 r.2 ∧ s' = s)
      (fun s' => (s' = s ∨ s.Expires clock principal name ∧ s' = s.remove ⟨principal, name⟩) ∧
        ∀ file data, ¬s.Holds clock principal name file data)
      (fun s' => s.Expires clock principal name ∧ s.Remains (·.1 ≠ ⟨principal, name⟩) s') := by
  refine ((locate_ensures (C := fun _ => False)).stops (fun _ hs => ⟨.inl hs.left,
    not_holds fun _ _ _ hd _ => (hs.right _ hd.located).elim⟩) fun _ => False.elim).bind ?_
  rintro ⟨l, entry⟩
  refine .of_pure ?_
  rintro ⟨hl, hlocated⟩
  simp only at hl hlocated
  subst hl
  refine (lift_ensures fun _ hs hn => ⟨.inl hs, not_holds fun _ _ _ hd _ =>
    absurd (hlocated.unique hd.located ▸ hd.metadata) (hn _)⟩).bind fun file =>
      .of_pure fun hf => ?_
  by_cases hexp : file.expired (clock.entry ⟨principal, name⟩)
  case pos =>
    have hexpires : s.Expires clock principal name := ⟨entry, file, hlocated, hf, hexp⟩
    simp only [hexp, if_true]
    refine expired_ensures h ⟨.inr ⟨hexpires, rfl⟩, not_holds fun _ _ _ hd _ => ?_⟩
      fun _ hr => ⟨hexpires, hr⟩
    exact absurd (hd.unique hlocated hf ▸ hexp) hd.current
  case neg =>
    simp only [hexp, if_false, Bool.false_eq_true]
    refine (check_ensures fun _ hs hn => ⟨.inl hs, not_holds fun _ _ _ hd _ =>
      absurd (hd.unique hlocated hf ▸ hd.named) hn⟩).bind fun _ => .of_pure fun hid => ?_
    refine (lift_ensures fun _ hs hn => ⟨.inl hs, not_holds fun _ _ _ hd hdata =>
      absurd (hlocated.unique hd.located ▸ hdata) (hn _)⟩).bind fun data =>
        .of_pure fun hdata => ?_
    refine (check_ensures fun _ hs hn => ⟨.inl hs, not_holds fun _ _ _ hd hdata' hl => ?_⟩).bind
      fun _ => .of_pure fun hlen => .pure fun _ hs =>
        ⟨⟨entry, ⟨hlocated, hf, hid, hexp⟩, hdata, hlen⟩, hs⟩
    rw [hd.located.unique hlocated, hdata] at hdata'
    cases hdata'
    exact hn (hd.unique hlocated hf ▸ hl)

-- The metadata of a file, without its data.
theorem metadata_ensures (h : ∀ item ∈ s.entries, item.1.principal ∈ s.namespaces) :
    Faulty.Ensures (· = s) (metadata clock first principal name)
      (fun file s' => (∃ entry, s.Describes clock principal name entry file) ∧ s' = s)
      (fun s' => s' = s ∨ s.Expires clock principal name ∧ s' = s.remove ⟨principal, name⟩)
      (fun s' => s.Expires clock principal name ∧ s.Remains (·.1 ≠ ⟨principal, name⟩) s') := by
  refine ((locate_ensures (C := fun _ => False)).stops (fun _ hs => .inl hs.left)
    fun _ => False.elim).bind ?_
  rintro ⟨l, entry⟩
  refine .of_pure ?_
  rintro ⟨hl, hlocated⟩
  simp only at hl hlocated
  subst hl
  refine (lift_ensures fun _ hs _ => .inl hs).bind fun file => .of_pure fun hf => ?_
  refine (check_ensures fun _ hs _ => .inl hs).bind fun _ => .of_pure fun hid => ?_
  by_cases hexp : file.expired (clock.entry ⟨principal, name⟩)
  case pos =>
    have hexpires : s.Expires clock principal name := ⟨entry, file, hlocated, hf, hexp⟩
    simp only [hexp, if_true]
    exact expired_ensures h (.inr ⟨hexpires, rfl⟩) fun _ hr => ⟨hexpires, hr⟩
  case neg =>
    simp only [hexp, if_false, Bool.false_eq_true]
    exact .pure fun _ hs => ⟨⟨entry, hlocated, hf, hid, hexp⟩, hs⟩

def Store.Deletes (s : Store) (principal name : Name) : Prop :=
  ∃ entry file, s.Locates principal name entry ∧ readMetadata entry = .ok file

theorem delete_ensures (h : ∀ item ∈ s.entries, item.1.principal ∈ s.namespaces) :
    Faulty.Ensures (· = s) (delete first principal name)
      (fun _ s' => s.Deletes principal name ∧ s' = s.remove ⟨principal, name⟩)
      (fun s' => s' = s ∧ ¬s.Deletes principal name)
      (fun s' => s.Deletes principal name ∧ s.Remains (·.1 ≠ ⟨principal, name⟩) s') := by
  refine ((locate_ensures (C := fun _ => False)).stops (fun _ hs => ⟨hs.left,
    fun ⟨_, _, hl, _⟩ => hs.right _ hl⟩) fun _ => False.elim).bind ?_
  rintro ⟨l, entry⟩
  refine .of_pure ?_
  rintro ⟨hl, hlocated⟩
  simp only at hl hlocated
  subst hl
  refine (lift_ensures fun _ hs hn => ⟨hs, fun ⟨_, _, hl, hf⟩ =>
    absurd (hlocated.unique hl ▸ hf) (hn _)⟩).bind fun file => .of_pure fun hf => ?_
  have hd : s.Deletes principal name := ⟨entry, file, hlocated, hf⟩
  exact ((remove_dir_all_ensures h).stops (fun _ => id) fun _ hr => ⟨hd, hr⟩).result
    fun _ _ hs => ⟨hd, hs⟩

theorem list_ensures {E : Store → Prop} (h : s.Readable) :
    Faulty.Ensures (· = s) (list clock first principal)
      (fun files s' => files = ((inventory clock s).filter (·.1 = principal)).map Prod.snd ∧
        s' = s.scanned clock) E (s.Remains (Keeps clock)) :=
  (scan_ensures h).bind fun _ => .of_pure fun he => .pure fun _ hs => ⟨he ▸ rfl, hs⟩

end Access

section Publication

variable {upload : Upload} {random : List UInt8} {suffix : Name}

structure Upload.Acceptable (upload : Upload) (clock : Clock) (principal : Name) : Prop where
  size   : upload.data ≠ [] ∧ upload.data.length ≤ maxFileBytes
  named  : upload.named
  typed  : upload.typed
  future : upload.future clock
  user   : safeComponent principal

-- An upload is published if it is acceptable, and if the files that are left make room for it.
def Store.Admits (s : Store) (clock : Clock) (principal : Name) (upload : Upload) : Prop :=
  upload.Acceptable clock principal ∧ upload.fits principal (inventory clock s)

-- The store in which a file of a principal is published.
def Store.prepared (s : Store) (clock : Clock) (principal : Name) : Store :=
  (s.scanned clock).privateDir principal

namespace Store

variable {f : Entry → Entry}

theorem update_add (h : ∀ item ∈ s.entries, item.1 ≠ location) :
    (s.add location entry).update location f = s.add location (f entry) := by
  simp only [add, update, Store.mk.injEq, List.map_append, List.map_singleton, if_true]
  refine ⟨trivial, congrArg (· ++ _) ((List.map_congr_left fun item hm => ?_).trans (List.map_id _))⟩
  exact if_neg (h item hm)

theorem rename_add (h : ∀ item ∈ s.entries, item.1 ≠ location) :
    (s.add location entry).rename location name = s.add { location with name } entry := by
  simp only [add, rename, Store.mk.injEq, List.map_append, List.map_singleton, if_true]
  refine ⟨trivial, congrArg (· ++ _) ((List.map_congr_left fun item hm => ?_).trans (List.map_id _))⟩
  exact if_neg (h item hm)

theorem entries_privateDir : (s.privateDir principal).entries = s.entries := by
  rw [privateDir]
  split <;> rfl

theorem mem_scanned : item ∈ (s.scanned clock).entries ↔ item ∈ s.entries ∧ Keeps clock item := by
  rw [scanned, List.mem_filter, decide_eq_true_iff]

theorem remains_scanned (h : s.Readable) : s.Remains (Keeps clock) (s.scanned clock) := by
  rw [←visited_namespaces h]
  exact remains_visited h fun other ho item hm => List.mem_flatMap.mpr ⟨other, ho, hm⟩

theorem ne_stage_of_mem_prepared (suffix : Name) (hm : item ∈ (s.prepared clock principal).entries) :
    item.1 ≠ ⟨principal, stagePrefix ++ suffix⟩ := by
  rw [prepared, entries_privateDir, mem_scanned] at hm
  intro he
  refine (keeps_iff.mp hm.right).left ?_
  rw [he, Location.staged, List.isPrefixOf_iff_prefix]
  exact List.prefix_append ..

end Store

theorem put_ensures (h : s.Readable) :
    Faulty.Ensures (· = s) (put clock first principal upload random suffix)
      (fun file s' => s.Admits clock principal upload ∧ file = upload.file clock (fileId random) ∧
        s' = (s.prepared clock principal).add ⟨principal, fileId random⟩
          ⟨some file, some upload.data⟩)
      (fun s' => (s' = s ∨ s' = s.scanned clock) ∧ ¬s.Admits clock principal upload)
      (fun s' => s.Remains (Keeps clock) s' ∨ s.Admits clock principal upload ∧
        (s' = s.prepared clock principal ∨
          (∃ entry, s' = (s.prepared clock principal).add
            ⟨principal, stagePrefix ++ suffix⟩ entry) ∨
          s' = (s.prepared clock principal).add ⟨principal, fileId random⟩
            ⟨some (upload.file clock (fileId random)), some upload.data⟩)) := by
  refine check_bind_ensures (fun _ hs hn => ⟨.inl hs, fun ha => hn ha.left.size⟩) fun hsize => ?_
  refine check_bind_ensures (fun _ hs hn => ⟨.inl hs, fun ha => hn ha.left.named⟩) fun hnamed => ?_
  refine check_bind_ensures (fun _ hs hn => ⟨.inl hs, fun ha => hn ha.left.typed⟩) fun htyped => ?_
  refine check_bind_ensures (fun _ hs hn => ⟨.inl hs, fun ha => hn ha.left.future⟩)
    fun hfuture => ?_
  refine ((scan_ensures h).stops (fun _ => id) fun _ => .inl).bind
    fun entries => .of_pure fun he => ?_
  subst he
  refine check_bind_ensures (fun _ hs hn => ⟨.inr hs, fun ha => hn ha.right⟩) fun hfits => ?_
  refine check_bind_ensures (fun _ hs hn => ⟨.inr hs, fun ha => hn ha.left.user⟩) fun huser => ?_
  have ha : s.Admits clock principal upload :=
    ⟨⟨hsize, hnamed, htyped, hfuture, huser⟩, hfits⟩
  have hstage : ∀ item ∈ (s.prepared clock principal).entries,
      item.1 ≠ ⟨principal, stagePrefix ++ suffix⟩ :=
    fun _ => Store.ne_stage_of_mem_prepared suffix
  refine effect_bind_ensures (.inl (Store.remains_scanned h)) ?_
  refine effect_bind_ensures (.inr ⟨ha, .inl rfl⟩) ?_
  refine effect_bind_ensures (.inr ⟨ha, .inr (.inl ⟨_, rfl⟩)⟩) ?_
  rw [←Store.prepared, Store.update_add hstage]
  refine effect_bind_ensures (.inr ⟨ha, .inr (.inl ⟨_, rfl⟩)⟩) ?_
  rw [Store.update_add hstage]
  refine effect_bind_ensures (.inr ⟨ha, .inr (.inl ⟨_, rfl⟩)⟩) ?_
  rw [Store.rename_add hstage]
  refine effect_bind_ensures (.inr ⟨ha, .inr (.inr rfl)⟩) (.pure ?_)
  rintro _ rfl
  exact ⟨ha, rfl, rfl⟩

end Publication

end FileStore
