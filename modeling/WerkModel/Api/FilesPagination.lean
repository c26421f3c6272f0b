import WerkModel.Api.Files
import WerkModel.FileStore.Operations
import WerkModel.Lib.Pagination

-- The pages of the files, followed in both directions.
open Std Ranking Checks Cursors
open FileStore (Name StoredFile)

namespace Api.Files

variable {wire : Wire} {query : Query} {files l : List StoredFile} {file other : StoredFile}
variable {limit i : Nat} {id : Name} {key : String} {listing : Listing}

section Order

instance transCmp_compareFiles : TransCmp compareFiles :=
  inferInstanceAs <| TransCmp <|
    compareLex (compareOn StoredFile.createdAt) (compareOn StoredFile.id)

instance transCmp_latest : TransCmp fun file other => compareFiles other file :=
  TransCmp.opposite

theorem id_of_compareFiles (h : compareFiles file other = .eq) : file.id = other.id :=
  LawfulEqCmp.compare_eq_iff_eq.mp (Ordering.then_eq_eq.mp h).right

-- The order in which files are listed.
def Precedes (query : Query) (file other : StoredFile) : Prop :=
  if ascending query then compareFiles file other = .lt else compareFiles other file = .lt

theorem arrange_perm : (arrange query files).Perm (files.filter (hasPurpose query)) := by
  rw [arrange]
  split
  case isTrue  => exact (List.reverse_perm _).trans perm_sortBy
  case isFalse => exact perm_sortBy

theorem nodup_arrange (hd : (files.map StoredFile.id).Nodup) :
    ((arrange query files).map StoredFile.id).Nodup :=
  (arrange_perm.map _).nodup_iff.mpr (hd.sublist (List.filter_sublist.map _))

-- Files with distinct identifiers are strictly ordered.
theorem pairwise_arrange (hd : (files.map StoredFile.id).Nodup) :
    (arrange query files).Pairwise (Precedes query) := by
  have hs : (sortBy (fun file other => compareFiles other file)
      (files.filter (hasPurpose query))).Pairwise fun file other =>
        compareFiles other file = .lt := by
    have hn : ((sortBy (fun file other => compareFiles other file)
        (files.filter (hasPurpose query))).map StoredFile.id).Nodup :=
      (perm_sortBy.map _).nodup_iff.mpr (hd.sublist (List.filter_sublist.map _))
    refine (pairwise_sortBy.and (List.pairwise_map.mp hn)).imp fun {file other} h => ?_
    refine (Ordering.isLE_iff_eq_lt_or_eq_eq.mp h.left).resolve_right fun he => ?_
    exact h.right (id_of_compareFiles he).symm
  rw [arrange]
  split
  case isTrue ha =>
    refine List.pairwise_reverse.mpr (hs.imp fun {file other} h => ?_)
    rwa [Precedes, if_pos ha]
  case isFalse ha =>
    refine hs.imp fun {file other} h => ?_
    rwa [Precedes, if_neg ha]

-- The files that a store lists for a principal have distinct identifiers.
theorem nodup_inventory {s : FileStore.Store} {clock : FileStore.Clock} {principal : Name}
    (h : s.Readable) : ((((FileStore.inventory clock s).filter (·.1 = principal)).map
      Prod.snd).map StoredFile.id).Nodup := by
  have hlocated {item : FileStore.Location × FileStore.Entry} {file : StoredFile}
      (hm : item ∈ s.entries) (hf : FileStore.kept clock item = some file) :
      item.1.name = file.id := by
    rw [FileStore.kept] at hf
    split at hf
    case isTrue     => cases hf
    case isFalse hs =>
      obtain ⟨file', hr, hn⟩ := h.files item hm hs
      have hmeta := (FileStore.read_metadata_eq_ok.mp hr).left
      have hfile := (Option.filter_eq_some_iff.mp hf).left
      cases hmeta.symm.trans hfile
      exact hn
  have hitems := (FileStore.listing_perm h).map Prod.fst
  have hp : (FileStore.inventory clock s).Pairwise fun a b =>
      a.1 = b.1 → a.2.id ≠ b.2.id := by
    refine List.pairwise_filterMap.mpr ?_
    refine (List.pairwise_map.mp (hitems.nodup_iff.mpr h.nodup)).imp_of_mem
      fun {item other} hm hm' hne b hb b' hb' hpr hid => hne ?_
    obtain ⟨file, hf, rfl⟩ := Option.map_eq_some_iff.mp hb
    obtain ⟨file', hf', rfl⟩ := Option.map_eq_some_iff.mp hb'
    have hn := hlocated ((FileStore.listing_perm h).mem_iff.mp hm) hf
    have hn' := hlocated ((FileStore.listing_perm h).mem_iff.mp hm') hf'
    obtain ⟨⟨principal, name⟩, entry⟩ := item
    obtain ⟨⟨principal', name'⟩, entry'⟩ := other
    simp only at hpr hid hn hn'
    rw [hpr, hn, hn', hid]
  refine List.pairwise_map.mpr (List.pairwise_map.mpr ?_)
  refine (hp.filter _).imp_of_mem fun {a b} ha hb hne => ?_
  have ha := of_decide_eq_true (List.mem_filter.mp ha).right
  have hb := of_decide_eq_true (List.mem_filter.mp hb).right
  exact hne (ha.trans hb.symm)

end Order

section Requests

-- The parameter that continues a list.
def Wire.after (wire : Wire) : String :=
  if !wire.anthropic then "after" else if wire.beta then "after_id" else "page"

def follow (wire : Wire) (query : Query) (files : List StoredFile) :
    Option Name → Except Rejection Listing
  | none    => list wire query (some files)
  | some id => list wire ((wire.after, id) :: query) (some files)

def precede (wire : Wire) (query : Query) (files : List StoredFile) (id : Name) :
    Except Rejection Listing :=
  list wire (("before_id", id) :: query) (some files)

def cursorKeys : List String :=
  ["after", "after_id", "before_id", "page"]

theorem cursor_eq_none : cursor query = none ↔
    query.lookup "after" = none ∧ query.lookup "after_id" = none ∧
      query.lookup "before_id" = none ∧ query.lookup "page" = none := by
  simp [cursor, and_assoc]

theorem pageLimit_eq_ok : pageLimit wire query = .ok limit ↔
    (∀ parameter ∈ query, parameter.1 ∈ allowed wire) ∧ requestedLimit wire query = limit ∧
    (limit ≠ 0 ∧ limit ≤ if wire.anthropic then 1000 else 10000) ∧
    (query.lookup "order").all (· ∈ ["asc".toList, "desc".toList]) = true ∧
    ¬(containsKey query "after_id" ∧ containsKey query "before_id") := by
  simp only [pageLimit, ensure_bind_eq_ok, List.all_eq_true, pure, Except.pure,
    Except.ok.injEq]
  grind

theorem lookup_cons {other : String} (hk : key ∈ cursorKeys) (ho : other ∉ cursorKeys) :
    List.lookup other ((key, id) :: query) = query.lookup other := by
  have hne : other ≠ key := fun he => ho (he ▸ hk)
  rw [List.lookup_cons, beq_eq_false_iff_ne.mpr hne]

theorem pageLimit_cons (hk : key ∈ cursorKeys)
    (ha : key ∈ allowed wire) (hc : cursor query = none) (hq : pageLimit wire query = .ok limit) :
    pageLimit wire ((key, id) :: query) = .ok limit := by
  obtain ⟨-, hafter, hbefore, -⟩ := cursor_eq_none.mp hc
  obtain ⟨hall, hlimit, hbound, horder, -⟩ := pageLimit_eq_ok.mp hq
  refine pageLimit_eq_ok.mpr ⟨List.forall_mem_cons.mpr ⟨ha, hall⟩, ?_, hbound, ?_, ?_⟩
  · rwa [requestedLimit, lookup_cons hk (by simp [cursorKeys])]
  · rwa [lookup_cons hk (by simp [cursorKeys])]
  · simp only [cursorKeys, List.mem_cons, List.not_mem_nil, or_false] at hk
    obtain rfl | rfl | rfl | rfl := hk <;>
      simp [containsKey, List.lookup_cons, hafter, hbefore]

theorem arrange_cons (hk : key ∈ cursorKeys) :
    arrange ((key, id) :: query) files = arrange query files := by
  have hp : hasPurpose ((key, id) :: query) = hasPurpose query := by
    funext file
    rw [hasPurpose, hasPurpose, lookup_cons hk (by simp [cursorKeys])]
  rw [arrange, arrange, hp, ascending, ascending, lookup_cons hk (by simp [cursorKeys])]

theorem findIdx_id (hd : (l.map StoredFile.id).Nodup) (hi : (l.map StoredFile.id)[i]? = some id) :
    l.findIdx? (·.id = id) = some i := by
  have hl := (List.getElem?_eq_some_iff.mp hi).choose
  have hget {j : Nat} (hj : j < l.length) : (l.map StoredFile.id)[j]? = some l[j].id := by
    rw [List.getElem?_map, List.getElem?_eq_getElem hj, Option.map_some]
  rw [List.length_map] at hl
  have he : l[i].id = id := Option.some.inj ((hget hl).symm.trans hi)
  refine List.findIdx?_eq_some_iff_getElem.mpr ⟨hl, decide_eq_true he, fun j hj hn => ?_⟩
  have hids : (l.map StoredFile.id)[j]? = (l.map StoredFile.id)[i]? := by
    rw [hget (hj.trans hl), hi, of_decide_eq_true hn]
  have hji := (List.getElem?_inj (by rw [List.length_map]; omega) hd).mp hids
  omega

variable (hq : pageLimit wire query = .ok limit) (hc : cursor query = none)
variable (hd : (files.map StoredFile.id).Nodup)

def Listing.of (limit : Nat) (files : List StoredFile) : Listing where
  data := files.take limit
  more := limit < files.length

include hq hc in
theorem list_first : follow wire query files none = .ok (.of limit (arrange query files)) := by
  simp [follow, list, hq, skip, hc, bind, Except.bind, pure, Except.pure, Listing.of]

include hq hc hd in
theorem list_after (hi : ((arrange query files).map StoredFile.id)[i]? = some id) :
    follow wire query files (some id) =
      .ok (.of limit ((arrange query files).drop (i + 1))) := by
  have hk : wire.after ∈ cursorKeys := by
    rw [Wire.after, cursorKeys]
    split_ifs <;> simp
  have ha : wire.after ∈ allowed wire := by
    rw [Wire.after, allowed]
    split_ifs <;> simp
  have hcursor : cursor ((wire.after, id) :: query) = some id ∧
      containsKey ((wire.after, id) :: query) "before_id" = false := by
    obtain ⟨hafter, hafter', hbefore, hpage⟩ := cursor_eq_none.mp hc
    rw [Wire.after]
    split_ifs <;> simp [cursor, containsKey, List.lookup_cons, *]
  have hf := findIdx_id (nodup_arrange hd) hi
  simp [follow, list, pageLimit_cons hk ha hc hq, arrange_cons hk, skip, hcursor, hf, bind,
    Except.bind, pure, Except.pure, Listing.of]

include hq hc hd in
theorem list_before (hb : wire.beta = true)
    (hi : ((arrange query files).map StoredFile.id)[i]? = some id) :
    precede wire query files id = .ok (.of limit ((arrange query files).take i)) := by
  have hk : "before_id" ∈ cursorKeys := by simp [cursorKeys]
  have ha : "before_id" ∈ allowed wire := by simp [allowed, hb, wire.anthropic_of_beta hb]
  have hcursor : cursor (("before_id", id) :: query) = some id := by
    obtain ⟨hafter, hafter', hbefore, hpage⟩ := cursor_eq_none.mp hc
    simp [cursor, List.lookup_cons, *]
  have hf := findIdx_id (nodup_arrange hd) hi
  simp [precede, list, pageLimit_cons hk ha hc hq, arrange_cons hk, skip, hcursor, hf,
    containsKey, bind, Except.bind, pure, Except.pure, Listing.of]

end Requests

section Traversals

def forward (wire : Wire) (query : Query) (files : List StoredFile) (cursor : Option Name) :
    Option (List StoredFile × Option (Option Name)) :=
  (follow wire query files cursor).toOption.map fun listing =>
    (listing.data, listing.nextPage.map some)

-- Backwards, the files before the first one of a page are requested until there are none.
def backward (wire : Wire) (query : Query) (files : List StoredFile) (id : Name) :
    Option (List StoredFile × Option Name) :=
  (precede wire query files id).toOption.map fun listing => (listing.data, listing.firstId)

-- What a client of the beta interface can have in front of it.
inductive Reached (wire : Wire) (query : Query) (files : List StoredFile) : Listing → Prop
  | first {listing : Listing} : follow wire query files none = .ok listing →
    Reached wire query files listing
  | after {listing next : Listing} {id : Name} : Reached wire query files listing →
    listing.lastId = some id → follow wire query files (some id) = .ok next →
    Reached wire query files next
  | before {listing previous : Listing} {id : Name} : Reached wire query files listing →
    listing.firstId = some id → precede wire query files id = .ok previous →
    Reached wire query files previous

structure Navigable (wire : Wire) (query : Query) (limit : Nat) (files ordered : List StoredFile) :
    Prop where
  perm     : ordered.Perm (files.filter (hasPurpose query))
  sorted   : ordered.Pairwise (Precedes query)
  forward  : ∃ pages, Traversal (forward wire query files) none pages ∧ pages.flatten = ordered
  backward : wire.beta = true → ∀ listing, Reached wire query files listing →
    ∀ id ∈ listing.firstId, ∃ before after, ordered = before ++ after ∧
      after.head?.map StoredFile.id = some id ∧
      (∃ previous, precede wire query files id = .ok previous ∧
        previous.data = before.drop (before.length - limit)) ∧
      ∃ pages, Traversal (backward wire query files) id pages ∧ pages.reverse.flatten = before

variable (hq : pageLimit wire query = .ok limit) (hc : cursor query = none)
variable (hd : (files.map StoredFile.id).Nodup)

include hq in
theorem limit_pos : 0 < limit :=
  Nat.pos_of_ne_zero (pageLimit_eq_ok.mp hq).right.right.left.left

theorem forward_eq {cursor : Option Name}
    (hf : follow wire query files cursor = .ok (.of limit l)) :
    Files.forward wire query files cursor = some (l.take limit,
      (if limit < l.length then (l.take limit).getLast?.map StoredFile.id else none).map some) := by
  simp [Files.forward, hf, Except.toOption, Listing.nextPage, Listing.of, Listing.lastId]

-- The last file of a page that others follow.
theorem getLast?_page (hl : 0 < limit) (h : i + limit < l.length) :
    ((l.drop i).take limit).getLast? = l[i + limit - 1]? := by
  have hm : limit ≤ (l.drop i).length := by
    rw [List.length_drop]
    omega
  rw [List.getLast?_eq_getElem?, List.length_take, min_eq_left hm, List.getElem?_take,
    if_pos (by omega), List.getElem?_drop, Nat.add_sub_assoc hl]

include hq hc hd in
theorem exists_forward : ∃ pages, Traversal (Files.forward wire query files) none pages ∧
    pages.flatten = (arrange query files).drop 0 := by
  have hl := limit_pos hq
  refine exists_traversal (fun cursor i => cursor = none ∧ i = 0 ∨
    ∃ id j, cursor = some id ∧ i = j + 1 ∧
      ((arrange query files).map StoredFile.id)[j]? = some id) hl (fun cursor i hi => ?_)
    (.inl ⟨rfl, rfl⟩)
  have hf : follow wire query files cursor = .ok (.of limit ((arrange query files).drop i)) := by
    obtain ⟨rfl, rfl⟩ | ⟨id, j, rfl, rfl, hj⟩ := hi
    · exact list_first hq hc
    · exact list_after hq hc hd hj
  rw [forward_eq hf, List.length_drop]
  by_cases hm : i + limit < (arrange query files).length
  case neg =>
    refine .inl ⟨?_, by omega⟩
    rw [if_neg (by omega)]
    rfl
  case pos =>
    obtain ⟨file, he⟩ : ∃ file, (arrange query files)[i + limit - 1]? = some file :=
      ⟨_, List.getElem?_eq_getElem (by omega)⟩
    refine .inr ⟨some file.id, ?_, hm, .inr ⟨_, i + limit - 1, rfl, by omega, ?_⟩⟩
    · rw [if_pos (by omega), getLast?_page hl hm, he]
      rfl
    · rw [List.getElem?_map, he]
      rfl

theorem backward_eq (hp : precede wire query files id = .ok (.of limit l)) :
    Files.backward wire query files id = some (l.take limit,
      (l.take limit).head?.map StoredFile.id) := by
  simp [Files.backward, hp, Except.toOption, Listing.of, Listing.firstId]

-- Other purposes cannot be filtered by on this interface.
theorem length_arrange (hb : wire.beta = true) (hq : pageLimit wire query = .ok limit) :
    (arrange query files).length = files.length := by
  have hall := (pageLimit_eq_ok.mp hq).left
  have hn : query.lookup "purpose" = none := by
    refine List.lookup_eq_none_iff.mpr fun parameter hm => ?_
    have hk := hall parameter hm
    rw [allowed, if_neg (by simp [wire.anthropic_of_beta hb]), if_pos hb] at hk
    simp only [List.mem_cons, List.not_mem_nil, or_false] at hk
    obtain h | h | h := hk <;> simp [h]
  rw [arrange_perm.length_eq, List.filter_eq_self.mpr fun file _ => by simp [hasPurpose, hn]]

theorem getElem?_first (h : (l.drop i).head?.map StoredFile.id = some id) :
    (l.map StoredFile.id)[i]? = some id := by
  rwa [List.head?_drop, ←List.getElem?_map] at h

theorem getElem?_last {m : Nat}
    (h : ((l.drop i).take m).getLast?.map StoredFile.id = some id) :
    ∃ j, (l.map StoredFile.id)[j]? = some id ∧ j + 1 = min (i + m) l.length := by
  have hne : (l.drop i).take m ≠ [] := by
    intro hn
    rw [hn] at h
    nomatch h
  have hlength := List.length_pos_iff.mpr hne
  rw [List.length_take, List.length_drop] at hlength
  rw [List.getLast?_eq_getElem?, List.length_take, List.length_drop, List.getElem?_take,
    if_pos (by omega), List.getElem?_drop, ←List.getElem?_map] at h
  exact ⟨_, h, by omega⟩

variable (hb : wire.beta = true)

include hq hc hd hb in
-- All files before one of the first files fit on a page.
theorem exists_backward (hi : ((arrange query files).map StoredFile.id)[i]? = some id)
    (hl : i ≤ limit) : ∃ before after, arrange query files = before ++ after ∧
      after.head?.map StoredFile.id = some id ∧
      (∃ previous, precede wire query files id = .ok previous ∧
        previous.data = before.drop (before.length - limit)) ∧
      ∃ pages, Traversal (Files.backward wire query files) id pages ∧
        pages.reverse.flatten = before := by
  have hp := list_before hq hc hd hb hi
  have ht : ((arrange query files).take i).take limit = (arrange query files).take i := by
    rw [List.take_take, min_eq_right hl]
  refine ⟨_, _, (List.take_append_drop i _).symm, ?_, ⟨_, hp, ?_⟩, ?_⟩
  · rwa [List.head?_drop, ←List.getElem?_map]
  · have hn : ((arrange query files).take i).length - limit = 0 := by
      rw [List.length_take]
      omega
    rw [hn, List.drop_zero]
    exact ht
  · have he := backward_eq hp
    rw [ht] at he
    cases hm : ((arrange query files).take i).head?
    case none =>
      rw [List.head?_eq_none_iff] at hm
      rw [hm] at he ⊢
      exact ⟨_, .last he, rfl⟩
    case some file =>
      have hf : ((arrange query files).map StoredFile.id)[0]? = some file.id := by
        rw [List.getElem?_map, ←List.head?_eq_getElem?]
        rw [List.head?_take] at hm
        split at hm
        case isTrue  => nomatch hm
        case isFalse => rw [hm, Option.map_some]
      have he' := backward_eq (list_before hq hc hd hb hf)
      rw [List.take_zero, List.take_nil] at he'
      rw [hm] at he
      refine ⟨_, .next he (.last he'), ?_⟩
      simp

include hq hc hd hb in
-- Two pages hold all of the files.
theorem Reached.data (hs : (arrange query files).length ≤ 2 * limit)
    (h : Reached wire query files listing) : listing.data = [] ∨
      listing.data = (arrange query files).take limit ∨
      listing.data = (arrange query files).drop limit := by
  induction h
  case first hf =>
    rw [list_first hq hc] at hf
    cases hf
    exact .inr (.inl rfl)
  case after listing next id _ hlast hf hi =>
    have hstep {i m : Nat} (hd : listing.data = ((arrange query files).drop i).take m) :
        next.data = ((arrange query files).drop (i + m)).take limit := by
      rw [Listing.lastId, hd] at hlast
      obtain ⟨j, hj, hmin⟩ := getElem?_last hlast
      rw [list_after hq hc ‹_› hj, hmin] at hf
      cases hf
      by_cases hm : i + m ≤ (arrange query files).length
      case pos => rw [min_eq_left hm, Listing.of]
      case neg =>
        rw [min_eq_right (by omega), Listing.of, List.drop_length,
          List.drop_eq_nil_of_le (by omega : (arrange query files).length ≤ i + m)]
    obtain hdata | hdata | hdata := hi
    · rw [Listing.lastId, hdata] at hlast
      nomatch hlast
    · refine .inr (.inr ((hstep (i := 0) hdata).trans ?_))
      rw [Nat.zero_add, List.take_of_length_le]
      rw [List.length_drop]
      omega
    · have hslice : listing.data = ((arrange query files).drop limit).take limit := by
        rw [hdata, List.take_of_length_le]
        rw [List.length_drop]
        omega
      refine .inl ((hstep hslice).trans ?_)
      rw [List.drop_eq_nil_of_le (by omega), List.take_nil]
  case before listing previous id _ hfirst hp hi =>
    have hstep {i : Nat} (hi : ((arrange query files).drop i).head?.map StoredFile.id = some id) :
        previous.data = ((arrange query files).take i).take limit := by
      rw [list_before hq hc hd hb (getElem?_first hi)] at hp
      cases hp
      rfl
    rw [Listing.firstId] at hfirst
    obtain hdata | hdata | hdata := hi
    · rw [hdata] at hfirst
      nomatch hfirst
    · rw [hdata, List.head?_take, if_neg (limit_pos hq).ne'] at hfirst
      exact .inl ((hstep (i := 0) hfirst).trans (by rw [List.take_zero, List.take_nil]))
    · rw [hdata] at hfirst
      exact .inr (.inl ((hstep hfirst).trans (by rw [List.take_take, Nat.min_self])))

include hq hc hd hb in
-- The page before the third one is not the second one, but the first one.
theorem not_navigable (hs : 2 * limit < (arrange query files).length) (ordered : List StoredFile) :
    ¬Navigable wire query limit files ordered := by
  intro h
  have hl := limit_pos hq
  have hn : ((arrange query files).map StoredFile.id).Nodup := nodup_arrange hd
  have hget {i : Nat} (hi : i < (arrange query files).length) :
      ((arrange query files).map StoredFile.id)[i]? = some (arrange query files)[i].id := by
    rw [List.getElem?_map, List.getElem?_eq_getElem hi, Option.map_some]
  have hordered : ordered = arrange query files := by
    obtain ⟨pages, ht, rfl⟩ := h.forward
    obtain ⟨pages', ht', hf⟩ := exists_forward hq hc hd
    rw [ht.unique ht', hf, List.drop_zero]
  subst hordered
  have hpage {listing : Listing} {i : Nat} (hr : Reached wire query files listing)
      (he : listing = .of limit ((arrange query files).drop i))
      (hi : i + limit < (arrange query files).length) :
      Reached wire query files (.of limit ((arrange query files).drop (i + limit))) := by
    have hj := hget (i := i + limit - 1) (by omega)
    have hf := list_after hq hc hd hj
    rw [show i + limit - 1 + 1 = i + limit by omega] at hf
    refine hr.after ?_ hf
    rw [he, Listing.lastId, Listing.of, getLast?_page hl hi, ←List.getElem?_map, hj]
  have hr : Reached wire query files (.of limit ((arrange query files).drop (2 * limit))) := by
    have h₁ := hpage (i := 0) (.first (list_first hq hc)) rfl (by omega)
    have h₂ := hpage h₁ rfl (by omega)
    rwa [show 0 + limit + limit = 2 * limit by omega] at h₂
  have hi := hget hs
  have hfirst : (Listing.of limit ((arrange query files).drop (2 * limit))).firstId =
      some (arrange query files)[2 * limit].id := by
    rw [Listing.firstId, Listing.of, List.head?_take, if_neg hl.ne', List.head?_drop,
      ←List.getElem?_map, hi]
  obtain ⟨before, after, he, hafter, ⟨previous, hp, hdata⟩, -⟩ := h.backward hb _ hr _ hfirst
  have hdrop : (arrange query files).drop before.length = after := by
    rw [he, List.drop_left]
  have hj : ((arrange query files).map StoredFile.id)[before.length]? =
      some (arrange query files)[2 * limit].id :=
    getElem?_first (hdrop ▸ hafter)
  have hbefore : before.length = 2 * limit :=
    (List.getElem?_inj (List.getElem?_eq_some_iff.mp hj).choose hn).mp (hj.trans hi.symm)
  have htake : before = (arrange query files).take (2 * limit) := by
    rw [he, ←hbefore, List.take_left]
  cases hp.symm.trans (list_before hq hc hd hb hi)
  -- The page begins with the first file, and not with the first one of the second page.
  have hhead : (arrange query files)[0]? = (arrange query files)[limit]? := by
    have hz := congrArg (·[0]?) hdata
    rw [hbefore, show 2 * limit - limit = limit by omega, htake] at hz
    simpa [Listing.of, List.getElem?_take, List.getElem?_drop, hl, Nat.two_mul] using hz
  have hids : ((arrange query files).map StoredFile.id)[0]? =
      ((arrange query files).map StoredFile.id)[limit]? := by
    rw [List.getElem?_map, List.getElem?_map, hhead]
  have hz := (List.getElem?_inj (by rw [List.length_map]; omega) hn).mp hids
  omega

include hq hc hd in
theorem navigable_iff : (∃ ordered, Navigable wire query limit files ordered) ↔
    (wire.beta = true → files.length ≤ 2 * limit) := by
  constructor
  case mp =>
    rintro ⟨ordered, h⟩ hb
    by_contra hs
    rw [←length_arrange hb hq] at hs
    exact not_navigable hq hc hd hb (by omega) ordered h
  case mpr =>
    intro hs
    refine ⟨arrange query files, arrange_perm, pairwise_arrange hd, exists_forward hq hc hd,
      fun hb listing hr id hi => ?_⟩
    have hs := hs hb
    rw [←length_arrange hb hq] at hs
    rw [Option.mem_def, Listing.firstId] at hi
    obtain hdata | hdata | hdata := hr.data hq hc hd hb hs
    · rw [hdata] at hi
      nomatch hi
    · rw [hdata, List.head?_take, if_neg (limit_pos hq).ne'] at hi
      exact exists_backward hq hc hd hb (getElem?_first (i := 0) hi) (Nat.zero_le _)
    · rw [hdata] at hi
      exact exists_backward hq hc hd hb (getElem?_first hi) le_rfl

def betaWire : Wire :=
  .detect [("anthropic-version", "2023-06-01"), ("anthropic-beta", "files-api-2025-04-14")]

def pairQuery : Query :=
  [("limit", "2".toList)]

def fiveFiles : List StoredFile :=
  ["a", "b", "c", "d", "e"].map fun id => {
    id        := id.toList
    filename  := "notes.txt".toList
    mimeType  := "text/plain".toList
    bytes     := 1
    createdAt := 1700000000
    expiresAt := none
    purpose   := "user_data".toList
  }

theorem navigable_iff_pairs : (∃ ordered, Navigable betaWire pairQuery 2 fiveFiles ordered) ↔
    (betaWire.beta = true → fiveFiles.length ≤ 2 * 2) :=
  navigable_iff (by decide) (by decide) (by decide)

-- Before the last one of five files, the first two are returned again.
theorem not_navigable_pairs : ¬∃ ordered, Navigable betaWire pairQuery 2 fiveFiles ordered := by
  rintro ⟨ordered, h⟩
  have hb : betaWire.beta = true := by decide
  have hq : pageLimit betaWire pairQuery = .ok 2 := by decide
  have hs : 2 * 2 < (arrange pairQuery fiveFiles).length := by
    rw [length_arrange hb hq]
    decide
  exact not_navigable hq (by decide) (by decide) hb hs ordered h

end Traversals

end Api.Files
