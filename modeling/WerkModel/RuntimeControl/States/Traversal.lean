import WerkModel.RuntimeControl.States.Listing

-- Listings that follow the cursors, while the merged states stay the same.
open Std Pagination

namespace RuntimeControl.States

variable {Lease Envelope : Type}

structure Request (Lease Envelope : Type) where
  inner    : LocalInner Lease Envelope
  clock    : Clock
  response : StateListResponse

-- Traversals have their latest request first.

def lastCursor (requests : List (Request Lease Envelope)) : Option String :=
  requests.head?.bind fun request => request.response.nextCursor

def collected : List (Request Lease Envelope) → List StateSummary
  | []                 => []
  | request :: earlier => collected earlier ++ request.response.states

variable (principalId : String) (filter : StateListFilter) (states : List StateSummary)

-- The first request has no cursor, and every other one has that of the response before it.
inductive Traversal : List (Request Lease Envelope) → Prop
  | first {request : Request Lease Envelope} :
    request.inner.mergedStates principalId request.clock = .ok states →
    listStatesInner request.inner principalId { filter with cursor := none } request.clock =
      .ok request.response →
    Traversal [request]
  | next {request : Request Lease Envelope} {earlier cursor} :
    Traversal earlier → lastCursor earlier = some cursor →
    request.inner.mergedStates principalId request.clock = .ok states →
    listStatesInner request.inner principalId { filter with cursor := some cursor } request.clock =
      .ok request.response →
    Traversal (request :: earlier)

-- The rows that the requests find.
def sources (requests : List (Request Lease Envelope)) : List (List StateSummary) :=
  requests.map fun _ => matching filter states

variable {principalId filter states} {requests : List (Request Lease Envelope)}

namespace Traversal

theorem ne_nil (h : Traversal principalId filter states requests) : requests ≠ [] := by
  cases h <;> simp

theorem merged (h : Traversal principalId filter states requests) :
    ∃ (inner : LocalInner Lease Envelope) (clock : _),
      inner.mergedStates principalId clock = .ok states := by
  cases h
  case first hm _    => exact ⟨_, _, hm⟩
  case next _ _ hm _ => exact ⟨_, _, hm⟩

theorem nodup_matching (h : Traversal principalId filter states requests) :
    ((matching filter states).map StateSummary.id).Nodup := by
  have ⟨_, _, hm⟩ := h.merged
  exact (LocalInner.nodup_mergedStates hm).sublist <| List.filter_sublist.map _

theorem nodup_sources (h : Traversal principalId filter states requests) :
    ∀ rows ∈ sources filter states requests, (rows.map StateSummary.id).Nodup := by
  intro rows hr
  have ⟨_, _, hr⟩ := List.mem_map.mp hr
  exact hr ▸ h.nodup_matching

theorem valid_cursor {id} (h : Traversal principalId filter states requests)
    (hc : cursor StateSummary.id (pageLimit filter) (sources filter states requests) = some id) :
    validateStateId id = .ok () := by
  have ⟨_, _, hm⟩ := h.merged
  have ⟨rows, hs, row, hr, hi⟩ := exists_of_cursor hc
  have ⟨_, _, hs⟩ := List.mem_map.mp hs
  rw [←hs] at hr
  rw [←hi]
  exact LocalInner.id_valid_of_visible <| (LocalInner.mem_mergedStates hm).mp <|
    List.mem_of_mem_filter hr

-- The responses are the pages of the matching states.
theorem pages (h : Traversal principalId filter states requests)
    (hv : validateFilter { filter with cursor := none } maxPageSize = .ok ()) :
    let rows := sources filter states requests
    Follows StateSummary.id (pageLimit filter) rows ∧
      collected requests = returned StateSummary.id (pageLimit filter) rows ∧
      lastCursor requests = (cursor StateSummary.id (pageLimit filter) rows).map
        encodeStateCursor := by
  induction h
  case first request hm h =>
    have hr := (list_accepts none hv (by simp) (by simp) hm).symm.trans h
    have hr := Except.ok.inj hr
    refine ⟨trivial, ?_, ?_⟩
    · simp [collected, ←hr, sources]
    · simp [lastCursor, ←hr, sources]
  case next request earlier c he hc hm h hi =>
    have ⟨hf, hs, hl⟩ := hi
    have ⟨id, hh, hc⟩ := Option.map_eq_some_iff.mp <| hl.symm.trans hc
    have hi := he.valid_cursor hh
    rw [←hc] at h
    by_cases hd : '.' ∈ id.toList
    case pos => simp [list_rejects hv hi hd] at h
    case neg =>
      have hr := (list_accepts (some id) hv (by simpa using hi) (by simpa using hd) hm).symm.trans h
      have hr := Except.ok.inj hr
      refine ⟨hf.cons hh, ?_, ?_⟩
      · simp only [collected, ←hr, hs, respond_states, ←hh, sources, List.map_cons, returned_cons]
      · simp only [lastCursor, List.head?_cons, Option.bind_some, ←hr, respond_nextCursor, ←hh,
          sources, List.map_cons, cursor_cons]

-- The cursor is that of the last state of a full page.
theorem lastCursor_eq (h : Traversal principalId filter states requests)
    (hv : validateFilter { filter with cursor := none } maxPageSize = .ok ()) :
    lastCursor requests =
      if requests.length * pageLimit filter < (matching filter states).length then
        (sortById <| matching filter states)[requests.length * pageLimit filter - 1]?.map fun state =>
          encodeStateCursor state.id
      else
        none := by
  have ⟨hf, _, hl⟩ := h.pages hv
  have hp : 0 < pageLimit filter := pageLimit_pos hv
  have hs : remaining StateSummary.id none (matching filter states) =
      sortById (matching filter states) := by
    simp [remaining, sortById, IsAfter]
  have hr : ∀ s ∈ sources filter states requests, s = matching filter states := by
    simp [sources]
  rw [hl, cursor_of_constant hp h.nodup_matching hf hr (List.map_eq_nil_iff.not.mpr h.ne_nil), hs,
    perm_sortById.length_eq, sources, List.length_map, apply_ite (Option.map _), Option.map_map]
  rfl

theorem length_le (h : Traversal principalId filter states requests)
    (hv : validateFilter { filter with cursor := none } maxPageSize = .ok ()) :
    requests.length ≤ (matching filter states).length + 1 := by
  cases h
  case first => simp
  case next earlier _ he hc _ _ =>
    rw [he.lastCursor_eq hv] at hc
    split at hc
    case isFalse    => cases hc
    case isTrue hlt =>
      have hp : 0 < pageLimit filter := pageLimit_pos hv
      have := Nat.le_mul_of_pos_right earlier.length hp
      rw [List.length_cons]
      omega

theorem collected_eq (h : Traversal principalId filter states requests)
    (hv : validateFilter { filter with cursor := none } maxPageSize = .ok ())
    (hl : lastCursor requests = none) :
    collected requests = remaining StateSummary.id none (matching filter states) := by
  have ⟨hf, hc, hl'⟩ := h.pages hv
  have hn := Option.map_eq_none_iff.mp <| hl'.symm.trans hl
  have hr : ∀ s ∈ sources filter states requests, s = matching filter states := by
    simp [sources]
  rw [hc]
  exact returned_of_constant (pageLimit_pos hv) h.nodup_matching hf
    (List.map_eq_nil_iff.not.mpr h.ne_nil) hr hn

end Traversal

-- What the listing promises: it starts, ends and returns each matching state once, in order, and
-- it accepts the cursors that it issues.
structure Listed (inner : LocalInner Lease Envelope) (principalId : String)
    (filter : StateListFilter) (clock : Clock) (states : List StateSummary) : Prop where
  starts   : ∃ response,
    listStatesInner inner principalId { filter with cursor := none } clock = .ok response
  ends     : ∀ requests : List (Request Lease Envelope),
    Traversal principalId filter states requests →
    requests.length ≤ (matching filter states).length + 1
  complete : ∀ requests : List (Request Lease Envelope),
    Traversal principalId filter states requests → lastCursor requests = none →
    (collected requests).Pairwise (fun a b => a.id < b.id) ∧
    ∀ state, state ∈ collected requests ↔
      inner.Visible principalId clock state ∧ filter.Matches state
  accepted : ∀ (requests : List (Request Lease Envelope)) (cursor : String)
    (inner : LocalInner Lease Envelope) (clock : Clock),
    Traversal principalId filter states requests → lastCursor requests = some cursor →
    inner.mergedStates principalId clock = .ok states →
    ∃ response,
      listStatesInner inner principalId { filter with cursor := some cursor } clock = .ok response

-- No page that has a successor ends in a state whose identifier has a dot.
def NoDotAtPageEnd (filter : StateListFilter) (states : List StateSummary) : Prop :=
  ∀ pages state, 0 < pages → pages * pageLimit filter < (matching filter states).length →
    (sortById <| matching filter states)[pages * pageLimit filter - 1]? = some state →
    '.' ∉ state.id.toList

section

variable {inner : LocalInner Lease Envelope} {clock : Clock}

theorem valid_of_sorted {state} {index : Nat} (hm : inner.mergedStates principalId clock = .ok states)
    (h : (sortById <| matching filter states)[index]? = some state) :
    validateStateId state.id = .ok () := by
  have hs := List.mem_of_mem_filter <| mem_sortById.mp <| List.mem_of_getElem? h
  exact LocalInner.id_valid_of_visible <| (LocalInner.mem_mergedStates hm).mp hs

-- If all cursors are accepted, then every page is reached.
theorem Listed.exists_traversal (h : Listed inner principalId filter clock states)
    (hv : validateFilter { filter with cursor := none } maxPageSize = .ok ())
    (hm : inner.mergedStates principalId clock = .ok states) (pages : Nat)
    (hp : pages * pageLimit filter < (matching filter states).length) :
    ∃ requests : List (Request Lease Envelope),
      Traversal principalId filter states requests ∧ requests.length = pages + 1 := by
  induction pages
  case zero =>
    have ⟨response, hr⟩ := h.starts
    exact ⟨[⟨inner, clock, response⟩], .first hm hr, rfl⟩
  case succ pages hi =>
    have ⟨requests, ht, hl⟩ := hi (by rw [Nat.succ_mul] at hp; omega)
    have hc := ht.lastCursor_eq hv
    rw [hl, if_pos hp, List.getElem?_eq_getElem (by rw [perm_sortById.length_eq]; omega)] at hc
    have ⟨response, hr⟩ := h.accepted _ _ inner clock ht hc hm
    exact ⟨⟨inner, clock, response⟩ :: requests, .next ht hc hm hr, by rw [List.length_cons, hl]⟩

theorem Listed.noDotAtPageEnd (h : Listed inner principalId filter clock states)
    (hv : validateFilter { filter with cursor := none } maxPageSize = .ok ())
    (hm : inner.mergedStates principalId clock = .ok states) : NoDotAtPageEnd filter states := by
  intro pages state hp hl hs hd
  cases pages
  case zero       => cases hp
  case succ pages =>
    have ⟨requests, ht, hr⟩ := h.exists_traversal hv hm pages (by rw [Nat.succ_mul] at hl; omega)
    have hc := ht.lastCursor_eq hv
    rw [hr, if_pos hl, hs] at hc
    have ⟨response, hr⟩ := h.accepted _ _ inner clock ht hc hm
    exact absurd (hr.symm.trans <| list_rejects hv (valid_of_sorted hm hs) hd) (by simp)

theorem NoDotAtPageEnd.listed (h : NoDotAtPageEnd filter states)
    (hv : validateFilter { filter with cursor := none } maxPageSize = .ok ())
    (hm : inner.mergedStates principalId clock = .ok states) :
    Listed inner principalId filter clock states where
  starts       := ⟨_, list_accepts none hv (by simp) (by simp) hm⟩
  ends _ ht    := ht.length_le hv
  complete requests ht hl := by
    rw [ht.collected_eq hv hl]
    refine ⟨pairwise_remaining ht.nodup_matching, fun state => ?_⟩
    rw [mem_remaining, matching, List.mem_filter, LocalInner.mem_mergedStates hm]
    simp [IsAfter]
  accepted requests cursor inner clock ht hc hm := by
    rw [ht.lastCursor_eq hv] at hc
    split at hc
    case isFalse    => cases hc
    case isTrue hlt =>
      obtain ⟨state, hs, hc⟩ := Option.map_eq_some_iff.mp hc
      have hi := valid_of_sorted hm hs
      have hd := h _ state (List.length_pos_of_ne_nil ht.ne_nil) hlt hs
      rw [←hc]
      exact ⟨_, list_accepts (some state.id) hv (by simpa using hi) (by simpa using hd) hm⟩

end

theorem listed_iff {inner : LocalInner Lease Envelope} {clock : Clock}
    (hp : validatePrincipalId principalId = .ok ())
    (hv : validateFilter { filter with cursor := none } maxPageSize = .ok ()) :
    ∃ states, inner.mergedStates principalId clock = .ok states ∧
      (Listed inner principalId filter clock states ↔ NoDotAtPageEnd filter states) := by
  have ⟨states, hm⟩ : ∃ states, inner.mergedStates principalId clock = .ok states :=
    LocalInner.exists_mergedStates hp
  exact ⟨states, hm, fun h => h.noDotAtPageEnd hv hm, fun h => h.listed hv hm⟩

section Small

def storedState (id : String) : StateSummary where
  id                 := id
  modelId            := "model"
  tier               := .disk
  status             := .ready
  bytes              := some 7
  createdUnixMs      := 1
  lastAccessedUnixMs := 1
  expiresUnixMs      := none
  pinned             := false
  backend            := "backend"
  reusable           := true

def smallCatalog : StateCatalog where
  states := [storedState "st_a.b", storedState "st_c"]
  nodup  := by decide
  valid  := by decide +kernel

def smallInner : LocalInner Unit Unit where
  stateStore     := ⟨(∅ : ExtTreeMap String StateCatalog).insert "local" smallCatalog⟩
  volatileStates := ⟨[], by simp, by simp⟩
  validateState  := fun _ _ => true

def smallFilter (limit : Nat) : StateListFilter where
  modelId := none
  tier    := none
  limit   := some limit
  cursor  := none

def smallStates : List StateSummary :=
  [(storedState "st_a.b").unavailable, (storedState "st_c").unavailable]

def firstPage : StateListResponse where
  states     := [(storedState "st_a.b").unavailable]
  nextCursor := some <| encodeStateCursor "st_a.b"

theorem merged_smallInner : smallInner.mergedStates "local" ⟨2, 2⟩ = .ok smallStates := by
  decide +kernel

-- The first page of one state ends in an identifier with a dot, and its cursor is rejected.
theorem dotted_cursor_rejected : ¬Listed smallInner "local" (smallFilter 1) ⟨2, 2⟩ smallStates := by
  intro h
  have hv : validateFilter { smallFilter 1 with cursor := none } maxPageSize = .ok () := by decide
  have hf : listStatesInner smallInner "local" { smallFilter 1 with cursor := none } ⟨2, 2⟩ =
      .ok firstPage := by decide +kernel
  let request : Request Unit Unit := ⟨smallInner, ⟨2, 2⟩, firstPage⟩
  have ht : Traversal "local" (smallFilter 1) smallStates [request] := .first merged_smallInner hf
  have ⟨response, hr⟩ := h.accepted _ _ smallInner ⟨2, 2⟩ ht rfl merged_smallInner
  exact absurd (hr.symm.trans <| list_rejects hv (by decide +kernel) (by decide)) (by simp)

-- A page of two states holds them all.
theorem listed_iff_small : Listed smallInner "local" (smallFilter 2) ⟨2, 2⟩ smallStates := by
  have h : ∃ states, smallInner.mergedStates "local" ⟨2, 2⟩ = .ok states ∧
      (Listed smallInner "local" (smallFilter 2) ⟨2, 2⟩ states ↔
        NoDotAtPageEnd (smallFilter 2) states) := listed_iff (by decide +kernel) (by decide)
  have ⟨states, hm, hi⟩ := h
  cases Except.ok.inj <| merged_smallInner.symm.trans hm
  refine hi.mpr fun pages state hp hl _ => ?_
  have hn : (matching (smallFilter 2) smallStates).length = 2 := by decide
  rw [hn, pageLimit, smallFilter, Option.getD_some] at hl
  omega

end Small

end RuntimeControl.States
