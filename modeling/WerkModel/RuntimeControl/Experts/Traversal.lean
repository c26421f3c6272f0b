import WerkModel.RuntimeControl.Experts.Claims
import WerkModel.RuntimeControl.Experts.Listing

-- Listings that follow the cursors, while the experts change in any way between the requests.
open Std Pagination

namespace RuntimeControl.Experts

variable {φ : Type}

-- A request with the state that it finds and the response that it gets.
structure Request (φ : Type) where
  state    : ExpertState φ
  now      : Nat
  response : ExpertListResponse φ

-- Traversals have their latest request first.

def lastCursor (requests : List (Request φ)) : Option String :=
  requests.head?.bind fun request => request.response.nextCursor

def collected : List (Request φ) → List (ExpertSummary φ)
  | []                 => []
  | request :: earlier => collected earlier ++ request.response.experts

variable [Score φ] (sha256 : List UInt8 → Hash) (config : ExpertResidencyConfig φ)
variable (filter : ExpertListFilter)

-- The first request has no cursor, and every other one has that of the response before it.
inductive Traversal : List (Request φ) → Prop
  | first {request : Request φ} :
    list sha256 config { filter with cursor := none } request.now request.state =
      .ok request.response →
    Traversal [request]
  | next {request : Request φ} {earlier cursor} :
    Traversal earlier → lastCursor earlier = some cursor →
    list sha256 config { filter with cursor := some cursor } request.now request.state =
      .ok request.response →
    Traversal (request :: earlier)

-- The rows that the requests found.
def sources (requests : List (Request φ)) : List (List (Hash × ExpertSummary φ)) :=
  requests.map fun request => hashedRows sha256 config filter request.now request.state

variable {sha256 config filter} {requests : List (Request φ)} {keys : Set ExpertKey}

namespace Traversal

theorem ne_nil (h : Traversal sha256 config filter requests) : requests ≠ [] := by
  cases h <;> simp

-- The responses are the pages of the rows.
theorem pages (h : Traversal sha256 config filter requests) :
    let limit := pageLimit config filter
    let rows := sources sha256 config filter requests
    Follows Prod.fst limit rows ∧ collected requests = (returned Prod.fst limit rows).map Prod.snd ∧
      lastCursor requests = (cursor Prod.fst limit rows).map
        (encodeCursor <| hashFilter sha256 filter.modelId filter.tier) := by
  induction h
  case first request h =>
    have hr := list_issued none h
    refine ⟨trivial, ?_, ?_⟩
    · simp [collected, hr, sources]
    · simp [lastCursor, hr, sources]
  case next request earlier c he hc h hi =>
    have ⟨hf, hs, hl⟩ := hi
    have ⟨hash, hh, hc⟩ := Option.map_eq_some_iff.mp <| hl.symm.trans hc
    rw [←hc] at h
    have hr := list_issued (some hash) h
    refine ⟨hf.cons hh, ?_, ?_⟩
    · simp only [collected, hr, hs, respond_experts, ←hh, sources, List.map_cons, returned_cons,
        List.map_append]
    · simp only [lastCursor, List.head?_cons, Option.bind_some, hr, respond_nextCursor, ←hh,
        sources, List.map_cons, cursor_cons]

theorem nodup_sources (hk : keys.InjOn (hashKey sha256))
    (ht : ∀ request ∈ requests, request.state.Tracks keys) :
    ∀ rows ∈ sources sha256 config filter requests, (rows.map Prod.fst).Nodup := by
  intro rows hr
  have ⟨request, hm, h⟩ := List.mem_map.mp hr
  exact h ▸ nodup_hashedRows hk (ht request hm)

theorem accepted (h : Traversal sha256 config filter requests) :
    ∃ after, Accepted sha256 config { filter with cursor := none } after := by
  induction h
  case first h         =>
    have ⟨after, ha, _⟩ := list_eq_ok.mp h
    exact ⟨after, ha⟩
  case next hi => exact hi

theorem hash_returned {row limit} (ht : ∀ request ∈ requests, request.state.Tracks keys)
    (h : row ∈ returned Prod.fst limit (sources sha256 config filter requests)) :
    row.2.key ∈ keys ∧ row.1 = hashKey sha256 row.2.key := by
  have ⟨rows, hs, hr⟩ := exists_source h
  have ⟨request, hm, hs⟩ := List.mem_map.mp hs
  rw [←hs] at hr
  exact hash_hashedRows (ht request hm) hr

theorem nodup_collected (h : Traversal sha256 config filter requests)
    (hk : keys.InjOn (hashKey sha256)) (ht : ∀ request ∈ requests, request.state.Tracks keys) :
    ((collected requests).map ExpertSummary.key).Nodup := by
  have ⟨hf, hc, _⟩ := h.pages
  have hn := List.pairwise_map.mp <| nodup_returned hf (nodup_sources hk ht)
  rw [hc, List.map_map]
  refine List.pairwise_map.mpr <| hn.imp_of_mem fun ha hb hne he => hne ?_
  rw [(hash_returned ht ha).2, (hash_returned ht hb).2]
  exact congrArg (hashKey sha256) he

-- An expert that every request found is returned.
theorem mem_collected {key : ExpertKey} (h : Traversal sha256 config filter requests)
    (hk : keys.InjOn (hashKey sha256)) (ht : ∀ request ∈ requests, request.state.Tracks keys)
    (hl : lastCursor requests = none)
    (hm : ∀ request ∈ requests, ∃ expert,
      request.state.lookup key = some expert ∧ filter.Matches key expert) :
    key ∈ (collected requests).map ExpertSummary.key := by
  have ⟨hf, hc, hl'⟩ := h.pages
  have ⟨_, ha⟩ := h.accepted
  have hn := Option.map_eq_none_iff.mp <| hl'.symm.trans hl
  have hs : ∀ rows ∈ sources sha256 config filter requests, ∃ row ∈ rows,
      row.1 = hashKey sha256 key := by
    intro rows hr
    have ⟨request, hq, hr⟩ := List.mem_map.mp hr
    have ⟨expert, he, hm⟩ := hm request hq
    exact ⟨_, hr ▸ mem_hashedRows.mpr ⟨key, expert, he, hm, rfl, rfl⟩, rfl⟩
  have ⟨row, hr, he⟩ := mem_returned ha.limit.1 hf (nodup_sources hk ht)
    (List.map_eq_nil_iff.not.mpr h.ne_nil) hn hs
  have ⟨hrk, hh⟩ := hash_returned ht hr
  have hkk : key ∈ keys := by
    have ⟨request, hq⟩ := List.exists_mem_of_ne_nil _ h.ne_nil
    have ⟨expert, he, _⟩ := hm request hq
    exact ht request hq key expert he
  rw [hc, List.map_map]
  exact List.mem_map.mpr ⟨row, hr, hk hrk hkk <| hh.symm.trans he⟩

theorem length_le (h : Traversal sha256 config filter requests)
    (hk : keys.InjOn (hashKey sha256)) (ht : ∀ request ∈ requests, request.state.Tracks keys) :
    requests.length ≤ Nat.card Hash + 1 := by
  have ⟨hf, _⟩ := h.pages
  simpa [sources] using length_le_card hf (nodup_sources hk ht)

theorem exists_response (h : Traversal sha256 config filter requests)
    (hk : keys.InjOn (hashKey sha256)) {cursor} (hc : lastCursor requests = some cursor) {now}
    {s : ExpertState φ} (ht : s.Tracks keys) :
    ∃ response, list sha256 config { filter with cursor := some cursor } now s = .ok response := by
  have ⟨_, _, hl⟩ := h.pages
  have ⟨_, ha⟩ := h.accepted
  have ⟨hash, _, hc⟩ := Option.map_eq_some_iff.mp <| hl.symm.trans hc
  rw [←hc]
  exact ⟨_, list_accepts filter (some hash) hk ht ha.model ha.limit⟩

end Traversal

-- The filters that the cursors are bound to.
def ExpertListFilter.scope (filter : ExpertListFilter) : Option String × Option ExpertTier :=
  (filter.modelId, filter.tier)

section Small

def smallKey (expertId : String) : ExpertKey :=
  ⟨"model", expertId⟩

def hashOfNat (n : Nat) : Hash :=
  ⟨.ofFn fun i => .ofNat (n / 256 ^ (31 - i.val))⟩

-- SHA-256 on the inputs of a small traversal.
def smallSha256 (bytes : List UInt8) : Hash :=
  if bytes = keyBytes (smallKey "a") then
    hashOfNat 0xaf980dcb2bd084e137a6e32b7377d808c6f8f5d1074e7d837492a82046d169cc
  else if bytes = keyBytes (smallKey "b") then
    hashOfNat 0x6b42f2b383b2c04ceb749cebbbe9beaf3b40ad8caa6fb5d39e078fc1f5c24566
  else if bytes = filterBytes none none then
    hashOfNat 0x3b852d7ee516de74aac828a9ceb70107b01cc6d3125f2a70af991a067eec752e
  else if bytes = filterBytes none (some .vram) then
    hashOfNat 0x7650cd0c2fdf88e93107e54af31ac08f3c3b7d71cf97c275875d04c7f8f2ed0f
  else
    hashOfNat 0

def smallFilter : ExpertListFilter where
  modelId := none
  tier    := none
  limit   := none
  cursor  := none

def smallState : ExpertState ℚ :=
  (observe smallConfig ⟨"model", "b", .ram, none⟩ 0
    (observe smallConfig ⟨"model", "a", .vram, some 10⟩ 0 .new).2).2

def smallSummary (expertId : String) (tier : ExpertTier) (bytes : Option Nat) : ExpertSummary ℚ where
  id             := expertId
  modelId        := "model"
  tier           := tier
  bytes          := bytes
  hotness        := 0
  pinned         := false
  lastUsedUnixMs := none

def smallCursor : String :=
  encodeCursor (hashFilter smallSha256 none none) (hashKey smallSha256 <| smallKey "b")

def smallRequests : List (Request ℚ) := [
  ⟨smallState, 1, ⟨[smallSummary "a" .vram <| some 10], none⟩⟩,
  ⟨smallState, 0, ⟨[smallSummary "b" .ram none], some smallCursor⟩⟩]

deriving instance DecidableEq for ExpertSummary, ExpertListResponse

theorem traversal_smallRequests : Traversal smallSha256 smallConfig smallFilter smallRequests :=
  .next (.first <| by decide +kernel) rfl <| by decide +kernel

theorem tracks_smallState : smallState.Tracks {smallKey "a", smallKey "b"} := by
  intro key expert h
  have hk : (smallState.rows smallConfig 0).map (·.key) = [smallKey "a", smallKey "b"] := by
    decide +kernel
  let row : ScoredCandidate ℚ :=
    ⟨key, expert, expert.decayedHotness 0 smallConfig.hotnessHalfLifeMillis⟩
  have hm : key ∈ (smallState.rows smallConfig 0).map (·.key) :=
    List.mem_map.mpr ⟨row, ExpertState.mem_rows.mpr ⟨h, rfl⟩, rfl⟩
  simpa [hk] using hm

end Small

end RuntimeControl.Experts
