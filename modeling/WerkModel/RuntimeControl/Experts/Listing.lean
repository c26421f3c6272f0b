import WerkModel.Lib.Pagination
import WerkModel.RuntimeControl.Base64
import WerkModel.RuntimeControl.Experts.Policy

-- The listing of experts, page by page in the order of their hashes.
open Std ExtTreeMap Pagination Saturating

namespace RuntimeControl.Experts

@[ext]
structure Hash where
  bytes : Vector UInt8 32
  deriving DecidableEq

namespace Hash

def digits (hash : Hash) : List Nat :=
  hash.bytes.toList.map UInt8.toNat

theorem digits_injective : Function.Injective digits := by
  intro a b h
  have hl := List.map_injective_iff.mpr (fun _ _ => UInt8.toNat_inj.mp) h
  exact Hash.ext <| Vector.toList_inj.mp hl

-- Hashes are ordered byte by byte.
instance : LinearOrder Hash :=
  .lift' digits digits_injective

instance : Finite Hash := by
  refine Finite.of_injective (fun hash (i : Fin 32) => hash.bytes[i]) fun a b h => ?_
  exact Hash.ext <| Vector.ext fun i hi => congrFun h ⟨i, hi⟩

end Hash

structure ExpertListFilter where
  modelId : Option String
  tier    : Option ExpertTier
  limit   : Option Nat
  cursor  : Option String

structure ExpertListResponse (φ : Type) where
  experts    : List (ExpertSummary φ)
  nextCursor : Option String

section Hashes

-- The hash function is a parameter.
variable (sha256 : List UInt8 → Hash)

def toBeBytes (n : Nat) : List UInt8 :=
  (List.range 8).map fun i => .ofNat (n / 256 ^ (7 - i))

def cursorDomain : List UInt8 :=
  utf8 "werk-expert-cursor-v1\x00"

def tierByte : Option ExpertTier → UInt8
  | none           => 0
  | some .vram     => 1
  | some .ram      => 2
  | some .external => 3

def filterBytes (modelId : Option String) (tier : Option ExpertTier) : List UInt8 :=
  let model :=
    match modelId with
    | some modelId => utf8 "model\x00" ++ toBeBytes modelId.utf8ByteSize ++ utf8 modelId
    | none         => utf8 "all-models\x00"
  cursorDomain ++ utf8 "filter\x00" ++ model ++ [tierByte tier]

def hashFilter (modelId : Option String) (tier : Option ExpertTier) : Hash :=
  sha256 <| filterBytes modelId tier

def keyBytes (key : ExpertKey) : List UInt8 :=
  cursorDomain ++ utf8 "key\x00" ++
    toBeBytes key.modelId.utf8ByteSize ++ utf8 key.modelId ++
    toBeBytes key.expertId.utf8ByteSize ++ utf8 key.expertId

def hashKey (key : ExpertKey) : Hash :=
  sha256 <| keyBytes key

end Hashes

def cursorBytes : Nat := 64

def encodeCursor (filterHash keyHash : Hash) : String :=
  Handoff.urlSafeNoPad (filterHash.bytes.toList ++ keyHash.bytes.toList)

def decodeCursor (cursor : String) (expectedFilterHash : Hash) :
    Except ExpertResidencyError Hash :=
  if cursor.utf8ByteSize > 128 then
    .error .invalidCursor
  else
    match decodeUrlSafeNoPad cursor with
    | none       => .error .invalidCursor
    | some bytes =>
      if h : bytes.length = cursorBytes ∧ bytes.take 32 = expectedFilterHash.bytes.toList then
        .ok ⟨⟨(bytes.drop 32).toArray, by simp [h.1, cursorBytes]⟩⟩
      else
        .error .invalidCursor

-- A cursor is bound to the filter it was issued for.
theorem decode_encodeCursor (filterHash keyHash expected : Hash) :
    decodeCursor (encodeCursor filterHash keyHash) expected =
      if filterHash = expected then .ok keyHash else .error .invalidCursor := by
  have hl : (encodeCursor filterHash keyHash).utf8ByteSize = 86 := by
    simp [encodeCursor, Handoff.utf8ByteSize_urlSafeNoPad]
  have hf : filterHash.bytes.toList.length = 32 := Vector.length_toList
  have hi : filterHash.bytes.toList = expected.bytes.toList ↔ filterHash = expected :=
    Vector.toList_inj.trans Hash.ext_iff.symm
  rw [decodeCursor, if_neg (by rw [hl]; decide), encodeCursor, decode_urlSafeNoPad]
  by_cases h : filterHash = expected
  case pos => simp [cursorBytes, h, Vector.toList]
  case neg => simp [cursorBytes, hi, h]

section List

variable {φ : Type} (sha256 : List UInt8 → Hash) (config : ExpertResidencyConfig φ)

def ExpertListFilter.Matches (filter : ExpertListFilter) (key : ExpertKey)
    (expert : TrackedExpert φ) : Prop :=
  (∀ wanted ∈ filter.modelId, wanted = key.modelId) ∧ ∀ tier ∈ filter.tier, tier = expert.tier

instance {filter key} : DecidablePred (ExpertListFilter.Matches (φ := φ) filter key) :=
  fun _ => inferInstanceAs <| Decidable (_ ∧ _)

def pageLimit (filter : ExpertListFilter) : Nat :=
  filter.limit.getD <| min config.defaultPageSize u16Max

def ValidLimit (filter : ExpertListFilter) : Prop :=
  0 < pageLimit config filter ∧ pageLimit config filter ≤ config.maxPageSize

def collides (rows : List (Hash × ExpertSummary φ)) : Bool :=
  (rows.zip rows.tail).any fun (row, next) => row.1 = next.1

-- The response with the page that starts after a hash.
def respond (sha256 : List UInt8 → Hash) (config : ExpertResidencyConfig φ)
    (filter : ExpertListFilter) (after : Option Hash) (rows : List (Hash × ExpertSummary φ)) :
    ExpertListResponse φ where
  experts    := (page Prod.fst (pageLimit config filter) after rows).map Prod.snd
  nextCursor := (next Prod.fst (pageLimit config filter) after rows).map <|
    encodeCursor (hashFilter sha256 filter.modelId filter.tier)

-- A request is accepted if its model, its limit and its cursor are.
structure Accepted (sha256 : List UInt8 → Hash) (config : ExpertResidencyConfig φ)
    (filter : ExpertListFilter) (after : Option Hash) : Prop where
  model : filter.modelId.forM validateModelId = .ok ()
  limit : ValidLimit config filter
  after : filter.cursor.mapM (fun cursor =>
    decodeCursor cursor <| hashFilter sha256 filter.modelId filter.tier) = .ok after

section Pages

variable {sha256 config} {filter : ExpertListFilter} {after k : Option Hash}
variable {rows : List (Hash × ExpertSummary φ)}

@[simp]
theorem respond_experts {after} : (respond sha256 config filter after rows).experts =
    (page Prod.fst (pageLimit config filter) after rows).map Prod.snd :=
  rfl

@[simp]
theorem respond_nextCursor {after} : (respond sha256 config filter after rows).nextCursor =
    (next Prod.fst (pageLimit config filter) after rows).map
      (encodeCursor <| hashFilter sha256 filter.modelId filter.tier) :=
  rfl

theorem respond_eq {after} : respond sha256 config filter after rows =
    let rest := remaining Prod.fst after rows
    let page := rest.take <| pageLimit config filter
    { experts    := page.map Prod.snd
      nextCursor :=
        if rest.length > pageLimit config filter then
          page.getLast?.map fun row =>
            encodeCursor (hashFilter sha256 filter.modelId filter.tier) row.1
        else
          none } := by
  simp only [respond, page, next, apply_ite (Option.map _), Option.map_map, Option.map_none]
  rfl

theorem not_collides (h : (rows.map Prod.fst).Nodup) : collides rows = false := by
  induction rows
  case nil => rfl
  case cons row rows hi =>
    have ⟨hn, ht⟩ := List.nodup_cons.mp h
    cases rows
    case nil => rfl
    case cons next rows =>
      have he : collides (row :: next :: rows) = (row.1 = next.1 || collides (next :: rows)) := rfl
      have hr : row.1 ≠ next.1 := fun hr => hn <| hr ▸ List.mem_cons_self
      rw [he, hi ht]
      simpa using hr

theorem Accepted.after_eq
    (h : Accepted sha256 config { filter with
      cursor := after.map <| encodeCursor (hashFilter sha256 filter.modelId filter.tier) } k) :
    k = after := by
  have ha := h.after
  cases after
  case none      => exact (Except.ok.inj ha).symm
  case some hash =>
    simp only [Option.map_some, Option.mapM_some, decode_encodeCursor, if_true] at ha
    exact (Except.ok.inj ha).symm

end Pages

variable [Score φ]

-- The rows that match a filter, with the hashes of their keys.
def hashedRows (filter : ExpertListFilter) (now : Nat) (s : ExpertState φ) :
    List (Hash × ExpertSummary φ) :=
  ((s.rows config now).filter fun row => filter.Matches row.key row.expert).map fun row =>
    (hashKey sha256 row.key, row.expert.summary row.key now config.hotnessHalfLifeMillis)

def list (filter : ExpertListFilter) (now : Nat) (s : ExpertState φ) :
    Except ExpertResidencyError (ExpertListResponse φ) := do
  filter.modelId.forM validateModelId
  let limit := pageLimit config filter
  if limit = 0 ∨ limit > config.maxPageSize then
    .error <| .invalidLimit "page" config.maxPageSize
  else
    let filterHash := hashFilter sha256 filter.modelId filter.tier
    let after ← filter.cursor.mapM fun cursor => decodeCursor cursor filterHash
    let rows := remaining Prod.fst after <| hashedRows sha256 config filter now s
    if collides rows then
      .error .cursorCollision
    else
      let page := rows.take limit
      .ok {
        experts    := page.map Prod.snd
        nextCursor :=
          if rows.length > limit then
            page.getLast?.map fun row => encodeCursor filterHash row.1
          else
            none }

variable {sha256 config} {filter : ExpertListFilter} {now : Nat} {s : ExpertState φ}
variable {response : ExpertListResponse φ}

theorem list_eq_ok : list sha256 config filter now s = .ok response ↔
    ∃ after, Accepted sha256 config filter after ∧
      collides (remaining Prod.fst after <| hashedRows sha256 config filter now s) = false ∧
      response = respond sha256 config filter after (hashedRows sha256 config filter now s) := by
  rw [list]
  constructor
  case mp =>
    intro h
    cases hm : filter.modelId.forM validateModelId
    case error => simp [hm, bind, Except.bind] at h
    case ok =>
      simp only [hm, bind, Except.bind] at h
      split at h
      case isTrue     => cases h
      case isFalse hl =>
        cases ha : filter.cursor.mapM fun cursor =>
          decodeCursor cursor <| hashFilter sha256 filter.modelId filter.tier
        case error    => simp [ha] at h
        case ok after =>
          simp only [ha] at h
          split at h
          case isTrue     => cases h
          case isFalse hc =>
            refine ⟨after, ⟨hm, by rw [ValidLimit]; omega, ha⟩, by simpa using hc, ?_⟩
            exact respond_eq ▸ (Except.ok.inj h).symm
  case mpr =>
    intro ⟨after, ⟨hm, hl, ha⟩, hc, hr⟩
    simp only [hm, ha, bind, Except.bind]
    rw [if_neg (by rw [ValidLimit] at hl; omega), if_neg (by simp [hc]), hr, respond_eq]

variable {keys : Set ExpertKey}

-- The keys of the tracked experts.
def ExpertState.Tracks (keys : Set ExpertKey) (s : ExpertState φ) : Prop :=
  ∀ key expert, s.lookup key = some expert → key ∈ keys

theorem mem_hashedRows {hash summary} : (hash, summary) ∈ hashedRows sha256 config filter now s ↔
    ∃ key expert, s.lookup key = some expert ∧ filter.Matches key expert ∧
      hash = hashKey sha256 key ∧
      summary = expert.summary key now config.hotnessHalfLifeMillis := by
  simp only [hashedRows, List.mem_map, List.mem_filter, ExpertState.mem_rows, decide_eq_true_eq]
  constructor
  case mp  =>
    intro ⟨row, ⟨⟨hl, _⟩, hm⟩, h⟩
    cases h
    exact ⟨_, _, hl, hm, rfl, rfl⟩
  case mpr =>
    intro ⟨key, expert, hl, hm, hh, hs⟩
    let hotness := expert.decayedHotness now config.hotnessHalfLifeMillis
    exact ⟨⟨key, expert, hotness⟩, ⟨⟨hl, rfl⟩, hm⟩, by rw [hh, hs]⟩

def ExpertSummary.key (summary : ExpertSummary φ) : ExpertKey :=
  ⟨summary.modelId, summary.id⟩

theorem hash_hashedRows {row} (ht : s.Tracks keys)
    (h : row ∈ hashedRows sha256 config filter now s) :
    row.2.key ∈ keys ∧ row.1 = hashKey sha256 row.2.key := by
  have ⟨key, expert, hl, _, hh, hs⟩ := mem_hashedRows.mp h
  have he : row.2.key = key := hs ▸ rfl
  exact he ▸ ⟨ht _ _ hl, hh⟩

theorem nodup_hashedRows (hk : keys.InjOn (hashKey sha256)) (ht : s.Tracks keys) :
    ((hashedRows sha256 config filter now s).map Prod.fst).Nodup := by
  have hr (row) (h : row ∈ s.rows config now) : row.key ∈ keys :=
    ht _ _ (ExpertState.mem_rows.mp h).1
  have hn : (s.rows config now).Pairwise fun a b => a.key ≠ b.key :=
    List.pairwise_map.mp ExpertState.nodup_rows
  rw [hashedRows, List.map_map]
  refine List.pairwise_map.mpr <| (hn.imp_of_mem fun ha hb hne he => hne ?_).filter _
  exact hk (hr _ ha) (hr _ hb) he

-- The page after an issued cursor.
theorem list_issued (after : Option Hash)
    (h : list sha256 config { filter with
      cursor := after.map <| encodeCursor (hashFilter sha256 filter.modelId filter.tier) } now s =
      .ok response) :
    response = respond sha256 config filter after (hashedRows sha256 config filter now s) := by
  have ⟨_, ha, _, hr⟩ := list_eq_ok.mp h
  exact ha.after_eq ▸ hr

theorem list_accepts (filter : ExpertListFilter) (after : Option Hash) (hk : keys.InjOn (hashKey sha256)) (ht : s.Tracks keys)
    (hm : filter.modelId.forM validateModelId = .ok ())
    (hl : ValidLimit config filter) :
    list sha256 config { filter with
      cursor := after.map <| encodeCursor (hashFilter sha256 filter.modelId filter.tier) } now s =
      .ok (respond sha256 config filter after (hashedRows sha256 config filter now s)) := by
  refine list_eq_ok.mpr ⟨after, ⟨hm, hl, ?_⟩, ?_, rfl⟩
  · cases after
    case none => rfl
    case some =>
      simp only [Option.map_some, Option.mapM_some, decode_encodeCursor, if_true]
      rfl
  · exact not_collides <| nodup_remaining _ <| nodup_hashedRows hk ht

theorem list_rejects {hash : Hash} {other : ExpertListFilter}
    (hc : other.cursor = some (encodeCursor (hashFilter sha256 filter.modelId filter.tier) hash))
    (hne : hashFilter sha256 filter.modelId filter.tier ≠
      hashFilter sha256 other.modelId other.tier) :
    list sha256 config other now s ≠ .ok response := by
  intro h
  have ⟨_, ha, _⟩ := list_eq_ok.mp h
  have ha := ha.after
  simp only [hc, Option.mapM_some, decode_encodeCursor, if_neg hne] at ha
  cases ha

end List

end RuntimeControl.Experts
