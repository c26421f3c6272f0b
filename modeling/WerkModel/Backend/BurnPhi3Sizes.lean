import WerkModel.Lib.Attempt
import WerkModel.Lib.Checks

-- The sizes that Burn Phi-3 computes with: the checks of a configuration, the projections and the
-- rotary tables of the attention, and the cached keys and values.
open Attempt (check modify)
open Checks

namespace Backend.BurnPhi3.Sizes

inductive Fault
  | panic
  | error (text : String)
  deriving DecidableEq

-- The ranges of a projection, the part of a rotary table that is taken, and the number of keys that
-- are cached.
inductive Event
  | narrowed (ranges : List (Nat × Nat)) (width : Nat)
  | sliced (offset seq half rows columns : Nat)
  | cached (length offset seq : Nat)
  deriving DecidableEq

structure Phi3Config where
  vocabSize                     : Nat
  hiddenSize                    : Nat
  intermediateSize              : Nat
  numHiddenLayers               : Nat
  numAttentionHeads             : Nat
  numKeyValueHeads              : Nat
  maxPositionEmbeddings         : Nat
  originalMaxPositionEmbeddings : Option Nat
  -- What the factor makes of the size of a head.
  partialRotaryFactor           : Option (Nat → Nat)
  hasRopeScaling                : Bool
  hiddenAct                     : Option String

structure GenerateRequest where
  hasImages    : Bool
  promptLength : Nat
  maxTokens    : Nat

structure Phi3Model where
  numLayers   : Nat
  numHeads    : Nat
  numKvHeads  : Nat
  numKvGroups : Nat
  headDim     : Nat
  qkvWidth    : Nat
  rows        : Nat
  columns     : Nat

def quotient (a b : Nat) : Except Fault Nat :=
  if b = 0 then .error .panic else .ok (a / b)

def remainder (a b : Nat) : Except Fault Nat :=
  if b = 0 then .error .panic else .ok (a % b)

def ensurePhi3ConfigSupported (config : Phi3Config) : Except Fault PUnit := do
  let rest ← remainder config.hiddenSize config.numAttentionHeads
  ensure (rest = 0) (Fault.error "Phi-3 hidden_size must be divisible by num_attention_heads")
  ensure (config.vocabSize ≠ 0 ∧ config.hiddenSize ≠ 0 ∧ config.intermediateSize ≠ 0 ∧
      config.numHiddenLayers ≠ 0)
    (Fault.error "Phi-3 config has invalid zero-sized dimensions")
  let rest ← remainder config.numAttentionHeads config.numKeyValueHeads
  ensure (rest = 0)
    (Fault.error "Phi-3 num_attention_heads must be divisible by num_key_value_heads")
  ensure (config.hiddenAct.getD "silu" = "silu" ∨ config.hiddenAct.getD "silu" = "swish")
    (Fault.error ("Burn Phi-3 supports silu/swish activations only, got Some(" ++
      (config.hiddenAct.getD "silu").quote ++ ")"))
  ensure (config.hasRopeScaling = false ∧ config.originalMaxPositionEmbeddings = none)
    (Fault.error "Burn Phi-3 currently supports the 4K RoPE configuration only")

-- All layers have weights of the same shape.
def load (config : Phi3Config) (qkvWidth : Nat) : Except Fault Phi3Model := do
  ensurePhi3ConfigSupported config
  let numKvGroups ← quotient config.numAttentionHeads config.numKeyValueHeads
  let headDim ← quotient config.hiddenSize config.numAttentionHeads
  let rotary := config.partialRotaryFactor.elim headDim (· headDim)
  return {
    numLayers   := config.numHiddenLayers
    numHeads    := config.numAttentionHeads
    numKvHeads  := config.numKeyValueHeads
    numKvGroups := numKvGroups
    headDim     := headDim
    qkvWidth    := qkvWidth
    rows        := config.maxPositionEmbeddings
    columns     := rotary / 2
  }

section Forward

variable (m : Phi3Model)

def narrow (ranges : List (Nat × Nat)) : Attempt (List Event) Fault PUnit := do
  modify (· ++ [.narrowed ranges m.qkvWidth])
  check (ensure (ranges.all fun range => range.1 + range.2 ≤ m.qkvWidth) .panic)

-- A slice that is not in its table panics.
def slice (offset seq half : Nat) : Attempt (List Event) Fault PUnit := do
  modify (· ++ [.sliced offset seq half m.rows m.columns])
  check (ensure (offset + seq ≤ m.rows ∧ half ≤ m.columns) .panic)

-- From the table of cosines, and from the table of sines.
def applyRope (seq offset : Nat) : Attempt (List Event) Fault PUnit := do
  let half := m.headDim / 2
  slice m offset seq half
  slice m offset seq half
  -- As many values as stand at the even places are put beside them.
  check (ensure (2 * ((m.headDim + 1) / 2) = m.headDim) .panic)

-- The queries, the keys and the values in a projection.
def qkvRanges : List (Nat × Nat) :=
  let queryPos := m.numHeads * m.headDim
  let kvWidth := m.numKvHeads * m.headDim
  [(0, queryPos), (queryPos, kvWidth), (queryPos + kvWidth, kvWidth)]

-- The number of keys that a layer has cached grows by those of the input.
def attention (qLen seqlenOffset : Nat) (cache : Option Nat) :
    Attempt (List Event) Fault (Option Nat) := do
  narrow m (qkvRanges m)
  applyRope m qLen seqlenOffset
  applyRope m qLen seqlenOffset
  let length := cache.elim qLen (· + qLen)
  modify (· ++ [.cached length seqlenOffset qLen])
  return some length

-- One layer after the other.
def forward (qLen seqlenOffset : Nat) :
    List (Option Nat) → Attempt (List Event) Fault (List (Option Nat))
  | []              => return []
  | cache :: caches => do
    let cache ← attention m qLen seqlenOffset cache
    let caches ← forward qLen seqlenOffset caches
    return cache :: caches

-- A token that is drawn ends the text, or completes a stop string, or is fed to the model.
inductive Draw
  | eos
  | stop
  | next
  deriving DecidableEq

def decode (indexPos : Nat) (caches : List (Option Nat)) :
    List Draw → Attempt (List Event) Fault PUnit
  | .next :: draws => do
    let caches ← forward m 1 indexPos caches
    decode (indexPos + 1) caches draws
  | _              => return ⟨⟩

-- The draws are those of the passes of the loop.
def generate (request : GenerateRequest) (draws : Nat → Draw) :
    Attempt (List Event) Fault PUnit := do
  check (ensure (request.hasImages = false) (.error "Burn Phi-3 backend is text-only for now"))
  check (ensure (request.promptLength ≠ 0)
    (.error "Burn Phi-3 tokenizer produced no prompt tokens"))
  let caches ← forward m request.promptLength 0 (List.replicate m.numLayers none)
  decode m request.promptLength caches ((List.range request.maxTokens).map draws)

end Forward

def run (config : Phi3Config) (qkvWidth : Nat) (request : GenerateRequest) (draws : Nat → Draw) :
    Except Fault PUnit × List Event :=
  (do
    let m ← check (load config qkvWidth)
    generate m request draws : Attempt (List Event) Fault PUnit) []

-- The ranges follow each other up to the width.
def Tiles (start : Nat) : List (Nat × Nat) → Nat → Prop
  | [], width              => start = width
  | range :: ranges, width => range.1 = start ∧ Tiles (start + range.2) ranges width

def Event.Good : Event → Prop
  | .narrowed ranges width               => Tiles 0 ranges width
  | .sliced offset seq half rows columns => offset + seq ≤ rows ∧ half ≤ columns
  | .cached length offset seq            => length = offset + seq

-- Nothing panics, every slice is in its table, and what is refused is refused before any slice.
structure Safe (outcome : Except Fault PUnit × List Event) : Prop where
  runs    : outcome.1 ≠ .error .panic
  good    : ∀ event ∈ outcome.2, event.Good
  refused : ∀ text, outcome.1 = .error (.error text) → ∀ offset seq half rows columns,
    .sliced offset seq half rows columns ∉ outcome.2

namespace Phi3Config

variable (config : Phi3Config)

def headDim : Nat :=
  config.hiddenSize / config.numAttentionHeads

def rotary : Nat :=
  config.partialRotaryFactor.elim config.headDim (· config.headDim)

-- The width of a projection onto queries, keys and values.
def declaredWidth : Nat :=
  (config.numAttentionHeads + 2 * config.numKeyValueHeads) * config.headDim

-- What a configuration that is supported loads as.
def model (qkvWidth : Nat) : Phi3Model where
  numLayers   := config.numHiddenLayers
  numHeads    := config.numAttentionHeads
  numKvHeads  := config.numKeyValueHeads
  numKvGroups := config.numAttentionHeads / config.numKeyValueHeads
  headDim     := config.headDim
  qkvWidth    := qkvWidth
  rows        := config.maxPositionEmbeddings
  columns     := config.rotary / 2

-- No remainder by zero is taken before a check has failed.
def Decided : Prop :=
  config.numAttentionHeads ≠ 0 ∧ (config.hiddenSize % config.numAttentionHeads = 0 →
    config.vocabSize ≠ 0 ∧ config.hiddenSize ≠ 0 ∧ config.intermediateSize ≠ 0 ∧
      config.numHiddenLayers ≠ 0 → config.numKeyValueHeads ≠ 0)

structure Supported : Prop where
  heads      : config.numAttentionHeads ≠ 0
  divides    : config.hiddenSize % config.numAttentionHeads = 0
  positive   : config.vocabSize ≠ 0 ∧ config.hiddenSize ≠ 0 ∧ config.intermediateSize ≠ 0 ∧
    config.numHiddenLayers ≠ 0
  kvHeads    : config.numKeyValueHeads ≠ 0
  kvDivides  : config.numAttentionHeads % config.numKeyValueHeads = 0
  activation : config.hiddenAct.getD "silu" = "silu" ∨ config.hiddenAct.getD "silu" = "swish"
  rope       : config.hasRopeScaling = false ∧ config.originalMaxPositionEmbeddings = none

end Phi3Config

-- The number of drawn tokens that are fed to the model.
def steps (draws : List Draw) : Nat :=
  (draws.takeWhile (· = .next)).length

variable {config : Phi3Config} {m : Phi3Model} {qLen offset half : Nat} {cache : Option Nat}
variable {caches : List (Option Nat)} {events : List Event} {draws : List Draw}

section Loading

theorem ensure_of_not {p : Prop} [Decidable p] {fault : Fault} (h : ¬p) :
    ensure p fault = .error fault :=
  if_neg h

theorem remainder_bind_eq_ok {α : Type} {a b : Nat} {f : Nat → Except Fault α} {r : α} :
    (remainder a b >>= f) = .ok r ↔ b ≠ 0 ∧ f (a % b) = .ok r := by
  rw [remainder]
  split
  case isTrue h  => simp [h, bind, Except.bind]
  case isFalse h => simp [h, bind, Except.bind]

theorem ensureSupported_eq_ok :
    ensurePhi3ConfigSupported config = .ok ⟨⟩ ↔ config.Supported := by
  rw [ensurePhi3ConfigSupported, remainder_bind_eq_ok, ensure_bind_eq_ok, ensure_bind_eq_ok,
    remainder_bind_eq_ok, ensure_bind_eq_ok, ensure_bind_eq_ok, ensure_eq_ok]
  constructor
  case mp  => exact fun ⟨h₁, h₂, h₃, h₄, h₅, h₆, h₇⟩ => ⟨h₁, h₂, h₃, h₄, h₅, h₆, h₇⟩
  case mpr => exact fun h => ⟨h.1, h.2, h.3, h.4, h.5, h.6, h.7⟩

theorem ensure_bind_eq_panic {α : Type} {p : Prop} [Decidable p] {text : String}
    {f : PUnit → Except Fault α} :
    (ensure p (Fault.error text) >>= f) = .error .panic ↔ p ∧ f ⟨⟩ = .error .panic := by
  by_cases h : p
  case pos => simp [ensure, h, bind, Except.bind]
  case neg => simp [ensure, h, bind, Except.bind]

theorem remainder_bind_eq_panic {α : Type} {a b : Nat} {f : Nat → Except Fault α} :
    (remainder a b >>= f) = .error .panic ↔ (b ≠ 0 → f (a % b) = .error .panic) := by
  rw [remainder]
  split
  case isTrue h  => simp [h, bind, Except.bind]
  case isFalse h => simp [h, bind, Except.bind]

-- A configuration that is not decided panics, and no other does.
theorem ensureSupported_eq_panic :
    ensurePhi3ConfigSupported config = .error .panic ↔ ¬config.Decided := by
  rw [ensurePhi3ConfigSupported, remainder_bind_eq_panic, ensure_bind_eq_panic,
    ensure_bind_eq_panic, remainder_bind_eq_panic, ensure_bind_eq_panic, ensure_bind_eq_panic]
  have hlast : ensure (config.hasRopeScaling = false ∧
      config.originalMaxPositionEmbeddings = none) (Fault.error
        "Burn Phi-3 currently supports the 4K RoPE configuration only") ≠ .error .panic := by
    rw [ensure]
    split <;> simp
  rw [Phi3Config.Decided]
  tauto

theorem load_of_supported {qkvWidth : Nat} (h : config.Supported) :
    load config qkvWidth = .ok (config.model qkvWidth) := by
  rw [load, ensureSupported_eq_ok.mpr h]
  simp only [quotient, h.heads, h.kvHeads, if_false, bind, Except.bind]
  rfl

theorem load_of_not_supported {qkvWidth : Nat} (h : ¬config.Supported) (hd : config.Decided) :
    ∃ text, load config qkvWidth = .error (.error text) := by
  rw [load]
  cases hc : ensurePhi3ConfigSupported config
  case ok    => exact absurd (ensureSupported_eq_ok.mp hc) h
  case error fault =>
    cases fault
    case panic      => exact absurd hd (ensureSupported_eq_panic.mp hc)
    case error text => exact ⟨text, rfl⟩

theorem load_of_not_decided {qkvWidth : Nat} (h : ¬config.Decided) :
    load config qkvWidth = .error .panic := by
  rw [load, ensureSupported_eq_panic.mpr h]
  rfl

end Loading

section Running

-- The values of a head are paired, and the tables have a column for each pair.
structure Phi3Model.Paired (m : Phi3Model) : Prop where
  columns : m.headDim / 2 ≤ m.columns
  even    : 2 * ((m.headDim + 1) / 2) = m.headDim

-- The tables have a row for each token from the offset.
def Phi3Model.Holds (m : Phi3Model) (offset seq : Nat) : Prop :=
  offset + seq ≤ m.rows ∧ m.Paired

def Phi3Model.Declared (m : Phi3Model) : Prop :=
  m.qkvWidth = (m.numHeads + 2 * m.numKvHeads) * m.headDim

theorem Tiles.le {start width : Nat} {ranges : List (Nat × Nat)} (h : Tiles start ranges width) :
    start ≤ width ∧ ∀ range ∈ ranges, range.1 + range.2 ≤ width := by
  induction ranges generalizing start
  case nil => exact ⟨Nat.le_of_eq h, by simp⟩
  case cons range ranges hi =>
    have ⟨hstart, hrest⟩ := h
    have ⟨hle, hmem⟩ := hi hrest
    exact ⟨by omega, List.forall_mem_cons.mpr ⟨by omega, hmem⟩⟩

-- Ranges that tile the width can be taken from it.
theorem narrow_of_tiles {ranges : List (Nat × Nat)} (h : Tiles 0 ranges m.qkvWidth) :
    narrow m ranges events = (.ok ⟨⟩, events ++ [.narrowed ranges m.qkvWidth]) := by
  rw [narrow, Attempt.modify_bind]
  refine Prod.ext (ensure_eq_ok.mpr ?_) rfl
  simpa only [List.all_eq_true, decide_eq_true_eq] using h.le.2

theorem Phi3Model.Declared.tiles (hd : m.Declared) : Tiles 0 (qkvRanges m) m.qkvWidth := by
  have hw : m.numHeads * m.headDim + m.numKvHeads * m.headDim + m.numKvHeads * m.headDim =
      m.qkvWidth := by
    rw [hd]
    ring
  exact ⟨rfl, (Nat.zero_add _).symm, by rw [Nat.zero_add], by rw [Nat.zero_add]; exact hw⟩

-- The slices of a token, from each table.
def slices (m : Phi3Model) (offset seq : Nat) : List Event :=
  List.replicate 2 (.sliced offset seq (m.headDim / 2) m.rows m.columns)

theorem slices_good (h : m.Holds offset qLen) : ∀ event ∈ slices m offset qLen, event.Good := by
  intro event he
  rw [List.eq_of_mem_replicate he]
  exact ⟨h.1, h.2.columns⟩

theorem applyRope_of_holds (h : m.Holds offset qLen) :
    applyRope m qLen offset events = (.ok ⟨⟩, events ++ slices m offset qLen) := by
  have hs (events : List Event) : slice m offset qLen (m.headDim / 2) events =
      (.ok ⟨⟩, events ++ [.sliced offset qLen (m.headDim / 2) m.rows m.columns]) := by
    rw [slice, Attempt.modify_bind]
    exact Prod.ext (ensure_eq_ok.mpr ⟨h.1, h.2.columns⟩) rfl
  rw [applyRope, Attempt.bind_of_ok (hs events), Attempt.bind_of_ok (hs _), List.append_assoc]
  exact Prod.ext (ensure_eq_ok.mpr h.2.even) rfl

theorem applyRope_of_not_holds (h : ¬m.Holds offset qLen) :
    (applyRope m qLen offset events).1 = .error .panic := by
  by_cases hin : offset + qLen ≤ m.rows ∧ m.headDim / 2 ≤ m.columns
  case pos =>
    have hs (events : List Event) : slice m offset qLen (m.headDim / 2) events =
        (.ok ⟨⟩, events ++ [.sliced offset qLen (m.headDim / 2) m.rows m.columns]) := by
      rw [slice, Attempt.modify_bind]
      exact Prod.ext (ensure_eq_ok.mpr hin) rfl
    have he : ¬2 * ((m.headDim + 1) / 2) = m.headDim := fun he => h ⟨hin.1, hin.2, he⟩
    rw [applyRope, Attempt.bind_of_ok (hs events), Attempt.bind_of_ok (hs _)]
    exact if_neg he
  case neg =>
    have hs : slice m offset qLen (m.headDim / 2) events =
        (.error .panic, events ++ [.sliced offset qLen (m.headDim / 2) m.rows m.columns]) := by
      rw [slice, Attempt.modify_bind]
      exact Prod.ext (if_neg hin) rfl
    rw [applyRope, Attempt.bind_of_error hs]

theorem attention_of_holds (hd : m.Declared) (h : m.Holds offset qLen)
    (hc : cache.elim 0 id = offset) : ∃ added : List Event, (∀ event ∈ added, event.Good) ∧
      attention m qLen offset cache events = (.ok (some (offset + qLen)), events ++ added) := by
  have hl : cache.elim qLen (· + qLen) = offset + qLen := by
    cases cache
    case none   => rw [←hc]; exact (Nat.zero_add _).symm
    case some n => rw [←hc]; rfl
  have hg : (Event.cached (offset + qLen) offset qLen).Good := rfl
  refine ⟨[.narrowed (qkvRanges m) m.qkvWidth] ++ slices m offset qLen ++ slices m offset qLen ++
    [.cached (offset + qLen) offset qLen], ?_, ?_⟩
  case refine_1 =>
    simp only [List.forall_mem_append, List.forall_mem_singleton]
    exact ⟨⟨⟨hd.tiles, slices_good h⟩, slices_good h⟩, hg⟩
  case refine_2 =>
    rw [attention, Attempt.bind_of_ok (narrow_of_tiles hd.tiles),
      Attempt.bind_of_ok (applyRope_of_holds h), Attempt.bind_of_ok (applyRope_of_holds h),
      Attempt.modify_bind, hl]
    simp only [List.append_assoc]
    rfl

theorem attention_of_not_holds (hd : m.Declared) (h : ¬m.Holds offset qLen) :
    (attention m qLen offset cache events).1 = .error .panic := by
  rw [attention, Attempt.bind_of_ok (narrow_of_tiles hd.tiles),
    Attempt.bind_of_error (Prod.ext (applyRope_of_not_holds h) rfl)]

theorem forward_of_holds (hd : m.Declared) (h : m.Holds offset qLen)
    (hc : ∀ cache ∈ caches, cache.elim 0 id = offset) : ∃ added : List Event,
      (∀ event ∈ added, event.Good) ∧ forward m qLen offset caches events =
        (.ok (caches.map fun _ => some (offset + qLen)), events ++ added) := by
  induction caches generalizing events
  case nil => exact ⟨[], by simp, by rw [List.append_nil]; rfl⟩
  case cons cache caches hi =>
    have ⟨hc₁, hc₂⟩ := List.forall_mem_cons.mp hc
    have ⟨first, hf, he⟩ := @attention_of_holds m qLen offset cache events hd h hc₁
    have ⟨rest, hr, he'⟩ := @hi (events ++ first) hc₂
    refine ⟨first ++ rest, List.forall_mem_append.mpr ⟨hf, hr⟩, ?_⟩
    rw [forward, Attempt.bind_of_ok he, Attempt.bind_of_ok he', List.append_assoc]
    rfl

theorem forward_of_not_holds (hd : m.Declared) (h : ¬m.Holds offset qLen) (hn : caches ≠ []) :
    (forward m qLen offset caches events).1 = .error .panic := by
  obtain ⟨cache, caches, rfl⟩ := List.exists_cons_of_ne_nil hn
  rw [forward, Attempt.bind_of_error (Prod.ext (attention_of_not_holds hd h) rfl)]

-- Each token takes one more row of the tables.
theorem decode_of_holds (hd : m.Declared) (h : m.Holds offset (steps draws))
    (hc : ∀ cache ∈ caches, cache.elim 0 id = offset) : ∃ added : List Event,
      (∀ event ∈ added, event.Good) ∧
        decode m offset caches draws events = (.ok ⟨⟩, events ++ added) := by
  induction draws generalizing offset caches events
  case nil => exact ⟨[], by simp, by rw [List.append_nil]; rfl⟩
  case cons draw draws hi =>
    cases draw
    case eos  => exact ⟨[], by simp, by rw [List.append_nil]; rfl⟩
    case stop => exact ⟨[], by simp, by rw [List.append_nil]; rfl⟩
    case next =>
      have hs : steps (.next :: draws) = steps draws + 1 := rfl
      rw [hs] at h
      have h₁ : m.Holds offset 1 := ⟨by have := h.1; omega, h.2⟩
      have h₂ : m.Holds (offset + 1) (steps draws) := ⟨by have := h.1; omega, h.2⟩
      have ⟨first, hf, he⟩ := @forward_of_holds m 1 offset caches events hd h₁ hc
      have ⟨rest, hr, he'⟩ := @hi (offset + 1) (caches.map fun _ => some (offset + 1))
        (events ++ first) h₂ (by simp)
      refine ⟨first ++ rest, List.forall_mem_append.mpr ⟨hf, hr⟩, ?_⟩
      rw [decode, Attempt.bind_of_ok he, he', List.append_assoc]

theorem decode_of_not_holds (hd : m.Declared) (h : ¬m.Holds offset (steps draws))
    (hp : m.Paired) (hrows : offset ≤ m.rows) (hn : caches ≠ [])
    (hc : ∀ cache ∈ caches, cache.elim 0 id = offset) :
    (decode m offset caches draws events).1 = .error .panic := by
  induction draws generalizing offset caches events
  case nil => exact absurd ⟨hrows, hp⟩ h
  case cons draw draws hi =>
    cases draw
    case eos  => exact absurd ⟨hrows, hp⟩ h
    case stop => exact absurd ⟨hrows, hp⟩ h
    case next =>
      have hs : steps (.next :: draws) = steps draws + 1 := rfl
      rw [hs] at h
      rw [decode]
      by_cases h₁ : m.Holds offset 1
      case neg => rw [Attempt.bind_of_error (Prod.ext (forward_of_not_holds hd h₁ hn) rfl)]
      case pos =>
        have ⟨first, _, he⟩ := @forward_of_holds m 1 offset caches events hd h₁ hc
        rw [Attempt.bind_of_ok he]
        refine hi (fun h₂ => h ⟨?_, hp⟩) h₁.1 (by simpa using hn) (by simp)
        have := h₂.1
        omega

end Running

section Runs

theorem Safe.of_error {text : String} : Safe (.error (.error text), []) where
  runs    := by simp
  good    := by simp
  refused := by simp

-- What has been started fails in no other way than by a panic.
theorem generate_safe_iff {request : GenerateRequest} {answers : Nat → Draw} (hd : m.Declared)
    (hn : m.numLayers ≠ 0) : Safe (generate m request answers []) ↔
      (request.hasImages = false → request.promptLength ≠ 0 →
        m.Holds request.promptLength (steps ((List.range request.maxTokens).map answers))) := by
  rw [generate]
  by_cases hi : request.hasImages = false
  case neg =>
    rw [Attempt.check_bind_error (ensure_of_not hi)]
    exact ⟨fun _ h => absurd h hi, fun _ => .of_error⟩
  case pos =>
  rw [Attempt.check_bind (ensure_eq_ok.mpr hi)]
  by_cases hp : request.promptLength ≠ 0
  case neg =>
    rw [Attempt.check_bind_error (ensure_of_not hp)]
    exact ⟨fun _ _ h => absurd h hp, fun _ => .of_error⟩
  case pos =>
  rw [Attempt.check_bind (ensure_eq_ok.mpr hp)]
  set caches := List.replicate m.numLayers (none : Option Nat) with hcaches
  set list := (List.range request.maxTokens).map answers
  have hc : ∀ cache ∈ caches, cache.elim 0 id = 0 := by
    intro cache h
    rw [List.eq_of_mem_replicate h]
    rfl
  have hne : caches ≠ [] := by simpa [hcaches] using hn
  by_cases h₀ : m.Holds 0 request.promptLength
  case neg =>
    have hnot : ¬m.Holds request.promptLength (steps list) :=
      fun h => h₀ ⟨by have := h.1; omega, h.2⟩
    rw [Attempt.bind_of_error (Prod.ext (forward_of_not_holds hd h₀ hne) rfl)]
    exact ⟨fun h => absurd rfl h.runs, fun h => absurd (h hi hp) hnot⟩
  case pos =>
    have ⟨first, hf, he⟩ := @forward_of_holds m request.promptLength 0 caches [] hd h₀ hc
    rw [Attempt.bind_of_ok he]
    have hc' : ∀ cache ∈ caches.map fun _ => some (0 + request.promptLength),
        cache.elim 0 id = request.promptLength := by simp
    by_cases h : m.Holds request.promptLength (steps list)
    case pos =>
      have ⟨rest, hr, he'⟩ := @decode_of_holds m request.promptLength _ ([] ++ first) list hd h hc'
      rw [he']
      refine ⟨fun _ _ _ => h, fun _ => ⟨by simp, ?_, by simp⟩⟩
      exact List.forall_mem_append.mpr ⟨hf, hr⟩
    case neg =>
      have hrows : request.promptLength ≤ m.rows := by have := h₀.1; omega
      have hpanic := @decode_of_not_holds m request.promptLength _ ([] ++ first) list hd h h₀.2
        hrows (by simpa using hne) hc'
      exact ⟨fun hs => absurd hpanic hs.runs, fun hs => absurd (hs hi hp) h⟩

def tiny : Phi3Config where
  vocabSize                     := 8
  hiddenSize                    := 4
  intermediateSize              := 8
  numHiddenLayers               := 1
  numAttentionHeads             := 2
  numKeyValueHeads              := 1
  maxPositionEmbeddings         := 2
  originalMaxPositionEmbeddings := none
  partialRotaryFactor           := none
  hasRopeScaling                := false
  hiddenAct                     := none

end Runs

end Backend.BurnPhi3.Sizes
