import WerkModel.Backend.LlamaFast

-- The cache of a session holds its tokens, and each token is sampled from the logits of the last
-- one before it, as long as no batch fails after another one of the same tokens.
open Checks

namespace Backend.LlamaFast

variable {τ : Type}

section Cells

variable {tokens batch : List τ} {position n : Nat} {cell : Nat × τ}

theorem mem_batchCells : cell ∈ batchCells batch position ↔
    position ≤ cell.1 ∧ batch[cell.1 - position]? = some cell.2 := by
  obtain ⟨i, token⟩ := cell
  rw [batchCells, Multiset.mem_coe, List.mem_map]
  constructor
  case mp =>
    rintro ⟨⟨_, _⟩, h, he⟩
    obtain ⟨rfl, rfl⟩ := Prod.mk.inj he
    exact List.mem_zipIdx_iff_le_and_getElem?_sub.mp h
  case mpr => exact fun h => ⟨(token, i), List.mem_zipIdx_iff_le_and_getElem?_sub.mpr h, rfl⟩

theorem lt_of_mem_cellsOf (h : cell ∈ cellsOf tokens) : cell.1 < tokens.length :=
  (List.getElem?_eq_some_iff.mp (mem_batchCells.mp h).right).choose

theorem cellsOf_append : cellsOf (tokens ++ batch) =
    cellsOf tokens + batchCells batch tokens.length := by
  rw [cellsOf, batchCells, List.zipIdx_append, List.map_append, ←Multiset.coe_add, Nat.zero_add]
  rfl

theorem filter_lt_cellsOf (h : n ≤ tokens.length) :
    (cellsOf tokens).filter (·.1 < n) = cellsOf (tokens.take n) := by
  have hn : (tokens.take n).length = n := by rw [List.length_take, min_eq_left h]
  conv_lhs => rw [←List.take_append_drop n tokens, cellsOf_append, hn]
  rw [Multiset.filter_add, Multiset.filter_eq_self.mpr, Multiset.filter_eq_nil.mpr, add_zero]
  · exact fun cell hc hlt => Nat.not_lt_of_le (mem_batchCells.mp hc).left hlt
  · exact fun cell hc => hn ▸ lt_of_mem_cellsOf hc

end Cells

-- The logits of the last token of a sequence.
def lastLogits (sequence : List τ) : Logits τ :=
  logitsOf (cellsOf sequence) (sequence.length - 1)

section Advance

variable {params : Params τ} {s s' s₀ : Session τ} {tokens done chunk batch : List τ}
variable {chunks : List (List τ)} {status : Nat → Int} {total index : Nat} {failure : String}
variable {code : Int} {last : Bool} {position : Nat}

-- The cache has only been written below the size of the context, and only the logits of the last
-- token have been sampled.
def Event.Sound (params : Params τ) : Event τ → Prop
  | .decoded position length => position + length ≤ params.nCtx
  | .sampled logits sequence => logits = lastLogits sequence

structure Mirrors (params : Params τ) (s : Session τ) : Prop where
  cells  : s.native.cells = cellsOf s.tokens
  bound  : s.tokens.length ≤ params.nCtx
  events : ∀ event ∈ s.events, event.Sound params

-- The logits that are sampled next, if there are any.
def Fresh (s : Session τ) : Prop :=
  ∀ logits, s.logits = some logits → logits = lastLogits s.tokens

theorem decode_ok (hl : batch.length ≤ params.nBatch) :
    s.decode params 0 batch position last failure = (.ok (), { s with
      native        := s.native.decode batch position last
      lastBatchSize := batch.length
      events        := s.events ++ [.decoded position batch.length]
    }) := by
  rw [Session.decode, if_neg (Nat.not_lt_of_le hl), if_neg (by simp)]

theorem decode_error (hc : code ≠ 0) : ∃ error,
    s.decode params code batch position last failure = (.error error, s) := by
  rw [Session.decode]
  split <;> exact ⟨_, rfl⟩

-- The logits after a batch that asks for those of its last token.
theorem logits_decode {native : Native τ} {events : List (Event τ)} (hb : batch ≠ []) :
    Session.logits {
      native        := native.decode batch position true
      tokens        := tokens
      lastBatchSize := batch.length
      events        := events
    } = some (logitsOf (native.cells + batchCells batch position)
      (position + batch.length - 1)) := by
  have hl := List.length_pos_of_ne_nil hb
  have he : batch.length - 1 + 1 = batch.length := Nat.sub_add_cancel hl
  have hlt : batch.length - 1 < batch.length := by omega
  simp only [Session.logits, Native.decode, List.getElem?_map, List.getElem?_range hlt,
    Option.map_some, he, BEq.rfl, Bool.and_true, if_true, Option.join_some]
  rw [Nat.add_sub_assoc hl]

-- A session that has decoded some of the tokens that it advances by.
structure Advancing (params : Params τ) (s₀ : Session τ) (total : Nat) (done : List τ)
    (s : Session τ) : Prop where
  tokens : s.tokens = s₀.tokens
  cells  : s.native.cells = cellsOf (s₀.tokens ++ done)
  events : ∀ event ∈ s.events, event.Sound params
  logits : done ≠ [] → done.length = total → s.lastBatchSize ≠ 0 ∧
    s.logits = some (lastLogits (s₀.tokens ++ done))

theorem Advancing.decode (ha : Advancing params s₀ total done s) (hc : chunk ≠ [])
    (hb : s₀.tokens.length + total ≤ params.nCtx) (ht : done.length + chunk.length ≤ total) :
    Advancing params s₀ total (done ++ chunk) { s with
      native        := s.native.decode chunk (s.tokens.length + done.length)
        (done.length + chunk.length = total)
      lastBatchSize := chunk.length
      events        := s.events ++ [.decoded (s.tokens.length + done.length) chunk.length]
    } := by
  have hcells : s.native.cells + batchCells chunk (s.tokens.length + done.length) =
      cellsOf (s₀.tokens ++ (done ++ chunk)) := by
    rw [ha.cells, ha.tokens, ←List.length_append, ←cellsOf_append, List.append_assoc]
  refine ⟨ha.tokens, hcells, fun event hm => ?_, fun _ htotal => ?_⟩
  case refine_1 =>
    obtain hm | hm := List.mem_append.mp hm
    · exact ha.events event hm
    · obtain rfl := List.mem_singleton.mp hm
      rw [Event.Sound, ha.tokens]
      omega
  case refine_2 =>
    rw [List.length_append] at htotal
    refine ⟨(List.length_pos_of_ne_nil hc).ne', ?_⟩
    simp only [htotal, decide_true]
    rw [logits_decode hc, hcells, lastLogits, ha.tokens]
    simp [Nat.add_assoc]

theorem advanceBatches_ok (ha : Advancing params s₀ total done s)
    (hb : s₀.tokens.length + total ≤ params.nCtx) (ht : (done ++ chunks.flatten).length = total)
    (hc : ∀ chunk ∈ chunks, chunk ≠ [] ∧ chunk.length ≤ params.nBatch)
    (hs : ∀ i < chunks.length, status (index + i) = 0) :
    ∃ s', s.advanceBatches params status total index done.length chunks = (.ok (), s') ∧
      Advancing params s₀ total (done ++ chunks.flatten) s' := by
  induction chunks generalizing s done index
  case nil => exact ⟨s, rfl, by rwa [List.flatten_nil, List.append_nil]⟩
  case cons chunk chunks hi =>
    obtain ⟨hne, hle⟩ := hc chunk List.mem_cons_self
    rw [List.flatten_cons, ←List.append_assoc] at ht ⊢
    have hstep := ha.decode hne hb (by rw [List.length_append, List.length_append] at ht; omega)
    have hs' (i : Nat) (hlt : i < chunks.length) : status (index + 1 + i) = 0 := by
      rw [Nat.add_assoc, Nat.add_comm 1]
      exact hs (i + 1) (Nat.succ_lt_succ hlt)
    obtain ⟨s', hr, h'⟩ := hi hstep ht (fun c h => hc c (List.mem_cons_of_mem _ h)) hs'
    refine ⟨s', ?_, h'⟩
    rw [Session.advanceBatches, show status index = 0 from hs 0 (Nat.succ_pos _), decode_ok hle]
    rw [List.length_append] at hr
    exact hr

theorem advanceBatches_error (hs : status index ≠ 0) (hc : chunks ≠ []) : ∃ error,
    s.advanceBatches params status total index position chunks = (.error error, s) := by
  cases chunks
  case nil => exact absurd rfl hc
  case cons chunk chunks =>
    obtain ⟨error, he⟩ : ∃ error, s.decode params (status index) chunk (s.tokens.length + position)
        (position + chunk.length = total) "llama.cpp prompt decode failed with status " =
        (.error error, s) := decode_error hs
    exact ⟨error, by rw [Session.advanceBatches, he]⟩

-- Either the first batch fails, or none does.
def Whole (params : Params τ) (status : Nat → Int) (tokens : List τ) : Prop :=
  status 0 ≠ 0 ∨ ∀ i, i * params.nBatch < tokens.length → status i = 0

theorem advance_error (hn : 0 < params.nBatch) (hne : tokens ≠ []) (hs : status 0 ≠ 0) :
    ∃ error, s.advancePromptTokens params status tokens = (.error error, s) := by
  have hflat : (Chunks.of params.nBatch tokens).flatten = tokens := Chunks.flatten_of hn
  have hc : Chunks.of params.nBatch tokens ≠ [] := by
    intro h
    rw [h] at hflat
    exact hne hflat.symm
  obtain ⟨error, he⟩ : ∃ error, s.advanceBatches params status tokens.length 0 0
      (Chunks.of params.nBatch tokens) = (.error error, s) := advanceBatches_error hs hc
  rw [Session.advancePromptTokens, if_neg (by simpa using hne), max_eq_left hn, he]
  exact ⟨error, rfl⟩

theorem Mirrors.advance (hm : Mirrors params s) (hn : 0 < params.nBatch) (hne : tokens ≠ [])
    (hb : s.tokens.length + tokens.length ≤ params.nCtx) (hw : Whole params status tokens) :
    (∃ error, s.advancePromptTokens params status tokens = (.error error, s)) ∨
    ∃ s', s.advancePromptTokens params status tokens = (.ok (), s') ∧ Mirrors params s' ∧
      s'.tokens = s.tokens ++ tokens ∧ s'.lastBatchSize ≠ 0 ∧ Fresh s' := by
  obtain hstatus | hstatus := hw
  case inl => exact .inl (advance_error hn hne hstatus)
  case inr =>
    have hflat : (Chunks.of params.nBatch tokens).flatten = tokens := Chunks.flatten_of hn
    rw [Session.advancePromptTokens, if_neg (by simpa using hne), max_eq_left hn]
    have ha : Advancing params s tokens.length [] s :=
      ⟨rfl, by rw [hm.cells, List.append_nil], hm.events, fun h => absurd rfl h⟩
    have hc (chunk : List τ) (h : chunk ∈ Chunks.of params.nBatch tokens) :=
      Chunks.mem_of hn h
    have hs (i : Nat) (h : i < (Chunks.of params.nBatch tokens).length) : status (0 + i) = 0 := by
      rw [Nat.zero_add]
      exact hstatus i ((Chunks.lt_length_of hn).mp h)
    obtain ⟨s', hr, h'⟩ := advanceBatches_ok ha hb (by rw [List.nil_append, hflat]) hc hs
    rw [List.nil_append, hflat] at h'
    obtain ⟨hlast, hlogits⟩ := h'.logits hne rfl
    have ht : s'.tokens ++ tokens = s.tokens ++ tokens := congrArg (· ++ tokens) h'.tokens
    rw [List.length_nil] at hr
    refine .inr ⟨{ s' with tokens := s'.tokens ++ tokens }, by rw [hr], ⟨?_, ?_, h'.events⟩, ht,
      hlast, fun logits hl => ?_⟩
    · exact ht ▸ h'.cells
    · exact ht ▸ List.length_append ▸ hb
    · exact ht ▸ Option.some.inj (hl.symm.trans hlogits)

end Advance

variable [DecidableEq τ]

section SharedPrefix

variable {previous next : List τ}

theorem sharedPrefixLen_spec (previous next : List τ) :
    sharedPrefixLen previous next ≤ previous.length ∧
    sharedPrefixLen previous next ≤ next.length ∧
    previous.take (sharedPrefixLen previous next) = next.take (sharedPrefixLen previous next) := by
  induction previous generalizing next
  case nil => simp [sharedPrefixLen]
  case cons a previous hi =>
    cases next
    case nil => simp [sharedPrefixLen]
    case cons b next =>
      by_cases h : a = b
      case neg => simp [sharedPrefixLen, List.findIdx?_cons, h]
      case pos =>
        have hs : sharedPrefixLen (a :: previous) (b :: next) =
            sharedPrefixLen previous next + 1 := by
          rw [sharedPrefixLen, sharedPrefixLen, List.zip_cons_cons, List.findIdx?_cons,
            if_neg (by simpa using h)]
          cases (previous.zip next).findIdx? fun pair => pair.1 ≠ pair.2
          case none => simp
          case some => rfl
        obtain ⟨hp, hn, ht⟩ := @hi next
        rw [hs]
        exact ⟨Nat.succ_le_succ hp, Nat.succ_le_succ hn, by simp [ht, h]⟩

end SharedPrefix

section Generate

variable {params : Params τ} {s s' : Session τ} {tokens promptTokens : List τ}
variable {request : Request τ} {advance : Advance}

-- The cache can be trimmed for the prompt, or need not be.
def Trimmed (s : Session τ) (advance : Advance) (promptTokens : List τ) : Prop :=
  sharedPrefixLen s.tokens promptTokens < s.tokens.length → advance.trims = true

structure Ready (params : Params τ) (s : Session τ) : Prop where
  mirrors : Mirrors params s
  fresh   : s.lastBatchSize ≠ 0 → Fresh s

theorem Ready.trim (h : Ready params s) :
    (∃ error, s.trim promptTokens advance.trims = (.error error, s)) ∨
    ∃ s', s.trim promptTokens advance.trims = (.ok (), s') ∧ Trimmed s advance promptTokens ∧
      Ready params s' ∧ s'.tokens = promptTokens.take (sharedPrefixLen s.tokens promptTokens) := by
  obtain ⟨hp, hn, ht⟩ := sharedPrefixLen_spec s.tokens promptTokens
  rw [Session.trim, Trimmed]
  split
  case isFalse hlt =>
    refine .inr ⟨s, rfl, fun h => absurd h hlt, h, ?_⟩
    rw [←ht, List.take_of_length_le (Nat.le_of_not_lt hlt)]
  case isTrue hlt =>
    cases hs : advance.trims
    case false => exact .inl ⟨_, rfl⟩
    case true =>
      refine .inr ⟨_, rfl, fun _ => rfl, ⟨⟨?_, ?_, h.mirrors.events⟩, fun hne => absurd rfl hne⟩, ht⟩
      · simp only [Native.seqRm, h.mirrors.cells]
        exact filter_lt_cellsOf hp
      · exact (List.length_take_le' _ _).trans h.mirrors.bound

omit [DecidableEq τ] in
theorem whole_singleton {token : τ} (hn : 0 < params.nBatch) (status : Nat → Int) :
    Whole params status [token] := by
  by_cases h : status 0 = 0
  case neg => exact .inl h
  case pos =>
    refine .inr fun i hi => ?_
    cases i
    case zero   => exact h
    case succ i =>
      rw [List.length_singleton, Nat.succ_mul] at hi
      omega

omit [DecidableEq τ] in
theorem Ready.refresh (h : Ready params s) (advance : Advance) (hn : 0 < params.nBatch) (hne : s.tokens ≠ [])
    (hz : s.lastBatchSize = 0) :
    (∃ error s', s.refreshLogitsFromLastToken params advance = (.error error, s') ∧
      Ready params s') ∨
    ∃ s', s.refreshLogitsFromLastToken params advance = (.ok (), s') ∧ Mirrors params s' ∧
      s'.tokens = s.tokens ∧ s'.lastBatchSize ≠ 0 ∧ Fresh s' := by
  have hl := List.length_pos_of_ne_nil hne
  rw [Session.refreshLogitsFromLastToken, List.getLast?_eq_some_getLast hne]
  cases hs : advance.refreshes
  case false => exact .inl ⟨_, s, rfl, h⟩
  case true =>
    let position := s.tokens.length - 1
    let trimmed : Session τ :=
      { s with native := s.native.seqRm position, tokens := s.tokens.take position }
    have hm : Mirrors params trimmed := by
      refine ⟨?_, (List.length_take_le' _ _).trans h.mirrors.bound, h.mirrors.events⟩
      simp only [trimmed, Native.seqRm, h.mirrors.cells]
      exact filter_lt_cellsOf (Nat.sub_le _ _)
    have htokens : trimmed.tokens ++ [s.tokens.getLast hne] = s.tokens := by
      simp only [trimmed, position, ←List.dropLast_eq_take]
      exact List.dropLast_append_getLast hne
    have hb : trimmed.tokens.length + [s.tokens.getLast hne].length ≤ params.nCtx := by
      rw [←List.length_append, htokens]
      exact h.mirrors.bound
    obtain ⟨error, he⟩ | ⟨s', hr, hm', ht, hlast, hf⟩ :=
      hm.advance hn (List.cons_ne_nil _ _) hb (whole_singleton hn advance.status)
    case inl => exact .inl ⟨error, trimmed, by simpa using he, hm, fun hne => absurd hz hne⟩
    case inr => exact .inr ⟨s', by simpa using hr, hm', ht.trans htokens, hlast, hf⟩

-- How the batches of a prompt may end for the cache to hold its tokens.
def Steady (params : Params τ) (s : Session τ) (advance : Advance) (promptTokens : List τ) : Prop :=
  Trimmed s advance promptTokens → Whole params advance.status (s.newTokens promptTokens)

theorem Ready.setContext (h : Ready params s) (hn : 0 < params.nBatch) (hne : promptTokens ≠ [])
    (hb : promptTokens.length ≤ params.nCtx) (hs : Steady params s advance promptTokens) :
    (∃ error s', s.setContextToTokens params advance promptTokens = (.error error, s') ∧
      Ready params s') ∨
    ∃ n s', s.setContextToTokens params advance promptTokens = (.ok n, s') ∧ Mirrors params s' ∧
      s'.tokens = promptTokens ∧ s'.lastBatchSize ≠ 0 ∧ Fresh s' := by
  rw [Session.setContextToTokens]
  obtain ⟨error, he⟩ | ⟨t, hr, htrim, ht, htokens⟩ := h.trim
  case inl => exact .inl ⟨error, s, by rw [he], h⟩
  case inr =>
    have hall : t.tokens ++ s.newTokens promptTokens = promptTokens := by
      rw [htokens, Session.newTokens, List.take_append_drop]
    simp only [hr]
    by_cases hz : s.newTokens promptTokens = [] ∧ t.lastBatchSize = 0
    case pos =>
      rw [if_pos hz]
      obtain ⟨hnew, hz⟩ := hz
      have hall : t.tokens = promptTokens := by rwa [hnew, List.append_nil] at hall
      obtain ⟨error, s', he, h'⟩ | ⟨s', he, hm, hs', hlast, hf⟩ :=
        ht.refresh advance hn (hall ▸ hne) hz
      · exact .inl ⟨error, s', by rw [he], h'⟩
      · exact .inr ⟨_, s', by rw [he], hm, hs'.trans hall, hlast, hf⟩
    case neg =>
      rw [if_neg hz]
      by_cases hnew : s.newTokens promptTokens = []
      case pos =>
        have hall : t.tokens = promptTokens := by rwa [hnew, List.append_nil] at hall
        have hlast : t.lastBatchSize ≠ 0 := fun h => hz ⟨hnew, h⟩
        exact .inr ⟨_, t, by rw [hnew]; rfl, ht.mirrors, hall, hlast, ht.fresh hlast⟩
      case neg =>
        obtain ⟨error, he⟩ | ⟨s', he, hm, hs', hlast, hf⟩ :=
          ht.mirrors.advance hn hnew (by rwa [←List.length_append, hall]) (hs htrim)
        · exact .inl ⟨error, t, by rw [he], ht⟩
        · exact .inr ⟨_, s', by rw [he], hm, hs'.trans hall, hlast, hf⟩

omit [DecidableEq τ] in
theorem Mirrors.decodeGenerated (hm : Mirrors params s) (status : Int) (token : τ)
    (hn : 0 < params.nBatch) (hlt : s.tokens.length < params.nCtx) :
    (∃ error, s.decodeGeneratedToken params status token = (.error error, s)) ∨
    ∃ s', s.decodeGeneratedToken params status token = (.ok (), s') ∧ Mirrors params s' ∧
      s'.tokens = s.tokens ++ [token] ∧ Fresh s' := by
  rw [Session.decodeGeneratedToken]
  by_cases hs : status = 0
  case neg =>
    obtain ⟨error, he⟩ : ∃ error, s.decode params status [token] s.tokens.length true
      "llama.cpp token decode failed with status " = (.error error, s) := decode_error hs
    exact .inl ⟨error, by rw [he]⟩
  case pos =>
    have hcells : s.native.cells + batchCells [token] s.tokens.length =
        cellsOf (s.tokens ++ [token]) := by rw [hm.cells, ←cellsOf_append]
    rw [hs, decode_ok (by rwa [List.length_singleton])]
    refine .inr ⟨_, rfl, ⟨hcells, ?_, fun event h => ?_⟩, rfl, fun logits hl => ?_⟩
    · rwa [List.length_append]
    · obtain h | h := List.mem_append.mp h
      · exact hm.events event h
      · exact List.mem_singleton.mp h ▸ hlt
    · rw [logits_decode (List.cons_ne_nil _ _), hcells] at hl
      rw [←Option.some.inj hl, lastLogits, List.length_append, List.length_singleton]

theorem ready_predict {predictions : Nat → Prediction τ} {generated : List τ} {fuel : Nat}
    (hm : Mirrors params s) (hf : Fresh s) (hn : 0 < params.nBatch)
    (ht : s.tokens = promptTokens ++ generated) (hb : s.tokens.length + fuel ≤ params.nCtx) :
    Ready params (s.predict params promptTokens predictions generated fuel).snd := by
  induction fuel generalizing s generated
  case zero => exact ⟨hm, fun _ => hf⟩
  case succ fuel hi =>
    rw [Session.predict]
    split
    case h_1 => exact ⟨hm, fun _ => hf⟩
    case h_2 logits hl =>
      let sampled : Session τ :=
        { s with events := s.events ++ [.sampled logits (promptTokens ++ generated)] }
      have hsampled : Mirrors params sampled := by
        refine ⟨hm.cells, hm.bound, fun event h => ?_⟩
        obtain h | h := List.mem_append.mp h
        · exact hm.events event h
        · obtain rfl := List.mem_singleton.mp h
          exact ht ▸ hf logits hl
      have hfresh : Fresh sampled := hf
      simp only
      split
      case isTrue => exact ⟨hsampled, fun _ => hfresh⟩
      case isFalse =>
        obtain ⟨error, he⟩ | ⟨s', he, hm', hs', hf'⟩ := hsampled.decodeGenerated
          (predictions generated.length).status ((predictions generated.length).draw logits) hn
          (show s.tokens.length < params.nCtx by omega)
        case inl =>
          rw [he]
          exact ⟨hsampled, fun _ => hfresh⟩
        case inr =>
          rw [he]
          cases (predictions generated.length).emits
          case fails => exact ⟨hm', fun _ => hf'⟩
          case stops => exact ⟨hm', fun _ => hf'⟩
          case continues =>
            refine hi hm' hf' (by rw [hs', ←List.append_assoc, ←ht]) ?_
            rw [hs', List.length_append, List.length_singleton]
            have hlength : sampled.tokens.length = s.tokens.length := rfl
            omega

theorem ready_generateFrom (h : Ready params s) (hn : 0 < params.nBatch) (hne : promptTokens ≠ [])
    (hb : promptTokens.length < params.nCtx)
    (hs : Steady params s request.advance promptTokens) :
    Ready params (s.generateFrom params request promptTokens).snd := by
  rw [Session.generateFrom]
  obtain ⟨error, s', he, h'⟩ | ⟨n, s', he, hm, ht, hlast, hf⟩ := h.setContext hn hne hb.le hs
  case inl => rw [he]; exact h'
  case inr =>
    rw [he]
    have hp : Ready params (s'.predict params promptTokens request.predictions []
        (s'.maxPredictions params request.maxTokens)).snd :=
      ready_predict hm hf hn (by rw [ht, List.append_nil])
        (by rw [Session.maxPredictions, ht]; omega)
    simp only
    split
    case h_1 heq => rw [heq] at hp; exact hp
    case h_2 heq =>
      rw [heq] at hp
      split <;> exact hp

omit [DecidableEq τ] in
theorem checkPrompt_eq_ok (h : Session.checkPrompt params request = .ok promptTokens) :
    promptTokens ≠ [] ∧ promptTokens.length < params.nCtx := by
  obtain ⟨-, h⟩ := ensure_bind_eq_ok.mp h
  obtain ⟨tokens, -, h⟩ := bind_eq_ok.mp h
  obtain ⟨hne, h⟩ := ensure_bind_eq_ok.mp h
  obtain ⟨hb, h⟩ := ensure_bind_eq_ok.mp h
  obtain rfl := Except.ok.inj h
  exact ⟨hne, hb⟩

theorem ready_generate (h : Ready params s) (hn : 0 < params.nBatch)
    (hs : ∀ promptTokens, Session.checkPrompt params request = .ok promptTokens →
      Steady params s request.advance promptTokens) :
    Ready params (s.generate params request).snd := by
  rw [Session.generate]
  split
  case h_1 => exact h
  case h_2 promptTokens hp =>
    obtain ⟨hne, hb⟩ := checkPrompt_eq_ok hp
    exact ready_generateFrom h hn hne hb (hs promptTokens hp)

omit [DecidableEq τ] in
theorem ready_warmup {warmup : Advance} (hn : 0 < params.nBatch)
    (hs : params.warmupTokens = 0 ∨ warmup.status 0 ≠ 0 ∨
      (∀ i, i * params.nBatch < params.warmupTokens → warmup.status i = 0) ∧
        warmup.trims = true ∧ params.warmupTokens ≤ params.nCtx) :
    Ready params (Session.empty.warmup params warmup) := by
  have hempty : Mirrors params Session.empty := ⟨rfl, Nat.zero_le _, fun _ h => nomatch h⟩
  have hready : Ready params Session.empty := ⟨hempty, fun hne => absurd rfl hne⟩
  rw [Session.warmup]
  by_cases hz : params.warmupTokens = 0
  case pos => rwa [if_pos hz]
  case neg =>
    have hne : List.replicate params.warmupTokens params.eos ≠ [] := by simpa using hz
    rw [if_neg hz]
    obtain hs | hs | ⟨hs, ht, hb⟩ := hs
    case inl => exact absurd hs hz
    case inr.inl =>
      obtain ⟨error, he⟩ := advance_error (s := Session.empty) hn hne hs
      rwa [he]
    case inr.inr =>
      obtain ⟨error, he⟩ | ⟨s', he, hm, -, -, -⟩ := hempty.advance hn hne
        (by simpa [Session.empty] using hb) (.inr (by simpa using hs))
      case inl => rwa [he]
      case inr =>
        rw [he]
        simp only [ht, if_true]
        refine ⟨⟨?_, Nat.zero_le _, hm.events⟩, fun hne => absurd rfl hne⟩
        simp [Native.seqRm, cellsOf, batchCells]

end Generate

section Sessions

variable {params : Params τ} {s s' : Option (Session τ)} {input : Input τ} {output : Output}
variable {h : List (Input τ × Output)}

-- No decode fails after another one of the same tokens, and a warm-up fits into the context and is
-- removed from it.
def Unbroken (params : Params τ) : Option (Session τ) → Input τ → Prop
  | none, .new warmup         => params.warmupTokens = 0 ∨ warmup.status 0 ≠ 0 ∨
    (∀ i, i * params.nBatch < params.warmupTokens → warmup.status i = 0) ∧
      warmup.trims = true ∧ params.warmupTokens ≤ params.nCtx
  | some s, .generate request => ∀ promptTokens,
    Session.checkPrompt params request = .ok promptTokens →
      Steady params s request.advance promptTokens
  | _, _                      => True

-- The cache holds exactly the tokens of the session, below the size of the context.
structure Synchronized (params : Params τ) (s : Session τ) : Prop where
  cells  : s.native.cells = cellsOf s.tokens
  below  : ∀ cell ∈ s.native.cells, cell.1 < params.nCtx
  events : ∀ event ∈ s.events, event.Sound params

omit [DecidableEq τ] in
theorem Ready.synchronized {s : Session τ} (h : Ready params s) : Synchronized params s where
  cells  := h.mirrors.cells
  below _ hc := (lt_of_mem_cellsOf (h.mirrors.cells ▸ hc)).trans_le h.mirrors.bound
  events := h.mirrors.events

theorem ready_step (hs : ∀ session ∈ s, 0 < params.nBatch ∧ Ready params session)
    (hu : Unbroken params s input) (h : Step params s input output s') :
    ∀ session ∈ s', 0 < params.nBatch ∧ Ready params session := by
  cases h
  case refused => exact hs
  case created session hn =>
    obtain ⟨hb, hn⟩ := ensure_bind_eq_ok.mp hn
    obtain rfl := Except.ok.inj hn
    intro session hm
    obtain rfl := Option.some.inj hm
    have hpos := Nat.pos_of_ne_zero hb.left
    exact ⟨hpos, ready_warmup hpos hu⟩
  case failed hg =>
    obtain ⟨hn, hr⟩ := hs _ rfl
    intro session hm
    obtain rfl := Option.some.inj hm
    have h := ready_generate hr hn hu
    rw [hg] at h
    exact ⟨hn, h⟩
  case generated hg =>
    obtain ⟨hn, hr⟩ := hs _ rfl
    intro session hm
    obtain rfl := Option.some.inj hm
    have h := ready_generate hr hn hu
    rw [hg] at h
    exact ⟨hn, h⟩

theorem sessions_mirror
    (r : ((sessions params).restrict fun s input _ _ => Unbroken params s input).Run h s) :
    ∀ session ∈ s, Synchronized params session := by
  have hready : ∀ session ∈ s, 0 < params.nBatch ∧ Ready params session := by
    refine r.invariant (I := fun _ s => ∀ session ∈ s, 0 < params.nBatch ∧ Ready params session)
      ?_ fun _ _ _ _ _ _ hs hst => ready_step hs hst.right hst.left
    rintro _ rfl
    nofun
  exact fun session hm => (hready session hm).right.synchronized

end Sessions

section Sample

-- A context of eight tokens with a token of warm-up, and batches of one token.
def sampleParams : Params Nat where
  nCtx         := 8
  nBatch       := 1
  warmupTokens := 1
  eos          := 0
  eot          := 0

-- A prompt of two tokens, of whose batches some fail, and the prediction of the token 3.
def sampleRequest (status : Nat → Int) : Request Nat where
  hasImages    := false
  promptTokens := .ok [1, 2]
  maxTokens    := 1
  advance      := ⟨true, true, status⟩
  predictions  := fun _ => ⟨fun _ => 3, 0, .continues⟩
  tail         := .continues

def sampleWarmup : Advance :=
  ⟨true, true, fun _ => 0⟩

def sampleSession : Session Nat :=
  Session.empty.warmup sampleParams sampleWarmup

theorem run_sampleSession {G : Option (Session Nat) → Input Nat → Output → Option (Session Nat) →
    Prop} (hg : G none (.new sampleWarmup) .created (some sampleSession)) :
    ((sessions sampleParams).restrict G).Run [(.new sampleWarmup, .created)]
      (some sampleSession) :=
  (System.Run.init rfl).step ⟨.created rfl, hg⟩

theorem sessions_mirror_sample : ∃ (h : List (Input Nat × Output)) (s : Option (Session Nat)),
    (sessions sampleParams).Run h s ∧
    (.generate (sampleRequest fun _ => 0), .generated ⟨2, 1, "length"⟩) ∈ h ∧
    ∀ session ∈ s, Synchronized sampleParams session := by
  let generated := sampleSession.generate sampleParams (sampleRequest fun _ => 0)
  have hg : generated.fst = .ok ⟨2, 1, "length"⟩ := rfl
  have r := run_sampleSession (G := fun s input _ _ => Unbroken sampleParams s input)
    (.inr (.inr ⟨fun _ _ => rfl, rfl, by decide⟩))
  have r' := @System.Run.step _ _ _ _ _ _ _ _ (some generated.snd) r
    ⟨.generated (Prod.ext hg rfl), fun _ _ _ => .inr fun _ _ => rfl⟩
  exact ⟨_, _, r'.of_restrict, List.mem_cons_self, sessions_mirror r'⟩

-- The second batch of a prompt fails.
theorem sessions_diverge : ∃ (h : List (Input Nat × Output)) (session : Session Nat),
    (sessions sampleParams).Run h (some session) ∧ ¬Synchronized sampleParams session := by
  let request := sampleRequest fun index => if index = 1 then 1 else 0
  let generated := sampleSession.generate sampleParams request
  obtain ⟨error, hg⟩ : ∃ error, generated.fst = .error error := ⟨_, rfl⟩
  have r := (run_sampleSession (G := fun _ _ _ _ => True) trivial).of_restrict
  refine ⟨_, generated.snd, r.step (.failed (Prod.ext hg rfl)), fun h => ?_⟩
  have hcells := congrArg Multiset.card h.cells
  nomatch hcells

end Sample

end Backend.LlamaFast
