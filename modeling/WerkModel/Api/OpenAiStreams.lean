import WerkModel.Observability.Streams

-- The event streams that answer chat completions, and whether their end is the one that the
-- telemetry counts.
open Backend Observability

namespace Api.OpenAi

inductive Event
  | data (value : Json)
  | done

def serverError (message : String) : Json :=
  .object [("error", .object [("type", .string "server_error"), ("message", .string message)])]

def Event.isError : Event → Bool
  | .data value => (value.get "error").isSome
  | .done       => false

-- The native stream of a request, whose items are turned into events.
structure Source where
  raw          : RawStream
  includeUsage : Bool
  model        : String
  failed       : Bool
  finished     : Finset Nat

namespace Source

variable (s : Source)

def finish (choice : Json) : Source :=
  match Observability.finish choice with
  | some (index, _) => { s with finished := insert index s.finished }
  | none            => s

def isUsage (chunk : Json) : Bool :=
  (chunk.index "choices").asArray.any List.isEmpty && (chunk.index "usage").isObject

-- The next item panics if it is neither an object nor null.
def next : RawItem → Option (Source × Option Event)
  | .error message =>
    some ({ s with raw := s.raw.next (.error message), failed := true },
      some (.data (serverError message)))
  | .ok chunk      =>
    let s := { s with raw := s.raw.next (.ok chunk) }
    if !s.includeUsage && isUsage chunk then
      some (s, none)
    else do
      let chunk ← (if s.includeUsage then chunk else chunk.remove "usage").set "model"
        (.string s.model)
      return ((choices chunk).foldl finish s, some (.data chunk))

end Source

structure OpenAiStream where
  source   : Source
  failed   : Bool
  finished : Nat
  expected : Nat

namespace OpenAiStream

def last (s : OpenAiStream) : List Event :=
  if s.failed then
    []
  else if s.finished = s.expected then
    [.done]
  else
    [.data (serverError "backend ended without completing every choice")]

def receive (s : OpenAiStream) (source : Source) : Option Event → OpenAiStream
  | none   => { s with source := source }
  | some _ => { s with
    source   := source
    failed   := source.failed
    finished := source.finished.card
  }

-- The events of a stream that is polled until it has ended, and the guard of its request. A panic
-- drops the stream.
def run (s : OpenAiStream) : List RawItem → List Event × RequestGuard
  | []            => (s.last, s.source.raw.close.guard.drop false)
  | item :: items =>
    match s.source.next item with
    | none                 => ([], (s.source.raw.next item).guard.drop true)
    | some (source, event) =>
      let s := s.receive source event
      (event.toList ++ (s.run items).fst, (s.run items).snd)

end OpenAiStream

-- A request of some choices, with the totals of the telemetry before it.
def openai (totals : Totals) (model : String) (n : Nat) (includeUsage : Bool) : OpenAiStream where
  source   := {
    raw          := observeRawStream (begin totals) n
    includeUsage := includeUsage
    model        := model
    failed       := false
    finished     := ∅
  }
  failed   := false
  finished := 0
  expected := n

inductive ChatEvent (τ : Type)
  | role
  | text (text : String)
  | toolCalls (deltas : List ChatCompletionToolCallDelta)
  | finish (completion : Completion τ)
  | usage (completion : Completion τ)
  | error (message : String)
  | done

structure ChatStream (τ : Type) where
  guard         : RequestGuard
  includeUsage  : Bool
  terminalError : Bool
  failed        : Bool
  usage         : Option (Completion τ)

namespace ChatStream

variable {τ : Type}

def event (s : ChatStream τ) : Item τ → ChatStream τ × ChatEvent τ
  | .ok (.textChunk text)       => (s, .text text)
  | .ok (.toolCallDelta deltas) => (s, .toolCalls deltas)
  | .ok (.done completion)      =>
    ({ s with usage := if s.includeUsage then some completion else s.usage }, .finish completion)
  | .error message              => ({ s with failed := true, usage := none }, .error message)

-- What follows the body.
def last (s : ChatStream τ) : List (ChatEvent τ) :=
  (s.usage.toList.map .usage) ++ if s.failed then [] else [.done]

-- The body takes the items up to the first error, and pulls one more.
def body (s : ChatStream τ) : List (Item τ) → List (ChatEvent τ) × RequestGuard
  | []            => (s.last, (observeEnd s.guard).drop false)
  | item :: items =>
    let s := { s with guard := observeItem s.guard item }
    if s.terminalError then
      (s.last, s.guard.drop false)
    else
      let (s, event) := { s with terminalError := !item.isOk }.event item
      (event :: (body s items).fst, (body s items).snd)

end ChatStream

def streamChatResponse {τ : Type} (totals : Totals) (includeUsage : Bool) (items : List (Item τ)) :
    List (ChatEvent τ) × RequestGuard :=
  let s : ChatStream τ := {
    guard         := begin totals
    includeUsage  := includeUsage
    terminalError := false
    failed        := false
    usage         := none
  }
  (.role :: (s.body items).fst, (s.body items).snd)

-- Whether a stream of events is truthful about a request, that completes or does not.
structure Truthful {ε : Type} (done : ε) (isError : ε → Prop) (begun : Totals) (completes : Prop)
    (sent : List ε) (guard : RequestGuard) : Prop where
  done      : done ∈ sent ↔ completes
  completed : guard.totals = begun.count "done" ↔ completes
  otherwise : ¬completes → (∃ event ∈ sent, isError event) ∧ guard.totals = begun.count "error"

-- The indices of the choices that have finished, whichever they are.
def finishedOf (choices : List Json) : Finset Nat :=
  ((choices.filterMap finish).map Prod.fst).toFinset

def itemFinished : RawItem → Finset Nat
  | .error _  => ∅
  | .ok chunk => finishedOf (choices chunk)

def reports : RawItem → Bool
  | .error _  => false
  | .ok chunk => (chunk.get "error").isSome

def readable : RawItem → Bool
  | .error _           => true
  | .ok (.object _)    => true
  | .ok .null          => true
  | .ok _              => false

def sendsError (includeUsage : Bool) : RawItem → Bool
  | .error _  => true
  | .ok chunk => (chunk.get "error").isSome && (includeUsage || !Source.isUsage chunk)

section Items

variable (items : List RawItem)

def finished : Finset Nat :=
  items.foldr (fun item finished => itemFinished item ∪ finished) ∅

def Failed : Prop :=
  ∃ item ∈ items, item.isOk = false

def Reported : Prop :=
  ∃ item ∈ items, reports item = true

-- Each choice has finished, without an error.
def Completes (n : Nat) : Prop :=
  ¬Failed items ∧ ¬Reported items ∧ ∀ i < n, i ∈ finished items

variable {items} {rest : List RawItem} {item : RawItem} {i : Nat}

@[simp]
theorem mem_finished : i ∈ finished items ↔ ∃ item ∈ items, i ∈ itemFinished item := by
  induction items
  case nil => simp [finished]
  case cons item items hi =>
    rw [finished, List.foldr_cons, ←finished, Finset.mem_union, hi]
    simp

theorem finished_append : finished (items ++ rest) = finished items ∪ finished rest := by
  ext i
  simp only [mem_finished, Finset.mem_union, List.mem_append, or_and_right, exists_or]

theorem failed_append : Failed (items ++ rest) ↔ Failed items ∨ Failed rest := by
  simp only [Failed, List.mem_append, or_and_right, exists_or]

@[simp]
theorem finished_singleton : finished [item] = itemFinished item :=
  Finset.union_empty _

@[simp]
theorem failed_singleton : Failed [item] ↔ item.isOk = false := by
  simp [Failed]

@[simp]
theorem reported_singleton : Reported [item] ↔ reports item = true := by
  simp [Reported]

theorem reported_append : Reported (items ++ rest) ↔ Reported items ∨ Reported rest := by
  simp only [Reported, List.mem_append, or_and_right, exists_or]

end Items

section Choices

variable {s : Source} {raw : RawStream} {list : List Json} {begun : Totals} {errored : Prop}
variable {choice : Json}

theorem finishedOf_cons : finishedOf (choice :: list) =
    ((finish choice).elim ∅ fun finish => {finish.fst}) ∪ finishedOf list := by
  rw [finishedOf, List.filterMap_cons]
  cases finish choice
  case none => simp [finishedOf]
  case some => simp [finishedOf]

theorem foldl_finish : list.foldl Source.finish s =
    { s with finished := s.finished ∪ finishedOf list } := by
  induction list generalizing s
  case nil => simp [finishedOf]
  case cons choice list hi =>
    rw [List.foldl_cons, hi, finishedOf_cons, Source.finish]
    cases finish choice
    case none => simp
    case some => simp

structure Observes (begun : Totals) (errored : Prop) (list : List Json) (raw raw' : RawStream) :
    Prop where
  expected : raw'.expected = raw.expected
  finished : raw'.finished = raw.finished ∪ (finishedOf list).filter (· < raw.expected)
  counts   : Counts begun errored raw.guard → Counts begun errored raw'.guard

theorem Observes.trans {raw' raw'' : RawStream} {list' : List Json}
    (h : Observes begun errored list raw raw') (h' : Observes begun errored list' raw' raw'') :
    Observes begun errored (list ++ list') raw raw'' where
  expected := h'.expected.trans h.expected
  finished := by
    rw [h'.finished, h.finished, h.expected, Finset.union_assoc, ←Finset.filter_union]
    congr 2
    simp [finishedOf, List.toFinset_append]
  counts   := h'.counts ∘ h.counts

theorem observes_observe : Observes begun errored [choice] raw (raw.observe choice) := by
  have hd : Observes begun errored [] raw (raw.observeDelta (choice.index "delta")) := by
    rw [RawStream.observeDelta]
    split
    case isTrue  => exact ⟨rfl, by simp [finishedOf, RawStream.setGuard], Counts.firstOutput⟩
    case isFalse => exact ⟨rfl, by simp [finishedOf], id⟩
  refine Observes.trans hd ?_
  rw [RawStream.observe]
  generalize raw.observeDelta (choice.index "delta") = raw'
  cases hf : finish choice
  case none => exact ⟨rfl, by simp [finishedOf, hf], id⟩
  case some found =>
    by_cases hlt : found.fst < raw'.expected
    case pos =>
      simp only [if_pos hlt]
      exact ⟨rfl, by simp [finishedOf, hf, Finset.filter_singleton, hlt], id⟩
    case neg =>
      simp only [if_neg hlt]
      exact ⟨rfl, by simp [finishedOf, hf, Finset.filter_singleton, hlt], id⟩

theorem observes_foldl : Observes begun errored list raw (list.foldl RawStream.observe raw) := by
  induction list generalizing raw
  case nil => exact ⟨rfl, by simp [finishedOf], id⟩
  case cons choice list hi => exact Observes.trans observes_observe hi

end Choices

-- The state of a stream after some items.
section Run

variable {n : Nat} {begun : Totals} {includeUsage : Bool} {seen items : List RawItem}
variable {s : OpenAiStream} {source : Source} {item : RawItem} {event : Option Event}
variable {raw : RawStream} {errored : Prop} {new : Json}

theorem next_raw (item : RawItem) (h : Counts begun errored raw.guard) :
    (raw.next item).expected = raw.expected ∧
    (raw.next item).finished = raw.finished ∪ (itemFinished item).filter (· < raw.expected) ∧
    Counts begun (errored ∨ item.isOk = false ∨ reports item = true) (raw.next item).guard := by
  cases item
  case error =>
    refine ⟨rfl, by simp [RawStream.next, RawStream.setGuard, itemFinished], ?_⟩
    exact h.error.congr (by simp [Except.isOk, Except.toBool])
  case ok chunk =>
    let errored' := errored ∨ (chunk.get "error").isSome = true
    have ho : Observes begun errored' (choices chunk)
        (if (chunk.get "error").isSome then raw.setGuard raw.guard.error else raw)
        (raw.next (.ok chunk)) := observes_foldl
    have hc : Counts begun (errored ∨ Except.isOk (.ok chunk : RawItem) = false ∨
        reports (.ok chunk) = true) (raw.next (.ok chunk)).guard := by
      refine (ho.counts ?_).congr (by simp [errored', Except.isOk, Except.toBool, reports])
      split
      case isTrue hs  => exact h.error.congr (by simp [errored', hs])
      case isFalse hs => exact h.congr (by simp [errored', hs])
    refine ⟨ho.expected.trans ?_, ho.finished.trans ?_, hc⟩
    all_goals split <;> rfl

structure After (begun : Totals) (n : Nat) (seen : List RawItem) (s : OpenAiStream) : Prop where
  failed       : s.failed = true ↔ Failed seen
  sourceFailed : s.source.failed = true ↔ Failed seen
  count        : s.finished = (finished seen).card
  sourceSet    : s.source.finished = finished seen
  expected     : s.expected = n
  rawExpected  : s.source.raw.expected = n
  rawSet       : s.source.raw.finished = (finished seen).filter (· < n)
  counts       : Counts begun (Failed seen ∨ Reported seen) s.source.raw.guard

-- A chunk is passed on with its choices and its error.
theorem passed_on {chunk chunk' : Json}
    (h : (if includeUsage then chunk else chunk.remove "usage").set "model" new = some chunk') :
    choices chunk' = choices chunk ∧ chunk'.get "error" = chunk.get "error" := by
  have hg {key : String} (hm : key ≠ "model") (hu : key ≠ "usage") :
      chunk'.get key = chunk.get key := by
    rw [Json.get_set h, if_neg hm]
    split
    case isTrue  => rfl
    case isFalse => rw [Json.get_remove, if_neg hu]
  refine ⟨?_, hg (by decide) (by decide)⟩
  rw [choices, choices, Json.index, Json.index, hg (by decide) (by decide)]

-- What becomes of an item.
inductive Next (s : Source) : RawItem → Option (Source × Option Event) → Prop
  | error {message} : Next s (.error message)
    (some ({ s with raw := s.raw.next (.error message), failed := true },
      some (.data (serverError message))))
  | usage {chunk} : s.includeUsage = false → Source.isUsage chunk = true →
    Next s (.ok chunk) (some ({ s with raw := s.raw.next (.ok chunk) }, none))
  | chunk {chunk chunk'} : (s.includeUsage || !Source.isUsage chunk) = true →
    choices chunk' = choices chunk → chunk'.get "error" = chunk.get "error" →
    readable (.ok chunk) = true → Next s (.ok chunk) (some ({ s with
      raw      := s.raw.next (.ok chunk)
      finished := s.finished ∪ finishedOf (choices chunk)
    }, some (.data chunk')))
  | panic {chunk} : readable (.ok chunk) = false → Next s (.ok chunk) none

theorem set_isSome {chunk : Json} {key : String} :
    ((if includeUsage then chunk else chunk.remove "usage").set key new).isSome =
      readable (.ok chunk) := by
  split <;> cases chunk <;> rfl

theorem next_spec (source : Source) (item : RawItem) : Next source item (source.next item) := by
  cases item
  case error => exact .error
  case ok chunk =>
    rw [Source.next]
    split
    case isTrue h =>
      obtain ⟨hi, hu⟩ := Bool.and_eq_true_iff.mp h
      exact .usage (by simpa using hi) hu
    case isFalse h =>
      generalize hs : (if source.includeUsage then chunk else chunk.remove "usage").set "model"
        (.string source.model) = result
      have hr := set_isSome.symm.trans (congrArg Option.isSome hs)
      cases result
      case none => exact .panic hr
      case some chunk' =>
        obtain ⟨hc, he⟩ := passed_on hs
        have hu : (source.includeUsage || !Source.isUsage chunk) = true := by
          cases hi : source.includeUsage <;> simp_all
        have hn := Next.chunk hu hc he hr
        simp only [Option.bind_eq_bind, Option.bind_some, foldl_finish, hc]
        exact hn

-- The items after which a stream goes on.
structure Goes (begun : Totals) (n : Nat) (seen : List RawItem) (s : OpenAiStream) (item : RawItem)
    (source : Source) (event : Option Event) : Prop where
  after    : After begun n (seen ++ [item]) (s.receive source event)
  usage    : source.includeUsage = s.source.includeUsage
  reads    : readable item = true
  error    : (∃ e ∈ event, e.isError = true) ↔ sendsError s.source.includeUsage item = true
  more     : .done ∉ event

theorem readable_of_isUsage {chunk : Json} (h : Source.isUsage chunk = true) :
    readable (.ok chunk) = true := by
  cases chunk <;> first | rfl | (simp [Source.isUsage, Json.index, Json.get, Json.asArray] at h)

theorem finished_of_isUsage {chunk : Json} (h : Source.isUsage chunk = true) :
    itemFinished (.ok chunk) = ∅ := by
  obtain ⟨hc, -⟩ := Bool.and_eq_true_iff.mp h
  obtain ⟨list, hl, he⟩ := (Option.any_eq_true _ _).mp hc
  rw [List.isEmpty_iff] at he
  rw [itemFinished, choices, hl, he]
  rfl

theorem failed_append_ok {chunk : Json} : Failed (seen ++ [.ok chunk]) ↔ Failed seen := by
  rw [failed_append, failed_singleton]
  simp [Except.isOk, Except.toBool]

theorem After.goes (ha : After begun n seen s) (h : s.source.next item = some (source, event)) :
    Goes begun n seen s item source event := by
  obtain ⟨hre, hrf, hrc⟩ := next_raw item ha.counts
  have hcounts : Counts begun (Failed (seen ++ [item]) ∨ Reported (seen ++ [item]))
      (s.source.raw.next item).guard :=
    hrc.congr (by simp only [failed_append, reported_append, failed_singleton, reported_singleton,
      or_or_or_comm])
  have hraw : (s.source.raw.next item).finished = (finished (seen ++ [item])).filter (· < n) := by
    rw [hrf, ha.rawSet, ha.rawExpected, finished_append, Finset.filter_union, finished_singleton]
  have hs := next_spec s.source item
  rw [h] at hs
  cases hs
  case error message =>
    have hf : Failed (seen ++ [.error message]) := failed_append.mpr (.inr (by simp; rfl))
    have hset : s.source.finished = finished (seen ++ [.error message]) := by
      rw [finished_append, finished_singleton, itemFinished, Finset.union_empty, ha.sourceSet]
    exact {
      after := {
        failed       := ⟨fun _ => hf, fun _ => rfl⟩
        sourceFailed := ⟨fun _ => hf, fun _ => rfl⟩
        count        := congrArg Finset.card hset
        sourceSet    := hset
        expected     := ha.expected
        rawExpected  := hre.trans ha.rawExpected
        rawSet       := hraw
        counts       := hcounts
      }
      usage := rfl
      reads := rfl
      error := ⟨fun _ => rfl, fun _ => ⟨_, rfl, rfl⟩⟩
      more  := nofun
    }
  case usage chunk hi hu =>
    have hset : finished (seen ++ [.ok chunk]) = finished seen := by
      rw [finished_append, finished_singleton, finished_of_isUsage hu, Finset.union_empty]
    exact {
      after := {
        failed       := ha.failed.trans failed_append_ok.symm
        sourceFailed := ha.sourceFailed.trans failed_append_ok.symm
        count        := hset ▸ ha.count
        sourceSet    := hset ▸ ha.sourceSet
        expected     := ha.expected
        rawExpected  := hre.trans ha.rawExpected
        rawSet       := hraw
        counts       := hcounts
      }
      usage := rfl
      reads := readable_of_isUsage hu
      error := by simp [sendsError, hi, hu]
      more  := nofun
    }
  case chunk chunk chunk' hu hc he hr =>
    have hset : s.source.finished ∪ finishedOf (choices chunk) = finished (seen ++ [.ok chunk]) := by
      rw [finished_append, finished_singleton, itemFinished, ha.sourceSet]
    exact {
      after := {
        failed       := ha.sourceFailed.trans failed_append_ok.symm
        sourceFailed := ha.sourceFailed.trans failed_append_ok.symm
        count        := congrArg Finset.card hset
        sourceSet    := hset
        expected     := ha.expected
        rawExpected  := hre.trans ha.rawExpected
        rawSet       := hraw
        counts       := hcounts
      }
      usage := rfl
      reads := hr
      error := by simp only [Option.mem_some_iff, exists_eq_left', Event.isError, he, sendsError, hu,
        Bool.and_true]
      more  := nofun
    }

theorem card_filter_lt {indices : Finset Nat} :
    (indices.filter (· < n)).card = n ↔ ∀ i < n, i ∈ indices := by
  have hsub : indices.filter (· < n) ⊆ Finset.range n := fun i hi =>
    Finset.mem_range.mpr (Finset.mem_filter.mp hi).right
  constructor
  case mp =>
    intro h i hi
    have he := Finset.eq_of_subset_of_card_le hsub (by rw [Finset.card_range, h])
    exact (Finset.mem_filter.mp (he ▸ Finset.mem_range.mpr hi)).left
  case mpr =>
    intro h
    have he : indices.filter (· < n) = Finset.range n := hsub.antisymm fun i hi =>
      Finset.mem_filter.mpr ⟨h i (Finset.mem_range.mp hi), Finset.mem_range.mp hi⟩
    rw [he, Finset.card_range]

-- How a stream ends after some items and with some others.
structure Ends (begun : Totals) (n : Nat) (includeUsage : Bool) (seen items : List RawItem)
    (sent : List Event) (guard : RequestGuard) : Prop where
  done    : .done ∈ sent ↔ (∀ item ∈ items, readable item = true) ∧ ¬Failed (seen ++ items) ∧
    (finished (seen ++ items)).card = n
  error   : (∃ event ∈ sent, event.isError = true) ↔
    (∃ item ∈ items.takeWhile readable, sendsError includeUsage item = true) ∨
      (∀ item ∈ items, readable item = true) ∧ ¬Failed (seen ++ items) ∧
        (finished (seen ++ items)).card ≠ n
  counted : guard.totals = begun.count "done" ∧ (∀ item ∈ items, readable item = true) ∧
      Completes (seen ++ items) n ∨
    guard.totals = begun.count "error" ∧ ¬((∀ item ∈ items, readable item = true) ∧
      Completes (seen ++ items) n)

theorem After.completes (ha : After begun n seen s) :
    Completes seen n ↔ ¬(Failed seen ∨ Reported seen) ∧
      s.source.raw.finished.card = s.source.raw.expected := by
  rw [Completes, ha.rawSet, ha.rawExpected, card_filter_lt, not_or, and_assoc]

theorem After.close (ha : After begun n seen s) :
    Completes seen n ∧ (s.source.raw.close.guard.drop false).totals = begun.count "done" ∨
      ¬Completes seen n ∧
        (s.source.raw.close.guard.drop false).totals = begun.count "error" := by
  rw [ha.completes, RawStream.close]
  by_cases hcard : s.source.raw.finished.card = s.source.raw.expected
  case neg =>
    obtain ⟨hf, ht⟩ := ha.counts.error.errored trivial
    rw [if_neg hcard, RawStream.setGuard, drop_of_finished hf, ht]
    exact .inr ⟨fun h => hcard h.right, rfl⟩
  case pos =>
    rw [if_pos hcard, RawStream.setGuard, RequestGuard.rawComplete]
    obtain ⟨hf, he, hd⟩ := ha.counts.finish_totals
    rw [drop_of_finished hf]
    by_cases hfail : Failed seen ∨ Reported seen
    case pos => exact .inr ⟨fun h => h.left hfail, he hfail⟩
    case neg => exact .inl ⟨⟨hfail, hcard⟩, hd hfail⟩

theorem After.last (ha : After begun n seen s) :
    (.done ∈ s.last ↔ ¬Failed seen ∧ (finished seen).card = n) ∧
    ((∃ event ∈ s.last, event.isError = true) ↔ ¬Failed seen ∧ (finished seen).card ≠ n) := by
  rw [←ha.failed, ←ha.count, OpenAiStream.last, ha.expected]
  cases hf : s.failed
  case true  => simp
  case false =>
    by_cases hc : s.finished = n
    case pos => simp [hc, Event.isError]
    case neg => simp [hc, Event.isError, serverError, Json.get]

theorem After.ends (ha : After begun n seen s) :
    Ends begun n s.source.includeUsage seen items (s.run items).fst (s.run items).snd := by
  induction items generalizing seen s
  case nil =>
    rw [OpenAiStream.run, ←List.append_nil seen]
    obtain ⟨hd, he⟩ := ha.last
    refine ⟨by simp [hd], by simp [he], ?_⟩
    simpa [and_comm] using ha.close
  case cons item items hi =>
    rw [OpenAiStream.run]
    cases hs : s.source.next item
    case none =>
      have hr : readable item = false := by
        have hspec := next_spec s.source item
        rw [hs] at hspec
        cases hspec
        assumption
      have hall : ¬∀ item' ∈ item :: items, readable item' = true := by
        simp only [List.forall_mem_cons, hr]
        simp
      obtain ⟨-, -, hc⟩ := next_raw item ha.counts
      refine ⟨by simp [hr], by simp [hr], .inr ⟨?_, fun h => hall h.left⟩⟩
      exact (hc.error.errored trivial).right
    case some result =>
      obtain ⟨source, event⟩ := result
      obtain ⟨hafter, husage, hreads, herror, hmore⟩ := ha.goes hs
      obtain ⟨hd, he, hc⟩ := hi hafter
      have hall : (∀ item' ∈ item :: items, readable item' = true) ↔
          ∀ item' ∈ items, readable item' = true := by
        rw [List.forall_mem_cons, hreads, eq_self, true_and]
      have hu : (s.receive source event).source.includeUsage = s.source.includeUsage := by
        cases event <;> exact husage
      rw [List.append_assoc, List.singleton_append] at hd he hc
      refine ⟨?_, ?_, by rwa [hall]⟩
      case refine_1 =>
        rw [hall, ←hd, List.mem_append, Option.mem_toList]
        exact or_iff_right hmore
      case refine_2 =>
        rw [hall, List.takeWhile_cons, if_pos hreads]
        simp only [List.mem_append, or_and_right, exists_or, he, List.mem_cons, exists_eq_left,
          Option.mem_toList, hu, or_assoc]
        exact or_congr_left herror

theorem after_nil {totals : Totals} {model : String} :
    After (begin totals).totals n [] (openai totals model n includeUsage) where
  failed       := by simp [openai, Failed]
  sourceFailed := by simp [openai, Failed]
  count        := rfl
  sourceSet    := rfl
  expected     := rfl
  rawExpected  := rfl
  rawSet       := by simp [openai, observeRawStream, finished]
  counts       := Counts.begin.congr (by simp [Failed, Reported])

end Run

-- The rich streams whose end is truthful.
def Consistent (n : Nat) (includeUsage : Bool) (items : List RawItem) : Prop :=
  if items.all readable then
    Failed items ∨ ¬Reported items ∧ finished items = Finset.range n ∨
      (finished items).card ≠ n ∧ (Reported items ∨ ∃ i < n, i ∉ finished items)
  else
    ∃ item ∈ items.takeWhile readable, sendsError includeUsage item = true

section Consistent

variable {n : Nat} {includeUsage : Bool} {items : List RawItem} {item : RawItem}

theorem sendsError_spec (h : sendsError includeUsage item = true) :
    item.isOk = false ∨ reports item = true := by
  cases item
  case error => exact .inl rfl
  case ok    => exact .inr (Bool.and_eq_true_iff.mp h).left

theorem sendsError_of_failed (h : Failed items) :
    ∃ item ∈ items, sendsError includeUsage item = true := by
  obtain ⟨item, hm, h⟩ := h
  cases item
  case error => exact ⟨_, hm, rfl⟩
  case ok    => nomatch h

theorem finished_eq_range_iff : finished items = Finset.range n ↔
    (finished items).card = n ∧ ∀ i < n, i ∈ finished items := by
  constructor
  case mp =>
    intro h
    exact ⟨by rw [h, Finset.card_range], fun i hi => h ▸ Finset.mem_range.mpr hi⟩
  case mpr =>
    intro ⟨hcard, hall⟩
    refine (Finset.eq_of_subset_of_card_le (fun i hi => hall i (Finset.mem_range.mp hi)) ?_).symm
    rw [Finset.card_range, hcard]

-- With an error, no end is taken for a success.
theorem agree_iff {failed reported every counted : Prop} :
    (¬failed ∧ counted ↔ ¬failed ∧ ¬reported ∧ every) ↔
      failed ∨ ¬reported ∧ counted ∧ every ∨ ¬counted ∧ (reported ∨ ¬every) := by
  by_cases hf : failed
  case pos => simp [hf]
  case neg => by_cases hr : reported <;> by_cases he : every <;> simp [hf, hr, he]

variable {begun : Totals} {sent : List Event} {guard : RequestGuard}

theorem Ends.truthful_iff (h : Ends begun n includeUsage [] items sent guard) :
    Truthful .done (Event.isError · = true) begun (Completes items n) sent guard ↔
      Consistent n includeUsage items := by
  obtain ⟨hd, he, hc⟩ := h
  rw [List.nil_append] at hd he hc
  rw [Consistent]
  split
  case isTrue h =>
    have hall : ∀ item ∈ items, readable item = true := List.all_eq_true.mp h
    have ht : items.takeWhile readable = items := List.takeWhile_eq_self_iff.mpr hall
    have hd : .done ∈ sent ↔ ¬Failed items ∧ (finished items).card = n :=
      hd.trans (and_iff_right hall)
    have hs : (∃ event ∈ sent, event.isError = true) ↔
        (∃ item ∈ items, sendsError includeUsage item = true) ∨
          ¬Failed items ∧ (finished items).card ≠ n := by rwa [ht, and_iff_right hall] at he
    have hcounted (hn : ¬Completes items n) : guard.totals = begun.count "error" :=
      (hc.resolve_left fun h => hn h.right.right).left
    have hcompleted : guard.totals = begun.count "done" ↔ Completes items n := by
      refine ⟨fun ht => of_not_not fun hn => count_error_ne ((hcounted hn).symm.trans ht), fun h => ?_⟩
      exact (hc.resolve_right fun hr => hr.right ⟨hall, h⟩).left
    have hmissing : (∃ i < n, i ∉ finished items) ↔ ¬∀ i < n, i ∈ finished items := by
      push Not
      rfl
    rw [finished_eq_range_iff, hmissing, ←agree_iff]
    constructor
    case mp => exact fun t => hd.symm.trans t.done
    case mpr =>
      intro hagree
      refine ⟨hd.trans hagree, hcompleted, fun hn => ⟨hs.mpr ?_, hcounted hn⟩⟩
      by_cases hf : Failed items
      case pos => exact .inl (sendsError_of_failed hf)
      case neg => exact .inr ⟨hf, fun hcard => hn (hagree.mp ⟨hf, hcard⟩)⟩
  case isFalse h =>
    have hall : ¬∀ item ∈ items, readable item = true := fun h' => h (List.all_eq_true.mpr h')
    have he : (∃ event ∈ sent, event.isError = true) ↔ _ :=
      he.trans (or_iff_left fun h => hall h.left)
    have hd : .done ∉ sent := fun h => hall (hd.mp h).left
    have hc := hc.resolve_left fun h => hall h.right.left
    constructor
    case mp =>
      intro t
      exact he.mp (t.otherwise fun h => hd (t.done.mpr h)).left
    case mpr =>
      intro hsends
      have hn : ¬Completes items n := by
        rintro ⟨hf, hr, -⟩
        obtain ⟨item, hm, hs⟩ := hsends
        have hm := (List.takeWhile_sublist _).mem hm
        exact (sendsError_spec hs).elim (fun h => hf ⟨item, hm, h⟩) fun h => hr ⟨item, hm, h⟩
      exact {
        done      := iff_of_false hd hn
        completed := iff_of_false (fun h => count_error_ne (hc.left.symm.trans h)) hn
        otherwise := fun _ => ⟨he.mpr hsends, hc.left⟩
      }

end Consistent

section Chat

variable {τ : Type} {s : ChatStream τ} {items : List (Item τ)} {item : Item τ} {begun : Totals}

def ChatEvent.IsError (event : ChatEvent τ) : Prop :=
  ∃ message, event = .error message

def terminal : Item τ → Bool
  | .error _       => true
  | .ok (.done _)  => true
  | .ok _          => false

-- The plain streams whose end is truthful.
def Decided (items : List (Item τ)) : Prop :=
  match items.find? terminal with
  | none            => False
  | some (.ok _)    => ∀ item ∈ items, item.isOk = true
  | some (.error _) => True

@[simp]
theorem event_guard : (s.event item).fst.guard = s.guard := by
  obtain _ | (_ | _ | _) := item <;> rfl

@[simp]
theorem event_terminalError : (s.event item).fst.terminalError = s.terminalError := by
  obtain _ | (_ | _ | _) := item <;> rfl

theorem event_failed : (s.event item).fst.failed = (s.failed || !item.isOk) := by
  obtain _ | (_ | _ | _) := item <;> simp [ChatStream.event, Except.isOk, Except.toBool]

theorem body_of_finished (h : s.guard.finished = true) :
    (s.body items).snd.totals = s.guard.totals := by
  induction items generalizing s
  case nil =>
    rw [ChatStream.body, observeEnd, if_pos h, drop_of_finished h]
  case cons item items hi =>
    obtain ⟨hf, ht⟩ := observeItem_of_finished item h
    rw [ChatStream.body]
    split
    case isTrue  => exact (congrArg _ (drop_of_finished hf)).trans ht
    case isFalse => exact (hi (by simpa using hf)).trans (by simpa using ht)

-- The body after an error.
theorem body_of_error (h : s.terminalError = true) : (s.body items).fst = s.last := by
  cases items
  case nil  => rfl
  case cons => rw [ChatStream.body, if_pos h]; rfl

theorem last_of_failed (h : s.failed = true) : ∀ event ∈ s.last, ∃ c, event = .usage c := by
  intro event hm
  rw [ChatStream.last, if_pos h, List.append_nil] at hm
  obtain ⟨completion, -, rfl⟩ := List.mem_map.mp hm
  exact ⟨completion, rfl⟩

theorem event_ne_done : (s.event item).snd ≠ .done := by
  obtain _ | (_ | _ | _) := item <;> nofun

theorem event_isError : (s.event item).snd.IsError ↔ item.isOk = false := by
  obtain _ | (_ | _ | _) := item <;>
    simp [ChatStream.event, ChatEvent.IsError, Except.isOk, Except.toBool]

theorem body_events (ht : s.terminalError = false) (hf : s.failed = false) :
    (.done ∈ (s.body items).fst ↔ ∀ item ∈ items, item.isOk = true) ∧
    ((∃ event ∈ (s.body items).fst, event.IsError) ↔ ∃ item ∈ items, item.isOk = false) := by
  induction items generalizing s
  case nil => simp [ChatStream.body, ChatStream.last, hf, ChatEvent.IsError]
  case cons item items hi =>
    rw [ChatStream.body]
    simp only [ht, Bool.false_eq_true, if_false, List.mem_cons, event_ne_done.symm, false_or,
      exists_eq_or_imp, event_isError, forall_eq_or_imp]
    cases hok : item.isOk
    case true =>
      simp only [true_and, Bool.true_eq_false, false_or]
      exact hi (by simp) (by simp [event_failed, hf, hok])
    case false =>
      have hl (s : ChatStream τ) := last_of_failed (s := (s.event item).fst)
        (by simp [event_failed, hok])
      rw [body_of_error (by simp)]
      simp only [Bool.false_eq_true, false_and, iff_false, true_or, and_true]
      intro h
      obtain ⟨_, h⟩ := hl _ _ h
      nomatch h

theorem observeItem_running {guard : RequestGuard} (item : Item τ) (hn : guard.finished = false) :
    (terminal item = false ∧ (observeItem guard item).finished = false ∧
      (observeItem guard item).totals = guard.totals) ∨
    (terminal item = true ∧ (observeItem guard item).finished = true ∧
      (observeItem guard item).totals =
        guard.totals.count (if item.isOk then "done" else "error")) := by
  have hc : Counts guard.totals False guard := ⟨fun _ => ⟨hn, rfl⟩, nofun⟩
  obtain message | (text | deltas | completion) := item
  case error => exact .inr ⟨rfl, hc.error.errored trivial⟩
  case ok.textChunk =>
    refine .inl ⟨rfl, ?_⟩
    rw [observeItem]
    split <;> simp [hn]
  case ok.toolCallDelta =>
    refine .inl ⟨rfl, ?_⟩
    rw [observeItem]
    split <;> simp [hn]
  case ok.done =>
    obtain ⟨hf, -, hd⟩ := hc.finish_totals
    exact .inr ⟨rfl, hf, hd id⟩

theorem isOk_of_not_terminal (h : terminal item = false) : item.isOk = true := by
  cases item
  case error => nomatch h
  case ok    => rfl

-- The first item that tells how a generation has ended is counted.
theorem body_of_running (ht : s.terminalError = false) (hn : s.guard.finished = false) :
    (s.body items).snd.totals = s.guard.totals.count
      (if (items.find? terminal).any Except.isOk then "done" else "error") := by
  induction items generalizing s
  case nil =>
    have hc : Counts s.guard.totals False s.guard := ⟨fun _ => ⟨hn, rfl⟩, nofun⟩
    obtain ⟨hf, he⟩ := hc.error.errored trivial
    rw [ChatStream.body, observeEnd, if_neg (by simp [hn]), drop_of_finished hf, he]
    rfl
  case cons item items hi =>
    rw [ChatStream.body, if_neg (by simp [ht]), List.find?_cons]
    obtain ⟨hterm, hf, heq⟩ | ⟨hterm, hf, heq⟩ := observeItem_running item hn
    case inl =>
      rw [hterm, ←heq]
      exact (hi (by simp [isOk_of_not_terminal hterm]) (by simpa using hf)).trans (by simp)
    case inr =>
      rw [hterm]
      exact (body_of_finished (by simpa using hf)).trans (by simpa using heq)

def ChatCompletes (items : List (Item τ)) : Prop :=
  (∃ completion, .ok (.done completion) ∈ items) ∧ ∀ item ∈ items, item.isOk = true

theorem terminal_done (h : terminal item = true) (ho : item.isOk = true) :
    ∃ completion, item = .ok (.done completion) := by
  obtain _ | (_ | _ | completion) := item
  case error   => nomatch ho
  case ok.done => exact ⟨completion, rfl⟩
  all_goals nomatch h

theorem chat_truthful_iff {totals : Totals} {includeUsage : Bool} :
    Truthful .done ChatEvent.IsError (begin totals).totals (ChatCompletes items)
      (streamChatResponse totals includeUsage items).fst
      (streamChatResponse totals includeUsage items).snd ↔ Decided items := by
  let s : ChatStream τ := {
    guard         := begin totals
    includeUsage  := includeUsage
    terminalError := false
    failed        := false
    usage         := none
  }
  obtain ⟨hd, he⟩ := @body_events _ s items rfl rfl
  have hc : (s.body items).snd.totals = (begin totals).totals.count
      (if (items.find? terminal).any Except.isOk then "done" else "error") := body_of_running rfl rfl
  have hd : .done ∈ .role :: (s.body items).fst ↔ ∀ item ∈ items, item.isOk = true := by
    simpa using hd
  have he : (∃ event ∈ .role :: (s.body items).fst, event.IsError) ↔
      ∃ item ∈ items, item.isOk = false := by
    simpa [ChatEvent.IsError] using he
  have hs : streamChatResponse totals includeUsage items =
    (.role :: (s.body items).fst, (s.body items).snd) := rfl
  rw [hs, Decided]
  cases hl : items.find? terminal
  case none =>
    have hl := List.find?_eq_none.mp hl
    refine iff_false_intro fun t => ?_
    obtain ⟨⟨completion, hm⟩, -⟩ := t.done.mp (hd.mpr fun item hm =>
      isOk_of_not_terminal (Bool.eq_false_of_not_eq_true (hl item hm)))
    exact hl _ hm rfl
  case some item =>
    have hterm := List.find?_some hl
    have hm := List.mem_of_find?_eq_some hl
    rw [hl] at hc
    cases item
    case error message =>
      have hn : ¬∀ item ∈ items, item.isOk = true := fun h => nomatch h _ hm
      refine iff_true_intro ⟨iff_of_false (fun h => hn (hd.mp h)) fun h => hn h.right,
        iff_of_false (fun h => count_error_ne (hc.symm.trans h)) fun h => hn h.right,
        fun _ => ⟨he.mpr ⟨_, hm, rfl⟩, hc⟩⟩
    case ok event =>
      obtain ⟨completion, heq⟩ := terminal_done hterm rfl
      constructor
      case mp => exact fun t => hd.mp (t.done.mpr (t.completed.mp hc))
      case mpr =>
        intro hall
        have hcompletes : ChatCompletes items := ⟨⟨completion, heq ▸ hm⟩, hall⟩
        exact ⟨iff_of_true (hd.mpr hall) hcompletes, iff_of_true hc hcompletes,
          fun h => absurd hcompletes h⟩

end Chat

-- Both kinds of streams end truthfully exactly in these cases.
theorem openai_streams_truthful (totals : Totals) :
    (∀ (model : String) (n : Nat) (includeUsage : Bool) (items : List RawItem),
      Truthful .done (Event.isError · = true) (begin totals).totals (Completes items n)
        ((openai totals model n includeUsage).run items).fst
        ((openai totals model n includeUsage).run items).snd ↔ Consistent n includeUsage items) ∧
    ∀ (τ : Type) (includeUsage : Bool) (items : List (Item τ)),
      Truthful .done ChatEvent.IsError (begin totals).totals (ChatCompletes items)
        (streamChatResponse totals includeUsage items).fst
        (streamChatResponse totals includeUsage items).snd ↔ Decided items :=
  ⟨fun _ _ _ _ => after_nil.ends.truthful_iff, fun _ _ _ => chat_truthful_iff⟩

-- The only choice does not finish, but another one does.
def strayChunk : Json :=
  .object [("choices", .array [.object [("index", .unsigned 7), ("finish_reason", .string "stop")]])]

def noTotals : Totals where
  started   := 0
  completed := 0
  errors    := 0
  cancelled := 0
  active    := 0

-- The answer to a generation that ends without a word.
def silence : List (ChatEvent Unit) × RequestGuard :=
  streamChatResponse noTotals true []

theorem openai_streams_untruthful :
    (¬Truthful .done (Event.isError · = true) (begin noTotals).totals
      (Completes [.ok strayChunk] 1) ((openai noTotals "m" 1 true).run [.ok strayChunk]).fst
      ((openai noTotals "m" 1 true).run [.ok strayChunk]).snd ∧
      .done ∈ ((openai noTotals "m" 1 true).run [.ok strayChunk]).fst) ∧
    ¬Truthful .done ChatEvent.IsError (begin noTotals).totals
      (ChatCompletes ([] : List (Item Unit))) silence.fst silence.snd ∧ .done ∈ silence.fst := by
  have hf : finished [.ok strayChunk] = {7} := finished_singleton
  have hnot : ¬Failed [.ok strayChunk] := by simp [Except.isOk, Except.toBool]
  have hdone : .done ∈ ((openai noTotals "m" 1 true).run [.ok strayChunk]).fst := by
    refine after_nil.ends.done.mpr ⟨?_, hnot, ?_⟩
    · simp [strayChunk, readable]
    · exact congrArg Finset.card hf
  refine ⟨⟨fun t => ?_, hdone⟩, fun t => chat_truthful_iff.mp t,
    by simp [silence, streamChatResponse, ChatStream.body, ChatStream.last]⟩
  have h := (t.done.mp hdone).right.right 0 Nat.one_pos
  rw [hf] at h
  nomatch Finset.mem_singleton.mp h

end Api.OpenAi
