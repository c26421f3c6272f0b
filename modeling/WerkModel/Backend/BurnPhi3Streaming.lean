import WerkModel.Lib.Lists
import WerkModel.Lib.Stops

-- The decoding loop of Burn Phi-3, which decodes the whole output after each token and streams the
-- difference to what it decoded before.
open Stops Differences

namespace Backend.BurnPhi3

abbrev Text := List Char

-- The first stop string of the list that is found cuts the text.
def stopReached (text : Text) : List Text → Bool × Text
  | []            => (false, text)
  | stop :: stops =>
    if stop = [] then
      stopReached text stops
    else
      match Infix.position stop text with
      | none       => stopReached text stops
      | some index => (true, text.take index)

structure State (τ : Type*) where
  generated     : List τ
  generatedText : Text
  emitted       : List Text
  finishReason  : String

def State.init {τ : Type*} : State τ where
  generated     := []
  generatedText := []
  emitted       := []
  finishReason  := "length"

def safePiece (previousText generatedText : Text) (reachedStop : Bool) : Text :=
  if previousText <+: generatedText ∧ generatedText.length > previousText.length then
    generatedText.drop previousText.length
  else if previousText ≠ generatedText ∧ ¬reachedStop then
    generatedText
  else
    []

-- The callback gets no piece without text.
def callback (onToken : Bool) (emitted : List Text) (piece : Text) : List Text :=
  if onToken ∧ piece ≠ [] then emitted ++ [piece] else emitted

section

variable {τ : Type*} [DecidableEq τ]
variable (tokenizer : List τ → Option Text) (eosToken : Option τ) (stops : List Text)

-- A failure of the tokenizer counts as no text.
def decoded (generated : List τ) : Text :=
  (tokenizer generated).getD []

-- One token is drawn for each round.
def decode (onToken : Bool) : List τ → State τ → State τ
  | [], s                 => s
  | nextToken :: draws, s =>
    if some nextToken = eosToken then
      { s with finishReason := "stop" }
    else
      let generated := s.generated ++ [nextToken]
      let reached := stopReached (decoded tokenizer generated) stops
      let emitted := callback onToken s.emitted (safePiece s.generatedText reached.2 reached.1)
      if reached.1 then
        ⟨generated, reached.2, emitted, "stop"⟩
      else
        decode onToken draws ⟨generated, reached.2, emitted, s.finishReason⟩

def generate (onToken : Bool) (draws : List τ) : State τ :=
  decode tokenizer eosToken stops onToken draws .init

-- What the tokenizer makes of the output after each token that is drawn before the text ends.
def textsFrom (generated : List τ) : List τ → List Text
  | []                 => []
  | nextToken :: draws =>
    if some nextToken = eosToken then
      []
    else
      decoded tokenizer (generated ++ [nextToken]) :: textsFrom (generated ++ [nextToken]) draws

def texts (draws : List τ) : List Text :=
  textsFrom tokenizer eosToken [] draws

end

section Streaming

variable {τ : Type*} [DecidableEq τ] {tokenizer : List τ → Option Text} {eosToken : Option τ}
variable {stops : List Text} {text previous : Text} {s : State τ} {draws : List τ} {token : τ}
variable {before after : List Text} {c : Text} {m i : Nat}

theorem stopReached_eq : stopReached text stops =
    ((firstListed stops text).isSome, (firstListed stops text).elim text text.take) := by
  induction stops
  case nil => rfl
  case cons stop stops hi =>
    rw [stopReached, firstListed_cons, hi]
    split
    case isTrue  => rfl
    case isFalse => cases Infix.position stop text <;> rfl

theorem safePiece_of_extended {reached : Bool} (h : previous <+: text) :
    previous ++ safePiece previous text reached = text := by
  obtain ⟨rest, rfl⟩ := h
  rw [safePiece]
  cases rest
  case nil       => simp
  case cons a as => simp

theorem safePiece_of_replaced (h : ¬previous <+: text) :
    safePiece previous text false = text := by
  have hn : previous ≠ text := by
    rintro rfl
    exact h (List.prefix_refl _)
  rw [safePiece, if_neg fun hc => h hc.1, if_pos ⟨hn, by simp⟩]

theorem safePiece_of_reached (h : ¬previous <+: text) : safePiece previous text true = [] := by
  rw [safePiece, if_neg fun hc => h hc.1, if_neg fun hc => hc.2 rfl]

theorem flatten_callback {emitted : List Text} :
    (callback true emitted text).flatten = emitted.flatten ++ text := by
  rw [callback]
  split
  case isTrue => rw [List.flatten_append, List.flatten_singleton]
  case isFalse h =>
    obtain rfl : text = [] := by simpa using h
    rw [List.append_nil]

-- What the loop ends with.
inductive Decoded (stops texts : List Text) (c previous : Text) (s : State τ) : Prop
  | whole : (∀ text ∈ texts, Free stops text) → s.generatedText = texts.getLastD previous →
    s.emitted.flatten = c ++ received previous texts → Decoded stops texts c previous s
  | cut (before after : List Text) (text : Text) (i : Nat) : texts = before ++ text :: after →
    (∀ text ∈ before, Free stops text) → firstListed stops text = some i →
    s.generatedText = text.take i → s.finishReason = "stop" →
    s.emitted.flatten = c ++ received previous before ++
      safePiece (before.getLastD previous) (text.take i) true → Decoded stops texts c previous s

-- One more text in front.
omit [DecidableEq τ] in
theorem Decoded.cons {texts : List Text} {c' : Text} (h : Decoded stops texts c' text s)
    (hf : Free stops text)
    (hc : ∀ texts, c' ++ received text texts = c ++ received previous (text :: texts)) :
    Decoded stops (text :: texts) c previous s := by
  cases h
  case whole hw ht he =>
    refine .whole (List.forall_mem_cons.mpr ⟨hf, hw⟩) ?_ ?_
    · rwa [List.getLastD_cons]
    · rw [he, hc]
  case cut before after next i hb hw hi ht hr he =>
    refine .cut (text :: before) after next i ?_ (List.forall_mem_cons.mpr ⟨hf, hw⟩) hi ht hr ?_
    · rw [hb, List.cons_append]
    · rw [he, hc, List.getLastD_cons]

theorem decode_decoded (h : s.emitted.flatten = c ++ s.generatedText) :
    Decoded stops (textsFrom tokenizer eosToken s.generated draws) c s.generatedText
      (decode tokenizer eosToken stops true draws s) := by
  induction draws generalizing s c
  case nil => exact .whole (by simp [textsFrom]) rfl h
  case cons token draws hi =>
    rw [textsFrom, decode]
    split
    case isTrue => exact .whole (by simp) rfl h
    case isFalse =>
      simp only [stopReached_eq]
      cases hf : firstListed stops (decoded tokenizer (s.generated ++ [token]))
      case some i =>
        refine .cut [] _ _ i rfl (by simp) hf rfl rfl ?_
        simp only [Option.isSome_some, if_true, Option.elim_some, flatten_callback, h]
        rfl
      case none =>
        have hfree := firstListed_eq_none_iff.mp hf
        simp only [Option.isSome_none, Bool.false_eq_true, if_false, Option.elim_none]
        by_cases hp : s.generatedText <+: decoded tokenizer (s.generated ++ [token])
        case pos =>
          have hd := @hi ⟨s.generated ++ [token], decoded tokenizer (s.generated ++ [token]),
            callback true s.emitted (safePiece s.generatedText _ false), s.finishReason⟩ c (by
              rw [flatten_callback, h, List.append_assoc, safePiece_of_extended hp])
          exact hd.cons hfree fun texts => by rw [received_of_extended hp]
        case neg =>
          have hd := @hi ⟨s.generated ++ [token], decoded tokenizer (s.generated ++ [token]),
            callback true s.emitted (safePiece s.generatedText _ false), s.finishReason⟩
            (c ++ s.generatedText) (by rw [flatten_callback, h, safePiece_of_replaced hp])
          exact hd.cons hfree fun texts => by
            rw [received_of_replaced hp, List.append_assoc]

-- What is streamed is the text, which is cut where the first stop string begins, at the first step
-- at which there is one.
structure Exact (stops texts : List Text) (s : State τ) : Prop where
  streamed : s.emitted.flatten = s.generatedText
  cut      : ∀ before text after m, texts = before ++ text :: after →
    (∀ text ∈ before, Free stops text) → Earliest stops text m → s.generatedText = text.take m
  whole    : (∀ text ∈ texts, Free stops text) → s.generatedText = texts.getLastD []

-- Each text extends the one before it, and the stop string that is listed first begins first. A cut
-- that takes back what was streamed leaves what was streamed before.
structure Extending (stops texts : List Text) : Prop where
  cut   : ∀ before text after m, texts = before ++ text :: after →
    (∀ text ∈ before, Free stops text) → Earliest stops text m → firstListed stops text = some m ∧
    if before.getLastD [] <+: text.take m then
      before.IsChain (· <+: ·)
    else
      received [] before = text.take m
  whole : (∀ text ∈ texts, Free stops text) → texts.IsChain (· <+: ·)

-- A list is split in only one way at the first text with a stop string.
theorem split_unique {before' after' : List Text} {text' : Text}
    (he : before ++ text :: after = before' ++ text' :: after')
    (hb : ∀ text ∈ before, Free stops text) (hb' : ∀ text ∈ before', Free stops text)
    (ht : ¬Free stops text) (ht' : ¬Free stops text') : before = before' ∧ text = text' := by
  induction before generalizing before'
  case nil =>
    cases before'
    case nil => exact ⟨rfl, (List.cons.inj he).1⟩
    case cons first before' =>
      obtain rfl := (List.cons.inj he).1
      exact absurd (hb' _ (List.mem_cons_self ..)) ht
  case cons first before hi =>
    have ⟨hf, hb⟩ := List.forall_mem_cons.mp hb
    cases before'
    case nil =>
      obtain rfl := (List.cons.inj he).1
      exact absurd hf ht'
    case cons first' before' =>
      have ⟨h₁, h₂⟩ := List.cons.inj he
      have ⟨h₃, h₄⟩ := hi h₂ hb (List.forall_mem_cons.mp hb').2
      exact ⟨by rw [h₁, h₃], h₄⟩

-- How much is received if a stop string takes back the end of the last text.
theorem received_append_safePiece_iff :
    received [] before ++ safePiece (before.getLastD []) text true = text ↔
      if before.getLastD [] <+: text then
        before.IsChain (· <+: ·)
      else
        received [] before = text := by
  split
  case isTrue hp =>
    have h := @safePiece_of_extended text (before.getLastD []) true hp
    rw [←isChain_nil_cons, ←received_eq_getLastD_iff]
    constructor
    case mp  => exact fun he => List.append_cancel_right (he.trans h.symm)
    case mpr => exact fun he => by rw [he, h]
  case isFalse hp => rw [safePiece_of_reached hp, List.append_nil]

-- What is streamed is the returned text if and only if no text before the cut replaces the one
-- before it.
theorem streaming_iff (tokenizer : List τ → Option Text) (eosToken : Option τ) (stops : List Text)
    (draws : List τ) :
    Exact stops (texts tokenizer eosToken draws) (generate tokenizer eosToken stops true draws) ↔
      Extending stops (texts tokenizer eosToken draws) := by
  have hd := @decode_decoded τ _ tokenizer eosToken stops .init draws [] rfl
  change Decoded stops (texts tokenizer eosToken draws) [] []
    (generate tokenizer eosToken stops true draws) at hd
  cases hd
  case whole hw ht he =>
    rw [List.nil_append] at he
    have hnot {before after : List Text} {text : Text}
        (h : texts tokenizer eosToken draws = before ++ text :: after) : Free stops text :=
      hw text (by simp [h])
    have hchain := (@received_eq_getLastD_iff _ _ [] (texts tokenizer eosToken draws)).trans
      isChain_nil_cons
    constructor
    case mp =>
      intro h
      refine ⟨fun _ _ _ m hb _ hm => absurd (hnot hb) hm.not_free, fun _ => ?_⟩
      rw [←hchain, ←he, h.streamed, ht]
    case mpr =>
      intro h
      refine ⟨?_, fun _ _ _ m hb _ hm => absurd (hnot hb) hm.not_free, fun _ => ht⟩
      rw [he, ht]
      exact hchain.mpr (h.whole hw)
  case cut before after text i hb hw hi ht hr he =>
    rw [List.nil_append] at he
    have hf : ¬Free stops text := fun hf => by simp [firstListed_eq_none_iff.mpr hf] at hi
    have hlt := (starts_of_firstListed hi).lt
    have hnot : ¬∀ text ∈ texts tokenizer eosToken draws, Free stops text :=
      fun h => hf (h text (by simp [hb]))
    constructor
    case mp =>
      intro h
      refine ⟨fun before' text' after' m hb' hw' hm => ?_, fun h => absurd h hnot⟩
      obtain ⟨rfl, rfl⟩ := split_unique (hb.symm.trans hb') hw hw' hf hm.not_free
      have hc := ht.symm.trans (h.cut _ _ _ m hb' hw' hm)
      have hl := congrArg List.length hc
      have := hm.starts.lt
      rw [List.length_take, List.length_take] at hl
      obtain rfl : i = m := by omega
      refine ⟨hi, received_append_safePiece_iff.mp ?_⟩
      rw [←he, h.streamed, ht]
    case mpr =>
      intro h
      have ⟨m, hm⟩ := exists_earliest hf
      have ⟨hi', hc⟩ := h.cut _ _ _ m hb hw hm
      obtain rfl := Option.some.inj (hi.symm.trans hi')
      refine ⟨?_, fun before' text' after' n hb' hw' hn => ?_, fun h => absurd h hnot⟩
      · rw [he, ht]
        exact received_append_safePiece_iff.mpr hc
      · obtain ⟨rfl, rfl⟩ := split_unique (hb.symm.trans hb') hw hw' hf hn.not_free
        obtain rfl := hn.unique hm
        exact ht

-- The second token completes a character whose first half was streamed as a replacement character.
theorem not_exact_replaced :
    let tokenizer := fun generated : List Nat =>
      if generated = [1] then some ['\uFFFD'] else some ['é']
    let s := generate tokenizer none [] true [1, 2]
    s.emitted = [['\uFFFD'], ['é']] ∧ s.generatedText = ['é'] ∧
      ¬Exact [] (texts tokenizer none [1, 2]) s := by
  intro tokenizer s
  have he : s.emitted = [['\uFFFD'], ['é']] := by decide +kernel
  have ht : s.generatedText = ['é'] := by decide +kernel
  refine ⟨he, ht, fun h => ?_⟩
  have hs := h.streamed
  rw [he, ht] at hs
  exact absurd hs (by decide)

end Streaming

end Backend.BurnPhi3
