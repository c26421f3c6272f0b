import WerkModel.Lib.Json
import WerkModel.Lib.Redaction

-- The errors of the protocol client, from which the secrets of a request are taken out.
open Redaction

namespace WerkProtocol.Client

structure ProtocolVersion where
  major : Nat
  minor : Nat
  deriving DecidableEq

inductive ProtocolErrorCode
  | invalidRequest
  | incompatibleProtocol
  | unauthorized
  | forbidden
  | notFound
  | conflict
  | incompatibleState
  | expiredHandoff
  | unsupported
  | unavailable
  | experimentalOptInRequired
  | resourceExhausted
  | corruptState
  | internal

structure ProtocolErrorBody where
  code      : ProtocolErrorCode
  message   : String
  retryable : Bool
  details   : Option Json

inductive ClientError
  | invalidBaseUrl (message : String)
  | invalidTimeout (message : String)
  | transport (message : String)
  | http (status : Nat) (error : Option ProtocolErrorBody) (requestId : Option String)
  | invalidResponse (message : String)
  | incompatibleProtocol (version : ProtocolVersion)

def marker : String := "[redacted]"

def validRequestId (value : String) : Bool :=
  value ≠ "" && value.utf8ByteSize ≤ 128 &&
    value.toList.all fun c => c.isAlphanum || c == '.' || c == '_' || c == '-'

section

variable (secrets : List String)

def redactText (value : String) : String :=
  .ofList <| (redact marker.toList ((secrets.filter (· ≠ "")).map String.toList)
    value.toList).take 2048

def redactRequestId : Option String → Option String
  | none       => none
  | some value =>
    let redacted := redactText secrets value
    if marker.toList <:+: redacted.toList ∨ ¬validRequestId redacted then none else some redacted

mutual

def redactJsonStrings : Json → Json
  | .string text     => .string (redactText secrets text)
  | .array values    => .array (redactElements values)
  | .object values   => .object (redactEntries [] values)
  | .null            => .null
  | .bool value      => .bool value
  | .unsigned number => .unsigned number
  | .signed number   => .signed number
  | .float literal   => .float literal

def redactElements : List Json → List Json
  | []              => []
  | value :: values => redactJsonStrings value :: redactElements values

-- Keys that become the same keep the last value.
def redactEntries (values : List (String × Json)) : List (String × Json) → List (String × Json)
  | []                   => values
  | (key, value) :: rest =>
    redactEntries (Json.insert values (redactText secrets key) (redactJsonStrings value)) rest

end

def redactBody (body : ProtocolErrorBody) : ProtocolErrorBody :=
  { body with
    message := redactText secrets body.message
    details := body.details.map (redactJsonStrings secrets) }

def redactClientError : ClientError → ClientError
  | .invalidBaseUrl message          => .invalidBaseUrl (redactText secrets message)
  | .invalidTimeout message          => .invalidTimeout (redactText secrets message)
  | .transport message               => .transport (redactText secrets message)
  | .invalidResponse message         => .invalidResponse (redactText secrets message)
  | .http status error requestId     =>
    .http status (error.map (redactBody secrets)) (redactRequestId secrets requestId)
  | .incompatibleProtocol version    => .incompatibleProtocol version

end

section Requests

-- The contents of the messages, if it is no single text.
inductive PrefillInput
  | text (text : String)
  | messages (contents : List String)

structure DecodeRequest where
  handoff : String
  stop    : List String

inductive Operation
  | prefill (input : PrefillInput)
  | decode (request : DecodeRequest)
  | other

-- As many messages and stop strings as the server takes.
def Operation.redactions : Operation → List String
  | .prefill (.text text)         => [text]
  | .prefill (.messages contents) => contents.take 256
  | .decode request               => request.handoff :: request.stop.take 16
  | .other                        => []

-- What comes of the exchange with the server, without the secrets.
def Operation.call {α : Type*} (operation : Operation) (apiKey : Option String)
    (unredacted : Except ClientError α) : Except ClientError α :=
  unredacted.mapError (redactClientError (operation.redactions ++ apiKey.toList))

-- Everything of a request that is secret.
def Operation.secrets : Operation → List String
  | .prefill (.text text)         => [text]
  | .prefill (.messages contents) => contents
  | .decode request               => request.handoff :: request.stop
  | .other                        => []

end Requests

section Contents

-- A text that is a value or a key at any depth.
inductive Holds : Json → String → Prop
  | string {text} : Holds (.string text) text
  | array {values value text} : value ∈ values → Holds value text → Holds (.array values) text
  | key {values key value} : (key, value) ∈ values → Holds (.object values) key
  | object {values key value text} : (key, value) ∈ values → Holds value text →
    Holds (.object values) text

-- A text of an error.
inductive ClientError.Has : ClientError → String → Prop
  | invalidBaseUrl {message} : Has (.invalidBaseUrl message) message
  | invalidTimeout {message} : Has (.invalidTimeout message) message
  | transport {message} : Has (.transport message) message
  | invalidResponse {message} : Has (.invalidResponse message) message
  | message {status body requestId} : Has (.http status (some body) requestId) body.message
  | details {status body requestId details text} : body.details = some details →
    Holds details text → Has (.http status (some body) requestId) text
  | requestId {status error requestId} : Has (.http status error (some requestId)) requestId

-- Texts that are not too long, and objects that have each key once.
inductive Limited : Json → Prop
  | null : Limited .null
  | bool {value} : Limited (.bool value)
  | unsigned {number} : Limited (.unsigned number)
  | signed {number} : Limited (.signed number)
  | float {literal} : Limited (.float literal)
  | string {text} : text.length ≤ 2048 → Limited (.string text)
  | array {values} : (∀ value ∈ values, Limited value) → Limited (.array values)
  | object {values} : (values.map Prod.fst).Nodup →
    (∀ entry ∈ values, entry.1.length ≤ 2048) → (∀ entry ∈ values, Limited entry.2) →
    Limited (.object values)

end Contents

section Texts

variable {secrets : List String} {secret text : String} {value : Json} {values : List Json}
variable {entries rest : List (String × Json)} {entry : String × Json} {error : ClientError}

theorem mem_patterns {pattern : List Char} :
    pattern ∈ (secrets.filter (· ≠ "")).map String.toList ↔
      ∃ secret ∈ secrets, secret ≠ "" ∧ secret.toList = pattern := by
  simp [and_assoc]

theorem patterns_ne_nil {pattern : List Char}
    (h : pattern ∈ (secrets.filter (· ≠ "")).map String.toList) : pattern ≠ [] := by
  obtain ⟨secret, _, hn, rfl⟩ := mem_patterns.mp h
  exact fun he => hn (String.toList_eq_nil_iff.mp he)

-- No secret is in the marker, holds it, or reaches into it.
def Separate (secrets : List String) : Prop :=
  ∀ secret ∈ secrets, secret ≠ "" → Clear marker.toList secret.toList

def Absent (secrets : List String) (text : String) : Prop :=
  ∀ secret ∈ secrets, secret ≠ "" → ¬secret.toList <:+: text.toList

theorem absent_redactText (h : Separate secrets) : Absent secrets (redactText secrets text) := by
  intro secret hs hn hi
  rw [redactText, String.toList_ofList] at hi
  refine not_infix_redact (fun _ => patterns_ne_nil) (fun pattern hp => ?_)
    (mem_patterns.mpr ⟨secret, hs, hn, rfl⟩) (hi.trans (List.take_prefix _ _).isInfix)
  obtain ⟨other, ho, hne, rfl⟩ := mem_patterns.mp hp
  exact h other ho hne

-- Only the limit of the length is left.
theorem redactText_of_absent (h : Absent secrets text) :
    redactText secrets text = redactText [] text := by
  have hr : redact marker.toList ((secrets.filter (· ≠ "")).map String.toList) text.toList =
      text.toList := by
    refine redact_eq_self (fun _ => patterns_ne_nil) fun pattern hp => ?_
    obtain ⟨other, ho, hn, rfl⟩ := mem_patterns.mp hp
    exact h other ho hn
  rw [redactText, redactText, hr]
  rfl

theorem redactText_nil (h : text.length ≤ 2048) : redactText [] text = text := by
  have hr : redactText [] text = .ofList (text.toList.take 2048) := rfl
  rw [hr, List.take_of_length_le (by rwa [String.length_toList]), String.ofList_toList]

theorem redactElements_eq : redactElements secrets values =
    values.map (redactJsonStrings secrets) := by
  induction values
  case nil => rfl
  case cons value values hi => rw [redactElements, hi, List.map_cons]

theorem mem_insert {key : String} (h : entry ∈ Json.insert entries key value) :
    entry = (key, value) ∨ entry ∈ entries := by
  fun_induction Json.insert entries key value
  case case1 => exact .inl (List.mem_singleton.mp h)
  case case2 rest _ =>
    cases List.mem_cons.mp h
    case inl h => exact .inl h
    case inr h => exact .inr (List.mem_cons_of_mem _ h)
  case case3 field rest _ hi =>
    cases List.mem_cons.mp h
    case inl h => exact .inr (h ▸ List.mem_cons_self ..)
    case inr h => exact (hi h).imp_right (List.mem_cons_of_mem _)

theorem mem_redactEntries (h : entry ∈ redactEntries secrets entries rest) :
    entry ∈ entries ∨ ∃ prior ∈ rest,
      entry = (redactText secrets prior.1, redactJsonStrings secrets prior.2) := by
  induction rest generalizing entries
  case nil => exact .inl h
  case cons prior rest hi =>
    cases hi h
    case inl h =>
      cases mem_insert h
      case inl h => exact .inr ⟨prior, List.mem_cons_self .., h⟩
      case inr h => exact .inl h
    case inr h =>
      obtain ⟨other, ho, h⟩ := h
      exact .inr ⟨other, List.mem_cons_of_mem _ ho, h⟩

-- Every text that is left was redacted.
theorem exists_of_holds (h : Holds (redactJsonStrings secrets value) text) :
    ∃ prior, text = redactText secrets prior := by
  generalize he : redactJsonStrings secrets value = result at h
  induction h generalizing value
  case string text =>
    cases value <;> simp only [redactJsonStrings, reduceCtorEq, Json.string.injEq] at he
    exact ⟨_, he.symm⟩
  case array hm _ hi =>
    cases value <;> simp only [redactJsonStrings, reduceCtorEq, Json.array.injEq] at he
    rw [redactElements_eq] at he
    subst he
    obtain ⟨element, -, rfl⟩ := List.mem_map.mp hm
    exact hi rfl
  case key hm =>
    cases value <;> simp only [redactJsonStrings, reduceCtorEq, Json.object.injEq] at he
    subst he
    obtain h | ⟨prior, -, h⟩ := mem_redactEntries hm
    · cases h
    · exact ⟨prior.1, congrArg Prod.fst h⟩
  case object hm _ hi =>
    cases value <;> simp only [redactJsonStrings, reduceCtorEq, Json.object.injEq] at he
    subst he
    obtain h | ⟨prior, -, h⟩ := mem_redactEntries hm
    · cases h
    · exact hi (congrArg Prod.snd h).symm

theorem redactEntries_congr {secrets' : List String}
    (h : ∀ entry ∈ rest, redactText secrets entry.1 = redactText secrets' entry.1 ∧
      redactJsonStrings secrets entry.2 = redactJsonStrings secrets' entry.2) :
    redactEntries secrets entries rest = redactEntries secrets' entries rest := by
  induction rest generalizing entries
  case nil => rfl
  case cons entry rest hi =>
    have ⟨⟨hk, hv⟩, h⟩ := List.forall_mem_cons.mp h
    rw [redactEntries, redactEntries, hk, hv]
    exact hi h

theorem redactJsonStrings_of_absent (h : ∀ text, Holds value text → Absent secrets text) :
    redactJsonStrings secrets value = redactJsonStrings [] value := by
  induction hn : sizeOf value using Nat.strong_induction_on generalizing value
  case h n hi =>
    subst hn
    cases value
    case string text =>
      rw [redactJsonStrings, redactJsonStrings, redactText_of_absent (h text .string)]
    case array values =>
      rw [redactJsonStrings, redactJsonStrings, redactElements_eq, redactElements_eq]
      refine congrArg _ (List.map_congr_left fun element hm => hi _ ?_ (fun text ht => ?_) rfl)
      · have := List.sizeOf_lt_of_mem hm
        simp only [Json.array.sizeOf_spec]
        omega
      · exact h text (.array hm ht)
    case object entries =>
      rw [redactJsonStrings, redactJsonStrings]
      refine congrArg _ (redactEntries_congr fun entry hm => ⟨?_, hi _ ?_ (fun text ht => ?_) rfl⟩)
      · exact redactText_of_absent (h _ (.key hm))
      · have := List.sizeOf_lt_of_mem hm
        obtain ⟨key, element⟩ := entry
        simp only [Json.object.sizeOf_spec, Prod.mk.sizeOf_spec] at this ⊢
        omega
      · exact h text (.object hm ht)
    all_goals rfl

theorem insert_of_not_mem {key : String} (h : key ∉ entries.map Prod.fst) :
    Json.insert entries key value = entries ++ [(key, value)] := by
  induction entries
  case nil => rfl
  case cons entry entries hi =>
    rw [List.map_cons, List.mem_cons, not_or] at h
    rw [Json.insert, if_neg (Ne.symm h.1), hi h.2, List.cons_append]

theorem redactEntries_nil (hd : ((entries ++ rest).map Prod.fst).Nodup)
    (h : ∀ entry ∈ rest, redactText [] entry.1 = entry.1 ∧
      redactJsonStrings [] entry.2 = entry.2) :
    redactEntries [] entries rest = entries ++ rest := by
  induction rest generalizing entries
  case nil => rw [redactEntries, List.append_nil]
  case cons entry rest hi =>
    have ⟨⟨hk, hv⟩, h⟩ := List.forall_mem_cons.mp h
    have hn : entry.1 ∉ entries.map Prod.fst := by
      rw [List.map_append, List.nodup_append'] at hd
      exact fun hm => hd.2.2 hm (by simp)
    rw [List.append_cons] at hd
    rw [redactEntries, hk, hv, insert_of_not_mem hn, hi hd h, List.append_assoc]
    rfl

theorem redactJsonStrings_nil (h : Limited value) : redactJsonStrings [] value = value := by
  induction h
  case string hl => rw [redactJsonStrings, redactText_nil hl]
  case array values _ hi =>
    rw [redactJsonStrings, redactElements_eq]
    exact congrArg _ ((List.map_congr_left hi).trans (List.map_id _))
  case object entries hd hl _ hi =>
    rw [redactJsonStrings, redactEntries_nil (by simpa using hd)]
    · rfl
    · exact fun entry hm => ⟨redactText_nil (hl entry hm), hi entry hm⟩
  all_goals rfl

end Texts

section Errors

variable {secrets : List String} {text : String} {error : ClientError} {requestId : Option String}

-- An error without texts that are too long, and with a valid request id.
def ClientError.Fits : ClientError → Prop
  | .invalidBaseUrl message       => message.length ≤ 2048
  | .invalidTimeout message       => message.length ≤ 2048
  | .transport message            => message.length ≤ 2048
  | .invalidResponse message      => message.length ≤ 2048
  | .http _ error requestId       =>
    (∀ body ∈ error, body.message.length ≤ 2048 ∧ ∀ details ∈ body.details, Limited details) ∧
      ∀ value ∈ requestId, value.length ≤ 2048 ∧ validRequestId value = true
  | .incompatibleProtocol _       => True

theorem exists_of_redactRequestId (h : redactRequestId secrets requestId = some text) :
    ∃ prior, text = redactText secrets prior := by
  cases requestId
  case none => simp [redactRequestId] at h
  case some value =>
    simp only [redactRequestId] at h
    split at h
    case isTrue  => simp at h
    case isFalse => exact ⟨value, (Option.some.inj h).symm⟩

-- A valid request id has no bracket.
theorem not_infix_of_validRequestId (h : validRequestId text = true) :
    ¬marker.toList <:+: text.toList := by
  intro hi
  simp only [validRequestId, Bool.and_eq_true, List.all_eq_true] at h
  have hb := h.2 '[' (hi.subset (by decide))
  exact absurd hb (by decide)

theorem redactRequestId_nil (h : ∀ value ∈ requestId, value.length ≤ 2048 ∧
    validRequestId value = true) : redactRequestId [] requestId = requestId := by
  cases requestId
  case none => rfl
  case some value =>
    have ⟨hl, hv⟩ := h value rfl
    simp only [redactRequestId, redactText_nil hl]
    rw [if_neg]
    rw [not_or, not_not]
    exact ⟨not_infix_of_validRequestId hv, hv⟩

theorem redactRequestId_of_absent (h : ∀ value ∈ requestId, Absent secrets value) :
    redactRequestId secrets requestId = redactRequestId [] requestId := by
  cases requestId
  case none       => rfl
  case some value => rw [redactRequestId, redactRequestId, redactText_of_absent (h value rfl)]

theorem exists_of_has (h : (redactClientError secrets error).Has text) :
    ∃ prior, text = redactText secrets prior := by
  generalize he : redactClientError secrets error = result at h
  cases h
  case details status body requestId details hd ht =>
    cases error <;> simp only [redactClientError, reduceCtorEq, ClientError.http.injEq] at he
    obtain ⟨prior, _, rfl⟩ := Option.map_eq_some_iff.mp he.2.1
    obtain ⟨value, _, rfl⟩ := Option.map_eq_some_iff.mp hd
    exact exists_of_holds ht
  case message status body requestId =>
    cases error <;> simp only [redactClientError, reduceCtorEq, ClientError.http.injEq] at he
    obtain ⟨prior, _, rfl⟩ := Option.map_eq_some_iff.mp he.2.1
    exact ⟨prior.message, rfl⟩
  case requestId status body =>
    cases error <;> simp only [redactClientError, reduceCtorEq, ClientError.http.injEq] at he
    exact exists_of_redactRequestId he.2.2
  case invalidBaseUrl =>
    cases error <;>
      simp only [redactClientError, reduceCtorEq, ClientError.invalidBaseUrl.injEq] at he
    exact ⟨_, he.symm⟩
  case invalidTimeout =>
    cases error <;>
      simp only [redactClientError, reduceCtorEq, ClientError.invalidTimeout.injEq] at he
    exact ⟨_, he.symm⟩
  case transport =>
    cases error <;> simp only [redactClientError, reduceCtorEq, ClientError.transport.injEq] at he
    exact ⟨_, he.symm⟩
  case invalidResponse =>
    cases error <;>
      simp only [redactClientError, reduceCtorEq, ClientError.invalidResponse.injEq] at he
    exact ⟨_, he.symm⟩

theorem redactClientError_of_absent (h : ∀ text, error.Has text → Absent secrets text) :
    redactClientError secrets error = redactClientError [] error := by
  cases error
  case http status body requestId =>
    have hid : redactRequestId secrets requestId = redactRequestId [] requestId :=
      redactRequestId_of_absent fun value hv => h value (by cases hv; exact .requestId)
    have hbody : body.map (redactBody secrets) = body.map (redactBody []) := by
      refine Option.map_congr fun body hb => ?_
      cases hb
      rw [redactBody, redactBody, redactText_of_absent (h _ .message)]
      congr 1
      refine Option.map_congr fun details hd => redactJsonStrings_of_absent fun text ht => ?_
      exact h text (.details hd ht)
    rw [redactClientError, redactClientError, hid, hbody]
  case invalidBaseUrl =>
    rw [redactClientError, redactClientError, redactText_of_absent (h _ .invalidBaseUrl)]
  case invalidTimeout =>
    rw [redactClientError, redactClientError, redactText_of_absent (h _ .invalidTimeout)]
  case transport =>
    rw [redactClientError, redactClientError, redactText_of_absent (h _ .transport)]
  case invalidResponse =>
    rw [redactClientError, redactClientError, redactText_of_absent (h _ .invalidResponse)]
  case incompatibleProtocol => rfl

theorem redactClientError_nil (h : error.Fits) : redactClientError [] error = error := by
  cases error
  case http status body requestId =>
    have hbody : body.map (redactBody []) = body := by
      cases body
      case none => rfl
      case some body =>
        have ⟨hm, hd⟩ := h.1 body rfl
        have hdetails : body.details.map (redactJsonStrings []) = body.details := by
          cases he : body.details
          case none         => rfl
          case some details => exact congrArg some (redactJsonStrings_nil (hd details he))
        rw [Option.map_some, redactBody, redactText_nil hm, hdetails]
    rw [redactClientError, redactRequestId_nil h.2, hbody]
  case incompatibleProtocol => rfl
  all_goals rw [redactClientError, redactText_nil h]

-- The secrets that are looked for are in no text of an error, and an error without them is kept but
-- for the limit of the length.
theorem call_error (operation : Operation) (apiKey : Option String) (error : ClientError) :
    ∃ error', operation.call apiKey (.error error : Except ClientError PUnit) = .error error' ∧
      (Separate (operation.redactions ++ apiKey.toList) →
        ∀ text, error'.Has text → Absent (operation.redactions ++ apiKey.toList) text) ∧
      ((∀ text, error.Has text → Absent (operation.redactions ++ apiKey.toList) text) →
        error' = redactClientError [] error ∧ (error.Fits → error' = error)) := by
  refine ⟨_, rfl, fun hs text ht => ?_, fun ha => ?_⟩
  · obtain ⟨prior, rfl⟩ := exists_of_has ht
    exact absent_redactText hs
  · have he := redactClientError_of_absent ha
    exact ⟨he, fun hf => he.trans (redactClientError_nil hf)⟩

-- The last of too many messages.
def lateMessage : Operation :=
  .prefill (.messages (List.replicate 256 "x" ++ ["zzz"]))

theorem lateMessage_redactions : lateMessage.redactions = List.replicate 256 "x" := by
  rw [lateMessage, Operation.redactions, List.take_left' (List.length_replicate ..)]

-- It is not looked for, a secret with the marker in it can be put together, and the client's own
-- words may be taken for a secret.
theorem call_discloses :
    ((∀ secret ∈ lateMessage.secrets, Apart marker.toList secret.toList) ∧
      "zzz" ∈ lateMessage.secrets ∧
      lateMessage.call none (.error (.transport "zzz") : Except ClientError PUnit) =
        .error (.transport "zzz")) ∧
    ((∀ secret ∈ ["a[redacted]b", "x"], Apart marker.toList secret.toList) ∧
      (Operation.prefill (.messages ["a[redacted]b", "x"])).call none
        (.error (.transport "axb") : Except ClientError PUnit) =
          .error (.transport "a[redacted]b")) ∧
    (Apart marker.toList "HTTP".toList ∧ (Operation.prefill (.text "HTTP")).call none
      (.error (.invalidResponse "invalid HTTP response") : Except ClientError PUnit) =
        .error (.invalidResponse "invalid [redacted] response")) := by
  have hx : Apart marker.toList "x".toList := Apart.of_take (by decide) (by decide)
  refine ⟨⟨fun secret hs => ?_, List.mem_append_right _ (List.mem_singleton_self _), ?_⟩,
    ⟨fun secret hs => ?_, ?_⟩, Apart.of_take (by decide) (by decide), ?_⟩
  · rw [lateMessage, Operation.secrets, List.mem_append, List.mem_singleton] at hs
    obtain hs | rfl := hs
    · rw [List.eq_of_mem_replicate hs]
      exact hx
    · exact Apart.of_take (by decide) (by decide)
  · have ha : Absent (lateMessage.redactions ++ Option.toList none) "zzz" := by
      intro secret hs _
      rw [lateMessage_redactions, Option.toList_none, List.append_nil] at hs
      rw [List.eq_of_mem_replicate hs]
      decide
    have ht := (redactText_of_absent ha).trans (redactText_nil (by decide))
    exact congrArg (fun text => Except.error (ClientError.transport text)) ht
  · simp only [List.mem_cons, List.not_mem_nil, or_false] at hs
    obtain rfl | rfl := hs
    · exact Apart.of_take (by decide) (by decide)
    · exact hx
  · have ht : redactText ["a[redacted]b", "x"] "axb" = "a[redacted]b" := by decide +kernel
    exact congrArg (fun text => Except.error (ClientError.transport text)) ht
  · have ht : redactText ["HTTP"] "invalid HTTP response" = "invalid [redacted] response" := by
      decide +kernel
    exact congrArg (fun text => Except.error (ClientError.invalidResponse text)) ht

end Errors

end WerkProtocol.Client
