import WerkModel.Lib.Saturating
import WerkModel.Lib.TreeMap
import WerkModel.RuntimeControl.Protocol

open Std Saturating

namespace RuntimeControl.Handoff

def tokenBytes : Nat := 32
def maxHandoffs : Nat := 1024
def maxHandoffsPerPrincipal : Nat := 128

-- Fifteen minutes.
def defaultHandoffTtlMillis : Nat := 15 * 60 * 1000

def tokenCollision : ProtocolError :=
  .setRetryable (.new .unavailable "secure handoff token allocation is temporarily unavailable") true

def expired : ProtocolError :=
  .new .expiredHandoff
    "handoff is invalid, expired, already consumed, or belongs to another principal"

def internal : ProtocolError :=
  .new .internal "runtime handoff registry is unavailable"

def principalMismatch : ProtocolError :=
  .new .internal "runtime handoff reservation principal does not match its record"

def capacityExhausted (message : String) : ProtocolError :=
  .setRetryable (.new .resourceExhausted message) true

section Base64

def sextet (n : Nat) : Char :=
  let n := n % 64
  if n < 26 then
    .ofNat ('A'.toNat + n)
  else if n < 52 then
    .ofNat ('a'.toNat + (n - 26))
  else if n < 62 then
    .ofNat ('0'.toNat + (n - 52))
  else if n = 62 then
    '-'
  else
    '_'

-- The URL-safe Base64 encoding without padding: three bytes become four characters.
def encodeBytes : List UInt8 → List Char
  | a :: b :: c :: rest =>
    let n := a.toNat * 65536 + b.toNat * 256 + c.toNat
    sextet (n / 262144) :: sextet (n / 4096) :: sextet (n / 64) :: sextet n :: encodeBytes rest
  | [a, b] =>
    let n := a.toNat * 1024 + b.toNat * 4
    [sextet (n / 4096), sextet (n / 64), sextet n]
  | [a] =>
    let n := a.toNat * 16
    [sextet (n / 64), sextet n]
  | [] => []

def urlSafeNoPad (bytes : List UInt8) : String :=
  .ofList (encodeBytes bytes)

theorem utf8Size_sextet (n : Nat) : (sextet n).utf8Size = 1 := by
  have h : ∀ n < 64, (sextet n).utf8Size = 1 := by decide +kernel
  rw [←h (n % 64) (Nat.mod_lt _ (by decide)), sextet, sextet, Nat.mod_mod]

theorem utf8ByteSize_urlSafeNoPad (bytes : List UInt8) :
    (urlSafeNoPad bytes).utf8ByteSize = (bytes.length * 4 + 2) / 3 := by
  rw [urlSafeNoPad]
  induction bytes using encodeBytes.induct
  case case1 a b c rest hi =>
    simp only [encodeBytes, String.ofList_cons, String.utf8ByteSize_append,
      String.utf8ByteSize_singleton, utf8Size_sextet, hi, List.length_cons]
    omega
  all_goals
    simp [encodeBytes, String.ofList_cons, String.utf8ByteSize_append,
      String.utf8ByteSize_singleton, utf8Size_sextet]

end Base64

-- The `content` stands for the state and its description, which the registry never reads.
structure HandoffRecord (σ : Type*) where
  principalId   : String
  expiresUnixMs : Nat
  content       : σ

-- A reservation that was neither issued nor dropped.
structure HandoffReservation where
  principalId : String
  token       : String
  digest      : String
  deriving DecidableEq

structure HandoffEntries (σ : Type*) where
  entries             : ExtTreeMap String (HandoffRecord σ)
  reservedTokens      : Finset String
  reservedByPrincipal : ExtTreeMap String Nat

variable {σ : Type*}

-- A handoff without an expiry lives for the default time.
def HandoffRecord.withExpiry (record : HandoffRecord σ) (now : Nat) : HandoffRecord σ :=
  if record.expiresUnixMs = 0 then
    { record with expiresUnixMs := add u64Max now defaultHandoffTtlMillis }
  else
    record

theorem HandoffRecord.principalId_withExpiry (record : HandoffRecord σ) (now : Nat) :
    (record.withExpiry now).principalId = record.principalId := by
  rw [withExpiry]
  split <;> rfl

def HandoffReservation.generate (tokenDigest : String → String) (principalId : String)
    (bytes : Vector UInt8 tokenBytes) : HandoffReservation where
  principalId := principalId
  token       := urlSafeNoPad bytes.toList
  digest      := tokenDigest (urlSafeNoPad bytes.toList)

-- The tokens that the operations accept by their length in bytes.
def tokenLengthValid (token : String) : Bool :=
  !(token.utf8ByteSize > 4096 || token.utf8ByteSize < 32)

-- The random bytes are absent if the operating system does not provide any.
def newToken (tokenDigest : String → String) (random : Option (Vector UInt8 tokenBytes)) :
    Except ProtocolError (String × String) :=
  match random with
  | none =>
    .error <| .new .unavailable "secure handoff token generation is unavailable"
  | some bytes =>
    let token := urlSafeNoPad bytes.toList
    .ok (token, tokenDigest token)

theorem tokenLengthValid_urlSafeNoPad (bytes : Vector UInt8 tokenBytes) :
    tokenLengthValid (urlSafeNoPad bytes.toList) := by
  rw [tokenLengthValid, utf8ByteSize_urlSafeNoPad, Vector.length_toList]
  decide

namespace HandoffEntries

def new : HandoffEntries σ where
  entries             := ∅
  reservedTokens      := ∅
  reservedByPrincipal := ∅

def live (s : HandoffEntries σ) (principalId : String) : Nat :=
  (s.entries.valueList.filter fun existing => existing.principalId = principalId).length

def reserved (s : HandoffEntries σ) (principalId : String) : Nat :=
  s.reservedByPrincipal[principalId]?.getD 0

-- The records that are expired are dropped after the registry is unlocked.
def takeExpired (s : HandoffEntries σ) (now : Nat) : HandoffEntries σ :=
  { s with entries := s.entries.filter fun _ record => !(record.expiresUnixMs ≤ now) }

def ensureCapacity (s : HandoffEntries σ) (principalId : String) : Except ProtocolError Unit :=
  if add usizeMax s.entries.size s.reservedTokens.card ≥ maxHandoffs then
    .error <| capacityExhausted "the runtime handoff registry is at its global capacity"
  else if add usizeMax (s.live principalId) (s.reserved principalId) ≥ maxHandoffsPerPrincipal then
    .error <| capacityExhausted "the principal runtime handoff limit has been reached"
  else
    .ok ()

def collides (s : HandoffEntries σ) (digest : String) : Bool :=
  digest ∈ s.entries || digest ∈ s.reservedTokens

def hold (s : HandoffEntries σ) (principalId digest : String) : HandoffEntries σ :=
  { s with
    reservedTokens      := insert digest s.reservedTokens
    reservedByPrincipal := s.reservedByPrincipal.insert principalId (s.reserved principalId + 1) }

def removeReserved (s : HandoffEntries σ) (digest : String) : HandoffEntries σ :=
  { s with reservedTokens := s.reservedTokens.erase digest }

def decrementPrincipalReservation (s : HandoffEntries σ) (principalId : String) :
    Except ProtocolError Unit × HandoffEntries σ :=
  match s.reservedByPrincipal[principalId]? with
  | none | some 0    => (.error internal, s)
  | some 1           =>
    (.ok (), { s with reservedByPrincipal := s.reservedByPrincipal.erase principalId })
  | some (count + 2) =>
    (.ok (), { s with reservedByPrincipal := s.reservedByPrincipal.insert principalId (count + 1) })

theorem decrement_of_one {s : HandoffEntries σ} {principalId : String}
    (h : s.reservedByPrincipal[principalId]? = some 1) :
    s.decrementPrincipalReservation principalId =
      (.ok (), { s with reservedByPrincipal := s.reservedByPrincipal.erase principalId }) := by
  simp [decrementPrincipalReservation, h]

theorem decrement_of_succ {s : HandoffEntries σ} {principalId : String} {count : Nat}
    (h : s.reservedByPrincipal[principalId]? = some (count + 2)) :
    s.decrementPrincipalReservation principalId = (.ok (),
      { s with reservedByPrincipal := s.reservedByPrincipal.insert principalId (count + 1) }) := by
  simp [decrementPrincipalReservation, h]

def reserve (tokenDigest : String → String) (principalId : String)
    (random : Option (Vector UInt8 tokenBytes)) (now : Nat) (s : HandoffEntries σ) :
    Except ProtocolError HandoffReservation × HandoffEntries σ :=
  match newToken tokenDigest random with
  | .error error          => (.error error, s)
  | .ok (token, digest) =>
    let s := s.takeExpired now
    match s.ensureCapacity principalId with
    | .error error => (.error error, s)
    | .ok ()       =>
      if s.collides digest then
        (.error tokenCollision, s)
      else
        (.ok { principalId, token, digest }, s.hold principalId digest)

def commitReserved (principalId digest : String) (record : HandoffRecord σ) (now : Nat)
    (s : HandoffEntries σ) : Except ProtocolError Unit × HandoffEntries σ :=
  if record.principalId ≠ principalId then
    (.error principalMismatch, s)
  else if digest ∉ s.reservedTokens then
    (.error internal, s)
  else
    match (s.removeReserved digest).decrementPrincipalReservation principalId with
    | (.error error, s) => (.error error, s)
    | (.ok (), s)       =>
      if digest ∈ s.entries then
        (.error tokenCollision, s)
      else
        (.ok (), { s with entries := s.entries.insert digest (record.withExpiry now) })

-- The handoff that a token gives to a principal at a time.
def candidate (s : HandoffEntries σ) (principalId digest : String) (now : Nat) :
    Option (HandoffRecord σ) :=
  s.entries[digest]?.filter fun record =>
    record.principalId = principalId && now < record.expiresUnixMs

def remove (s : HandoffEntries σ) (digest : String) : HandoffEntries σ :=
  { s with entries := s.entries.erase digest }

def inspect (tokenDigest : String → String) (principalId token : String) (now : Nat)
    (s : HandoffEntries σ) : Except ProtocolError (HandoffRecord σ) × HandoffEntries σ :=
  if tokenLengthValid token then
    let s := s.takeExpired now
    match s.candidate principalId (tokenDigest token) now with
    | none        => (.error expired, s)
    | some record => (.ok record, s)
  else
    (.error expired, s)

def take (tokenDigest : String → String) (principalId token : String) (now : Nat)
    (s : HandoffEntries σ) : Except ProtocolError (HandoffRecord σ) × HandoffEntries σ :=
  if tokenLengthValid token then
    let s := s.takeExpired now
    match s.candidate principalId (tokenDigest token) now with
    | none        => (.error expired, s)
    | some record => (.ok record, s.remove (tokenDigest token))
  else
    (.error expired, s)

def takeWithReplacement (tokenDigest : String → String) (principalId token : String)
    (random : Option (Vector UInt8 tokenBytes)) (now : Nat) (s : HandoffEntries σ) :
    Except ProtocolError (HandoffRecord σ × HandoffReservation) × HandoffEntries σ :=
  if tokenLengthValid token then
    match newToken tokenDigest random with
    | .error error                              => (.error error, s)
    | .ok (replacementToken, replacementDigest) =>
      let s := s.takeExpired now
      match s.candidate principalId (tokenDigest token) now with
      | none        => (.error expired, s)
      | some record =>
        if s.collides replacementDigest then
          (.error tokenCollision, s)
        else
          let reservation :=
            { principalId, token := replacementToken, digest := replacementDigest }
          (.ok (record, reservation),
            (s.remove (tokenDigest token)).hold principalId replacementDigest)
  else
    (.error expired, s)

-- What the operations do, case by case.
section Cases

variable {s : HandoffEntries σ} {tokenDigest : String → String} {principalId digest token : String}
variable {random : Option (Vector UInt8 tokenBytes)} {now : Nat} {record : HandoffRecord σ}

-- The capacity that is left for one more handoff of a principal.
structure Space (s : HandoffEntries σ) (principalId : String) : Prop where
  shared    : s.entries.size + s.reservedTokens.card < maxHandoffs
  principal : s.live principalId + s.reserved principalId < maxHandoffsPerPrincipal

theorem Space.of_ensureCapacity (h : s.ensureCapacity principalId = .ok ()) :
    s.Space principalId := by
  rw [ensureCapacity] at h
  split at h
  case isTrue => cases h
  case isFalse hs =>
    split at h
    case isTrue => cases h
    case isFalse hp =>
      have hs := add_eq_of_lt <| Nat.lt_trans (Nat.not_le.mp hs) (by decide)
      have hp := add_eq_of_lt <| Nat.lt_trans (Nat.not_le.mp hp) (by decide)
      exact ⟨by omega, by omega⟩

-- An operation that fails at most drops expired records.
def Refused (s : HandoffEntries σ) (now : Nat) {α}
    (result : Except ProtocolError α × HandoffEntries σ) : Prop :=
  ∃ error, result = (.error error, s) ∨ result = (.error error, s.takeExpired now)

-- A handoff that is found belongs to the principal and is not expired.
structure Found (s : HandoffEntries σ) (principalId digest : String) (now : Nat)
    (record : HandoffRecord σ) : Prop where
  lookup    : s.entries[digest]? = some record
  principal : record.principalId = principalId
  live      : now < record.expiresUnixMs

theorem lookup_takeExpired : (s.takeExpired now).entries[digest]? = some record ↔
    s.entries[digest]? = some record ∧ now < record.expiresUnixMs := by
  simp [takeExpired, Option.filter_eq_some_iff]

theorem Found.of_candidate
    (h : (s.takeExpired now).candidate principalId digest now = some record) :
    s.Found principalId digest now record := by
  simp only [candidate, Option.filter_eq_some_iff, lookup_takeExpired, Bool.and_eq_true,
    decide_eq_true_eq] at h
  exact ⟨h.1.1, h.2.1, h.2.2⟩

-- The token that a caller generates does not belong to the registry yet.
structure Fresh (s : HandoffEntries σ) (digest : String) : Prop where
  entries  : digest ∉ s.entries
  reserved : digest ∉ s.reservedTokens

theorem Fresh.of_not_collides (h : ¬s.collides digest) : s.Fresh digest := by
  simp only [collides, Bool.or_eq_true, decide_eq_true_eq, not_or] at h
  exact ⟨h.1, h.2⟩

theorem reserve_cases :
    s.Refused now (s.reserve tokenDigest principalId random now) ∨
    ∃ bytes reservation, random = some bytes ∧ (s.takeExpired now).Space principalId ∧
      reservation = .generate tokenDigest principalId bytes ∧
      (s.takeExpired now).Fresh reservation.digest ∧
      s.reserve tokenDigest principalId random now =
        (.ok reservation, (s.takeExpired now).hold principalId reservation.digest) := by
  cases random
  case none => exact .inl ⟨_, .inl rfl⟩
  case some bytes =>
    simp only [reserve, newToken]
    split
    case h_1 => exact .inl ⟨_, .inr rfl⟩
    case h_2 hc =>
      split
      case isTrue     => exact .inl ⟨_, .inr rfl⟩
      case isFalse hn =>
        exact .inr ⟨bytes, _, rfl, .of_ensureCapacity hc, rfl, .of_not_collides hn, rfl⟩

theorem inspect_cases :
    s.Refused now (s.inspect tokenDigest principalId token now) ∨
    ∃ record, s.Found principalId (tokenDigest token) now record ∧
      s.inspect tokenDigest principalId token now = (.ok record, s.takeExpired now) := by
  rw [inspect]
  split
  case isFalse => exact .inl ⟨_, .inl rfl⟩
  case isTrue =>
    dsimp only
    split
    case h_1         => exact .inl ⟨_, .inr rfl⟩
    case h_2 record hc => exact .inr ⟨record, .of_candidate hc, rfl⟩

theorem inspect_of_found (ht : tokenLengthValid token)
    (hf : s.Found principalId (tokenDigest token) now record) :
    s.inspect tokenDigest principalId token now = (.ok record, s.takeExpired now) := by
  have hc : (s.takeExpired now).candidate principalId (tokenDigest token) now = some record := by
    rw [candidate, lookup_takeExpired.mpr ⟨hf.lookup, hf.live⟩, Option.filter_some, if_pos]
    simp [hf.principal, hf.live]
  simp [inspect, ht, hc]

theorem take_cases :
    s.Refused now (s.take tokenDigest principalId token now) ∨
    ∃ record, s.Found principalId (tokenDigest token) now record ∧
      s.take tokenDigest principalId token now =
        (.ok record, (s.takeExpired now).remove (tokenDigest token)) := by
  rw [take]
  split
  case isFalse => exact .inl ⟨_, .inl rfl⟩
  case isTrue =>
    dsimp only
    split
    case h_1         => exact .inl ⟨_, .inr rfl⟩
    case h_2 record hc => exact .inr ⟨record, .of_candidate hc, rfl⟩

theorem takeWithReplacement_cases :
    s.Refused now (s.takeWithReplacement tokenDigest principalId token random now) ∨
    ∃ bytes record reservation, random = some bytes ∧
      s.Found principalId (tokenDigest token) now record ∧
      reservation = .generate tokenDigest principalId bytes ∧
      (s.takeExpired now).Fresh reservation.digest ∧
      s.takeWithReplacement tokenDigest principalId token random now =
        (.ok (record, reservation),
          ((s.takeExpired now).remove (tokenDigest token)).hold principalId reservation.digest) := by
  rw [takeWithReplacement]
  split
  case isFalse => exact .inl ⟨_, .inl rfl⟩
  case isTrue =>
    cases random
    case none => exact .inl ⟨_, .inl rfl⟩
    case some bytes =>
      dsimp only [newToken]
      split
      case h_1 => exact .inl ⟨_, .inr rfl⟩
      case h_2 record hc =>
        split
        case isTrue     => exact .inl ⟨_, .inr rfl⟩
        case isFalse hn =>
          exact .inr ⟨bytes, record, _, rfl, .of_candidate hc, rfl, .of_not_collides hn, rfl⟩

end Cases
end HandoffEntries

namespace HandoffReservation

def drop (reservation : HandoffReservation) (s : HandoffEntries σ) : HandoffEntries σ :=
  ((s.removeReserved reservation.digest).decrementPrincipalReservation reservation.principalId).2

-- A reservation that could not be issued is dropped.
def issue (reservation : HandoffReservation) (record : HandoffRecord σ) (now : Nat)
    (s : HandoffEntries σ) : Except ProtocolError String × HandoffEntries σ :=
  match s.commitReserved reservation.principalId reservation.digest record now with
  | (.error error, s) => (.error error, reservation.drop s)
  | (.ok (), s)       => (.ok reservation.token, s)

variable {reservation : HandoffReservation} {s s' : HandoffEntries σ} {record : HandoffRecord σ}
variable {now : Nat}

theorem issue_of_mismatch (h : record.principalId ≠ reservation.principalId) :
    reservation.issue record now s = (.error principalMismatch, reservation.drop s) := by
  simp [issue, HandoffEntries.commitReserved, h]

-- A reservation that is counted is issued if its digest has no entry.
theorem issue_of_counted (hp : record.principalId = reservation.principalId)
    (hr : reservation.digest ∈ s.reservedTokens)
    (hd : (s.removeReserved reservation.digest).decrementPrincipalReservation
      reservation.principalId = (.ok (), s'))
    (he : reservation.digest ∉ s'.entries) :
    reservation.issue record now s = (.ok reservation.token,
      { s' with entries := s'.entries.insert reservation.digest (record.withExpiry now) }) := by
  simp [issue, HandoffEntries.commitReserved, hp, hr, hd, he]

end HandoffReservation
end RuntimeControl.Handoff
