import WerkModel.Api.Chat
import WerkModel.Lib.Checks
import WerkModel.Lib.Faulty
import WerkModel.Lib.Flock
import WerkModel.Lib.Json
import WerkModel.Lib.System
import WerkModel.RuntimeControl.Experts.Config

-- The history of a terminal chat on disk. Each access to the disk is a step that may fail or be cut
-- off by a crash.
open Api (ChatMessage)
open Checks
open RuntimeControl.Experts (isControl isWhitespace)

namespace Cli.History

abbrev Bytes := List UInt8

def schemaVersion : UInt32 := 1

def maxArchiveBytes : Nat := 16 * 1024 * 1024

def maxMessages : Nat := 4096

def maxTtlSeconds : UInt64 := 30 * 24 * 60 * 60

inductive PersistenceMode
  | ephemeral
  | memory
  | disk
  | auto
  deriving DecidableEq

inductive ReuseMode
  | disabled
  | prefer
  | required
  deriving DecidableEq

structure PersistencePolicy where
  mode       : PersistenceMode := .auto
  reuse      : ReuseMode       := .prefer
  ttlSeconds : Option UInt64   := none
  pin        : Bool            := false
  deriving DecidableEq

structure ChatArchive where
  schemaVersion      : UInt32
  sessionFingerprint : String
  updatedUnixSeconds : UInt64
  expiresUnixSeconds : Option UInt64
  messages           : List ChatMessage

-- The digest of a model with a session, the JSON of a message, and the text of a JSON value in the
-- pieces in which it is written.
structure Libraries where
  fingerprint : String → String → String
  serialize   : ChatMessage → Json
  deserialize : Json → Option ChatMessage
  print       : Json → List Bytes
  parse       : Bytes → Option Json

section Json

variable (lib : Libraries)

def ChatArchive.fields : List String :=
  ["schema_version", "session_fingerprint", "updated_unix_seconds", "expires_unix_seconds",
    "messages"]

def ChatArchive.toJson (archive : ChatArchive) : Json :=
  .object [
    ("schema_version", .unsigned archive.schemaVersion.toUInt64),
    ("session_fingerprint", .string archive.sessionFingerprint),
    ("updated_unix_seconds", .unsigned archive.updatedUnixSeconds),
    ("expires_unix_seconds", (archive.expiresUnixSeconds.map Json.unsigned).getD .null),
    ("messages", .array (archive.messages.map lib.serialize))]

def asUInt64 : Json → Option UInt64
  | .unsigned number => some number
  | _                => none

def asUInt32 (value : Json) : Option UInt32 :=
  (asUInt64 value).bind fun number =>
    if number.toNat < 2 ^ 32 then some number.toUInt32 else none

def asOptional : Json → Option (Option UInt64)
  | .null => some none
  | value => (asUInt64 value).map some

def ChatArchive.ofValues (version fingerprint updated expires messages : Json) :
    Option ChatArchive := do
  let version ← asUInt32 version
  let fingerprint ← fingerprint.asString
  let updated ← asUInt64 updated
  let expires ← asOptional expires
  let messages ← messages.asArray
  let messages ← messages.mapM lib.deserialize
  return ⟨version, fingerprint, updated, expires, messages⟩

-- An object may not have other keys, nor the same key twice. An array holds the fields in order.
def ChatArchive.ofJson : Json → Option ChatArchive
  | .object fields =>
    if (fields.map Prod.fst).Nodup ∧ ∀ key ∈ fields.map Prod.fst, key ∈ ChatArchive.fields then do
      ofValues lib (← fields.lookup "schema_version") (← fields.lookup "session_fingerprint")
        (← fields.lookup "updated_unix_seconds")
        ((fields.lookup "expires_unix_seconds").getD .null) (← fields.lookup "messages")
    else
      none
  | .array [version, fingerprint, updated, expires, messages] =>
    ofValues lib version fingerprint updated expires messages
  | _ => none

end Json

section Archives

variable (lib : Libraries)

def validateLabel (value label : String) (max : Nat) : Except String Unit :=
  ensure (¬(value.toList.all isWhitespace ∨ max < value.utf8ByteSize ∨ value.toList.any isControl))
    ("chat " ++ label ++ " must be nonempty, at most " ++ toString max ++
      " bytes and contain no control characters")

def hasText (text : String) : Bool :=
  !text.toList.all isWhitespace

def hasContent (message : ChatMessage) : Bool :=
  match message.content with
  | some (.text text)   => hasText text
  | some (.parts parts) => parts.any fun part => part.text.any hasText || part.imageUrl.isSome
  | none                => false

def roles : List String :=
  ["system", "developer", "user", "assistant", "tool"]

def isCompleted (message : ChatMessage) : Bool :=
  message.role = "assistant" &&
    (hasContent message || message.toolCalls.any fun calls => !calls.isEmpty)

def validateMessages (messages : List ChatMessage) : Except String Unit := do
  ensure (messages ≠ [] ∧ messages.length ≤ maxMessages)
    "saved chat history must contain from 1 to 4096 messages"
  ensure (∀ message ∈ messages, message.role ∈ roles)
    "saved chat history contains an unsupported message role"
  ensure (messages.getLast?.any isCompleted)
    "chat history must end with a completed assistant turn"

-- The writer takes a piece as a whole or refuses it.
def BoundedBytes.write (written piece : Bytes) : Except String Bytes :=
  if maxArchiveBytes - written.length < piece.length then
    .error "chat history exceeds 16 MiB"
  else
    .ok (written ++ piece)

def toWriter (archive : ChatArchive) : Except String Bytes :=
  (lib.print (archive.toJson lib)).foldlM BoundedBytes.write []

def parseArchive (bytes : Bytes) : Except String ChatArchive :=
  match (lib.parse bytes).bind (ChatArchive.ofJson lib) with
  | none         => .error "saved chat history is corrupt"
  | some archive => .ok archive

def readArchive (fingerprint : String) (bytes : Bytes) : Except String ChatArchive := do
  ensure (bytes.length ≤ maxArchiveBytes) "saved chat history exceeds 16 MiB"
  let archive ← parseArchive lib bytes
  ensure (archive.schemaVersion = schemaVersion ∧ archive.sessionFingerprint = fingerprint)
    "saved chat history has an incompatible schema or session identity"
  ensure (∀ expiry ∈ archive.expiresUnixSeconds, archive.updatedUnixSeconds < expiry)
    "saved chat history has invalid expiry metadata"
  validateMessages archive.messages
  return archive

def checkedAdd (a b : UInt64) : Option UInt64 :=
  if a.toNat + b.toNat < 2 ^ 64 then some (a + b) else none

def expiry (now : UInt64) : Option UInt64 → Except String (Option UInt64)
  | none     => .ok none
  | some ttl =>
    match checkedAdd now ttl with
    | none         => .error "chat history expiry exceeds clock range"
    | some expires => .ok (some expires)

end Archives

-- Besides the archive there are the staging files, each with a random part of its name.
inductive Path
  | archive
  | staging (suffix : Vector UInt8 12)
  deriving DecidableEq

-- The lock of a durable chat is held by an open description of the lock file.
structure ChatPersistence where
  disk    : Option Nat
  policy  : PersistencePolicy
  resumed : Bool
  notice  : Option String

structure World where
  files   : Path → Option Bytes
  locks   : List (Flock.Lock Nat Unit)
  -- The chats that are open, by the number of their opening.
  chats   : Nat → Option ChatPersistence
  opened  : Nat
  -- What the latest save has put in the place of the archive.
  renamed : Option ChatArchive

def World.write (w : World) (path : Path) (file : Option Bytes) : World :=
  { w with files := Function.update w.files path file }

def World.release (w : World) (chat : Nat) : World :=
  { w with
    locks := Flock.release (· = chat) w.locks
    chats := Function.update w.chats chat none
  }

abbrev Program := Faulty World String

section Files

variable (path : Path)

def ioError : String := "input/output error"

def inspect {α : Type} (f : World → Except String α) : Program α :=
  .step ioError (fun _ w => w) fun w => (f w).map (·, w)

def createNew : Program Unit :=
  .step ioError (fun _ w => w) fun w =>
    if (w.files path).isSome then
      .error "cannot create private chat history staging file"
    else
      .ok ((), w.write path (some []))

def writeAll (data : Bytes) : Program Unit :=
  .step ioError (fun n w => w.write path <| (w.files path).map (· ++ data.take n)) fun w =>
    .ok ((), w.write path <| (w.files path).map (· ++ data))

def sync : Program Unit :=
  inspect fun _ => .ok ()

def replaceArchive (archive : ChatArchive) : Program Unit :=
  .step ioError (fun _ w => w) fun w =>
    match w.files path with
    | none       => .error "cannot atomically replace chat history"
    | some bytes =>
      .ok ((), { (w.write path none).write .archive (some bytes) with renamed := some archive })

def removeFile : Program Unit :=
  .step ioError (fun _ w => w) fun w =>
    if (w.files path).isSome then .ok ((), w.write path none) else .error "no such file"

-- Whether it succeeds does not matter.
def ignore (p : Program Unit) : Program Unit := do
  let _ ← p.attempt

def exclusive (chat : Nat) : Flock.Lock Nat Unit where
  holder := chat
  file   := ()
  mode   := .exclusive

def tryLockExclusive (chat : Nat) : Program Unit :=
  .step ioError (fun _ w => w) fun w =>
    if Flock.Grants w.locks (exclusive chat) then
      .ok ((), { w with locks := Flock.acquire (exclusive chat) w.locks })
    else
      .error "chat session is already open in another process; choose another --session"

end Files

-- The model and the session whose history is kept.
structure Identity where
  modelId : String
  session : String

section Operations

variable (lib : Libraries) (identity : Identity)

def fingerprint : String :=
  lib.fingerprint identity.modelId identity.session

def validatePolicy (policy : PersistencePolicy) : Except String Unit := do
  ensure (policy.pin = false) "chat history does not support persistence pinning"
  ensure (∀ ttl ∈ policy.ttlSeconds, ¬(ttl = 0 ∨ maxTtlSeconds < ttl))
    "chat persistence TTL must be from 1 to 2592000 seconds"

def PersistencePolicy.isDurable (policy : PersistencePolicy) : Bool :=
  policy.mode = .disk || policy.mode = .auto

def invalidHistory (error : String) : String :=
  "saved chat history is invalid; choose another --session or explicitly start over with " ++
    "--persistence-reuse disabled: " ++ error

def resume (persistence : ChatPersistence) (now : UInt64) :
    Program (ChatPersistence × List ChatMessage) := do
  let bytes ← inspect fun w =>
    match w.files .archive with
    | none       => .error "cannot read chat history"
    | some bytes => .ok bytes
  let archive ← .lift <|
    (readArchive lib (fingerprint lib identity) bytes).mapError invalidHistory
  if archive.expiresUnixSeconds.any (· ≤ now) then
    if persistence.policy.reuse = .required then
      .throw "required chat history has expired"
    else
      let notice := "saved chat history has expired; starting a new conversation"
      return ({ persistence with notice := some notice }, [])
  else
    return ({ persistence with resumed := true }, archive.messages)

def openArchive (persistence : ChatPersistence) (now : UInt64) (found : Bool) :
    Program (ChatPersistence × List ChatMessage) := do
  if persistence.policy.reuse = .disabled then
    let notice := "starting a new chat history with reuse disabled"
    return ({ persistence with notice := some notice }, [])
  else if found = false then
    if persistence.policy.reuse = .required then
      .throw "required chat history was not found for this model and session"
    else
      return (persistence, [])
  else
    resume lib identity persistence now

def openDurable (policy : PersistencePolicy) (now : UInt64) (chat : Nat) :
    Program (ChatPersistence × List ChatMessage) := do
  -- The directory of the chats and the lock file in it, which may have to be created.
  sync
  sync
  tryLockExclusive chat
  let found ← inspect fun w => .ok (w.files .archive).isSome
  openArchive lib identity { disk := some chat, policy, resumed := false, notice := none } now found

def openAt (policy : PersistencePolicy) (now : UInt64) (chat : Nat) :
    Program (ChatPersistence × List ChatMessage) := do
  .lift <| validateLabel identity.session "session" 256
  .lift <| validateLabel identity.modelId "model" 1024
  .lift <| validatePolicy policy
  if policy.isDurable then
    openDurable lib identity policy now chat
  else if policy.reuse = .required then
    .throw "required chat history reuse needs disk or auto persistence mode"
  else
    return ({ disk := none, policy, resumed := false, notice := none }, [])

def writeAndRename (staging : Path) (archive : ChatArchive) (bytes : Bytes) : Program Unit := do
  createNew staging
  writeAll staging bytes
  sync
  replaceArchive staging archive
  sync

def publish (archive : ChatArchive) (bytes : Bytes) (random : Option (Vector UInt8 12)) :
    Program Unit := do
  match random with
  | none        => .throw "cannot create a private chat staging name"
  | some suffix => do
    match ← (writeAndRename (.staging suffix) archive bytes).attempt with
    | .ok _        => return ()
    | .error error => do
      ignore <| removeFile (.staging suffix)
      .throw error

def archiveOf (messages : List ChatMessage) (now : UInt64) (expires : Option UInt64) :
    ChatArchive where
  schemaVersion      := schemaVersion
  sessionFingerprint := fingerprint lib identity
  updatedUnixSeconds := now
  expiresUnixSeconds := expires
  messages           := messages

-- Only a durable chat has somewhere to put the messages.
def saveAt (persistence : ChatPersistence) (messages : List ChatMessage) (now : UInt64)
    (random : Option (Vector UInt8 12)) : Program Unit := do
  .lift <| validateMessages messages
  match persistence.disk with
  | none   => return ()
  | some _ => do
    let expires ← .lift <| expiry now persistence.policy.ttlSeconds
    let archive := archiveOf lib identity messages now expires
    let bytes ← .lift <| toWriter lib archive
    sync
    sync
    publish archive bytes random

end Operations

inductive Operation
  | openAt (policy : PersistencePolicy) (now : UInt64) (fates : List Fate)
  | saveAt (chat : Nat) (messages : List ChatMessage) (now : UInt64)
      (random : Option (Vector UInt8 12)) (fates : List Fate)
  -- The chat is dropped, or its process dies.
  | drop (chat : Nat)

inductive Outcome
  | opened (exit : Exit String (ChatPersistence × List ChatMessage))
  -- With what has taken the place of the archive.
  | saved (exit : Exit String Unit) (published : Option ChatArchive)
  | dropped

section Runs

variable (lib : Libraries) (identity : Identity)

-- A chat that could not be opened gives up what it has locked.
def World.openChat (w : World) (policy : PersistencePolicy) (now : UInt64)
    (fates : List Fate) : World × Outcome :=
  match openAt lib identity policy now w.opened w fates with
  | (.ok (persistence, messages), w', _) =>
    ({ w' with
      chats  := Function.update w'.chats w.opened (some persistence)
      opened := w.opened + 1
    }, .opened (.ok (persistence, messages)))
  | (exit, w', _) => ({ w'.release w.opened with opened := w.opened + 1 }, .opened exit)

def World.saveChat (w : World) (chat : Nat) (persistence : ChatPersistence)
    (messages : List ChatMessage) (now : UInt64) (random : Option (Vector UInt8 12))
    (fates : List Fate) : World × Outcome :=
  match saveAt lib identity persistence messages now random { w with renamed := none } fates with
  | (.crashed, w', _) => (w'.release chat, .saved .crashed w'.renamed)
  | (exit, w', _)     => (w', .saved exit w'.renamed)

def World.step (w : World) : Operation → Option (World × Outcome)
  | .openAt policy now fates               => some (w.openChat lib identity policy now fates)
  | .saveAt chat messages now random fates =>
    (w.chats chat).map fun persistence =>
      w.saveChat lib identity chat persistence messages now random fates
  | .drop chat                             => some (w.release chat, .dropped)

def World.initial : World where
  files _ := none
  locks   := []
  chats _ := none
  opened  := 0
  renamed := none

def chats : System World Operation Outcome :=
  .ofPartial World.initial (World.step lib identity)

end Runs

end Cli.History
