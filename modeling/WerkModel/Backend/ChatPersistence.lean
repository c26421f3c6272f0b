import WerkModel.Backend.ToolCalling
import WerkModel.Lib.Checks
import WerkModel.Lib.Faulty
import WerkModel.Lib.System

-- Snapshots of a terminal chat on disk. Each access to the disk or to the server is a step that may
-- fail or be cut off by a crash.
open Checks

namespace Backend.ChatPersistence

abbrev Bytes := List UInt8

abbrev Name := List Char

def stateSnapshotMaxBytes : Nat := 2 * 1024 * 1024 * 1024

def stateSlotId : Nat := 0

def bufferSize : Nat := 1024 * 1024

structure Record where
  version  : Nat
  filename : Name
  tokens   : UInt64
  bytes    : Nat
  sha256   : List Char
  deriving DecidableEq

-- The digest with its name, and the index as it is written to and read from a file.
structure Libraries where
  sha256 : Bytes → List Char
  encode : Record → Bytes
  decode : Bytes → Option Record

def isHexdigit (c : Char) : Bool :=
  c.isDigit ∨ 'a' ≤ c ∧ c ≤ 'f' ∨ 'A' ≤ c ∧ c ≤ 'F'

def isDigest (text : List Char) : Bool :=
  (stripPrefix "sha256:".toList text).any fun hash => hash.length = 64 ∧ hash.all isHexdigit

def stripSuffix (suffix text : List Char) : Option (List Char) :=
  (stripPrefix suffix.reverse text.reverse).map List.reverse

def isSnapshotName (filename : Name) : Bool :=
  ((stripPrefix "chat_".toList filename).bind (stripSuffix ".bin".toList)).any fun id =>
    id.length = 32 ∧ id.all isHexdigit

def validateRecord (record : Record) : Except String Unit :=
  ensure (record.version = 1 ∧ record.tokens ≠ 0 ∧ record.bytes ≠ 0 ∧
    record.bytes ≤ stateSnapshotMaxBytes ∧ isSnapshotName record.filename ∧
    isDigest record.sha256) "invalid native cache index"

-- Files are either in the directory of the chat or in the private directory of the server.
inductive Folder
  | session
  | server
  deriving DecidableEq

structure Path where
  folder : Folder
  name   : Name
  deriving DecidableEq

def latest : Path := ⟨.session, "latest.json".toList⟩

def capability : Path := ⟨.session, "capability.json".toList⟩

structure Snapshot where
  tokens  : UInt64
  content : Bytes
  deriving DecidableEq

structure Session where
  files            : Path → Option Bytes
  -- What the server has loaded into its slot.
  slot             : Option Bytes
  restoreAttempted : Bool
  -- What the index has named since the beginning, the latest first.
  published        : List Snapshot

def Session.write (s : Session) (path : Path) (file : Option Bytes) : Session :=
  { s with files := Function.update s.files path file }

abbrev Program := Faulty Session String

section Files

variable (path : Path) (name : Name)

def ioError : String := "input/output error"

-- A step without an effect.
def inspect {α : Type} (f : Session → Except String α) : Program α :=
  .step ioError (fun _ s => s) fun s => (f s).map (·, s)

def createNew : Program Unit :=
  .step ioError (fun _ s => s) fun s =>
    if (s.files path).isSome then .error "file exists" else .ok ((), s.write path (some []))

def append (data : Bytes) : Program Unit :=
  .step ioError (fun n s => s.write path <| (s.files path).map (· ++ data.take n)) fun s =>
    .ok ((), s.write path <| (s.files path).map (· ++ data))

def sync : Program Unit :=
  inspect fun _ => .ok ()

def rename (target : Path) (note : Session → Session) : Program Unit :=
  .step ioError (fun _ s => s) fun s =>
    match s.files path with
    | none         => .error "no such file"
    | some content => .ok ((), note <| (s.write path none).write target (some content))

def removeFile : Program Unit :=
  .step ioError (fun _ s => s) fun s =>
    if (s.files path).isSome then .ok ((), s.write path none) else .error "no such file"

-- Whether it succeeds does not matter.
def ignore (p : Program Unit) : Program Unit := do
  let _ ← p.attempt

def removePrivateSnapshot : Program Unit :=
  ignore <| removeFile ⟨.server, name⟩

def openBoundedRegularFile (expected : Option Nat) : Program Bytes :=
  inspect fun s =>
    match s.files path with
    | none         => .error "no such file"
    | some content =>
      if content.length = 0 ∨ stateSnapshotMaxBytes < content.length ∨
          expected.any (· ≠ content.length) then
        .error "runtime-state snapshot size failed validation"
      else
        .ok content

def snapshotChanged : String := "runtime-state snapshot changed while it was copied"

def copyChunks (expected : Nat) (copied rest : Bytes) : Program Bytes := do
  sync
  if _h : rest = [] then
    return copied
  else
    let chunk := rest.take bufferSize
    if expected < (copied ++ chunk).length ∨ stateSnapshotMaxBytes < (copied ++ chunk).length then
      .throw snapshotChanged
    else do
      append path chunk
      copyChunks expected (copied ++ chunk) (rest.drop bufferSize)
termination_by rest.length
decreasing_by
  have := List.length_pos_of_ne_nil ‹_›
  rw [List.length_drop, bufferSize]
  omega

def copyContent (expected : Nat) (content : Bytes) : Program Bytes := do
  let copied ← copyChunks path expected [] content
  if copied.length ≠ expected then
    .throw snapshotChanged
  else do
    sync
    sync
    return copied

def copySnapshotFile (content : Bytes) (expected : Nat) : Program Bytes := do
  if content.length ≠ expected ∨ stateSnapshotMaxBytes < expected then
    .throw snapshotChanged
  else do
    createNew path
    match ← (copyContent path expected content).attempt with
    | .ok copied   => return copied
    | .error error => do
      ignore <| removeFile path
      .throw error

end Files

section Server

structure LlamaSlotStatus where
  promptTokens         : UInt64
  promptTokensReported : Bool
  isProcessing         : Bool

-- The fields of an answer to an action on the slot.
structure SlotAction where
  idSlot   : Option Nat
  filename : Option Name
  tokens   : Option UInt64
  bytes    : Option UInt64

def requiredU64 (field : String) : Option UInt64 → Except String UInt64
  | some value => .ok value
  | none       => .error <| "llama.cpp response is missing " ++ field

def validateSlotActionIdentity (response : SlotAction) (filename : Name) : Except String Unit :=
  ensure (response.idSlot = some stateSlotId ∧ response.filename = some filename)
    "llama.cpp slot action identity failed validation"

def validateSave (response : SlotAction) (filename : Name) (expectedTokens : UInt64) :
    Except String Nat := do
  validateSlotActionIdentity response filename
  let saved ← requiredU64 "n_saved" response.tokens
  let written ← requiredU64 "n_written" response.bytes
  ensure (saved = expectedTokens ∧ written ≠ 0 ∧ written.toNat ≤ stateSnapshotMaxBytes)
    "llama.cpp slot save response failed validation"
  return written.toNat

def validateRestore (response : SlotAction) (filename : Name) (expectedTokens : UInt64)
    (expectedBytes : Nat) : Except String Unit := do
  validateSlotActionIdentity response filename
  let restored ← requiredU64 "n_restored" response.tokens
  let read ← requiredU64 "n_read" response.bytes
  ensure (restored = expectedTokens ∧ read.toNat = expectedBytes)
    "llama.cpp slot restore response failed validation"

def validateErase (response : SlotAction) : Except String Unit := do
  ensure (response.idSlot = some stateSlotId) "llama.cpp slot erase returned an unexpected slot"
  let _ ← requiredU64 "n_erased" response.tokens

-- What the server leaves in a file, if it gets that far, and what it answers.
structure SaveInput where
  status : Except String LlamaSlotStatus
  random : Option (Vector UInt8 16)
  saved  : Option Bytes
  action : Except String SlotAction
  index  : Option (Vector UInt8 16)

structure RestoreInput where
  random : Option (Vector UInt8 16)
  action : Except String SlotAction
  status : Except String LlamaSlotStatus
  erase  : Except String SlotAction

def saveLlamaSlot (input : SaveInput) (filename : Name) (expectedTokens : UInt64) :
    Program Nat := do
  .step ioError (fun n s => s.write ⟨.server, filename⟩ <| input.saved.map (·.take n))
    fun s => .ok ((), s.write ⟨.server, filename⟩ input.saved)
  let response ← .lift input.action
  let written ← .lift <| validateSave response filename expectedTokens
  let _ ← openBoundedRegularFile ⟨.server, filename⟩ (some written)
  return written

def restoreLlamaSlot (input : RestoreInput) (filename : Name) (expectedTokens : UInt64)
    (expectedBytes : Nat) : Program Unit := do
  let content ← openBoundedRegularFile ⟨.server, filename⟩ (some expectedBytes)
  .step ioError (fun _ s => s) fun s => .ok ((), { s with slot := some content })
  let response ← .lift input.action
  .lift <| validateRestore response filename expectedTokens expectedBytes
  let slot ← .lift input.status
  if slot.isProcessing ∨ slot.promptTokensReported ∧ slot.promptTokens ≠ expectedTokens then
    .throw "llama.cpp restored slot status failed validation"
  else
    return ()

def eraseLlamaSlot (input : RestoreInput) : Program Unit := do
  .step ioError (fun _ s => s) fun s => .ok ((), { s with slot := none })
  let response ← .lift input.erase
  .lift <| validateErase response

end Server

section Index

variable (lib : Libraries)

def randomPrivateId (start : String) : Option (Vector UInt8 16) → Except String Name
  | none        => .error "secure runtime-state identifier generation is unavailable"
  | some random => .ok <| start.toList ++ random.toList.flatMap hexDigits

def copySnapshotWithSha256 (source target : Path) (expected : Nat) : Program (List Char) := do
  let content ← openBoundedRegularFile source (some expected)
  let copied ← copySnapshotFile target content expected
  return lib.sha256 copied

def readRecord : Program (Option Record) := do
  let found ← inspect fun s => .ok (s.files latest).isSome
  if found = false then
    return none
  else do
    let content ← openBoundedRegularFile latest none
    if 4096 < content.length then
      .throw "native cache index exceeds its size limit"
    else do
      let record ← inspect fun _ =>
        match lib.decode content with
        | none        => .error "malformed native cache index"
        | some record => .ok record
      .lift <| validateRecord record
      return some record

def writeAndRename (temporary target : Path) (content : Bytes) (note : Session → Session) :
    Program Unit := do
  createNew temporary
  append temporary content
  append temporary [10]
  sync
  rename temporary target note
  sync

def publishCacheJson (target : Path) (content : Bytes) (random : Option (Vector UInt8 16))
    (note : Session → Session) : Program Unit := do
  let id ← .lift <| randomPrivateId "index_" random
  let temporary : Path := ⟨.session, id⟩
  match ← (writeAndRename temporary target content note).attempt with
  | .ok _        => return ()
  | .error error => do
    ignore <| removeFile temporary
    .throw error

-- From now on the index names what the server has saved under the same name.
def Record.note (record : Record) (s : Session) : Session :=
  let content := (s.files ⟨.server, record.filename⟩).getD []
  { s with published := ⟨record.tokens, content⟩ :: s.published }

def publish (record : Record) (random : Option (Vector UInt8 16)) : Program Unit :=
  publishCacheJson latest (lib.encode record) random record.note

end Index

section Operations

variable (lib : Libraries)

-- Publishes a snapshot in the place of the previous one.
def replaceSnapshot (record : Record) (random : Option (Vector UInt8 16))
    (previous : Option Record) : Program UInt64 := do
  match ← (publish lib record random).attempt with
  | .error error => do
    -- The new index may be in place, so that the bytes are kept unless it names others.
    let current ← (readRecord lib).attempt
    if current.toOption.any fun current => current.all (·.filename ≠ record.filename) then
      ignore <| removeFile ⟨.session, record.filename⟩
    .throw error
  | .ok _        => do
    match previous with
    | none          => return record.tokens
    | some previous => do
      ignore <| removeFile ⟨.session, previous.filename⟩
      return record.tokens

def saveNamed (input : SaveInput) (name : Name) (tokens : UInt64) : Program UInt64 := do
  let bytes ← saveLlamaSlot input name tokens
  let sha256 ← copySnapshotWithSha256 lib ⟨.server, name⟩ ⟨.session, name⟩ bytes
  let previous ← (readRecord lib).attempt
  replaceSnapshot lib { version := 1, filename := name, tokens, bytes, sha256 } input.index
    previous.toOption.join

def saveInner (input : SaveInput) : Program UInt64 := do
  let status ← inspect fun _ => input.status
  if status.isProcessing ∨ status.promptTokens = 0 then
    .throw "native cache slot is busy or empty"
  else do
    let id ← .lift <| randomPrivateId "chat_" input.random
    let name := id ++ ".bin".toList
    let result ← (saveNamed lib input name status.promptTokens).attempt
    removePrivateSnapshot name
    .lift result

def save (input : SaveInput) : Program String := do
  match ← (saveInner lib input).attempt with
  | .ok tokens   => return "llama.cpp native KV snapshot saved: " ++ toString tokens ++ " tokens"
  | .error error => return "llama.cpp native KV snapshot not saved: " ++ error

def restoreNamed (input : RestoreInput) (record : Record) (name : Name) : Program UInt64 := do
  let sha256 ← copySnapshotWithSha256 lib ⟨.session, record.filename⟩ ⟨.server, name⟩ record.bytes
  if sha256 ≠ record.sha256 then
    .throw "native cache checksum mismatch"
  else do
    restoreLlamaSlot input name record.tokens record.bytes
    return record.tokens

def restoreInner (input : RestoreInput) : Program (Option UInt64) := do
  match ← readRecord lib with
  | none        => return none
  | some record => do
    let id ← .lift <| randomPrivateId "chat_restore_" input.random
    let name := id ++ ".bin".toList
    let result ← (restoreNamed lib input record name).attempt
    removePrivateSnapshot name
    let tokens ← .lift result
    return some tokens

-- The snapshot is restored once. Then the slot is live.
def restore (input : RestoreInput) : Program (String × Option UInt64) := do
  let attempted := (← .get).restoreAttempted
  .modify fun s => { s with restoreAttempted := true }
  if attempted then
    return ("llama.cpp native KV persistence: using live slot; reuse reported by backend usage", none)
  else do
    match ← (restoreInner lib input).attempt with
    | .ok (some tokens) =>
      return ("llama.cpp native KV snapshot restored: " ++ toString tokens ++
        " tokens; actual prefix reuse reported by backend usage", some tokens)
    | .ok none          =>
      return ("llama.cpp native KV persistence: cold session; restore reuse unverified", none)
    | .error error      => do
      ignore <| removeFile capability
      match ← (eraseLlamaSlot input).attempt with
      | .error clearError => do
        .modify fun s => { s with restoreAttempted := false }
        .throw <| "cannot clear slot after failed native cache restore: " ++ clearError
      | .ok _             =>
        return ("llama.cpp native KV snapshot not reused: " ++ error ++
          "; rebuilding from conversation", none)

-- What the backend reports after the request that follows a restore, with the receipt for it.
structure Observation where
  restoredTokens : Option UInt64
  promptTokens   : Nat
  cachedTokens   : Option Nat
  receipt        : Bytes
  random         : Option (Vector UInt8 16)

def observeReuse (input : Observation) : Program (Option String) :=
  match input.restoredTokens, input.cachedTokens with
  | none, _ => return none
  | some _, none =>
    return some ("llama.cpp native KV restored reuse unverified: missing or inconsistent backend " ++
      "usage")
  | some restored, some cached =>
    if 0 < cached ∧ cached ≤ input.promptTokens ∧ cached ≤ restored.toNat then do
      ignore <| publishCacheJson capability input.receipt input.random id
      return some ("llama.cpp native KV restored reuse observed: " ++ toString cached ++ "/" ++
        toString input.promptTokens ++ " prompt tokens")
    else if cached = 0 then
      return some ("llama.cpp native KV restored reuse not observed: backend reported 0 cached " ++
        "prompt tokens")
    else
      return some ("llama.cpp native KV restored reuse unverified: missing or inconsistent " ++
        "backend usage")

end Operations

-- A run of sessions over one directory. After a crash, or at the end of a session, the next one
-- begins with a server of its own.
inductive Operation
  | begin (serverFiles : Name → Option Bytes)
  | save (input : SaveInput) (fates : List Fate)
  | restore (input : RestoreInput) (fates : List Fate)
  | observeReuse (input : Observation) (fates : List Fate)

inductive Outcome
  | begun
  | saved (exit : Exit String String)
  | restored (exit : Exit String (String × Option UInt64))
  | observed (exit : Exit String (Option String))

def Session.begin (s : Session) (serverFiles : Name → Option Bytes) : Session :=
  { s with
    files := fun path =>
      match path.folder with
      | .session => s.files path
      | .server  => serverFiles path.name
    slot := none
    restoreAttempted := false
  }

def Session.step (lib : Libraries) (s : Session) : Operation → Session × Outcome
  | .begin serverFiles        => (s.begin serverFiles, .begun)
  | .save input fates         =>
    let (exit, s, _) := save lib input s fates
    (s, .saved exit)
  | .restore input fates      =>
    let (exit, s, _) := restore lib input s fates
    (s, .restored exit)
  | .observeReuse input fates =>
    let (exit, s, _) := observeReuse input s fates
    (s, .observed exit)

-- The directory may hold other files from the beginning.
def sessions (lib : Libraries) : System Session Operation Outcome where
  Init s := s.files latest = none ∧ s.published = []
  Step s operation outcome s' := s.step lib operation = (s', outcome)

end Backend.ChatPersistence
