import WerkModel.Lib.Program

-- The secret key from which the names of principals are derived. Any number of threads in any
-- number of processes load it from one directory, where the first one creates it.
namespace RuntimeControl.Security

abbrev Bytes := List UInt8

abbrev Name := List Char

def secretBytes : Nat := 32

def maxAuthDirectoryEntries : Nat := 256

def maxStagingKeysPerCleanup : Nat := 64

def keyName : Name := "runtime-namespace.key".toList

def lockName : Name := ".runtime-namespace.lock".toList

def hexDigits (byte : UInt8) : List Char :=
  [Nat.digitChar (byte.toNat / 16), Nat.digitChar (byte.toNat % 16)]

def stagingName (suffix : Vector UInt8 12) : Name :=
  ".runtime-namespace-".toList ++ suffix.toList.flatMap hexDigits ++ ".tmp".toList

def isStaging (name : Name) : Bool :=
  ".runtime-namespace-".toList.isPrefixOf name && ".tmp".toList.isSuffixOf name

inductive Request
  | derive (apiKey : String)
  | fingerprint (scope : String) (value : Bytes)
  deriving DecidableEq

-- A call on one of the derivers of a process.
structure Thread where
  process : Nat
  deriver : Nat
  number  : Nat
  request : Request
  deriving DecidableEq

-- Names that are linked to one inode share its content.
structure Auth where
  files   : Name → Option Nat
  content : Nat → Bytes
  created : Nat

structure Deriver where
  secret   : Option Bytes
  loadGate : Option Thread

structure Shared where
  auth     : Auth
  -- Whether there is a lock file, and who has locked it.
  lockFile : Bool
  lock     : Option Thread
  derivers : Nat → Nat → Deriver

def Auth.link (auth : Auth) (name : Name) (inode : Nat) : Auth :=
  { auth with files := Function.update auth.files name (some inode) }

def Auth.create (auth : Auth) (name : Name) : Auth where
  files   := Function.update auth.files name (some auth.created)
  content := Function.update auth.content auth.created []
  created := auth.created + 1

def Auth.append (auth : Auth) (inode : Nat) (data : Bytes) : Auth :=
  { auth with content := Function.update auth.content inode (auth.content inode ++ data) }

def Auth.remove (auth : Auth) (name : Name) : Auth :=
  { auth with files := Function.update auth.files name none }

namespace Shared

variable (s : Shared)

def key : Option Bytes :=
  (s.auth.files keyName).map s.auth.content

def deriver (t : Thread) : Deriver :=
  s.derivers t.process t.deriver

def setDeriver (t : Thread) (deriver : Deriver) : Shared :=
  { s with
    derivers := Function.update s.derivers t.process <|
      Function.update (s.derivers t.process) t.deriver deriver
  }

-- The names in the directory, in any order.
def Lists (names : List Name) : Prop :=
  names.Nodup ∧
    ∀ name, name ∈ names ↔ (s.auth.files name).isSome ∨ name = lockName ∧ s.lockFile = true

-- The threads of a process die with what they have in memory, and their locks are given up.
def crash (process : Nat) : Shared :=
  { s with
    lock     := s.lock.filter (·.process ≠ process)
    derivers := Function.update s.derivers process fun _ => ⟨none, none⟩
  }

end Shared

inductive Call
  | getSecret
  | setSecret (secret : Bytes)
  | lockGate
  | unlockGate
  | ensureSafeParent
  | openLock
  | restrictLock
  | tryLockExclusive
  | unlock
  | readDir
  | symlinkMetadata (name : Name)
  | removeFile (name : Name)
  | openFile (name : Name)
  | metadataLen (inode : Nat)
  | readToEnd (inode : Nat)
  | getrandom (length : Nat)
  | createNew (name : Name)
  | write (inode : Nat) (data : Bytes)
  | syncAll (inode : Nat)
  | hardLink (name target : Name)
  | syncDirectory

abbrev Call.Answer : Call → Type
  | .getSecret         => Option Bytes
  | .readDir           => List Name
  | .symlinkMetadata _ => Bool
  | .openFile _        => Nat
  | .metadataLen _     => Nat
  | .readToEnd _       => Bytes
  | .getrandom length  => Vector UInt8 length
  | .createNew _       => Nat
  | .write _ _         => Nat
  | _                  => Unit

-- Only what concerns the file system can fail.
def Call.fallible : Call → Bool
  | .getSecret | .setSecret _ | .lockGate | .unlockGate | .unlock => false
  | _                                                             => true

-- What a call does when it succeeds. The gate makes its callers wait.
inductive Effect (t : Thread) (s : Shared) : (call : Call) → call.Answer → Shared → Prop
  | getSecret :
    Effect t s .getSecret (s.deriver t).secret s
  | setSecret {secret} :
    Effect t s (.setSecret secret) () <|
      s.setDeriver t { s.deriver t with secret := (s.deriver t).secret.or (some secret) }
  | lockGate :
    (s.deriver t).loadGate = none →
    Effect t s .lockGate () (s.setDeriver t { s.deriver t with loadGate := some t })
  | unlockGate :
    Effect t s .unlockGate () (s.setDeriver t { s.deriver t with loadGate := none })
  | ensureSafeParent :
    Effect t s .ensureSafeParent () s
  | openLock :
    Effect t s .openLock () { s with lockFile := true }
  | restrictLock :
    Effect t s .restrictLock () s
  | tryLockExclusive :
    s.lock = none → Effect t s .tryLockExclusive () { s with lock := some t }
  | unlock :
    Effect t s .unlock () { s with lock := none }
  | readDir {names} :
    s.Lists names → Effect t s .readDir names s
  | symlinkMetadata {name} :
    Effect t s (.symlinkMetadata name) (s.auth.files name).isSome s
  | removeFile {name inode} :
    s.auth.files name = some inode →
    Effect t s (.removeFile name) () { s with auth := s.auth.remove name }
  | openFile {name inode} :
    s.auth.files name = some inode → Effect t s (.openFile name) inode s
  | metadataLen {inode} :
    Effect t s (.metadataLen inode) (s.auth.content inode).length s
  | readToEnd {inode} :
    Effect t s (.readToEnd inode) ((s.auth.content inode).take (secretBytes + 1)) s
  | getrandom {length} {bytes : Vector UInt8 length} :
    Effect t s (.getrandom length) bytes s
  | createNew {name} :
    s.auth.files name = none →
    Effect t s (.createNew name) s.auth.created { s with auth := s.auth.create name }
  | write {inode data} {count : Nat} :
    0 < count → count ≤ data.length →
    Effect t s (.write inode data) count { s with auth := s.auth.append inode (data.take count) }
  | syncAll {inode} :
    Effect t s (.syncAll inode) () s
  | hardLink {name target inode} :
    s.auth.files name = some inode → s.auth.files target = none →
    Effect t s (.hardLink name target) () { s with auth := s.auth.link target inode }
  | syncDirectory :
    Effect t s .syncDirectory () s

inductive Answers (t : Thread) (s : Shared) :
    (call : Call) → Except String call.Answer → Shared → Prop
  | ok {call answer s'} : Effect t s call answer s' → Answers t s call (.ok answer) s'
  | error {call message} : call.fallible = true → Answers t s call (.error message) s

abbrev Routine := Program Call Call.Answer String

open Program (throw)

def perform (call : Call) : Routine call.Answer :=
  Program.perform call

def writeAll (inode : Nat) : Nat → Bytes → Routine Unit
  | 0, _            => return ()
  | rounds + 1, data =>
    if data = [] then
      return ()
    else do
      let count ← perform (.write inode data)
      writeAll inode rounds (data.drop count)

-- The entries that are left, after `inspected` ones of which `removed` were removed.
def cleanupEntries (inspected removed : Nat) : List Name → Routine Unit
  | []            => return ()
  | name :: names =>
    if maxAuthDirectoryEntries < inspected + 1 then
      throw "runtime auth directory contains too many entries"
    else if isStaging name = false then
      cleanupEntries (inspected + 1) removed names
    else if maxStagingKeysPerCleanup < removed + 1 then
      throw "runtime auth directory contains too many staging keys"
    else do
      perform (.removeFile name)
      cleanupEntries (inspected + 1) (removed + 1) names

def cleanupStagingKeys : Routine Unit := do
  let names ← perform .readDir
  cleanupEntries 0 0 names

def readSecret : Routine Bytes := do
  let file ← perform (.openFile keyName)
  let length ← perform (.metadataLen file)
  if length ≠ secretBytes then
    throw "runtime namespace key is not a safe 32-byte regular file"
  else do
    let bytes ← perform (.readToEnd file)
    if bytes.length = secretBytes then
      return bytes
    else
      throw "runtime namespace key has an invalid length; refusing to replace it"

def commitStagedSecret (staging : Name) : Routine Unit := do
  perform (.hardLink staging keyName)
  perform .syncDirectory
  perform (.removeFile staging)
  perform .syncDirectory

def persistSecret (staging : Name) (secret : Bytes) : Routine Unit := do
  let file ← perform (.createNew staging)
  writeAll file secret.length secret
  perform (.syncAll file)
  commitStagedSecret staging

def createSecret : Routine Bytes := do
  let secret ← perform (.getrandom secretBytes)
  let suffix ← perform (.getrandom 12)
  let staging := stagingName suffix
  match ← (persistSecret staging secret.toList).attempt with
  | .ok _        => return secret.toList
  | .error error => do
    -- Whether the staging file can be removed does not matter.
    let _ ← (perform (.removeFile staging) : Routine Unit).attempt
    throw error

def loadLocked : Routine Bytes := do
  cleanupStagingKeys
  if ← perform (.symlinkMetadata keyName) then
    readSecret
  else
    createSecret

-- The lock is given up with the file that holds it.
def loadOrCreateSecret : Routine Bytes := do
  perform .ensureSafeParent
  perform .openLock
  perform .restrictLock
  Program.within (perform .tryLockExclusive) (perform .unlock) loadLocked

def loadSecret : Routine Unit := do
  if (← perform .getSecret).isNone then
    let secret ← loadOrCreateSecret
    perform (.setSecret secret)

-- The keyed digest of a message, in hexadecimal digits.
structure Libraries where
  hmac : Bytes → Bytes → String

def utf8 (text : String) : Bytes :=
  text.toUTF8.data.toList

def scopedMessage (scope : String) (value : Bytes) : Bytes :=
  utf8 "werk1112-scoped-identity-v1" ++ [0] ++ utf8 scope ++ [0] ++ value

def digest (lib : Libraries) (message : Bytes) : Routine String := do
  match ← perform .getSecret with
  | none        => throw "runtime namespace key is unavailable"
  | some secret => return lib.hmac secret message

def deriveScopedBytes (lib : Libraries) (scope : String) (value : Bytes) : Routine String := do
  if (← perform .getSecret).isNone then
    Program.within (perform .lockGate) (perform .unlockGate) loadSecret
  digest lib (scopedMessage scope value)

def validScope (scope : String) : Bool :=
  scope ≠ "" && scope.utf8ByteSize ≤ 64 &&
    scope.toList.all fun c => c.isAlphanum || c = '_' || c = '-'

def derive (lib : Libraries) (apiKey : String) : Routine String := do
  let digest ← deriveScopedBytes lib "principal" (utf8 apiKey)
  return "p_" ++ digest

def fingerprint (lib : Libraries) (scope : String) (value : Bytes) : Routine String := do
  if validScope scope then
    let digest ← deriveScopedBytes lib scope value
    return "hmac-sha256:" ++ digest
  else
    throw "invalid fingerprint scope"

def serve (lib : Libraries) : Request → Routine String
  | .derive apiKey           => derive lib apiKey
  | .fingerprint scope value => fingerprint lib scope value

-- The directory may be missing in the beginning, and there is nothing in it.
def Shared.initial : Shared where
  auth     := ⟨fun _ => none, fun _ => [], 0⟩
  lockFile := false
  lock     := none
  derivers := fun _ _ => ⟨none, none⟩

def derivers (lib : Libraries) : Machine Thread Call Call.Answer String String Shared where
  Initial s       := s = Shared.initial
  program t       := serve lib t.request
  Answers         := Answers
  Crash dead s s' := ∃ process, dead = { t | t.process = process } ∧ s' = s.crash process

end RuntimeControl.Security
