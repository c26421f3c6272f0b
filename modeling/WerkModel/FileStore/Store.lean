import WerkModel.Lib.Checks
import WerkModel.Lib.Faulty

-- Local file objects, partitioned by principal. Each change of the directory tree is a step.
open Checks

namespace FileStore

abbrev Bytes := List UInt8

abbrev Name := List Char

def maxFileBytes : Nat := 50 * 1024 * 1024

def maxFiles : Nat := 1024

def maxStoreBytes : Nat := 1024 * 1024 * 1024

def maxPrincipalBytes : Nat := 256 * 1024 * 1024

structure StoredFile where
  id        : Name
  filename  : Name
  mimeType  : Name
  bytes     : Nat
  createdAt : UInt64
  expiresAt : Option UInt64
  purpose   : Name
  deriving DecidableEq

-- The size of a text in bytes.
def len (text : Name) : Nat :=
  (text.map Char.utf8Size).sum

def isControl (c : Char) : Bool :=
  c.toNat < 0x20 ∨ 0x7f ≤ c.toNat ∧ c.toNat ≤ 0x9f

section Json

def hex (n : Nat) : Char :=
  Nat.digitChar n

def escape (c : Char) : Name :=
  if c = '"' then ['\\', '"']
  else if c = '\\' then ['\\', '\\']
  else if c.toNat = 8 then ['\\', 'b']
  else if c.toNat = 9 then ['\\', 't']
  else if c.toNat = 10 then ['\\', 'n']
  else if c.toNat = 12 then ['\\', 'f']
  else if c.toNat = 13 then ['\\', 'r']
  else if c.toNat < 0x20 then ['\\', 'u', '0', '0', hex (c.toNat / 16), hex (c.toNat % 16)]
  else [c]

def quote (text : Name) : Name :=
  '"' :: text.flatMap escape ++ ['"']

def number (n : Nat) : Name :=
  Nat.toDigits 10 n

def StoredFile.json (file : StoredFile) : Name :=
  "\x7b\"id\":".toList ++ quote file.id ++
  ",\"filename\":".toList ++ quote file.filename ++
  ",\"mime_type\":".toList ++ quote file.mimeType ++
  ",\"bytes\":".toList ++ number file.bytes ++
  ",\"created_at\":".toList ++ number file.createdAt.toNat ++
  ",\"expires_at\":".toList ++ file.expiresAt.elim "null".toList (number ·.toNat) ++
  ",\"purpose\":".toList ++ quote file.purpose ++ ['\x7d']

end Json

-- The directory of a file. Its metadata is kept as the value that is written.
structure Entry where
  metadata : Option StoredFile
  data     : Option Bytes
  deriving DecidableEq

inductive Part
  | metadata
  | data
  deriving DecidableEq

def Part.other : Part → Part
  | metadata => data
  | data     => metadata

def Entry.without (entry : Entry) : Part → Entry
  | .metadata => { entry with metadata := none }
  | .data     => { entry with data := none }

structure Location where
  principal : Name
  name      : Name
  deriving DecidableEq

def stagePrefix : Name := ".stage-".toList

def Location.staged (location : Location) : Bool :=
  stagePrefix.isPrefixOf location.name

structure Store where
  namespaces : List Name
  entries    : List (Location × Entry)
  deriving DecidableEq

namespace Store

variable (s : Store) (principal : Name) (location : Location)

def find : Option Entry :=
  (s.entries.find? (·.1 = location)).map Prod.snd

def listing : List (Location × Entry) :=
  s.entries.filter (·.1.principal = principal)

def add (entry : Entry) : Store :=
  { s with entries := s.entries ++ [(location, entry)] }

def update (f : Entry → Entry) : Store :=
  { s with entries := s.entries.map fun (l, e) => if l = location then (l, f e) else (l, e) }

def remove : Store :=
  { s with entries := s.entries.filter (·.1 ≠ location) }

def rename (name : Name) : Store :=
  { s with entries := s.entries.map fun (l, e) =>
      if l = location then ({ l with name := name }, e) else (l, e) }

def privateDir : Store :=
  if principal ∈ s.namespaces then s else { s with namespaces := s.namespaces ++ [principal] }

def removeNamespace : Store :=
  { s with namespaces := s.namespaces.filter (· ≠ principal) }

end Store

abbrev Program := Faulty Store String

def effect (f : Store → Store) : Program Unit :=
  .step "input/output error" (fun _ s => s) fun s => .ok ((), f s)

def check (condition : Prop) [Decidable condition] (error : String) : Program PUnit :=
  .lift <| ensure condition error

-- The readings of the clock in an operation. It is read once for each entry.
structure Clock where
  requested : UInt64
  created   : UInt64
  entry     : Location → UInt64

def StoredFile.expired (file : StoredFile) (now : UInt64) : Bool :=
  file.expiresAt.any (· ≤ now)

def safeComponent (value : Name) : Bool :=
  value ≠ [] ∧ len value ≤ 100 ∧ value.all fun c => c.isAlphanum ∨ c = '_'

def readMetadata (entry : Entry) : Except String StoredFile :=
  match entry.metadata with
  | none      => .error "no such file"
  | some file => do
    ensure (len file.json ≤ 8192) "invalid file storage entry"
    ensure (file.bytes ≤ maxFileBytes) "invalid stored file size"
    return file

def readData (entry : Entry) : Except String Bytes :=
  match entry.data with
  | none      => .error "no such file"
  | some data => do
    ensure (data.length ≤ maxFileBytes) "invalid file storage entry"
    return data

-- Which of its two files is removed first is up to the operating system.
def removeDirAll (first : Location → Part) (location : Location) : Program Unit := do
  effect (·.update location (·.without (first location)))
  effect (·.update location (·.without (first location).other))
  effect (·.remove location)

section Scan

variable (clock : Clock) (first : Location → Part)

def visit (visited : Nat) : Program Nat := do
  check (visited + 1 ≤ maxFiles * 3) "file inventory exceeds safety limit"
  return visited + 1

def scanEntry (acc : Nat × List (Name × StoredFile)) (item : Location × Entry) :
    Program (Nat × List (Name × StoredFile)) := do
  let visited ← visit acc.1
  if item.1.staged then
    removeDirAll first item.1
    return (visited, acc.2)
  else do
    let file ← .lift <| readMetadata item.2
    check (item.1.name = file.id) "invalid file metadata"
    if file.expired (clock.entry item.1) then
      removeDirAll first item.1
      return (visited, acc.2)
    else
      return (visited, acc.2 ++ [(item.1.principal, file)])

def scanNamespace (acc : Nat × List (Name × StoredFile)) (principal : Name) :
    Program (Nat × List (Name × StoredFile)) := do
  let visited ← visit acc.1
  check (safeComponent principal) "invalid file namespace"
  let s ← .get
  let acc ← (s.listing principal).foldlM (scanEntry clock first) (visited, acc.2)
  let s ← .get
  if s.listing principal = [] then
    effect (·.removeNamespace principal)
    return acc
  else
    return acc

-- The lock file is visited as well.
def scan : Program (List (Name × StoredFile)) := do
  let visited ← visit 0
  let s ← .get
  let acc ← s.namespaces.foldlM (scanNamespace clock first) (visited, [])
  return acc.2

end Scan

structure Upload where
  filename  : Name
  mimeType  : Name
  purpose   : Name
  expiresAt : Option UInt64
  data      : Bytes

def fileId (random : List UInt8) : Name :=
  "file_".toList ++ random.flatMap fun byte => [hex (byte.toNat / 16), hex (byte.toNat % 16)]

namespace Upload

variable (upload : Upload) (clock : Clock) (id : Name)

def named : Bool :=
  upload.filename ≠ [] ∧ len upload.filename ≤ 255 ∧
    upload.filename.all fun c => ¬isControl c ∧ c ∉ "<>:\"|?*\\/".toList

def typed : Bool :=
  upload.mimeType ≠ [] ∧ len upload.mimeType ≤ 255 ∧ upload.mimeType.all fun c => ¬isControl c

def future : Bool :=
  upload.expiresAt.all (clock.requested < ·)

def file : StoredFile where
  id        := id
  filename  := upload.filename
  mimeType  := upload.mimeType
  bytes     := upload.data.length
  createdAt := clock.created
  expiresAt := upload.expiresAt
  purpose   := upload.purpose

-- Whether some files leave room for another one.
def fits (principal : Name) (entries : List (Name × StoredFile)) : Prop :=
  let owned := entries.filter (·.1 = principal)
  entries.length < maxFiles ∧ owned.length < 256 ∧
    (entries.map (·.2.bytes)).sum + upload.data.length ≤ maxStoreBytes ∧
    (owned.map (·.2.bytes)).sum + upload.data.length ≤ maxPrincipalBytes

instance fitsDecidable (principal : Name) (entries : List (Name × StoredFile)) :
    Decidable (upload.fits principal entries) :=
  inferInstanceAs (Decidable (_ ∧ _ ∧ _ ∧ _))

end Upload

section Operations

variable (clock : Clock) (first : Location → Part) (principal id : Name)

def locate : Program (Location × Entry) := do
  check ("file_".toList <+: id ∧ safeComponent id) "file not found"
  check (safeComponent principal) "invalid file namespace"
  let s ← .get
  check (principal ∈ s.namespaces) "file not found"
  match s.find ⟨principal, id⟩ with
  | none       => .throw "file not found"
  | some entry => return (⟨principal, id⟩, entry)

-- Identifiers are never drawn twice, so that nothing is in the way of a new file.
def put (upload : Upload) (random : List UInt8) (suffix : Name) : Program StoredFile := do
  check (upload.data ≠ [] ∧ upload.data.length ≤ maxFileBytes) "file must contain 1..50 MiB"
  check upload.named "invalid filename"
  check upload.typed "invalid MIME type"
  check (upload.future clock) "file expiration must be in the future"
  let entries ← scan clock first
  check (upload.fits principal entries) "file storage quota exceeded; delete unused files"
  check (safeComponent principal) "invalid file namespace"
  effect (·.privateDir principal)
  let file := upload.file clock (fileId random)
  let stage : Location := ⟨principal, stagePrefix ++ suffix⟩
  effect (·.add stage ⟨none, none⟩)
  -- What is staged is never read, so that it does not matter if a file is written in parts.
  effect (·.update stage ({ · with data := some upload.data }))
  effect (·.update stage ({ · with metadata := some file }))
  effect (·.rename stage file.id)
  -- The temporary directory is cleaned up, but it has been moved.
  effect fun s => s
  return file

def list : Program (List StoredFile) := do
  let entries ← scan clock first
  return (entries.filter (·.1 = principal)).map Prod.snd

def get : Program (StoredFile × Bytes) := do
  let (location, entry) ← locate principal id
  let file ← .lift <| readMetadata entry
  if file.expired (clock.entry location) then
    removeDirAll first location
    .throw "file not found"
  else do
    check (file.id = id) "invalid file metadata"
    let data ← .lift <| readData entry
    check (data.length = file.bytes) "stored file size mismatch"
    return (file, data)

def metadata : Program StoredFile := do
  let (location, entry) ← locate principal id
  let file ← .lift <| readMetadata entry
  check (file.id = id) "invalid file metadata"
  if file.expired (clock.entry location) then
    removeDirAll first location
    .throw "file not found"
  else
    return file

def delete : Program Unit := do
  let (location, entry) ← locate principal id
  let _ ← .lift <| readMetadata entry
  removeDirAll first location

end Operations

end FileStore
