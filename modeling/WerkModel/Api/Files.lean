import WerkModel.Backend.HttpBody
import WerkModel.FileStore.Store
import WerkModel.Lib.Json
import WerkModel.Lib.Ranking

-- The pages in which the files of a principal are listed. The wire contract is selected by headers.
open Std Ranking Checks
open Backend.HttpBody (fromStrRadix)
open FileStore (Name StoredFile)

namespace Api.Files

structure Wire where
  anthropic : Bool
  beta      : Bool
  -- A beta feature is requested by a header of the other interface.
  anthropic_of_beta : beta = true → anthropic = true

-- The names of headers are in lower case.
abbrev Headers := List (String × String)

def Wire.detect (headers : Headers) : Wire where
  anthropic := (headers.lookup "anthropic-version").isSome ||
    (headers.lookup "anthropic-beta").isSome
  beta := headers.lookup "anthropic-beta" = some "files-api-2025-04-14"
  anthropic_of_beta h := by simp [of_decide_eq_true h]

structure Rejection where
  status  : Nat
  message : String
  deriving DecidableEq

section Rendering

variable (wire : Wire) (date : UInt64 → String)

def text (name : Name) : Json :=
  .string (String.ofList name)

def optional {α : Type} (value : Option α) (render : α → Json) : Json :=
  value.elim .null render

def Wire.object (file : StoredFile) : Json :=
  if wire.anthropic then
    .object <| [
      ("id", text file.id), ("type", .string "file"), ("filename", text file.filename),
      ("mime_type", text file.mimeType), ("size_bytes", .unsigned (.ofNat file.bytes)),
      ("created_at", .string (date file.createdAt)), ("downloadable", .bool false)
    ] ++ if wire.beta then [] else [("expires_at", optional file.expiresAt (.string ∘ date))]
  else
    .object [
      ("id", text file.id), ("object", .string "file"), ("bytes", .unsigned (.ofNat file.bytes)),
      ("filename", text file.filename), ("created_at", .unsigned file.createdAt),
      ("expires_at", optional file.expiresAt .unsigned), ("purpose", text file.purpose),
      ("status", .string "processed")
    ]

def errorKind (status : Nat) : String :=
  match status with
  | 401 => "authentication_error"
  | 404 => "not_found_error"
  | 413 => "request_too_large"
  | 429 => "rate_limit_error"
  | _   => if 500 ≤ status ∧ status < 600 then "api_error" else "invalid_request_error"

def Wire.error (requestId : String) (rejection : Rejection) : Json :=
  if wire.anthropic then
    .object [
      ("type", .string "error"),
      ("error", .object
        [("type", .string (errorKind rejection.status)), ("message", .string rejection.message)]),
      ("request_id", .string requestId)
    ]
  else
    .object [("error", .object [
      ("message", .string rejection.message), ("type", .string "invalid_request_error"),
      ("param", .null), ("code", .null)
    ])]

end Rendering

section Listing

-- The parameters of a query have distinct names.
abbrev Query := List (String × Name)

variable (wire : Wire) (query : Query)

def containsKey (key : String) : Bool :=
  (query.lookup key).isSome

def allowed : List String :=
  if !wire.anthropic then ["purpose", "limit", "order", "after"]
  else if wire.beta then ["limit", "after_id", "before_id"]
  else ["limit", "page"]

def requestedLimit : Nat :=
  match query.lookup "limit" with
  | none      => if wire.anthropic then 20 else 10000
  | some text => (fromStrRadix 10 text).getD 0

def pageLimit : Except Rejection Nat := do
  ensure (query.all fun entry => (allowed wire).contains entry.1) ⟨400, "unsupported file query parameter"⟩
  let limit := requestedLimit wire query
  ensure (limit ≠ 0 ∧ limit ≤ if wire.anthropic then 1000 else 10000)
    ⟨400, "invalid file page limit"⟩
  ensure ((query.lookup "order").all ["asc".toList, "desc".toList].contains ∧
    ¬(containsKey query "after_id" ∧ containsKey query "before_id"))
    ⟨400, "invalid file pagination"⟩
  return limit

def compareFiles (file other : StoredFile) : Ordering :=
  (compare file.createdAt other.createdAt).then (compare file.id other.id)

def hasPurpose (file : StoredFile) : Bool :=
  (query.lookup "purpose").all (file.purpose = ·)

def ascending : Bool :=
  query.lookup "order" = some "asc".toList

-- The latest files come first, unless they are requested in the order in which they were created.
def arrange (files : List StoredFile) : List StoredFile :=
  let files := sortBy (fun file other => compareFiles other file) (files.filter (hasPurpose query))
  if ascending query then files.reverse else files

def cursor : Option Name :=
  (((query.lookup "after").or (query.lookup "after_id")).or (query.lookup "before_id")).or
    (query.lookup "page")

def skip (files : List StoredFile) : Except Rejection (List StoredFile) :=
  match cursor query with
  | none    => .ok files
  | some id =>
    match files.findIdx? (·.id = id) with
    | none       => .error ⟨400, "invalid file cursor"⟩
    | some index =>
      .ok (if containsKey query "before_id" then files.take index else files.drop (index + 1))

structure Listing where
  data : List StoredFile
  more : Bool
  deriving DecidableEq

namespace Listing

variable (listing : Listing)

def firstId : Option Name :=
  listing.data.head?.map StoredFile.id

def lastId : Option Name :=
  listing.data.getLast?.map StoredFile.id

def nextPage : Option Name :=
  if listing.more then listing.lastId else none

def body (date : UInt64 → String) : Json :=
  let data : Json := .array (listing.data.map (wire.object date))
  if wire.anthropic && !wire.beta then
    .object [("data", data), ("next_page", optional listing.nextPage text)]
  else
    .object <| [
      ("data", data), ("has_more", .bool listing.more),
      ("first_id", optional listing.firstId text), ("last_id", optional listing.lastId text)
    ] ++ if wire.anthropic then [] else [("object", .string "list")]

end Listing

-- There is no inventory if the store cannot be read.
def list (inventory : Option (List StoredFile)) : Except Rejection Listing := do
  let limit ← pageLimit wire query
  match inventory with
  | none       => .error ⟨500, "file inventory unavailable"⟩
  | some files => do
    let files ← skip query (arrange query files)
    return { data := files.take limit, more := limit < files.length }

end Listing

end Api.Files
