import WerkModel.Inference.Types
import WerkModel.Lib.Json
import WerkModel.Lib.Redaction

-- Registered secrets, and the values of some fields, are kept out of log records.
open Inference (toAsciiLowercase)
open Redaction

namespace Logging

section Registry

-- Secrets are replaced from the longest to the shortest.
def registerSecrets (secrets values : List String) : List String :=
  (values.foldl (fun secrets value =>
    if value ≠ "" ∧ value ∉ secrets then secrets ++ [value] else secrets) secrets).mergeSort
      fun secret other => other.utf8ByteSize ≤ secret.utf8ByteSize

-- The secrets after some registrations.
def registered (registrations : List (List String)) : List String :=
  registrations.foldl registerSecrets []

end Registry

def marker : String := "[REDACTED]"

def protectedKeys : List String := [
  "authorization", "api_key", "password", "token", "secret", "prompt", "content", "body", "query",
  "questions"
]

def isProtected (key : String) : Bool :=
  (protectedKeys.map String.toList).contains (toAsciiLowercase key)

section Scrub

-- Control sequences of terminals are removed from a text by `clean`.
variable (clean : String → String) (secrets : List String)

def scrub (text : String) : String :=
  .ofList <| (redact marker.toList (secrets.map String.toList) (clean text).toList).take 16384

mutual

def scrubFields : Json → Json
  | .string text     => .string (scrub clean secrets text)
  | .array elements  => .array (scrubElements elements)
  | .object fields   => .object (scrubEntries fields)
  | .null            => .null
  | .bool value      => .bool value
  | .unsigned number => .unsigned number
  | .signed number   => .signed number
  | .float literal   => .float literal

def scrubElements : List Json → List Json
  | []               => []
  | value :: values  => scrubFields value :: scrubElements values

def scrubEntries : List (String × Json) → List (String × Json)
  | []                   => []
  | (key, value) :: rest =>
    (key, if isProtected key then .string marker else scrubFields value) :: scrubEntries rest

end

end Scrub

section Contents

-- A text that is the value of a field or an element at any depth.
inductive HasText : Json → String → Prop
  | string {text} : HasText (.string text) text
  | array {elements value text} : value ∈ elements → HasText value text →
    HasText (.array elements) text
  | object {fields key value text} : (key, value) ∈ fields → HasText value text →
    HasText (.object fields) text

inductive HasKey : Json → String → Prop
  | array {elements value key} : value ∈ elements → HasKey value key → HasKey (.array elements) key
  | here {fields key value} : (key, value) ∈ fields → HasKey (.object fields) key
  | object {fields outer value key} : (outer, value) ∈ fields → HasKey value key →
    HasKey (.object fields) key

-- A key that does not stand in the value of a protected one.
inductive Visible : Json → String → Prop
  | array {elements value key} : value ∈ elements → Visible value key →
    Visible (.array elements) key
  | here {fields key value} : (key, value) ∈ fields → Visible (.object fields) key
  | object {fields outer value key} : (outer, value) ∈ fields → isProtected outer = false →
    Visible value key → Visible (.object fields) key

-- The fields without the values of protected keys.
mutual

def hide : Json → Json
  | .array elements  => .array (hideElements elements)
  | .object fields   => .object (hideEntries fields)
  | .null            => .null
  | .string text     => .string text
  | .bool value      => .bool value
  | .unsigned number => .unsigned number
  | .signed number   => .signed number
  | .float literal   => .float literal

def hideElements : List Json → List Json
  | []               => []
  | value :: values  => hide value :: hideElements values

def hideEntries : List (String × Json) → List (String × Json)
  | []                   => []
  | (key, value) :: rest => (key, if isProtected key then .null else hide value) :: hideEntries rest

end

end Contents

section Results

variable {clean : String → String} {secrets values : List String} {secret text key : String}
variable {registrations : List (List String)} {value value' : Json} {elements : List Json}
variable {fields : List (String × Json)}

theorem mem_registerSecrets : secret ∈ registerSecrets secrets values ↔
    secret ∈ secrets ∨ secret ≠ "" ∧ secret ∈ values := by
  rw [registerSecrets, List.mem_mergeSort]
  induction values generalizing secrets
  case nil => simp
  case cons value values hi =>
    rw [List.foldl_cons, hi, List.mem_cons]
    split_ifs with h
    case pos => grind
    case neg => grind

theorem mem_foldl_registerSecrets : secret ∈ registrations.foldl registerSecrets secrets ↔
    secret ∈ secrets ∨ secret ≠ "" ∧ secret ∈ registrations.flatten := by
  induction registrations generalizing secrets
  case nil => simp
  case cons values registrations hi =>
    rw [List.foldl_cons, hi, mem_registerSecrets, List.flatten_cons, List.mem_append]
    grind

theorem mem_registered :
    secret ∈ registered registrations ↔ secret ≠ "" ∧ secret ∈ registrations.flatten := by
  rw [registered, mem_foldl_registerSecrets]
  simp

theorem scrubElements_eq : scrubElements clean secrets elements =
    elements.map (scrubFields clean secrets) := by
  induction elements
  case nil => rfl
  case cons value elements hi => rw [scrubElements, hi, List.map_cons]

theorem scrubEntries_eq : scrubEntries clean secrets fields = fields.map fun (key, value) =>
    (key, if isProtected key then .string marker else scrubFields clean secrets value) := by
  induction fields
  case nil => rfl
  case cons field fields hi => rw [scrubEntries, hi, List.map_cons]

theorem hideElements_eq : hideElements elements = elements.map hide := by
  induction elements
  case nil => rfl
  case cons value elements hi => rw [hideElements, hi, List.map_cons]

theorem hideEntries_eq : hideEntries fields = fields.map fun (key, value) =>
    (key, if isProtected key then .null else hide value) := by
  induction fields
  case nil => rfl
  case cons field fields hi => rw [hideEntries, hi, List.map_cons]

-- No secret of a registry is in the marker, holds it, or reaches into it.
def Separate (secrets : List String) : Prop :=
  ∀ secret ∈ secrets, secret ≠ "" ∧ Clear marker.toList secret.toList

theorem not_infix_scrub (h : Separate secrets) (hs : secret ∈ secrets) :
    ¬secret.toList <:+: (scrub clean secrets text).toList := by
  intro hi
  rw [scrub, String.toList_ofList] at hi
  refine not_infix_redact (fun pattern hp => ?_) (fun pattern hp => ?_)
    (List.mem_map_of_mem hs) (hi.trans (List.take_prefix _ _).isInfix)
  case refine_1 =>
    obtain ⟨other, ho, rfl⟩ := List.mem_map.mp hp
    exact fun hn => (h other ho).left (String.toList_eq_nil_iff.mp hn)
  case refine_2 =>
    obtain ⟨other, ho, rfl⟩ := List.mem_map.mp hp
    exact (h other ho).right

theorem not_infix_of_hasText (h : Separate secrets) (hs : secret ∈ secrets)
    (ht : HasText (scrubFields clean secrets value) text) : ¬secret.toList <:+: text.toList := by
  generalize he : scrubFields clean secrets value = result at ht
  induction ht generalizing value
  case string text =>
    cases value <;> simp only [scrubFields, reduceCtorEq, Json.string.injEq] at he
    exact he ▸ not_infix_scrub h hs
  case array hm _ hi =>
    cases value <;> simp only [scrubFields, reduceCtorEq, Json.array.injEq] at he
    rw [scrubElements_eq] at he
    subst he
    obtain ⟨element, -, rfl⟩ := List.mem_map.mp hm
    exact hi rfl
  case object hm ht hi =>
    cases value <;> simp only [scrubFields, reduceCtorEq, Json.object.injEq] at he
    rw [scrubEntries_eq] at he
    subst he
    obtain ⟨⟨key, element⟩, -, hf⟩ := List.mem_map.mp hm
    simp only [Prod.mk.injEq] at hf
    obtain ⟨rfl, rfl⟩ := hf
    by_cases hp : isProtected key
    case pos =>
      rw [if_pos hp] at ht
      cases ht
      exact (h secret hs).right.outside
    case neg =>
      rw [if_neg hp] at hi
      exact hi rfl

-- Keys are the names of fields, and are kept.
theorem hasKey_iff : HasKey (scrubFields clean secrets value) key ↔ Visible value key := by
  constructor
  case mp =>
    intro hk
    generalize he : scrubFields clean secrets value = result at hk
    induction hk generalizing value
    case array hm _ hi =>
      cases value <;> simp only [scrubFields, reduceCtorEq, Json.array.injEq] at he
      rw [scrubElements_eq] at he
      subst he
      obtain ⟨element, he, rfl⟩ := List.mem_map.mp hm
      exact .array he (hi rfl)
    case here hm =>
      cases value <;> simp only [scrubFields, reduceCtorEq, Json.object.injEq] at he
      rw [scrubEntries_eq] at he
      subst he
      obtain ⟨⟨key, element⟩, hf, he⟩ := List.mem_map.mp hm
      cases he
      exact .here hf
    case object hm hk hi =>
      cases value <;> simp only [scrubFields, reduceCtorEq, Json.object.injEq] at he
      rw [scrubEntries_eq] at he
      subst he
      obtain ⟨⟨outer, element⟩, hf, he⟩ := List.mem_map.mp hm
      simp only [Prod.mk.injEq] at he
      obtain ⟨rfl, rfl⟩ := he
      by_cases hp : isProtected outer
      case pos =>
        rw [if_pos hp] at hk
        nomatch hk
      case neg =>
        rw [if_neg hp] at hi
        exact .object hf (Bool.not_eq_true _ ▸ hp) (hi rfl)
  case mpr =>
    intro hv
    induction hv
    case array hm _ hi =>
      rw [scrubFields, scrubElements_eq]
      exact .array (List.mem_map_of_mem hm) hi
    case here hm =>
      rw [scrubFields, scrubEntries_eq]
      exact .here (List.mem_map_of_mem hm)
    case object hm hp _ hi =>
      rw [scrubFields, scrubEntries_eq]
      have hf := List.mem_map_of_mem (f := fun (key, value) =>
        (key, if isProtected key then Json.string marker
          else scrubFields clean secrets value)) hm
      refine .object hf ?_
      rw [hp]
      exact hi

theorem scrubFields_hide :
    scrubFields clean secrets (hide value) = scrubFields clean secrets value := by
  induction hn : sizeOf value using Nat.strong_induction_on generalizing value
  case h n hi =>
    subst hn
    cases value
    case array elements =>
      simp only [hide, scrubFields, hideElements_eq, scrubElements_eq, List.map_map,
        Json.array.injEq]
      refine List.map_congr_left fun element hm => hi _ ?_ rfl
      have := List.sizeOf_lt_of_mem hm
      simp only [Json.array.sizeOf_spec]
      omega
    case object fields =>
      simp only [hide, scrubFields, hideEntries_eq, scrubEntries_eq, List.map_map,
        Json.object.injEq]
      refine List.map_congr_left fun field hm => ?_
      obtain ⟨key, element⟩ := field
      simp only [Function.comp_apply, Prod.mk.injEq, true_and]
      by_cases hp : isProtected key
      case pos => rw [if_pos hp, if_pos hp]
      case neg =>
        rw [if_neg hp, if_neg hp, if_neg hp]
        refine hi _ ?_ rfl
        have := List.sizeOf_lt_of_mem hm
        simp only [Json.object.sizeOf_spec, Prod.mk.sizeOf_spec] at this ⊢
        omega
    all_goals rfl

structure Scrubbed (registrations : List (List String)) : Prop where
  message : ∀ clean text, ∀ secret ∈ registrations.flatten, secret ≠ "" →
    ¬secret.toList <:+: (scrub clean (registered registrations) text).toList
  texts   : ∀ clean fields text,
    HasText (scrubFields clean (registered registrations) fields) text →
    ∀ secret ∈ registrations.flatten, secret ≠ "" → ¬secret.toList <:+: text.toList
  keys    : ∀ clean fields key,
    HasKey (scrubFields clean (registered registrations) fields) key ↔ Visible fields key
  hidden  : ∀ clean fields fields', hide fields = hide fields' →
    scrubFields clean (registered registrations) fields =
      scrubFields clean (registered registrations) fields'

theorem scrubbed (h : ∀ secret ∈ registrations.flatten, secret ≠ "" →
    Clear marker.toList secret.toList) : Scrubbed registrations where
  message clean text secret hs hn := not_infix_scrub (fun secret hm =>
    have hr := mem_registered.mp hm
    ⟨hr.left, h secret hr.right hr.left⟩) (mem_registered.mpr ⟨hn, hs⟩)
  texts clean fields text ht secret hs hn := not_infix_of_hasText (fun secret hm =>
    have hr := mem_registered.mp hm
    ⟨hr.left, h secret hr.right hr.left⟩) (mem_registered.mpr ⟨hn, hs⟩) ht
  keys clean fields key := hasKey_iff
  hidden clean fields fields' he := by
    rw [←scrubFields_hide, he, scrubFields_hide]

theorem scrubbed_tokens : Scrubbed [["sk-live"], ["sk-live-2", ""]] :=
  scrubbed fun secret hs _ => by
    simp only [List.flatten_cons, List.flatten_nil, List.cons_append, List.nil_append,
      List.mem_cons, List.not_mem_nil, or_false] at hs
    obtain rfl | rfl | rfl := hs
    · exact { Apart.of_take (by decide) (by decide) with inside := by decide }
    · exact { Apart.of_take (by decide) (by decide) with inside := by decide }
    · contradiction

-- A secret with the marker in it can be put together, and keys are not changed.
theorem not_scrubbed :
    (∃ registrations : List (List String), (∀ secret ∈ registrations.flatten, secret ≠ "" →
      Apart marker.toList secret.toList) ∧ ∃ secret ∈ registrations.flatten, secret ≠ "" ∧
        secret.toList <:+: (scrub id (registered registrations) "afoob").toList) ∧
    ∃ registrations : List (List String), (∀ secret ∈ registrations.flatten, secret ≠ "" →
      Apart marker.toList secret.toList) ∧ ∃ secret ∈ registrations.flatten, secret ≠ "" ∧
        ∃ fields key, HasKey (scrubFields id (registered registrations) fields) key ∧
          secret.toList <:+: key.toList := by
  constructor
  case left =>
    have hr : registered [["a[REDACTED]b", "foo"]] = ["a[REDACTED]b", "foo"] := by
      have hf : ["a[REDACTED]b", "foo"].Pairwise fun secret other =>
          decide (other.utf8ByteSize ≤ secret.utf8ByteSize) = true := by decide
      rw [registered, List.foldl_cons, List.foldl_nil, registerSecrets]
      exact List.mergeSort_of_pairwise hf
    refine ⟨[["a[REDACTED]b", "foo"]], fun secret hs _ => ?_, "a[REDACTED]b", by simp, by simp, ?_⟩
    · simp only [List.flatten_cons, List.flatten_nil, List.append_nil, List.mem_cons,
        List.not_mem_nil, or_false] at hs
      obtain rfl | rfl := hs
      · exact Apart.of_take (by decide) (by decide)
      · exact Apart.of_take (by decide) (by decide)
    · rw [hr]
      decide +kernel
  case right =>
    refine ⟨[["sk-live"]], fun secret hs _ => ?_, "sk-live", by simp, by simp,
      .object [("sk-live", .null)], "sk-live", hasKey_iff.mpr (.here List.mem_cons_self),
      List.infix_refl _⟩
    simp only [List.flatten_cons, List.flatten_nil, List.append_nil, List.mem_cons,
      List.not_mem_nil, or_false] at hs
    subst hs
    exact Apart.of_take (by decide) (by decide)

end Results

end Logging
