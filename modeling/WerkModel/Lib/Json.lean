import Mathlib

-- JSON values, where a key of an object that is set again keeps its place.
inductive Json
  | null
  | bool (value : Bool)
  | unsigned (number : UInt64)
  | signed (number : Int)
  | float (literal : String)
  | string (text : String)
  | array (elements : List Json)
  | object (fields : List (String × Json))

namespace Json

def get : Json → String → Option Json
  | .object fields, key => fields.lookup key
  | _, _                => none

-- The value of a key, or null.
def index (value : Json) (key : String) : Json :=
  (value.get key).getD .null

def asArray : Json → Option (List Json)
  | .array elements => some elements
  | _               => none

def asObject : Json → Option (List (String × Json))
  | .object fields => some fields
  | _              => none

def asString : Json → Option String
  | .string text => some text
  | _            => none

def asUnsigned : Json → Option Nat
  | .unsigned number => some number.toNat
  | _                => none

def isObject : Json → Bool
  | .object _ => true
  | _         => false

def insert (fields : List (String × Json)) (key : String) (value : Json) : List (String × Json) :=
  match fields with
  | []            => [(key, value)]
  | field :: rest => if field.1 = key then (key, value) :: rest else field :: insert rest key value

-- Only objects and null, which turns into an object, have settable keys.
def set (value : Json) (key : String) (new : Json) : Option Json :=
  match value with
  | .object fields => some (.object (insert fields key new))
  | .null          => some (.object [(key, new)])
  | _              => none

def remove (value : Json) (key : String) : Json :=
  match value with
  | .object fields => .object (fields.filter fun field => field.1 ≠ key)
  | value          => value

variable {value new result : Json} {fields : List (String × Json)} {key other : String}

@[simp]
theorem get_null : null.get key = none :=
  rfl

theorem lookup_cons {field : String × Json} : (field :: fields).lookup other =
    if other = field.1 then some field.2 else fields.lookup other := by
  by_cases h : other = field.1
  case pos => simp [List.lookup, h]
  case neg => simp [List.lookup, h, beq_false_of_ne h]

theorem lookup_insert : (insert fields key new).lookup other =
    if other = key then some new else fields.lookup other := by
  fun_induction insert fields key new
  case case1 => exact lookup_cons
  case case2 field rest he =>
    rw [lookup_cons, lookup_cons, he]
    by_cases h : other = key
    case pos => rw [if_pos h, if_pos h]
    case neg => rw [if_neg h, if_neg h, if_neg h]
  case case3 field rest hne hi =>
    rw [lookup_cons, lookup_cons, hi]
    by_cases h : other = field.1
    case pos => rw [if_pos h, if_pos h, if_neg (h ▸ hne)]
    case neg => rw [if_neg h, if_neg h]

theorem lookup_filter : (fields.filter fun field => field.1 ≠ key).lookup other =
    if other = key then none else fields.lookup other := by
  induction fields
  case nil => simp
  case cons field fields hi =>
    rw [List.filter_cons, lookup_cons]
    by_cases hk : field.1 = key
    case pos =>
      rw [if_neg (by simpa using hk), hi, hk]
      by_cases h : other = key
      case pos => rw [if_pos h, if_pos h]
      case neg => rw [if_neg h, if_neg h, if_neg h]
    case neg =>
      rw [if_pos (by simpa using hk), lookup_cons, hi]
      by_cases h : other = field.1
      case pos => rw [if_pos h, if_pos h, if_neg (h ▸ hk)]
      case neg => rw [if_neg h, if_neg h]

theorem get_set (h : value.set key new = some result) :
    result.get other = if other = key then some new else value.get other := by
  cases value
  case null =>
    obtain rfl := Option.some.inj h
    simp only [get, lookup_cons, List.lookup_nil]
  case object =>
    obtain rfl := Option.some.inj h
    exact lookup_insert
  all_goals nomatch h

theorem get_remove : (value.remove key).get other =
    if other = key then none else value.get other := by
  cases value
  case object => exact lookup_filter
  all_goals exact (ite_self _).symm

end Json
