import WerkModel.Lib.Saturating
import WerkModel.Lib.TreeMap

namespace RuntimeControl.Experts

def maxModels : Nat := 4096
def maxExpertsPerModel : Nat := 65536
def maxTotalExperts : Nat := 262144
def maxAccessBatch : Nat := 4096
def maxPageSize : Nat := 1000
def maxActions : Nat := 4096
def maxHalfLifeMillis : Nat := 30 * 24 * 60 * 60 * 1000
def maxCooldownMillis : Nat := 24 * 60 * 60 * 1000

inductive ExpertTier
  | vram
  | ram
  | external
  deriving DecidableEq

-- The arithmetic of hotness scores, which the program does in double precision.
class Score (φ : Type) where
  zero            : φ
  one             : φ
  maxAccessWeight : φ
  maxHotness      : φ
  isFinite        : φ → Bool
  lt              : φ → φ → Bool
  le              : φ → φ → Bool
  add             : φ → φ → φ
  -- The score after the elapsed time, by its half-life.
  halve           : φ → Nat → Nat → φ
  totalCmp        : φ → φ → Ordering

namespace Score

variable {φ : Type} [Score φ]

def min (a b : φ) : φ :=
  if le a b then a else b

def clamp (value lower upper : φ) : φ :=
  if lt value lower then
    lower
  else if lt upper value then
    upper
  else
    value

-- The total order of floating-point numbers by sign, then by magnitude.
def orderedBits (value : Float) : UInt64 :=
  let bits := value.toBits
  if bits >>> 63 = 1 then ~~~bits else bits ^^^ ((1 : UInt64) <<< 63)

instance : Score Float where
  zero                     := 0.0
  one                      := 1.0
  maxAccessWeight          := 1000000.0
  maxHotness               := 1000000000000.0
  isFinite                 := Float.isFinite
  lt a b                   := a < b
  le a b                   := a ≤ b
  add                      := Float.add
  halve a elapsed halfLife := a * Float.pow 2.0 (-(Float.ofNat elapsed / Float.ofNat halfLife))
  totalCmp a b             := compare (orderedBits a) (orderedBits b)

end Score

inductive ExpertResidencyError
  | invalidConfiguration (message : String)
  | invalidModelId
  | invalidExpertId
  | invalidAccessWeight
  | invalidTierTransition (source target : ExpertTier)
  | invalidCursor
  | invalidLimit (label : String) (maximum : Nat)
  | unknownModel (modelId : String)
  | unknownExpert (modelId expertId : String)
  | modelLimitReached (limit : Nat)
  | modelExpertLimitReached (modelId : String) (limit : Nat)
  | totalExpertLimitReached (limit : Nat)
  | actionInFlight (modelId expertId : String)
  | staleAction (modelId expertId : String)
  | pinnedExpert (modelId expertId : String)
  | duplicateExpert (modelId expertId : String)
  | cursorCollision
  deriving DecidableEq

def validateBound (label : String) (value maximum : Nat) : Except ExpertResidencyError Unit :=
  if value = 0 ∨ value > maximum then
    .error <| .invalidConfiguration s!"{label} limit must be between 1 and {maximum}"
  else
    .ok ()

theorem validateBound_ok {label value maximum} (h : validateBound label value maximum = .ok ()) :
    0 < value ∧ value ≤ maximum := by
  rw [validateBound] at h
  split at h
  case isTrue    => cases h
  case isFalse h => omega

structure ExpertResidencyConfig (φ : Type) where
  maxModels                : Nat
  maxExpertsPerModel       : Nat
  maxTotalExperts          : Nat
  maxAccessBatch           : Nat
  defaultPageSize          : Nat
  maxPageSize              : Nat
  maxActions               : Nat
  hotnessHalfLifeMillis    : Nat
  promoteHotness           : φ
  demoteHotness            : φ
  transitionCooldownMillis : Nat

namespace ExpertResidencyConfig

def default : ExpertResidencyConfig Float where
  maxModels                := 128
  maxExpertsPerModel       := 4096
  maxTotalExperts          := 65536
  maxAccessBatch           := 256
  defaultPageSize          := 100
  maxPageSize              := 100
  maxActions               := 256
  hotnessHalfLifeMillis    := 60000
  promoteHotness           := 2.0
  demoteHotness            := 0.5
  transitionCooldownMillis := 5000

variable {φ : Type} [Score φ] {config : ExpertResidencyConfig φ}

def validatePolicy (config : ExpertResidencyConfig φ) : Except ExpertResidencyError Unit :=
  if config.defaultPageSize = 0 ∨ config.defaultPageSize > config.maxPageSize then
    .error <| .invalidConfiguration
      "default page size must be nonzero and no larger than max_page_size"
  else if config.hotnessHalfLifeMillis = 0 ∨ config.hotnessHalfLifeMillis > maxHalfLifeMillis then
    .error <| .invalidConfiguration
      s!"hotness half-life must be between 1 and {maxHalfLifeMillis} milliseconds"
  else if config.transitionCooldownMillis > maxCooldownMillis then
    .error <| .invalidConfiguration
      s!"transition cooldown must not exceed {maxCooldownMillis} milliseconds"
  else if !Score.isFinite config.demoteHotness || !Score.isFinite config.promoteHotness ||
      Score.lt config.demoteHotness Score.zero ||
      Score.le config.promoteHotness config.demoteHotness then
    .error <| .invalidConfiguration "hotness thresholds must satisfy 0 <= demote < promote"
  else
    .ok ()

def validate (config : ExpertResidencyConfig φ) : Except ExpertResidencyError Unit := do
  validateBound "model" config.maxModels Experts.maxModels
  validateBound "per-model expert" config.maxExpertsPerModel Experts.maxExpertsPerModel
  validateBound "total expert" config.maxTotalExperts Experts.maxTotalExperts
  validateBound "access batch" config.maxAccessBatch Experts.maxAccessBatch
  validateBound "page" config.maxPageSize Experts.maxPageSize
  validateBound "action" config.maxActions Experts.maxActions
  config.validatePolicy

-- The bounds that the manager relies on: a new model has room for an expert, and the number of
-- experts does not saturate.
theorem bounds_of_validate (h : config.validate = .ok ()) :
    0 < config.maxExpertsPerModel ∧ config.maxTotalExperts ≤ Experts.maxTotalExperts := by
  cases hm : validateBound "model" config.maxModels Experts.maxModels
  case error e => simp [validate, hm, bind, Except.bind] at h
  case ok =>
    cases he : validateBound "per-model expert" config.maxExpertsPerModel Experts.maxExpertsPerModel
    case error e => simp [validate, hm, he, bind, Except.bind] at h
    case ok =>
      cases ht : validateBound "total expert" config.maxTotalExperts Experts.maxTotalExperts
      case error e => simp [validate, hm, he, ht, bind, Except.bind] at h
      case ok      => exact ⟨(validateBound_ok he).1, (validateBound_ok ht).2⟩

end ExpertResidencyConfig

section Identifiers

-- The characters that have the Unicode property `White_Space`.
def isWhitespace (c : Char) : Bool :=
  (0x09 ≤ c.toNat && c.toNat ≤ 0x0D) || c.toNat = 0x20 || c.toNat = 0x85 || c.toNat = 0xA0 ||
  c.toNat = 0x1680 || (0x2000 ≤ c.toNat && c.toNat ≤ 0x200A) || c.toNat = 0x2028 ||
  c.toNat = 0x2029 || c.toNat = 0x202F || c.toNat = 0x205F || c.toNat = 0x3000

-- The characters of the Unicode category `Cc`.
def isControl (c : Char) : Bool :=
  c.toNat < 0x20 || (0x7F ≤ c.toNat && c.toNat < 0xA0)

def validateModelId (modelId : String) : Except ExpertResidencyError Unit :=
  if modelId.toList.all isWhitespace || modelId.utf8ByteSize > 256 ||
      modelId.toList.any isControl then
    .error .invalidModelId
  else
    .ok ()

def containsDots : List Char → Bool
  | '.' :: '.' :: _ => true
  | _ :: rest       => containsDots rest
  | []              => false

def isOpaqueIdChar (c : Char) : Bool :=
  c.isAlphanum || c = '_' || c = '-' || c = '.'

def validOpaqueId (id : String) : Bool :=
  1 ≤ id.utf8ByteSize && id.utf8ByteSize ≤ 128 && id.toList.all isOpaqueIdChar &&
  !containsDots id.toList

def validateExpertId (expertId : String) : Except ExpertResidencyError Unit :=
  if validOpaqueId expertId then .ok () else .error .invalidExpertId

end Identifiers
end RuntimeControl.Experts
