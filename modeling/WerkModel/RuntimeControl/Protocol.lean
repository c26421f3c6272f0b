import Mathlib

-- The errors that the control plane answers requests with.
inductive ProtocolErrorCode
  | invalidRequest
  | incompatibleProtocol
  | unauthorized
  | forbidden
  | notFound
  | conflict
  | incompatibleState
  | expiredHandoff
  | unsupported
  | unavailable
  | experimentalOptInRequired
  | resourceExhausted
  | corruptState
  | internal
  deriving DecidableEq

structure ProtocolError where
  code      : ProtocolErrorCode
  message   : String
  retryable : Bool
  deriving DecidableEq

namespace ProtocolError

def new (code : ProtocolErrorCode) (message : String) : ProtocolError where
  code      := code
  message   := message
  retryable := false

def setRetryable (error : ProtocolError) (retryable : Bool) : ProtocolError :=
  { error with retryable }

end ProtocolError
