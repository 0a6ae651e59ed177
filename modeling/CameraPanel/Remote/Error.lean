import CameraPanel.Number.Binary

/-!
# Failures of the remote side
-/

namespace CameraPanel

/-- Why a read has no answer. -/
inductive RemoteError where
  /-- The connection went away before the answer came. -/
  | disconnected
  /-- The answer was not a number. -/
  | decode (detail : String)
  /-- The request itself failed. -/
  | transport (detail : String)
deriving DecidableEq

def RemoteError.message : RemoteError → String
  | disconnected => "Bridge disconnected"
  | decode detail => "Bridge decode error: " ++ detail
  | transport detail => "Bridge transport error: " ++ detail

/-- The answer to a read: a value, or none if the remote side holds none. -/
abbrev Answer := Except RemoteError (Option Double)

end CameraPanel
