import SpanTracking.Abi
import SpanTracking.Body.Edit

set_option autoImplicit false

namespace SpanTracking

/-- Writes the error fields. They hold one error, and a later one replaces it. -/
structure ErrorRecord where
  error : Field
  reason : Field
  errorPos : Field
  message : LiteralId
deriving DecidableEq

namespace ErrorRecord

def prepare (shared : SharedFields) (reason : String) : Build Program ErrorRecord := do
  let message ← Program.intern reason
  return ⟨shared.error, shared.reason, shared.errorPos, message⟩

def prepareIn (reason : String) : Build Program ErrorRecord := do
  let shared ← Build.check fun p => SharedFields.resolve p.layout
  prepare shared reason

def emit (r : ErrorRecord) (here : BlockId) (pos code : Operand) : Build Body Unit := do
  Body.store here r.error code
  Body.store here r.reason (.text r.message)
  Body.store here r.errorPos pos

end ErrorRecord

end SpanTracking
