set_option autoImplicit false

namespace SpanTracking

structure FuncId where
  index : Nat
deriving DecidableEq

structure FieldId where
  index : Nat
deriving DecidableEq

structure LiteralId where
  index : Nat
deriving DecidableEq

structure SpanId where
  index : Nat
deriving DecidableEq

/-- A virtual register of a function body, assigned by one instruction. -/
structure Reg where
  index : Nat
deriving DecidableEq

structure BlockId where
  owner : FuncId
  index : Nat
deriving DecidableEq

def FuncId.anonymous (f : FuncId) : String := "fn" ++ toString f.index

end SpanTracking
