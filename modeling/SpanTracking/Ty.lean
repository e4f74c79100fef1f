set_option autoImplicit false

namespace SpanTracking

/-- Who calls whom: functions of the program itself, or functions linked in from outside. -/
inductive CallConv where
  | internal
  | external
deriving DecidableEq

def CallConv.text : CallConv → String
  | .internal => "fastcc"
  | .external => "ccc"

inductive Ty where
  | void
  | int (bits : Nat)
  /-- The record of one parser instance. -/
  | state
  | ptr (target : Ty)
  | func (ret : Ty) (params : List Ty) (conv : CallConv)

namespace Ty

mutual

def same : Ty → Ty → Bool
  | void, void => true
  | int m, int n => decide (m = n)
  | state, state => true
  | ptr t, ptr u => same t u
  | func r ps c, func s qs d => same r s && sameAll ps qs && decide (c = d)
  | _, _ => false

def sameAll : List Ty → List Ty → Bool
  | [], [] => true
  | t :: ts, u :: us => same t u && sameAll ts us
  | _, _ => false

end

mutual

theorem same_iff : ∀ t u : Ty, same t u = true ↔ t = u
  | void, u => by cases u <;> simp [same]
  | int m, u => by cases u <;> simp [same]
  | state, u => by cases u <;> simp [same]
  | ptr t, u => by cases u <;> simp [same, same_iff t]
  | func r ps c, u => by cases u <;> simp [same, same_iff r, sameAll_iff ps, and_assoc]

theorem sameAll_iff : ∀ ts us : List Ty, sameAll ts us = true ↔ ts = us
  | [], us => by cases us <;> simp [sameAll]
  | t :: ts, us => by cases us <;> simp [sameAll, same_iff t, sameAll_iff ts]

end

instance : DecidableEq Ty := fun t u => decidable_of_iff (same t u = true) (same_iff t u)

mutual

/-- A function type is shown without its calling convention. -/
def text : Ty → String
  | void => "void"
  | int bits => "i" ++ toString bits
  | state => "%state"
  | ptr t => t.text ++ "*"
  | func ret params _ => ret.text ++ " (" ++ ", ".intercalate (texts params) ++ ")"

def texts : List Ty → List String
  | [] => []
  | t :: ts => t.text :: texts ts

end

def isFuncPtr : Ty → Bool
  | ptr (func ..) => true
  | _ => false

abbrev i1 : Ty := int 1

abbrev i32 : Ty := int 32

/-- A position in the buffer, or a text. -/
abbrev bytes : Ty := ptr (int 8)

end Ty

structure Signature where
  ret : Ty
  params : List Ty
  conv : CallConv
deriving DecidableEq

def Signature.ptr (s : Signature) : Ty := .ptr (.func s.ret s.params s.conv)

end SpanTracking
