import SpanTracking.Layout

set_option autoImplicit false

namespace SpanTracking

inductive Value where
  | int (n : Int)
  /-- A position, or the null pointer. -/
  | ptr (pos : Option Nat)
  /-- A function, or the null function pointer. -/
  | func (f : Option FuncId)
  | text (t : LiteralId)
  | state
deriving DecidableEq

namespace Value

def isNull : Value → Bool
  | ptr none => true
  | func none => true
  | _ => false

def zero (ty : Ty) : Value :=
  match ty with
  | .ptr _ => if ty.isFuncPtr then func none else ptr none
  | .state => state
  | .void => int 0
  | .int _ => int 0
  | .func .. => int 0

/-- Null pointers of either kind are equal. -/
def same (v w : Value) : Bool := v.isNull && w.isNull || decide (v = w)

def truth (b : Bool) : Value := int (if b then 1 else 0)

def showFunc (f : FuncId) : String := "FuncRef(" ++ toString f.index ++ ")"

def shown : Value → String
  | int n => "Int(" ++ toString n ++ ")"
  | ptr none => "Ptr(None)"
  | ptr (some pos) => "Ptr(Some(" ++ toString pos ++ "))"
  | func none => "Func(None)"
  | func (some f) => "Func(Some(" ++ showFunc f ++ "))"
  | text t => "Str(StrId(" ++ toString t.index ++ "))"
  | state => "State"

end Value

structure Memory where
  values : List Value
deriving DecidableEq

namespace Memory

def fresh (l : Layout) : Memory := ⟨l.fields.map fun f => .zero f.ty⟩

def get? (m : Memory) (id : FieldId) : Option Value := m.values[id.index]?

def byName? (m : Memory) (l : Layout) (name : String) : Option Value :=
  (l.lookup name).bind fun f => m.get? f.id

def set (m : Memory) (id : FieldId) (v : Value) : Memory := ⟨m.values.set id.index v⟩

end Memory

end SpanTracking
