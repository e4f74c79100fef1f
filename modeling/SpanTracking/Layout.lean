import SpanTracking.Error

set_option autoImplicit false

namespace SpanTracking

structure Field where
  id : FieldId
  name : String
  ty : Ty
deriving DecidableEq

structure Layout where
  fields : List Field := []
deriving DecidableEq

namespace Layout

def lookup (l : Layout) (name : String) : Option Field := l.fields.find? fun f => f.name = name

def get? (l : Layout) (id : FieldId) : Option Field := l.fields[id.index]?

/-- Declares a field. One declared before with the same type is returned as it is. -/
def declare (name : String) (ty : Ty) : Build Layout Field := fun l =>
  match l.lookup name with
  | some f => if f.ty = ty then .ok f l else .error (.fieldTypeConflict name f.ty ty) l
  | none =>
    let f : Field := ⟨⟨l.fields.length⟩, name, ty⟩
    .ok f ⟨l.fields ++ [f]⟩

end Layout

end SpanTracking
