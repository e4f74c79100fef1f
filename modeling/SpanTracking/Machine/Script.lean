import SpanTracking.Machine.Exec

set_option autoImplicit false

namespace SpanTracking

/-- The next code to return and those after it. The last code repeats. -/
structure Script where
  code : Int32
  later : List Int32 := []
deriving DecidableEq

def Script.advance : Script → Script
  | ⟨code, []⟩ => ⟨code, []⟩
  | ⟨_, next :: later⟩ => ⟨next, later⟩

structure Scripts where
  entries : List (FuncId × Script) := []
deriving DecidableEq

namespace Scripts

def get? (s : Scripts) (f : FuncId) : Option Script :=
  (s.entries.find? fun e => e.1 = f).map Prod.snd

def isBound (s : Scripts) (f : FuncId) : Bool := s.entries.any fun e => e.1 = f

def unbind (s : Scripts) (f : FuncId) : Scripts := ⟨s.entries.filter fun e => e.1 ≠ f⟩

def bind (s : Scripts) (f : FuncId) (script : Script) : Scripts :=
  ⟨(f, script) :: (s.unbind f).entries⟩

def constant (fs : List FuncId) (code : Int32) : Scripts :=
  fs.foldl (fun s f => s.bind f { code }) {}

def reply (f : FuncId) (s : Scripts) : Int32 × Scripts :=
  match s.get? f with
  | some script => (script.code, s.bind f script.advance)
  | none => (0, s)

def host (s : Scripts) : Host Scripts where
  answer f := if s.isBound f then some fun _ _ => reply f else none

end Scripts

end SpanTracking
