import SpanTracking.Abi
import SpanTracking.Body.Edit

set_option autoImplicit false

namespace SpanTracking

/-- The failure path of a span end, with the error recorded, that still has to be told where parsing
resumes. -/
structure Resumption where
  block : BlockId
  current : Field
  sentinel : Int32
deriving DecidableEq

namespace Resumption

def checkTarget (p : Program) (target : FuncId) : Except BuildError Unit :=
  match p.decl? target with
  | none => .error (.resumeTarget target.anonymous)
  | some d => if d.sig = parserSig then .ok () else .error (.resumeTarget d.name)

def check (r : Resumption) (p : Program) (target : FuncId) (b : Body) : Except BuildError Unit := do
  unless r.block.owner = b.id do
    throw (.resumeElsewhere (p.nameOf r.block.owner) b.name)
  b.checkOpen r.block
  checkTarget p target

/-- Finishes the failure path: parsing resumes at `target`, and the sentinel is returned. -/
def resumeAt (r : Resumption) (p : Program) (target : FuncId) : Build Body Unit := do
  Build.check (r.check p target)
  Body.store r.block r.current (.func target)
  Body.ret r.block (.status r.sentinel)

end Resumption

end SpanTracking
