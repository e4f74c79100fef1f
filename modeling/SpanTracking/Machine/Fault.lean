import SpanTracking.Machine.Value

set_option autoImplicit false

namespace SpanTracking

inductive Expected where
  | status
  | callee
  | condition
  | argument
deriving DecidableEq

def Expected.text : Expected → String
  | status => "i32 status"
  | callee => "function pointer"
  | condition => "i1 condition"
  | argument => "argument"

inductive Fault where
  | unknownFunction (f : FuncId)
  | undefinedFunction (name : String)
  | nullCallee
  | nullPosition (callback : String)
  | trap (function : String)
  | stepLimit (limit : Nat)
  | typeConfusion (expected : Expected) (found : Value)
  | undefinedReg (r : Reg)
  | unknownField (id : FieldId)
  | unknownBlock (function : String)
  /-- Calls are nested deeper than allowed. -/
  | tooDeep
deriving DecidableEq

def Fault.message : Fault → String
  | unknownFunction f => "unknown function reference " ++ Value.showFunc f
  | undefinedFunction name => s!"function `{name}` has neither a body nor a host callback"
  | nullCallee => "indirect call through a null function pointer"
  | nullPosition callback => s!"callback `{callback}` received a null position"
  | trap function => s!"reached unreachable code in `{function}`"
  | stepLimit limit => s!"step limit of {limit} blocks exceeded"
  | typeConfusion expected found => s!"expected {expected.text}, found {found.shown}"
  | undefinedReg r => s!"use of undefined register %{r.index}"
  | unknownField id => s!"access to unknown state field #{id.index}"
  | unknownBlock function => s!"branch to unknown block in `{function}`"
  | tooDeep => "calls are nested too deep"

end SpanTracking
