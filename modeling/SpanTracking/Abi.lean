import SpanTracking.Program

set_option autoImplicit false

/-!
# Conventions between parser functions

Parser functions take the state record, the current position and the end of the buffer, and return a
status in which zero is success. Span callbacks take the state record, the start and the end of a
span and return a status. Four fields of the state record are shared by all parser functions.
-/

namespace SpanTracking

structure SpanOptions where
  /-- Returned by a parser function whose span end failed; differs from the success status. -/
  errorSentinel : Int32 := -1
  /-- The text recorded when a span callback fails; holds no NUL. -/
  errorReason : String := "Span callback error"
  /-- List the possible callees at each indirect call. -/
  calleeHints : Bool := true
  /-- Trap at a span end that finds no open span. -/
  debugChecks : Bool := false
deriving DecidableEq

def callbackSig (conv : CallConv) : Signature where
  ret := .i32
  params := [.ptr .state, .bytes, .bytes]
  conv

def parserSig : Signature := callbackSig .internal

def parserParams : List String := ["state", "pos", "endpos"]

def stateArg : Operand := .param 0

def posArg : Operand := .param 1

def endArg : Operand := .param 2

/-- The fields shared by all parser functions: where to resume, and the last error with its reason
and position. -/
structure SharedFields where
  current : Field
  error : Field
  reason : Field
  errorPos : Field
deriving DecidableEq

namespace SharedFields

def currentName : String := "_current"

def errorName : String := "error"

def reasonName : String := "reason"

def errorPosName : String := "error_pos"

/-- Declares all four fields, also after one of them has failed, and reports the first failure. -/
def declare : Build Layout SharedFields := do
  let current ← Build.attempt (Layout.declare currentName parserSig.ptr)
  let error ← Build.attempt (Layout.declare errorName .i32)
  let reason ← Build.attempt (Layout.declare reasonName .bytes)
  let errorPos ← Build.attempt (Layout.declare errorPosName .bytes)
  return {
    current := ← Build.settle current
    error := ← Build.settle error
    reason := ← Build.settle reason
    errorPos := ← Build.settle errorPos }

def find (l : Layout) (name : String) (ty : Ty) : Except BuildError Field :=
  match l.lookup name with
  | none => .error (.missingField name)
  | some f => if f.ty = ty then .ok f else .error (.fieldType name ty f.ty)

def resolve (l : Layout) : Except BuildError SharedFields := do
  return {
    current := ← find l currentName parserSig.ptr
    error := ← find l errorName .i32
    reason := ← find l reasonName .bytes
    errorPos := ← find l errorPosName .bytes }

end SharedFields

namespace Program

def declareShared : Build Program SharedFields := onLayout SharedFields.declare

def declareParser (name : String) : Build Program FuncId := declare name parserSig

def declareCallback (name : String) (conv : CallConv) : Build Program FuncId :=
  declare name (callbackSig conv)

def parserBody (p : Program) (f : FuncId) : Except BuildError Body :=
  match p.decl? f with
  | none => .error (.notParserFunction f.anonymous)
  | some d =>
    if d.sig = parserSig then .ok (.start f d.name d.sig parserParams)
    else .error (.notParserFunction d.name)

end Program

end SpanTracking
