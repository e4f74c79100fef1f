import SpanTracking.Layout

set_option autoImplicit false

namespace SpanTracking

inductive Operand where
  | param (index : Nat)
  | reg (r : Reg)
  | int (bits : Nat) (value : Int)
  /-- The zero value of a type; for a pointer, the null pointer. -/
  | null (ty : Ty)
  | func (f : FuncId)
  | text (t : LiteralId)
deriving DecidableEq

def Operand.status (code : Int32) : Operand := .int 32 code.toInt

inductive Comparison where
  | eq
  | ne
deriving DecidableEq

inductive BranchHint where
  | none
  | likelyTrue
  | likelyFalse
deriving DecidableEq

inductive Instr where
  | load (dst : Reg) (field : FieldId) (ty : Ty)
  | store (field : FieldId) (value : Operand)
  | icmp (dst : Reg) (how : Comparison) (lhs rhs : Operand)
  /-- A call; `callees`, if given, lists all functions that the callee may be. -/
  | call (dst : Reg) (callee : Operand) (sig : Signature) (args : List Operand)
      (callees : Option (List FuncId))
deriving DecidableEq

inductive Terminator where
  | br (target : BlockId)
  | condBr (cond : Operand) (onTrue onFalse : BlockId) (hint : BranchHint)
  | ret (value : Operand)
  | unreachable
deriving DecidableEq

def Terminator.targets : Terminator → List BlockId
  | br target => [target]
  | condBr _ onTrue onFalse _ => [onTrue, onFalse]
  | ret _ => []
  | unreachable => []

structure Block where
  name : String
  instrs : List Instr := []
  term : Option Terminator := none
deriving DecidableEq

/-- The body of function `id`; `regs` holds the type of each register given out so far. -/
structure Body where
  id : FuncId
  name : String
  sig : Signature
  params : List String
  blocks : List Block
  regs : List Ty
deriving DecidableEq

namespace Body

/-- A body with one empty block. A parameter without a name of its own is named by its number. -/
def start (id : FuncId) (name : String) (sig : Signature) (params : List String) : Body where
  id
  name
  sig
  params := (List.range sig.params.length).map fun i => params[i]?.getD ("arg" ++ toString i)
  blocks := [{ name := "entry" }]
  regs := []

def entry (b : Body) : BlockId := ⟨b.id, 0⟩

def block? (b : Body) (here : BlockId) : Option Block :=
  if here.owner = b.id then b.blocks[here.index]? else none

def isTerminated (b : Body) (here : BlockId) : Bool :=
  match b.block? here with
  | some block => block.term.isSome
  | none => false

def checkOpen (b : Body) (here : BlockId) : Except BuildError Unit :=
  match b.block? here with
  | none => .error (.foreignBlock b.name here.index)
  | some block =>
    if block.term.isSome then .error (.terminatedBlock b.name block.name) else .ok ()

def regType? (b : Body) (r : Reg) : Option Ty := b.regs[r.index]?

def verifyBlock (b : Body) (block : Block) : Except BuildError Unit :=
  match block.term with
  | none => .error (.unterminatedBlock b.name block.name)
  | some term =>
    if term.targets.all fun t => (b.block? t).isSome then .ok ()
    else .error (.unknownBlock b.name block.name)

def verify (b : Body) : Except BuildError Unit := b.blocks.forM b.verifyBlock

end Body

end SpanTracking
