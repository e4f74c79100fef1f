import SpanTracking.Body.Basic

set_option autoImplicit false

/-!
# Extending a body

The primitive steps append a block, an instruction or a terminator. An instruction with a result
takes its register first, so that a refused one has still used up a register number.
-/

namespace SpanTracking.Body

/-- A taken name is made different by the number of the block. -/
def freshName (b : Body) (name : String) : String :=
  if b.blocks.any fun block => block.name = name then name ++ "." ++ toString b.blocks.length
  else name

def newBlock (name : String) : Build Body BlockId := fun b =>
  .ok ⟨b.id, b.blocks.length⟩ { b with blocks := b.blocks ++ [{ name := b.freshName name }] }

def newReg (ty : Ty) : Build Body Reg := fun b =>
  .ok ⟨b.regs.length⟩ { b with regs := b.regs ++ [ty] }

/-- Changes a block that is part of the body and not finished. -/
def edit (here : BlockId) (change : Block → Block) : Build Body Unit := fun b =>
  if here.owner = b.id then
    match b.blocks[here.index]? with
    | none => .error (.misuse (.outOfRange b.blocks.length here.index)) b
    | some block =>
      if block.term.isSome then .error (.misuse (.closed block.name)) b
      else .ok () { b with blocks := b.blocks.set here.index (change block) }
  else .error (.misuse .otherBody) b

def push (here : BlockId) (instr : Instr) : Build Body Unit :=
  edit here fun block => { block with instrs := block.instrs ++ [instr] }

def terminate (here : BlockId) (term : Terminator) : Build Body Unit :=
  edit here fun block => { block with term := some term }

def pushNew (ty : Ty) (here : BlockId) (make : Reg → Instr) : Build Body Operand := do
  let dst ← newReg ty
  push here (make dst)
  return .reg dst

def load (here : BlockId) (field : Field) : Build Body Operand :=
  pushNew field.ty here (.load · field.id field.ty)

def store (here : BlockId) (field : Field) (value : Operand) : Build Body Unit :=
  push here (.store field.id value)

def icmp (here : BlockId) (how : Comparison) (lhs rhs : Operand) : Build Body Operand :=
  pushNew .i1 here (.icmp · how lhs rhs)

def call (here : BlockId) (callee : Operand) (sig : Signature) (args : List Operand)
    (callees : Option (List FuncId)) : Build Body Operand :=
  pushNew sig.ret here (.call · callee sig args callees)

def br (here target : BlockId) : Build Body Unit := terminate here (.br target)

def condBr (here : BlockId) (cond : Operand) (onTrue onFalse : BlockId) (hint : BranchHint) :
    Build Body Unit :=
  terminate here (.condBr cond onTrue onFalse hint)

def ret (here : BlockId) (value : Operand) : Build Body Unit := terminate here (.ret value)

def unreachable (here : BlockId) : Build Body Unit := terminate here .unreachable

end SpanTracking.Body
