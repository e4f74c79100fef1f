import SpanTracking.Machine.Fault
import SpanTracking.Program

set_option autoImplicit false

/-!
# Execution

Runs functions of a program on the state record of a parser instance. Functions without a body are
answered by a host, which sees only positions and keeps a state of its own; its calls are logged.

Each run of a body enters at most `limit` blocks, counted afresh for every call. This does not bound
how deep calls are nested: a function that always calls itself never comes back. So runs are defined
for every `depth` of nesting, and one that would go deeper stops with a fault of its own. An error
keeps all effects before it.
-/

namespace SpanTracking

/-- The functions answered from outside. An answer depends on the start, the end and the host's own
state `σ`. -/
structure Host (σ : Type) where
  answer : FuncId → Option (Nat → Nat → σ → Int32 × σ)

structure HostCall where
  callee : FuncId
  start : Nat
  stop : Nat
deriving DecidableEq

/-- What a run can change: the state record, the host's state, and the log of host calls. -/
structure World (σ : Type) where
  memory : Memory
  host : σ
  calls : Array HostCall := #[]

abbrev Exec (σ : Type) := EStateM Fault (World σ)

abbrev Regs := List (Option Value)

namespace Operand

def eval (args : List Value) (regs : Regs) : Operand → Except Fault Value
  | param i =>
    match args[i]? with
    | some v => .ok v
    | none => .error (.typeConfusion .argument (.int i))
  | reg r =>
    match regs[r.index]? with
    | some (some v) => .ok v
    | _ => .error (.undefinedReg r)
  | int _ n => .ok (.int n)
  | null ty => .ok (.zero ty)
  | func f => .ok (.func (some f))
  | text t => .ok (.text t)

end Operand

def Comparison.holds : Comparison → Value → Value → Bool
  | eq, v, w => v.same w
  | ne, v, w => !v.same w

namespace Machine

variable {σ : Type}

def settle {α : Type} (outcome : Except Fault α) : Exec σ α := fun w =>
  match outcome with
  | .ok a => .ok a w
  | .error e => .error e w

def read (id : FieldId) : Exec σ Value := fun w =>
  match w.memory.get? id with
  | some v => .ok v w
  | none => .error (.unknownField id) w

def write (id : FieldId) (v : Value) : Exec σ Unit := fun w =>
  match w.memory.get? id with
  | some _ => .ok () { w with memory := w.memory.set id v }
  | none => .error (.unknownField id) w

def assign (regs : Regs) (r : Reg) (v : Value) : Except Fault Regs :=
  match regs[r.index]? with
  | some _ => .ok (regs.set r.index (some v))
  | none => .error (.undefinedReg r)

def asCallee : Value → Except Fault FuncId
  | .func (some f) => .ok f
  | .func none => .error .nullCallee
  | v => .error (.typeConfusion .callee v)

def asCondition : Value → Except Fault Bool
  | .int n => .ok (decide (n ≠ 0))
  | v => .error (.typeConfusion .condition v)

def asStatus : Value → Except Fault Int32
  | .int n =>
    if -2147483648 ≤ n ∧ n < 2147483648 then .ok (Int32.ofInt n)
    else .error (.typeConfusion .status (.int n))
  | v => .error (.typeConfusion .status v)

/-- Runs one instruction; `enter` runs a called function. -/
def exec (enter : FuncId → List Value → Exec σ Value) (args : List Value) (regs : Regs) :
    Instr → Exec σ Regs
  | .load dst field _ => do
    let v ← read field
    settle (assign regs dst v)
  | .store field value => do
    let v ← settle (value.eval args regs)
    write field v
    return regs
  | .icmp dst how lhs rhs => do
    let v ← settle (lhs.eval args regs)
    let w ← settle (rhs.eval args regs)
    settle (assign regs dst (.truth (how.holds v w)))
  | .call dst callee _ operands _ => do
    let v ← settle (callee.eval args regs)
    let f ← settle (asCallee v)
    let vs ← settle (operands.mapM (Operand.eval args regs))
    let result ← enter f vs
    settle (assign regs dst result)

def execAll (enter : FuncId → List Value → Exec σ Value) (args : List Value) (regs : Regs) :
    List Instr → Exec σ Regs
  | [] => return regs
  | i :: rest => do
    let regs ← exec enter args regs i
    execAll enter args regs rest

inductive Leave where
  | goto (target : BlockId)
  | done (v : Value)
deriving DecidableEq

def leave (b : Body) (args : List Value) (regs : Regs) : Option Terminator → Except Fault Leave
  | some (.br target) => .ok (.goto target)
  | some (.condBr cond onTrue onFalse _) => do
    let v ← cond.eval args regs
    let holds ← asCondition v
    return .goto (if holds then onTrue else onFalse)
  | some (.ret value) => do
    let v ← value.eval args regs
    return .done v
  | some .unreachable => .error (.trap b.name)
  | none => .error (.trap b.name)

/-- Runs a body from one of its blocks, with `steps` of the `limit` blocks left to enter. -/
def runFrom (enter : FuncId → List Value → Exec σ Value) (limit : Nat) (b : Body)
    (args : List Value) : (steps : Nat) → BlockId → Regs → Exec σ Value
  | 0, _, _ => throw (.stepLimit limit)
  | steps + 1, here, regs =>
    match b.block? here with
    | none => throw (.unknownBlock b.name)
    | some block => do
      let regs ← execAll enter args regs block.instrs
      match ← settle (leave b args regs block.term) with
      | .goto next => runFrom enter limit b args steps next regs
      | .done v => return v

def runBody (enter : FuncId → List Value → Exec σ Value) (limit : Nat) (b : Body)
    (args : List Value) : Exec σ Value :=
  runFrom enter limit b args limit b.entry (List.replicate b.regs.length none)

/-- The positions handed to the host: the second and third argument. -/
def positions : List Value → Option (Nat × Nat)
  | _ :: .ptr (some start) :: .ptr (some stop) :: _ => some (start, stop)
  | _ => none

def askHost (host : Host σ) (f : FuncId) (name : String) (args : List Value) : Exec σ Value :=
  fun w =>
    match host.answer f with
    | none => .error (.undefinedFunction name) w
    | some reply =>
      match positions args with
      | none => .error (.nullPosition name) w
      | some (start, stop) =>
        let (code, state) := reply start stop w.host
        .ok (.int code.toInt) { w with host := state, calls := w.calls.push ⟨f, start, stop⟩ }

def dispatch (p : Program) (host : Host σ) (run : Body → List Value → Exec σ Value) (f : FuncId)
    (args : List Value) : Exec σ Value :=
  match p.decl? f with
  | none => throw (.unknownFunction f)
  | some d =>
    match d.body with
    | some b => run b args
    | none => askHost host f d.name args

/-- Calls a function of the program, with calls nested at most `depth` deep. -/
def call (p : Program) (host : Host σ) (limit : Nat) :
    (depth : Nat) → FuncId → List Value → Exec σ Value
  | 0 => dispatch p host fun _ _ => throw .tooDeep
  | depth + 1 => dispatch p host (runBody (call p host limit depth) limit)

def invoke (p : Program) (host : Host σ) (limit depth : Nat) (f : FuncId) (pos stop : Nat) :
    Exec σ Int32 := do
  let v ← call p host limit depth f [.state, .ptr (some pos), .ptr (some stop)]
  settle (asStatus v)

def defaultLimit : Nat := 65536

/-- More levels of nesting than any run can hold in memory, so that runs are bounded only by their
steps. -/
def ampleDepth : Nat := 0x4000000000000000

end Machine

end SpanTracking
