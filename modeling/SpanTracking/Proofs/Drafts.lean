import SpanTracking.Proofs.Events

set_option autoImplicit false

/-!
# Bodies under construction and what their author did

A parser function is assembled from span operations and from instructions, blocks and branches of
its author, in any order. A draft is a body together with a transcript: the blocks that were handed
out, the instructions and branches that are the author's own, and what the emitted instructions are
there for. What is allowed to an author is a condition on the transcript of a finished draft.
-/

namespace SpanTracking

/-- What an emitted instruction is there for. -/
inductive Deed where
  | opens (s : SpanId)
  | closes (s : SpanId)
  | flushes
deriving DecidableEq

inductive Operation where
  | spanStart (here : BlockId) (s : SpanId)
  | spanEnd (here : BlockId) (s : SpanId)
  | prologue (here : BlockId)
  | epilogue (here : BlockId)
  | resumeAt (path : Resumption) (p : Program) (target : FuncId)
  | newBlock (name : String)
  | load (here : BlockId) (field : Field)
  | store (here : BlockId) (field : Field) (value : Operand)
  | icmp (here : BlockId) (how : Comparison) (lhs rhs : Operand)
  | call (here : BlockId) (callee : Operand) (sig : Signature) (args : List Operand)
      (callees : Option (List FuncId))
  | leave (here : BlockId) (term : Terminator)

/-- A body and how it came about. -/
structure Draft where
  body : Body
  /-- The entry, the blocks that were created, and the blocks in which span operations go on. -/
  points : List BlockId
  /-- The failure paths of span ends. -/
  paths : List Resumption := []
  /-- The author's own instructions. -/
  own : List (BlockId × Instr) := []
  /-- The author's own terminators. -/
  exits : List (BlockId × Terminator) := []
  /-- The functions at which parsing resumes, each in the program that declared it. -/
  resumed : List (Program × FuncId) := []
  deed : Point → Option Deed := fun _ => none

namespace Body

def instr? (b : Body) (here : Point) : Option Instr :=
  (b.code? here.block).bind fun code => code.1[here.done]?

def lastPoint (b : Body) (here : BlockId) : Point :=
  ⟨here, ((b.code? here).elim 0 fun code => code.1.length) - 1⟩

end Body

def Instr.writes? : Instr → Option FieldId
  | store field _ => some field
  | _ => none

namespace Draft

def handedOut (d : Draft) : List BlockId := d.points ++ d.paths.map Resumption.block

def start (b : Body) : Draft where
  body := b
  points := [b.entry]

def onBody {α : Type} (step : Build Body α) : Build Draft α := fun d =>
  match step d.body with
  | .ok a b => .ok a { d with body := b }
  | .error e b => .error e { d with body := b }

/-- The calls that `b` has and `before` has not are there for `deed`. -/
def deedOfCalls (before b : Body) (deed : Deed) (old : Point → Option Deed) : Point → Option Deed :=
  fun here =>
    match before.instr? here, b.instr? here with
    | none, some (.call ..) => some deed
    | _, _ => old here

def deedAt (last : Point) (deed : Deed) (old : Point → Option Deed) : Point → Option Deed :=
  fun here => if here.block = last.block ∧ here.done = last.done then some deed else old here

def noteOwn (here : BlockId) (i : Instr) : Build Draft Unit :=
  modify fun d => { d with own := (here, i) :: d.own }

def perform (e : Emitter) : Operation → Build Draft Unit
  | .spanStart here s => do
    let next ← onBody (e.spanStart here s)
    modify fun d => { d with
      points := d.points ++ [next]
      deed := deedAt (d.body.lastPoint here) (.opens s) d.deed }
  | .spanEnd here s => do
    let before ← get
    let (next, path) ← onBody (e.spanEnd here s)
    modify fun d => { d with
      points := d.points ++ [next]
      paths := d.paths ++ [path]
      deed := deedOfCalls before.body d.body (.closes s) d.deed }
  | .prologue here => do
    let next ← onBody (e.prologue here)
    modify fun d => { d with points := d.points ++ [next] }
  | .epilogue here => do
    let before ← get
    let next ← onBody (e.epilogue here)
    modify fun d => { d with
      points := d.points ++ [next]
      deed := deedOfCalls before.body d.body .flushes d.deed }
  | .resumeAt path p target => do
    onBody (path.resumeAt p target)
    modify fun d => { d with resumed := (p, target) :: d.resumed }
  | .newBlock name => do
    let block ← onBody (Body.newBlock name)
    modify fun d => { d with points := d.points ++ [block] }
  | .load here field => do
    let before ← get
    let _ ← onBody (Body.load here field)
    noteOwn here (.load ⟨before.body.regs.length⟩ field.id field.ty)
  | .store here field value => do
    onBody (Body.store here field value)
    noteOwn here (.store field.id value)
  | .icmp here how lhs rhs => do
    let before ← get
    let _ ← onBody (Body.icmp here how lhs rhs)
    noteOwn here (.icmp ⟨before.body.regs.length⟩ how lhs rhs)
  | .call here callee sig args callees => do
    let before ← get
    let _ ← onBody (Body.call here callee sig args callees)
    noteOwn here (.call ⟨before.body.regs.length⟩ callee sig args callees)
  | .leave here term => do
    onBody (Body.terminate here term)
    modify fun d => { d with exits := (here, term) :: d.exits }

def performAll (e : Emitter) : List Operation → Build Draft Unit
  | [] => return ()
  | op :: rest => do
    perform e op
    performAll e rest

/-- The operations make the draft `d` from an empty body. Failure paths belong to the emitter. -/
structure Made (e : Emitter) (d : Draft) : Prop where
  steps : ∃ f name sig params ops, performAll e ops (start (.start f name sig params)) = .ok () d ∧
    ∀ path p target, Operation.resumeAt path p target ∈ ops →
      path.current = e.current ∧ path.sentinel = e.options.errorSentinel

end Draft

end SpanTracking
