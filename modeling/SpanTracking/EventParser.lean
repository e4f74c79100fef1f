import SpanTracking.Machine.Exec
import SpanTracking.Span.Buffers
import SpanTracking.Span.Edges

set_option autoImplicit false

namespace SpanTracking

inductive Event where
  | openSpan (span : SpanId) (pos stop : Nat)
  | closeSpan (span : SpanId) (pos stop : Nat)
  /-- A call on a buffer begins. -/
  | enter (pos stop : Nat)
  /-- A call on a buffer ends. -/
  | leave (pos stop : Nat)
deriving DecidableEq

structure EventParser where
  program : Program
  emitter : Emitter
  /-- Where parsing resumes after a failed span end. -/
  resume : FuncId
  /-- For each span, the functions that open and close it. -/
  edges : List (FuncId × FuncId)
  pre : FuncId
  post : FuncId
deriving DecidableEq

namespace EventParser

def spanName (color member : Nat) : String :=
  "span_" ++ toString color ++ "_" ++ toString member

def declareMembers (color member : Nat) : List String → Build Program (List SpanDecl)
  | [] => return []
  | name :: rest => do
    let callback ← Program.declareCallback name .external
    return ⟨spanName color member, callback⟩ :: (← declareMembers color (member + 1) rest)

def declareColors (color : Nat) : List (List String) → Build Program (List (List SpanDecl))
  | [] => return []
  | names :: rest => do
    let members ← declareMembers color 0 names
    return members :: (← declareColors (color + 1) rest)

/-- Numbers spans through all colors, counting from `next`. -/
def number {α : Type} (next : Nat) : List (List α) → List (List SpanId)
  | [] => []
  | members :: rest =>
    (List.range' next members.length).map SpanId.mk :: number (next + members.length) rest

/-- Declares a parser function and defines it by code that starts in its entry block. -/
def defineParser (name : String) (code : Program → BlockId → Build Body Unit) :
    Build Program FuncId := do
  let f ← Program.declareParser name
  let p ← get
  let body ← Build.check fun p => p.parserBody f
  match code p body.entry body with
  | .error e _ => throw e
  | .ok () body =>
    Program.define body
    return f

def idle (here : BlockId) : Build Body Unit := Body.ret here (.status 0)

def opening (e : Emitter) (s : SpanId) (here : BlockId) : Build Body Unit := do
  let next ← e.spanStart here s
  Body.ret next (.status 0)

def closing (e : Emitter) (resume : FuncId) (s : SpanId) (p : Program) (here : BlockId) :
    Build Body Unit := do
  let (next, failed) ← e.spanEnd here s
  Body.ret next (.status 0)
  failed.resumeAt p resume

def beginning (e : Emitter) (here : BlockId) : Build Body Unit := do
  let next ← e.prologue here
  Body.ret next (.status 0)

def ending (e : Emitter) (here : BlockId) : Build Body Unit := do
  let next ← e.epilogue here
  Body.ret next (.status 0)

def defineEdges (e : Emitter) (resume : FuncId) (s : SpanId) (span : SpanDecl) :
    Build Program (FuncId × FuncId) := do
  let opens ← defineParser ("start_" ++ span.name) fun _ => opening e s
  let closes ← defineParser ("end_" ++ span.name) (closing e resume s)
  return (opens, closes)

def defineAllEdges (e : Emitter) (resume : FuncId) (index : Nat) :
    List SpanDecl → Build Program (List (FuncId × FuncId))
  | [] => return []
  | span :: rest => do
    let edge ← defineEdges e resume ⟨index⟩ span
    return edge :: (← defineAllEdges e resume (index + 1) rest)

def generate (options : SpanOptions) (coloring : Coloring) : Build Program EventParser := do
  let e ← Emitter.prepare options coloring
  let resume ← defineParser "resume" fun _ => idle
  let edges ← defineAllEdges e resume 0 coloring.spans
  let pre ← defineParser "pre" fun _ => beginning e
  let post ← defineParser "post" fun _ => ending e
  return ⟨← get, e, resume, edges, pre, post⟩

def assemble (options : SpanOptions) (colors : List (List String)) : Build Program EventParser := do
  let _ ← Program.declareShared
  let spans ← declareColors 0 colors
  let coloring ← Build.settle (Coloring.ofColors spans.flatten (number 0 spans))
  generate options coloring

/-- The parser whose colors have the given callbacks. -/
def ofColors (options : SpanOptions) (colors : List (List String)) :
    Except BuildError EventParser :=
  match assemble options colors {} with
  | .ok parser _ => .ok parser
  | .error e _ => .error e

/-- The call that an event stands for; `none` if it is about no span of the parser. -/
def call? (parser : EventParser) : Event → Option (FuncId × Nat × Nat)
  | .openSpan s pos stop => parser.edges[s.index]?.map fun edge => (edge.1, pos, stop)
  | .closeSpan s pos stop => parser.edges[s.index]?.map fun edge => (edge.2, pos, stop)
  | .enter pos stop => some (parser.pre, pos, stop)
  | .leave pos stop => some (parser.post, pos, stop)

def step {σ : Type} (parser : EventParser) (host : Host σ) (limit depth : Nat) (event : Event) :
    Option (Exec σ Int32) :=
  (parser.call? event).map fun (f, pos, stop) =>
    Machine.invoke parser.program host limit depth f pos stop

end EventParser

end SpanTracking
