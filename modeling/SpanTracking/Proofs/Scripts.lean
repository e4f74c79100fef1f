import SpanTracking.Proofs.Authors

set_option autoImplicit false

namespace SpanTracking

inductive BlockName where
  /-- The entry, or what the operation that returned a control point as number `n` returned. -/
  | point (n : Nat)
  /-- The failure path of span end number `n`. -/
  | path (n : Nat)
deriving DecidableEq

inductive Move where
  | spanStart (here : BlockName) (s : SpanId)
  | spanEnd (here : BlockName) (s : SpanId)
  | prologue (here : BlockName)
  | epilogue (here : BlockName)
  | resumeAt (path : Nat) (target : FuncId)
  | newBlock (name : String)
  | br (here target : BlockName)
  | condBr (here : BlockName) (bits : Nat) (value : Int) (onTrue onFalse : BlockName)
      (hint : BranchHint)
  | ret (here : BlockName) (value : Operand)
deriving DecidableEq

def Operand.isConstant : Operand → Bool
  | param _ => false
  | reg _ => false
  | _ => true

def Draft.named? (d : Draft) : BlockName → Option BlockId
  | .point n => d.points[n]?
  | .path n => d.paths[n]?.map Resumption.block

def Move.resolve? (d : Draft) (p : Program) : Move → Option Operation
  | spanStart here s => (d.named? here).map fun block => .spanStart block s
  | spanEnd here s => (d.named? here).map fun block => .spanEnd block s
  | prologue here => (d.named? here).map .prologue
  | epilogue here => (d.named? here).map .epilogue
  | resumeAt path target => d.paths[path]?.map fun path => .resumeAt path p target
  | newBlock name => some (.newBlock name)
  | br here target => do
    let block ← d.named? here
    let target ← d.named? target
    return .leave block (.br target)
  | condBr here bits value onTrue onFalse hint => do
    let block ← d.named? here
    let onTrue ← d.named? onTrue
    let onFalse ← d.named? onFalse
    return .leave block (.condBr (.int bits value) onTrue onFalse hint)
  | ret here value =>
    if value.isConstant then (d.named? here).map fun block => .leave block (.ret value) else none

/-- A draft, and where its span ends begin. -/
structure Assembly where
  draft : Draft
  ends : List (Point × SpanId) := []

namespace Assembly

def nextPoint (a : Assembly) (here : BlockId) : Point :=
  ⟨here, (a.draft.body.code? here).elim 0 fun code => code.1.length⟩

def perform? (e : Emitter) (op : Operation) (a : Assembly) : Option Assembly :=
  match Draft.perform e op a.draft with
  | .ok _ draft =>
    match op with
    | .spanEnd here s => some ⟨draft, a.ends ++ [(a.nextPoint here, s)]⟩
    | _ => some ⟨draft, a.ends⟩
  | .error .. => none

def follow? (e : Emitter) (p : Program) : List Move → Assembly → Option Assembly
  | [], a => some a
  | move :: rest, a => do
    let op ← move.resolve? a.draft p
    let a ← a.perform? e op
    follow? e p rest a

def find? (assemblies : List Assembly) (f : FuncId) : Option Assembly :=
  assemblies.find? fun a => a.draft.body.id = f

end Assembly

structure Page where
  id : FuncId
  name : String
  moves : List Move

namespace Page

def write? (e : Emitter) (p : Program) (page : Page) : Option Assembly :=
  Assembly.follow? e p page.moves ⟨.start (.start page.id page.name parserSig parserParams), []⟩

def defineAll? (e : Emitter) : List Page → Program → Option (Program × List Assembly)
  | [], p => some (p, [])
  | page :: rest, p => do
    let a ← page.write? e p
    match Program.define a.draft.body p with
    | .ok _ p' =>
      let (q, assemblies) ← defineAll? e rest p'
      return (q, a :: assemblies)
    | .error .. => none

end Page

/-- The options without those that are there for debugging and for other tools. -/
def SpanOptions.plain (options : SpanOptions) : SpanOptions :=
  { options with calleeHints := false, debugChecks := false }

end SpanTracking
