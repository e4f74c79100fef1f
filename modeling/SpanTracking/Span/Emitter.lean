import SpanTracking.Span.ErrorRecord
import SpanTracking.Span.Storage

set_option autoImplicit false

namespace SpanTracking

structure Emitter where
  coloring : Coloring
  colors : List ColorSlots
  record : ErrorRecord
  current : Field
  options : SpanOptions
deriving DecidableEq

namespace Emitter

/-- A span callback returns what parser functions return, and takes what they take. -/
def checkCallback (p : Program) (span : SpanDecl) : Except BuildError Unit :=
  match p.decl? span.callback with
  | none => .error (.undeclaredCallback span.name)
  | some d =>
    if d.sig.ret = parserSig.ret then
      if d.sig.params = parserSig.params then .ok () else .error (.callbackParams d.name)
    else .error (.returnType d.name parserSig.ret d.sig.ret)

def prepare (options : SpanOptions) (c : Coloring) : Build Program Emitter := do
  if options.errorSentinel = 0 then throw .zeroSentinel
  Build.check fun p => c.spans.forM (checkCallback p)
  let shared ← Build.check fun p => SharedFields.resolve p.layout
  let colors ← c.plan
  let record ← ErrorRecord.prepare shared options.errorReason
  return ⟨c, colors, record, shared.current, options⟩

def checkTarget (here : BlockId) (b : Body) : Except BuildError Unit :=
  if b.sig = parserSig then b.checkOpen here else .error (.notParserFunction b.name)

def locate (e : Emitter) (s : SpanId) : Except BuildError (SpanDecl × Nat × ColorSlots) :=
  match e.coloring.span? s, e.coloring.colorOf s with
  | some span, some color =>
    match e.colors[color]? with
    | some slots => .ok (span, color, slots)
    | none => .error (.unknownSpan s)
  | _, _ => .error (.unknownSpan s)

def blockName (role : String) (color : Nat) : String := role ++ toString color

end Emitter

end SpanTracking
