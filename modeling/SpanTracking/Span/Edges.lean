import SpanTracking.Span.Emitter
import SpanTracking.Span.Resumption

set_option autoImplicit false

namespace SpanTracking.Emitter

def spanStart (e : Emitter) (here : BlockId) (s : SpanId) : Build Body BlockId := do
  Build.check (checkTarget here)
  let (span, _, slots) ← Build.settle (e.locate s)
  Body.store here slots.start posArg
  match slots.slot? with
  | some slot => Body.store here slot (.func span.callback)
  | none => pure ()
  return here

/-- Traps unless a span is open, and goes on in a new block. -/
def assertOpen (here : BlockId) (start : Operand) (color : Nat) (slots : ColorSlots) :
    Build Body BlockId := do
  let closed ← Body.icmp here .eq start slots.noStart
  let trap ← Body.newBlock (blockName "span_not_open" color)
  let opened ← Body.newBlock (blockName "span_open" color)
  Body.condBr here closed trap opened .likelyFalse
  Body.unreachable trap
  return opened

/-- Closes a span at the current position. The start field is cleared before the callback is called.
Returns where parsing goes on, and the failure path. -/
def spanEnd (e : Emitter) (here : BlockId) (s : SpanId) : Build Body (BlockId × Resumption) := do
  Build.check (checkTarget here)
  let (span, color, slots) ← Build.settle (e.locate s)
  let start ← Body.load here slots.start
  let here ← if e.options.debugChecks then assertOpen here start color slots else pure here
  Body.store here slots.start slots.noStart
  let code ← Body.call here (.func span.callback) slots.sig [stateArg, start, posArg] none
  let ok ← Body.icmp here .eq code (.status 0)
  let next ← Body.newBlock (blockName "span_end" color)
  let failed ← Body.newBlock (blockName "span_end_error" color)
  Body.condBr here ok next failed .likelyTrue
  e.record.emit failed posArg code
  return (next, ⟨failed, e.current, e.options.errorSentinel⟩)

end SpanTracking.Emitter
