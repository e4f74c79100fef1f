import SpanTracking.Span.Emitter

set_option autoImplicit false

/-!
# Spans across buffers

Positions belong to the buffer of the current call. The prologue moves open spans to the start of
the new buffer, and the epilogue hands over what lies in the old one without closing the span: the
callback of a field cut into several buffers is called once for each of them.
-/

namespace SpanTracking

def Dispatch.emit (d : Dispatch) (here : BlockId) (sig : Signature) (args : List Operand)
    (calleeHints : Bool) : Build Body Operand :=
  match d with
  | direct callee => Body.call here (.func callee) sig args none
  | indirect slot candidates => do
    let callee ← Body.load here slot
    Body.call here callee sig args (if calleeHints then some candidates else none)

namespace Emitter

def rebase (here : BlockId) (color : Nat) (slots : ColorSlots) : Build Body BlockId := do
  let start ← Body.load here slots.start
  let isOpen ← Body.icmp here .ne start slots.noStart
  let restart ← Body.newBlock (blockName "span_restart" color)
  let next ← Body.newBlock (blockName "span_rebased" color)
  Body.condBr here isOpen restart next .none
  Body.store restart slots.start posArg
  Body.br restart next
  return next

def rebaseFrom (here : BlockId) (color : Nat) : List ColorSlots → Build Body BlockId
  | [] => return here
  | slots :: rest => do
    let next ← rebase here color slots
    rebaseFrom next (color + 1) rest

/-- The code at the top of a call: spans left open by the previous call start anew in this buffer.
-/
def prologue (e : Emitter) (here : BlockId) : Build Body BlockId := do
  Build.check (checkTarget here)
  rebaseFrom here 0 e.colors

def flush (e : Emitter) (here : BlockId) (color : Nat) (slots : ColorSlots) :
    Build Body BlockId := do
  let start ← Body.load here slots.start
  let isOpen ← Body.icmp here .ne start slots.noStart
  let present ← Body.newBlock (blockName "span_present" color)
  let next ← Body.newBlock (blockName "span_flushed" color)
  Body.condBr here isOpen present next .none
  let code ← slots.dispatch.emit present slots.sig [stateArg, start, endArg] e.options.calleeHints
  let ok ← Body.icmp present .eq code (.status 0)
  let failed ← Body.newBlock (blockName "span_flush_error" color)
  Body.condBr present ok next failed .likelyTrue
  e.record.emit failed endArg code
  Body.ret failed code
  return next

def flushFrom (e : Emitter) (here : BlockId) (color : Nat) : List ColorSlots → Build Body BlockId
  | [] => return here
  | slots :: rest => do
    let next ← e.flush here color slots
    flushFrom e next (color + 1) rest

/-- The code at the end of a call: every open span is handed over and stays open. -/
def epilogue (e : Emitter) (here : BlockId) : Build Body BlockId := do
  Build.check (checkTarget here)
  e.flushFrom here 0 e.colors

end Emitter

end SpanTracking
