import SpanTracking.Program
import SpanTracking.Span.Coloring

set_option autoImplicit false

namespace SpanTracking

/-- How the callback of an open span is reached when only its color is known. -/
inductive Dispatch where
  | direct (callee : FuncId)
  /-- The callee was stored in `slot` when the span was opened, and is one of `candidates`. -/
  | indirect (slot : Field) (candidates : List FuncId)
deriving DecidableEq

structure ColorSlots where
  members : List SpanId
  /-- The callbacks of the members in member order, without repetition. -/
  callbacks : List FuncId
  /-- The signature that all callbacks of the color share. -/
  sig : Signature
  start : Field
  /-- Where the callback of the open span is stored, if the color has several members. -/
  slot? : Option Field
  dispatch : Dispatch
deriving DecidableEq

namespace ColorSlots

def noStart (c : ColorSlots) : Operand := .null c.start.ty

def startName (color : Nat) : String := "_span_pos" ++ toString color

def slotName (color : Nat) : String := "_span_cb" ++ toString color

end ColorSlots

namespace Coloring

def callee (c : Coloring) (p : Program) (s : SpanId) : Except BuildError (SpanDecl × Decl) :=
  match c.span? s with
  | none => .error (.unknownSpan s)
  | some span =>
    match p.decl? span.callback with
    | none => .error (.undeclaredCallback span.name)
    | some d => .ok (span, d)

def sharedCallbacks (c : Coloring) (p : Program) (color : Nat) (first : String) (sig : Signature) :
    List SpanId → Except BuildError (List FuncId)
  | [] => .ok []
  | s :: rest => do
    let (span, d) ← c.callee p s
    if d.sig = sig then
      return span.callback :: (← sharedCallbacks c p color first sig rest)
    else throw (.mixedSignatures color first span.name)

def planColor (c : Coloring) (color : Nat) : List SpanId → Build Program ColorSlots
  | [] => throw (.emptyColor color)
  | s :: rest => do
    let (span, d) ← Build.check (c.callee · s)
    let others ← Build.check (c.sharedCallbacks · color span.name d.sig rest)
    let start ← Program.onLayout (Layout.declare (ColorSlots.startName color) .bytes)
    let callbacks := (span.callback :: others).eraseDups
    let slot? ←
      if rest.isEmpty then pure none
      else do
        let slot ← Program.onLayout (Layout.declare (ColorSlots.slotName color) d.sig.ptr)
        pure (some slot)
    let dispatch := match slot? with
      | some slot => .indirect slot callbacks
      | none => .direct span.callback
    return ⟨s :: rest, callbacks, d.sig, start, slot?, dispatch⟩

def planFrom (c : Coloring) (color : Nat) : List (List SpanId) → Build Program (List ColorSlots)
  | [] => return []
  | members :: rest => do
    let slots ← c.planColor color members
    return slots :: (← planFrom c (color + 1) rest)

/-- Declares the fields of every color. What a failing color had declared stays declared. -/
def plan (c : Coloring) : Build Program (List ColorSlots) := c.planFrom 0 c.colors

end Coloring

end SpanTracking
