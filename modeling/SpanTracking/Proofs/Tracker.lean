import Mathlib.Logic.Function.Basic
import SpanTracking.EventParser

set_option autoImplicit false

/-!
# Tracking spans without code

The machine behind an event parser. It knows where each color's span was opened and by whom, and the
last failure. There are no fields, blocks or functions: an event is one step of it.

Functions appear only by a label in `φ`, which may be their place in a program or their name.
-/

namespace SpanTracking

/-- What a parser was made from: the spans with their callbacks, and how they share colors. -/
structure Scheme (φ : Type) where
  spans : List (String × φ)
  colors : List (List SpanId)
  options : SpanOptions
  /-- Where parsing resumes after a failed span end. -/
  resume : φ
  /-- The name of a callback in messages. -/
  title : φ → String

structure Tracker (φ : Type) where
  /-- Where the open span of a color starts, if one is open. -/
  start : Nat → Option Nat := fun _ => none
  /-- The callback of the last span opened, for a color with several members. -/
  opener : Nat → Option φ := fun _ => none
  /-- The code and the position of the last failure. -/
  failure : Option (Int32 × Nat) := none
  current : Option φ := none

structure Tracked (φ σ : Type) where
  tracker : Tracker φ := {}
  host : σ
  calls : List (φ × Nat × Nat) := []

abbrev Replies (φ σ : Type) := φ → Nat → Nat → σ → Int32 × σ

abbrev Track (φ σ : Type) := EStateM Fault (Tracked φ σ)

namespace Tracker

variable {φ σ : Type}

def alter (change : Tracker φ → Tracker φ) : Track φ σ Unit := fun t =>
  .ok () { t with tracker := change t.tracker }

def setStart (color : Nat) (start : Option Nat) (t : Tracker φ) : Tracker φ :=
  { t with start := Function.update t.start color start }

def setOpener (color : Nat) (callback : φ) (t : Tracker φ) : Tracker φ :=
  { t with opener := Function.update t.opener color (some callback) }

def setFailure (code : Int32) (pos : Nat) (t : Tracker φ) : Tracker φ :=
  { t with failure := some (code, pos) }

def setCurrent (target : φ) (t : Tracker φ) : Tracker φ := { t with current := some target }

def ask (reply : Replies φ σ) (callback : φ) (start stop : Nat) : Track φ σ Int32 := fun t =>
  let (code, host) := reply callback start stop t.host
  .ok code { t with host, calls := t.calls ++ [(callback, start, stop)] }

end Tracker

namespace Scheme

open Tracker

variable {φ σ : Type}

def locate (S : Scheme φ) (s : SpanId) : Option ((String × φ) × Nat) :=
  match S.spans[s.index]?, S.colors.findIdx? fun members => s ∈ members with
  | some span, some color => some (span, color)
  | _, _ => none

def sole (S : Scheme φ) (color : Nat) : Option SpanId :=
  match S.colors[color]? with
  | some [s] => some s
  | _ => none

def callee (S : Scheme φ) (t : Tracker φ) (color : Nat) : Option φ :=
  match S.sole color with
  | some s => S.spans[s.index]?.map Prod.snd
  | none => t.opener color

def openSpan (S : Scheme φ) (callback : φ) (color pos : Nat) : Track φ σ Int32 := do
  alter (setStart color (some pos))
  if (S.sole color).isNone then alter (setOpener color callback)
  return 0

/-- Closing a span that is not open is a fault. -/
def closeSpan (S : Scheme φ) (reply : Replies φ σ) (span : String × φ) (color pos : Nat) :
    Track φ σ Int32 := do
  match (← get).tracker.start color with
  | none =>
    if S.options.debugChecks then throw (.trap ("end_" ++ span.1))
    else throw (.nullPosition (S.title span.2))
  | some start =>
    alter (setStart color none)
    let code ← ask reply span.2 start pos
    if code = 0 then return 0
    else
      alter (setFailure code pos)
      alter (setCurrent S.resume)
      return S.options.errorSentinel

/-- Hands the open span of a color over and keeps it open. -/
def flush (S : Scheme φ) (reply : Replies φ σ) (stop color : Nat) : Track φ σ (Option Int32) := do
  let t := (← get).tracker
  match t.start color, S.callee t color with
  | some start, some callback =>
    let code ← ask reply callback start stop
    if code = 0 then return none
    else
      alter (setFailure code stop)
      return some code
  | _, _ => return none

def flushAll (S : Scheme φ) (reply : Replies φ σ) (stop : Nat) : List Nat → Track φ σ Int32
  | [] => return 0
  | color :: rest => do
    match ← S.flush reply stop color with
    | none => S.flushAll reply stop rest
    | some code => return code

def rebaseAll (pos : Nat) : Track φ σ Int32 := do
  alter fun t => { t with start := fun color => (t.start color).map fun _ => pos }
  return 0

/-- One event; `none` if it is about no span of the scheme. -/
def step (S : Scheme φ) (reply : Replies φ σ) : Event → Option (Track φ σ Int32)
  | .openSpan s pos _ => (S.locate s).map fun (span, color) => S.openSpan span.2 color pos
  | .closeSpan s pos _ => (S.locate s).map fun (span, color) => S.closeSpan reply span color pos
  | .enter pos _ => some (rebaseAll pos)
  | .leave _ stop => some (S.flushAll reply stop (List.range S.colors.length))

end Scheme

end SpanTracking
