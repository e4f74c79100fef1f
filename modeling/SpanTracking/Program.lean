import SpanTracking.Body.Basic

set_option autoImplicit false

namespace SpanTracking

structure Decl where
  name : String
  sig : Signature
  body : Option Body := none
deriving DecidableEq

structure Program where
  layout : Layout := {}
  decls : List Decl := []
  literals : List String := []
deriving DecidableEq

namespace Program

def decl? (p : Program) (f : FuncId) : Option Decl := p.decls[f.index]?

def body? (p : Program) (f : FuncId) : Option Body := (p.decl? f).bind Decl.body

def literal? (p : Program) (t : LiteralId) : Option String := p.literals[t.index]?

def lookup (p : Program) (name : String) : Option FuncId :=
  (p.decls.findIdx? fun d => d.name = name).map FuncId.mk

def bodies (p : Program) : List Body := p.decls.filterMap Decl.body

def nameOf (p : Program) (f : FuncId) : String :=
  match p.decl? f with
  | some d => d.name
  | none => f.anonymous

def onLayout {α : Type} (step : Build Layout α) : Build Program α := fun p =>
  match step p.layout with
  | .ok a l => .ok a { p with layout := l }
  | .error e l => .error e { p with layout := l }

/-- Declares a function. One declared before with the same signature is returned as it is. -/
def declare (name : String) (sig : Signature) : Build Program FuncId := fun p =>
  match p.decls.findIdx? fun d => d.name = name with
  | some i =>
    if (p.decls[i]?.map Decl.sig) = some sig then .ok ⟨i⟩ p
    else .error (.functionRedeclared name) p
  | none => .ok ⟨p.decls.length⟩ { p with decls := p.decls ++ [{ name, sig }] }

/-- Interns a text. Its end is marked by a NUL, so it cannot hold one. -/
def intern (text : String) : Build Program LiteralId := fun p =>
  if text.toList.contains '\x00' then .error .interiorNul p
  else match p.literals.findIdx? fun t => t = text with
    | some i => .ok ⟨i⟩ p
    | none => .ok ⟨p.literals.length⟩ { p with literals := p.literals ++ [text] }

def define (b : Body) : Build Program Unit := fun p =>
  match b.verify with
  | .error e => .error e p
  | .ok () =>
    match p.decl? b.id with
    | none => .error (.notParserFunction b.name) p
    | some d =>
      if d.sig = b.sig ∧ d.name = b.name then
        if d.body.isSome then .error (.duplicateBody b.name) p
        else .ok () { p with decls := p.decls.set b.id.index { d with body := some b } }
      else .error (.functionRedeclared b.name) p

end Program

end SpanTracking
