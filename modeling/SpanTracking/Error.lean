import SpanTracking.Handle
import SpanTracking.Ty

set_option autoImplicit false

namespace SpanTracking

inductive BlockMisuse where
  | otherBody
  | outOfRange (blocks index : Nat)
  | closed (block : String)
deriving DecidableEq

def BlockMisuse.message : BlockMisuse → String
  | otherBody => "block of another function"
  | outOfRange blocks index =>
    s!"index out of bounds: the len is {blocks} but the index is {index}"
  | closed block => s!"block `{block}` is already terminated"

inductive BuildError where
  | fieldTypeConflict (name : String) (existing requested : Ty)
  | missingField (name : String)
  | fieldType (name : String) (expected found : Ty)
  | functionRedeclared (name : String)
  | duplicateBody (name : String)
  | notParserFunction (name : String)
  | interiorNul
  | unterminatedBlock (function block : String)
  | unknownBlock (function block : String)
  | foreignBlock (function : String) (index : Nat)
  | terminatedBlock (function block : String)
  | emptyColor (color : Nat)
  | duplicateSpan (span : String)
  | uncoloredSpan (span : String)
  | unknownSpan (span : SpanId)
  | undeclaredCallback (span : String)
  | returnType (callback : String) (expected found : Ty)
  | callbackParams (callback : String)
  | mixedSignatures (color : Nat) (first other : String)
  | resumeTarget (function : String)
  | resumeElsewhere (expected found : String)
  | zeroSentinel
  /-- An instruction was appended to a block that takes none. -/
  | misuse (cause : BlockMisuse)
deriving DecidableEq

def BuildError.message : BuildError → String
  | fieldTypeConflict name existing requested =>
    s!"state field `{name}` is already declared as {existing.text}, not {requested.text}"
  | missingField name => s!"state field `{name}` is missing"
  | fieldType name expected found =>
    s!"state field `{name}` has type {found.text}, expected {expected.text}"
  | functionRedeclared name =>
    s!"function `{name}` is already declared with a different signature"
  | duplicateBody name => s!"function `{name}` already has a body"
  | notParserFunction name => s!"function `{name}` is not a parser function"
  | interiorNul => "string literal contains an interior NUL byte"
  | unterminatedBlock function block => s!"block `{block}` in `{function}` has no terminator"
  | unknownBlock function block =>
    s!"block `{block}` in `{function}` branches to an unknown block"
  | foreignBlock function index => s!"block #{index} does not belong to `{function}`"
  | terminatedBlock function block => s!"block `{block}` in `{function}` is already terminated"
  | emptyColor color => s!"color {color} has no spans"
  | duplicateSpan span => s!"span `{span}` is assigned to more than one color"
  | uncoloredSpan span => s!"span `{span}` is not assigned to any color"
  | unknownSpan span => s!"unknown span id {span.index}"
  | undeclaredCallback span => s!"span `{span}` refers to an undeclared callback"
  | returnType callback expected found =>
    s!"callback `{callback}` returns {found.text}, but parser functions return {expected.text}"
  | callbackParams callback => s!"callback `{callback}` must take (state, start, end) arguments"
  | mixedSignatures color first other =>
    s!"color {color} mixes callback signatures (`{first}` and `{other}`)"
  | resumeTarget function => s!"resumption target `{function}` is not a parser function"
  | resumeElsewhere expected found => s!"failure path of `{expected}` resumed in `{found}`"
  | zeroSentinel => "the error sentinel must differ from the success status 0"
  | misuse cause => cause.message

abbrev Build (σ : Type) := EStateM BuildError σ

namespace Build

variable {σ α : Type}

def check (test : σ → Except BuildError α) : Build σ α := fun s =>
  match test s with
  | .ok a => .ok a s
  | .error e => .error e s

/-- Runs a step to its end, and keeps what it changed even if it failed. -/
def attempt (step : Build σ α) : Build σ (Except BuildError α) := fun s =>
  match step s with
  | .ok a s => .ok (.ok a) s
  | .error e s => .ok (.error e) s

def settle (outcome : Except BuildError α) : Build σ α := check fun _ => outcome

end Build

end SpanTracking
