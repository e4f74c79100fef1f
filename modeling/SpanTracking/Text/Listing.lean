import SpanTracking.Program
import SpanTracking.Text.Escape

set_option autoImplicit false

namespace SpanTracking

def unlines (lines : List String) : String := String.join (lines.map fun line => line ++ "\n")

def commas (items : List String) : String := ", ".intercalate items

namespace Program

def callee (p : Program) (f : FuncId) : String :=
  match p.decl? f with
  | some d => "@" ++ d.name
  | none => "@<" ++ f.anonymous ++ ">"

def fieldRef (p : Program) (id : FieldId) : String :=
  match p.layout.get? id with
  | some f => "%state." ++ f.name
  | none => "%state.<" ++ toString id.index ++ ">"

end Program

def Reg.text (r : Reg) : String := "%" ++ toString r.index

def Comparison.text : Comparison → String
  | eq => "eq"
  | ne => "ne"

def BranchHint.text : BranchHint → String
  | none => ""
  | likelyTrue => ", !likely true"
  | likelyFalse => ", !likely false"

namespace Body

def operand (p : Program) (b : Body) : Operand → String
  | .param i => "%" ++ b.params[i]?.getD ("arg" ++ toString i)
  | .reg r => r.text
  | .int _ value => toString value
  | .null _ => "null"
  | .func f => p.callee f
  | .text t => "@.str" ++ toString t.index

def label (b : Body) (here : BlockId) : String :=
  match b.block? here with
  | some block => "label %" ++ block.name
  | none => "label %<bb" ++ toString here.index ++ ">"

def instrLine (p : Program) (b : Body) : Instr → String
  | .load dst field ty => "  " ++ dst.text ++ " = load " ++ ty.text ++ ", " ++ p.fieldRef field
  | .store field value => "  store " ++ b.operand p value ++ ", " ++ p.fieldRef field
  | .icmp dst how lhs rhs =>
    "  " ++ dst.text ++ " = icmp " ++ how.text ++ " " ++ b.operand p lhs ++ ", " ++ b.operand p rhs
  | .call dst callee sig args callees =>
    "  " ++ dst.text ++ " = call " ++ sig.conv.text ++ " " ++ sig.ret.text ++ " " ++
      b.operand p callee ++ "(" ++ commas (args.map (b.operand p)) ++ ")" ++
      match callees with
      | some fs => ", !callees [" ++ commas (fs.map p.callee) ++ "]"
      | none => ""

def termLine (p : Program) (b : Body) : Option Terminator → String
  | some (.br target) => "  br " ++ b.label target
  | some (.condBr cond onTrue onFalse hint) =>
    "  br " ++ b.operand p cond ++ ", " ++ b.label onTrue ++ ", " ++ b.label onFalse ++ hint.text
  | some (.ret value) => "  ret " ++ b.operand p value
  | some .unreachable => "  unreachable"
  | none => "  ; no terminator"

def blockLines (p : Program) (b : Body) (block : Block) : List String :=
  (block.name ++ ":") :: block.instrs.map (b.instrLine p) ++ [b.termLine p block.term]

def headLine (b : Body) : String :=
  "define " ++ b.sig.conv.text ++ " " ++ b.sig.ret.text ++ " @" ++ b.name ++ "(" ++
    commas (List.zipWith (fun ty name => ty.text ++ " %" ++ name) b.sig.params b.params) ++ ") \x7b"

def lines (p : Program) (b : Body) : List String :=
  b.headLine :: [""].intercalate (b.blocks.map (b.blockLines p)) ++ ["\x7d"]

def listing (p : Program) (b : Body) : String := unlines (b.lines p)

end Body

def Decl.line (d : Decl) : String :=
  "declare " ++ d.sig.conv.text ++ " " ++ d.sig.ret.text ++ " @" ++ d.name ++ "(" ++
    commas (Ty.texts d.sig.params) ++ ")"

namespace Program

/-- A literal is listed with the NUL that ends it. -/
def literalLine (index : Nat) (text : String) : String :=
  "@.str" ++ toString index ++ " = c\"" ++ Text.escape text ++ "\\00\""

def layoutLines (p : Program) : List String :=
  "%state = type \x7b" :: p.layout.fields.map (fun f => "  " ++ f.name ++ ": " ++ f.ty.text) ++
    ["\x7d"]

def literalLines (p : Program) : List String :=
  (p.literals.mapIdx literalLine).flatMap fun line => ["", line]

def declLines (p : Program) : List String :=
  match p.decls.filter (fun d => d.body.isNone) with
  | [] => []
  | missing => "" :: missing.map Decl.line

def bodyLines (p : Program) : List String := p.bodies.flatMap fun b => "" :: b.lines p

def listing (p : Program) : String :=
  unlines (p.layoutLines ++ p.literalLines ++ p.declLines ++ p.bodyLines)

end Program

end SpanTracking
