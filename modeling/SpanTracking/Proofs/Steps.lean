import SpanTracking.Proofs.Authors

set_option autoImplicit false

/-!
# Laws of code

Span code is put together from a few primitive steps. A property of steps that carries over to
sequences holds of all span code as soon as it holds of these. Such a property may say which blocks
a step asks for: those of a sequence are the blocks of its first part and then those of its second.
-/

namespace SpanTracking

def Instr.result? : Instr → Option (Reg × Ty)
  | load dst _ ty => some (dst, ty)
  | store .. => none
  | icmp dst .. => some (dst, .i1)
  | call dst _ sig .. => some (dst, sig.ret)

def Dispatch.loaded : Dispatch → List Field
  | direct _ => []
  | indirect slot _ => [slot]

namespace Emitter

def loaded (e : Emitter) : List Field :=
  e.colors.flatMap fun slots => slots.start :: slots.dispatch.loaded

def rebaseNames (color : Nat) : List String :=
  [blockName "span_restart" color, blockName "span_rebased" color]

def flushNames (color : Nat) : List String :=
  [blockName "span_present" color, blockName "span_flushed" color,
    blockName "span_flush_error" color]

def endNames (e : Emitter) (color : Nat) : List String :=
  (if e.options.debugChecks then [blockName "span_not_open" color, blockName "span_open" color]
    else []) ++ [blockName "span_end" color, blockName "span_end_error" color]

end Emitter

inductive Emission where
  | spanStart (here : BlockId) (s : SpanId)
  | spanEnd (here : BlockId) (s : SpanId)
  | prologue (here : BlockId)
  | epilogue (here : BlockId)
deriving DecidableEq

namespace Emission

def block : Emission → BlockId
  | spanStart here _ => here
  | spanEnd here _ => here
  | prologue here => here
  | epilogue here => here

def span? : Emission → Option SpanId
  | spanStart _ s => some s
  | spanEnd _ s => some s
  | prologue _ => none
  | epilogue _ => none

/-- Returns where parsing goes on, and the failure path if there is one. -/
def run (e : Emitter) : Emission → Build Body (BlockId × Option Resumption)
  | spanStart here s => do
    let next ← e.spanStart here s
    return (next, none)
  | spanEnd here s => do
    let (next, path) ← e.spanEnd here s
    return (next, some path)
  | prologue here => do
    let next ← e.prologue here
    return (next, none)
  | epilogue here => do
    let next ← e.epilogue here
    return (next, none)

def blockNames (e : Emitter) : Emission → List String
  | spanStart _ _ => []
  | spanEnd _ s =>
    match e.locate s with
    | .ok (_, color, _) => e.endNames color
    | .error _ => []
  | prologue _ => (List.range' 0 e.colors.length).flatMap Emitter.rebaseNames
  | epilogue _ => (List.range' 0 e.colors.length).flatMap Emitter.flushNames

end Emission

namespace Body

/-- A property of steps, and of the names of the blocks that they ask for, which is passed on to
sequences. The primitive steps have it, as far as they load only such fields. -/
structure Compositional (Loads : Field → Prop)
    (P : (α : Type) → Build Body α → List String → Prop) : Prop where
  bind : ∀ {α β : Type} {x : Build Body α} {f : α → Build Body β} {xs ys : List String},
    P α x xs → (∀ a, P β (f a) ys) → P β (x >>= f) (xs ++ ys)
  pure : ∀ {α : Type} (a : α), P α (pure a) []
  check : ∀ {α : Type} (test : Body → Except BuildError α), P α (Build.check test) []
  newBlock : ∀ name, P BlockId (newBlock name) [name]
  store : ∀ here field value, P Unit (store here field value) []
  terminate : ∀ here term, P Unit (terminate here term) []
  pushNew : ∀ ty here make, (∀ r, (make r).result? = some (r, ty)) →
    (∀ r dst id ty, make r = .load dst id ty →
      ∃ field, Loads field ∧ field.id = id ∧ field.ty = ty) →
    P Operand (pushNew ty here make) []

namespace Compositional

/-- What every primitive step keeps, also if it fails, is kept by all code. -/
theorem ofKeeps {Loads : Field → Prop} {R : Body → Body → Prop} (hrefl : ∀ b, R b b)
    (htrans : ∀ {a b c}, R a b → R b c → R a c)
    (hnewBlock : ∀ name, Build.Keeps R (Body.newBlock name))
    (hstore : ∀ here field value, Build.Keeps R (Body.store here field value))
    (hterminate : ∀ here term, Build.Keeps R (Body.terminate here term))
    (hpushNew : ∀ ty here make, (∀ r, (make r).result? = some (r, ty)) →
      (∀ r dst id ty, make r = .load dst id ty →
        ∃ field, Loads field ∧ field.id = id ∧ field.ty = ty) →
      Build.Keeps R (Body.pushNew ty here make)) :
    Compositional Loads fun _ step _ => Build.Keeps R step where
  bind hx hf := Build.Keeps.bind (R := R) htrans hx hf
  pure _ := hrefl
  check test b := by
    unfold Build.after Build.check
    cases test b <;> exact hrefl b
  newBlock := hnewBlock
  store := hstore
  terminate := hterminate
  pushNew := hpushNew

variable {Loads : Field → Prop} {P : (α : Type) → Build Body α → List String → Prop} {α β : Type}
  {e : Emitter}

section Sequences

variable {x : Build Body α} {f : α → Build Body β} {xs ys : List String}

theorem next (hP : Compositional Loads P) (hx : P α x []) (hf : ∀ a, P β (f a) ys) :
    P β (x >>= f) ys :=
  hP.bind hx hf

theorem ask (hP : Compositional Loads P) {name : String} {f : BlockId → Build Body β}
    (hf : ∀ here, P β (f here) ys) : P β (Body.newBlock name >>= f) (name :: ys) :=
  hP.bind (hP.newBlock name) hf

theorem map (hP : Compositional Loads P) (hx : P α x xs) (g : α → β) :
    P β (x >>= fun a => Pure.pure (g a)) xs := by
  have h := hP.bind hx fun a => hP.pure (g a)
  rwa [List.append_nil] at h

/-- What is refused asks for no blocks. -/
theorem settle (hP : Compositional Loads P) {outcome : Except BuildError α}
    (hok : ∀ a, outcome = .ok a → P β (f a) ys) (herror : ∀ err, outcome = .error err → ys = []) :
    P β (Build.settle outcome >>= f) ys := by
  cases outcome with
  | ok a => exact hok a rfl
  | error err =>
    rw [herror err rfl]
    exact hP.check fun _ => .error err

end Sequences

section Primitives

variable (here : BlockId)

theorem load (hP : Compositional Loads P) {field : Field} (h : Loads field) :
    P Operand (Body.load here field) [] := by
  refine hP.pushNew field.ty here (.load · field.id field.ty) (fun _ => rfl) ?_
  intro r dst id ty heq
  obtain ⟨-, rfl, rfl⟩ := Instr.load.inj heq
  exact ⟨field, h, rfl, rfl⟩

theorem icmp (hP : Compositional Loads P) (how : Comparison) (lhs rhs : Operand) :
    P Operand (Body.icmp here how lhs rhs) [] :=
  hP.pushNew .i1 here (.icmp · how lhs rhs) (fun _ => rfl) (by simp)

theorem call (hP : Compositional Loads P) (callee : Operand) (sig : Signature)
    (args : List Operand) (callees : Option (List FuncId)) :
    P Operand (Body.call here callee sig args callees) [] :=
  hP.pushNew sig.ret here (.call · callee sig args callees) (fun _ => rfl) (by simp)

theorem record (hP : Compositional Loads P) (r : ErrorRecord) (pos code : Operand) :
    P Unit (r.emit here pos code) [] :=
  hP.next (hP.store _ _ _) fun _ => hP.next (hP.store _ _ _) fun _ => hP.store _ _ _

theorem resumeAt (hP : Compositional Loads P) (path : Resumption) (p : Program)
    (target : FuncId) : P Unit (path.resumeAt p target) [] :=
  hP.next (hP.check _) fun _ => hP.next (hP.store _ _ _) fun _ => hP.terminate _ _

theorem dispatch (hP : Compositional Loads P) {d : Dispatch}
    (h : ∀ field ∈ d.loaded, Loads field) (sig : Signature) (args : List Operand) (hints : Bool) :
    P Operand (d.emit here sig args hints) [] := by
  cases d with
  | direct callee => exact hP.call _ _ _ _ _
  | indirect slot candidates =>
    exact hP.next (hP.load _ (h slot (List.mem_singleton.2 rfl))) fun _ => hP.call _ _ _ _ _

end Primitives

section Fragments

open Emitter (blockName)

theorem rebase (hP : Compositional Loads P) {slots : ColorSlots} (hstart : Loads slots.start)
    (here : BlockId) (color : Nat) :
    P BlockId (Emitter.rebase here color slots) (Emitter.rebaseNames color) :=
  hP.next (hP.load _ hstart) fun _ => hP.next (hP.icmp _ _ _ _) fun _ => hP.ask fun _ =>
    hP.ask fun _ => hP.next (hP.terminate _ _) fun _ => hP.next (hP.store _ _ _) fun _ =>
      hP.next (hP.terminate _ _) fun _ => hP.pure _

theorem flush (hP : Compositional Loads P) {slots : ColorSlots} (hstart : Loads slots.start)
    (hslot : ∀ field ∈ slots.dispatch.loaded, Loads field) (here : BlockId) (color : Nat) :
    P BlockId (e.flush here color slots) (Emitter.flushNames color) :=
  hP.next (hP.load _ hstart) fun _ => hP.next (hP.icmp _ _ _ _) fun _ => hP.ask fun _ =>
    hP.ask fun _ => hP.next (hP.terminate _ _) fun _ => hP.next (hP.dispatch _ hslot _ _ _) fun _ =>
      hP.next (hP.icmp _ _ _ _) fun _ => hP.ask fun _ => hP.next (hP.terminate _ _) fun _ =>
        hP.next (hP.record _ _ _ _) fun _ => hP.next (hP.terminate _ _) fun _ => hP.pure _

theorem chain (hP : Compositional Loads P)
    {emit : BlockId → Nat → ColorSlots → Build Body BlockId} {names : Nat → List String}
    {list : List ColorSlots}
    (hemit : ∀ slots ∈ list, ∀ here color, P BlockId (emit here color slots) (names color))
    (here : BlockId) (color : Nat) :
    P BlockId (Emitter.chain emit here color list)
      ((List.range' color list.length).flatMap names) := by
  induction list generalizing here color with
  | nil => exact hP.pure here
  | cons slots rest ih =>
    obtain ⟨hslots, hrest⟩ := List.forall_mem_cons.1 hemit
    have h := hP.bind (hslots here color) fun next => ih hrest next (color + 1)
    rwa [← List.flatMap_cons, ← List.range'_succ] at h

theorem assertOpen (hP : Compositional Loads P) (here : BlockId) (start : Operand) (color : Nat)
    (slots : ColorSlots) :
    P BlockId (Emitter.assertOpen here start color slots)
      [blockName "span_not_open" color, blockName "span_open" color] :=
  hP.next (hP.icmp _ _ _ _) fun _ => hP.ask fun _ => hP.ask fun _ =>
    hP.next (hP.terminate _ _) fun _ => hP.next (hP.terminate _ _) fun _ => hP.pure _

theorem spanStart (hP : Compositional Loads P) (here : BlockId) (s : SpanId) :
    P BlockId (e.spanStart here s) [] := by
  refine hP.next (hP.check _) fun _ => hP.next (hP.check _) fun found =>
    hP.next (hP.store _ _ _) fun _ => ?_
  dsimp only
  split
  · exact hP.next (hP.store _ _ _) fun _ => hP.pure _
  · exact hP.next (hP.pure _) fun _ => hP.pure _

theorem spanEnd (hP : Compositional Loads P) (hloaded : ∀ field ∈ e.loaded, Loads field)
    (here : BlockId) (s : SpanId) :
    P (BlockId × Resumption) (e.spanEnd here s) ((Emission.spanEnd here s).blockNames e) := by
  -- With debug checks, two blocks come before those in which both ways go on.
  have hjoin : ∀ {color : Nat} {x : Build Body BlockId}
      {rest : BlockId → Build Body (BlockId × Resumption)},
      P BlockId x [blockName "span_not_open" color, blockName "span_open" color] →
      (∀ here, P (BlockId × Resumption) (rest here)
        [blockName "span_end" color, blockName "span_end_error" color]) →
      P (BlockId × Resumption)
        (if e.options.debugChecks then x >>= rest else Pure.pure here >>= rest)
        (e.endNames color) := by
    intro color x rest hx hrest
    unfold Emitter.endNames
    split
    · exact hP.bind hx hrest
    · exact hP.next (hP.pure here) hrest
  refine hP.next (hP.check _) fun _ =>
    hP.settle ?_ fun err herr => by rw [Emission.blockNames, herr]
  rintro ⟨span, color, slots⟩ hfound
  have hstart : Loads slots.start := by
    have hslots := (Emitter.mem_colors_of_locate hfound).2.2
    exact hloaded _ (List.mem_flatMap.2 ⟨slots, List.mem_of_getElem? hslots, List.mem_cons_self⟩)
  rw [Emission.blockNames, hfound]
  exact hP.next (hP.load _ hstart) fun _ => hjoin (hP.assertOpen _ _ _ _) fun _ =>
    hP.next (hP.store _ _ _) fun _ => hP.next (hP.call _ _ _ _ _) fun _ =>
      hP.next (hP.icmp _ _ _ _) fun _ => hP.ask fun _ => hP.ask fun _ =>
        hP.next (hP.terminate _ _) fun _ => hP.next (hP.record _ _ _ _) fun _ => hP.pure _

theorem emission (hP : Compositional Loads P) (hloaded : ∀ field ∈ e.loaded, Loads field)
    (m : Emission) : P (BlockId × Option Resumption) (m.run e) (m.blockNames e) := by
  have hstart : ∀ slots ∈ e.colors, Loads slots.start := fun slots hmem =>
    hloaded _ (List.mem_flatMap.2 ⟨slots, hmem, List.mem_cons_self⟩)
  have hslot : ∀ slots ∈ e.colors, ∀ field ∈ slots.dispatch.loaded, Loads field :=
    fun slots hmem field hfield =>
      hloaded _ (List.mem_flatMap.2 ⟨slots, hmem, List.mem_cons_of_mem _ hfield⟩)
  cases m with
  | spanStart here s => exact hP.map (hP.spanStart here s) _
  | spanEnd here s => exact hP.map (hP.spanEnd hloaded here s) _
  | prologue here =>
    refine hP.map (hP.next (hP.check _) fun _ => ?_) _
    rw [Emitter.rebaseFrom_eq]
    exact hP.chain (fun slots hmem => hP.rebase (hstart slots hmem)) here 0
  | epilogue here =>
    refine hP.map (hP.next (hP.check _) fun _ => ?_) _
    rw [Emitter.flushFrom_eq]
    exact hP.chain (fun slots hmem => hP.flush (hstart slots hmem) (hslot slots hmem)) here 0

end Fragments

end Compositional

end Body

end SpanTracking
