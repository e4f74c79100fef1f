import Mathlib.Logic.Function.Basic
import SpanTracking.Proofs.Scripts

set_option autoImplicit false

/-!
# What a script means

A script is a plan: control points with the spans opened there, and the ways in which they are left.
It can be carried out as it stands, without blocks and registers, and so without the code that an
emitter writes for it. Where a span ends that is not open, a plan has nothing more to say.
-/

namespace SpanTracking

/-- How a stage is left. The numbers of other stages say where control goes. -/
inductive Exit where
  | closes (s : SpanId) (next failed : Nat)
  /-- The open span of a color is moved to the start of the buffer. -/
  | rebases (color next : Nat)
  /-- The open span of a color is handed over. -/
  | flushes (color next : Nat)
  | resumes (target : FuncId)
  | jumps (target : Nat)
  | branches (value : Int) (onTrue onFalse : Nat)
  | returns (value : Operand)
deriving DecidableEq

def Exit.leads : Exit → List Nat
  | closes _ next _ => [next]
  | rebases _ next => [next]
  | flushes _ next => [next]
  | jumps target => [target]
  | branches _ onTrue onFalse => [onTrue, onFalse]
  | _ => []

structure Stage where
  /-- The stage begins a failure path. -/
  failure : Bool := false
  /-- The spans that are opened, in order. -/
  opens : List SpanId := []
  exit : Option Exit := none
deriving DecidableEq

/-- What a script has said so far: its stages, and which of them go by a name. -/
structure Plan where
  stages : List Stage := [{}]
  points : List Nat := [0]
  paths : List Nat := []
deriving DecidableEq

namespace Plan

def named? (k : Plan) : BlockName → Option Nat
  | .point n => k.points[n]?
  | .path n => k.paths[n]?

def opening (k : Plan) (i : Nat) (s : SpanId) : Plan :=
  { k with stages := k.stages.modify i fun stage => { stage with opens := stage.opens ++ [s] } }

def leave (k : Plan) (i : Nat) (exit : Exit) (new : List Stage) : Plan :=
  { k with stages := (k.stages.modify i fun stage => { stage with exit := some exit }) ++ new }

def chain (exit : Nat → Nat → Exit) : (color count i : Nat) → Plan → Nat × Plan
  | _, 0, i, k => (i, k)
  | color, count + 1, i, k =>
    chain exit (color + 1) count k.stages.length (k.leave i (exit color k.stages.length) [{}])

def move? (colors : Nat) (k : Plan) : Move → Option Plan
  | .spanStart here s => do
    let i ← k.named? here
    return { k.opening i s with points := k.points ++ [i] }
  | .spanEnd here s => do
    let i ← k.named? here
    let n := k.stages.length
    return { k.leave i (.closes s n (n + 1)) [{}, { failure := true }] with
      points := k.points ++ [n]
      paths := k.paths ++ [n + 1] }
  | .prologue here => do
    let i ← k.named? here
    let (n, k') := chain .rebases 0 colors i k
    return { k' with points := k'.points ++ [n] }
  | .epilogue here => do
    let i ← k.named? here
    let (n, k') := chain .flushes 0 colors i k
    return { k' with points := k'.points ++ [n] }
  | .resumeAt path target => do
    let i ← k.paths[path]?
    return k.leave i (.resumes target) []
  | .newBlock _ =>
    some { k with stages := k.stages ++ [{}], points := k.points ++ [k.stages.length] }
  | .br here target => do
    let i ← k.named? here
    let target ← k.named? target
    return k.leave i (.jumps target) []
  | .condBr here _ value onTrue onFalse _ => do
    let i ← k.named? here
    let onTrue ← k.named? onTrue
    let onFalse ← k.named? onFalse
    return k.leave i (.branches value onTrue onFalse) []
  | .ret here value => do
    let i ← k.named? here
    return k.leave i (.returns value) []

def follow? (colors : Nat) : List Move → Plan → Option Plan
  | [], k => some k
  | move :: rest, k => do
    let k ← k.move? colors move
    follow? colors rest k

end Plan

def Page.plan? (colors : Nat) (page : Page) : Option Plan := Plan.follow? colors page.moves {}

structure Window where
  base : Value
  pos : Value
  stop : Value

def Window.args (x : Window) : List Value := [x.base, x.pos, x.stop]

variable {σ : Type}

inductive Ending (σ : Type) where
  | done (v : Value) (w : World σ)
  | fails (fault : Fault) (w : World σ)
  /-- A span end of the function `f` has found no start. -/
  | missing (f : FuncId) (s : SpanId) (w : World σ)
  /-- More stages were entered than allowed. -/
  | spent

namespace Ending

def ofResult : EStateM.Result Fault (World σ) Value → Ending σ
  | .ok v w => done v w
  | .error fault w => fails fault w

def andThen (x : Ending σ) (next : Value → World σ → Ending σ) : Ending σ :=
  match x with
  | done v w => next v w
  | x => x

def Leaves (P : World σ → Prop) : Ending σ → Prop
  | done _ w => P w
  | fails _ w => P w
  | _ => True

/-- No failure path has been entered before its callback has answered. -/
def Defined : Ending σ → Prop
  | fails fault _ => ∀ r, fault ≠ .undefinedReg r
  | _ => True

theorem Defined.andThen {x : Ending σ} {next : Value → World σ → Ending σ} (h : x.Defined)
    (hnext : ∀ v w, (next v w).Defined) : (x.andThen next).Defined := by
  cases x with
  | done v w => exact hnext v w
  | fails fault w => exact h
  | missing f s w => trivial
  | spent => trivial

theorem Leaves.andThen {P : World σ → Prop} {x : Ending σ} {next : Value → World σ → Ending σ}
    (h : x.Leaves P) (hnext : ∀ v w, P w → (next v w).Leaves P) : (x.andThen next).Leaves P := by
  cases x with
  | done v w => exact hnext v w h
  | fails fault w => exact h
  | missing f s w => trivial
  | spent => trivial

end Ending

def World.look (w : World σ) (id : FieldId) : Value := (w.memory.get? id).getD (.ptr none)

theorem World.look_eq {w : World σ} {id : FieldId} {v : Value} (h : w.memory.get? id = some v) :
    w.look id = v := by
  simp [look, h]

def Dispatch.callee (d : Dispatch) (w : World σ) : Except Fault FuncId :=
  match d with
  | direct f => .ok f
  | indirect slot _ => Machine.asCallee (w.look slot.id)

def Emitter.openOne (e : Emitter) (pos : Value) (w : World σ) (s : SpanId) : World σ :=
  match e.locate s with
  | .ok (span, _, slots) => Machine.opened slots span.callback pos w
  | .error _ => w

def Emitter.openAll (e : Emitter) (pos : Value) (spans : List SpanId) (w : World σ) : World σ :=
  spans.foldl (e.openOne pos) w

/-- The answers of callbacks so far, each by the number of the stage to which it leads if the
callback has failed. -/
abbrev Answers := Nat → Option Value

/-- The world in which a stage begins. On a failure path, the error is recorded first. -/
def Stage.begin? (e : Emitter) (pos : Value) (stage : Stage) (answer : Option Value)
    (w : World σ) : Option (World σ) :=
  if stage.failure then answer.map fun code => Machine.recorded e.record pos code w else some w

namespace Plan

section Meaning

open Machine

variable (e : Emitter)

def through (enter : FuncId → List Value → World σ → Ending σ) (f : FuncId) (x : Window)
    (goto : Nat → Answers → World σ → Ending σ) (answers : Answers) (w : World σ) :
    Exit → Ending σ
  | .closes s next failed =>
    match e.locate s with
    | .error _ => .spent
    | .ok (span, _, slots) =>
      if (w.look slots.start.id).isNull then .missing f s w
      else
        (enter span.callback [x.base, w.look slots.start.id, x.pos]
          (put w slots.start.id (.ptr none))).andThen fun code w =>
            goto (if code = .int 0 then next else failed)
              (Function.update answers failed (some code)) w
  | .rebases color next =>
    match e.colors[color]? with
    | none => .spent
    | some slots =>
      goto next answers (if (w.look slots.start.id).isNull then w else put w slots.start.id x.pos)
  | .flushes color next =>
    match e.colors[color]? with
    | none => .spent
    | some slots =>
      if (w.look slots.start.id).isNull then goto next answers w
      else
        match slots.dispatch.callee w with
        | .error fault => .fails fault w
        | .ok callee =>
          (enter callee [x.base, w.look slots.start.id, x.stop] w).andThen fun code w =>
            if code = .int 0 then goto next answers w
            else .done code (recorded e.record x.stop code w)
  | .resumes target =>
    .done (.int e.options.errorSentinel.toInt) (put w e.current.id (.func (some target)))
  | .jumps target => goto target answers w
  | .branches value onTrue onFalse => goto (if value = 0 then onFalse else onTrue) answers w
  | .returns value =>
    match value.eval [] [] with
    | .ok v => .done v w
    | .error _ => .spent

def run (enter : FuncId → List Value → World σ → Ending σ) (f : FuncId) (stages : List Stage)
    (x : Window) : (fuel : Nat) → Nat → Answers → World σ → Ending σ
  | 0, _, _, _ => .spent
  | fuel + 1, i, answers, w =>
    match stages[i]? with
    | none => .spent
    | some stage =>
      match stage.exit with
      | none => .spent
      | some exit =>
        match stage.begin? e x.pos (answers i) w with
        | none => .fails (.undefinedReg ⟨0⟩) w
        | some w =>
          through e enter f x (run enter f stages x fuel) answers (e.openAll x.pos stage.opens w)
            exit

def call (plan? : FuncId → Option Plan) (ask : FuncId → List Value → World σ → Ending σ)
    (limit : Nat) : (depth : Nat) → FuncId → List Value → World σ → Ending σ
  | 0, f, args, w =>
    match plan? f with
    | none => ask f args w
    | some _ => .fails .tooDeep w
  | depth + 1, f, args, w =>
    match plan? f with
    | none => ask f args w
    | some k =>
      match args with
      | [base, pos, stop] =>
        run e (call plan? ask limit depth) f k.stages ⟨base, pos, stop⟩ limit 0 (fun _ => none) w
      | _ => .spent

end Meaning

end Plan

/-- The record is one of the program, and a start that is null is the null of positions. -/
structure Tidy (e : Emitter) (p : Program) (w : World σ) : Prop where
  fits : w.memory.values.length = p.layout.fields.length
  starts : ∀ slots ∈ e.colors, ∀ v, w.memory.get? slots.start.id = some v → v.isNull → v = .ptr none

section Tidy

open Machine

variable {e : Emitter} {p : Program} {w : World σ}

theorem Tidy.put (h : Tidy e p w) {field : FieldId} {v : Value}
    (hv : ∀ slots ∈ e.colors, field = slots.start.id → v.isNull → v = .ptr none) :
    Tidy e p (put w field v) := by
  refine ⟨by rw [put_memory, Memory.set_length, h.fits], fun slots hslots u hu hnull => ?_⟩
  by_cases hfield : field = slots.start.id
  · subst hfield
    have hlt : slots.start.id.index < w.memory.values.length := by
      have := (List.getElem?_eq_some_iff.1 hu).1
      simpa [Memory.set] using this
    rw [put_memory, Memory.get?_set_self (List.getElem?_eq_getElem hlt)] at hu
    obtain rfl := Option.some.inj hu
    exact hv slots hslots rfl hnull
  · rw [put_memory, Memory.get?_set_ne hfield] at hu
    exact h.starts slots hslots u hu hnull

theorem Tidy.put_of_ne_null (h : Tidy e p w) (field : FieldId) {v : Value}
    (hv : v.isNull = false) : Tidy e p (Machine.put w field v) :=
  h.put fun _ _ _ hnull => by simp [hv] at hnull

theorem Tidy.opened (h : Tidy e p w) (slots : ColorSlots) (callback : FuncId) {pos : Value}
    (hpos : pos.isNull = false) : Tidy e p (Machine.opened slots callback pos w) := by
  have hstart := h.put_of_ne_null slots.start.id hpos
  unfold Machine.opened
  split
  · exact hstart.put_of_ne_null _ rfl
  · exact hstart

theorem Tidy.openAll (h : Tidy e p w) {pos : Value} (hpos : pos.isNull = false)
    (spans : List SpanId) : Tidy e p (e.openAll pos spans w) := by
  unfold Emitter.openAll
  induction spans generalizing w with
  | nil => exact h
  | cons s rest ih =>
    refine ih ?_
    unfold Emitter.openOne
    split
    · exact h.opened _ _ hpos
    · exact h

theorem Tidy.recorded (h : Tidy e p w) (he : e.Serves p) (pos code : Value) :
    Tidy e p (Machine.recorded e.record pos code w) := by
  have hother : ∀ {x : Place} {f : Field} (_ : e.field? x = some f) (_ : ∀ color, x ≠ .start color)
      (w : World σ) (v : Value), Tidy e p w → Tidy e p (Machine.put w f.id v) := by
    intro x f hf hx w v h
    refine h.put fun slots hslots heq _ => ?_
    obtain ⟨color, hcolor⟩ := List.getElem?_of_mem hslots
    exact absurd heq (he.id_ne hf (Emitter.field_start hcolor) (hx color))
  refine hother (x := .errorPos) rfl (by simp) _ _ ?_
  refine hother (x := .reason) rfl (by simp) _ _ ?_
  exact hother (x := .error) rfl (by simp) _ _ h

theorem Tidy.begin? (h : Tidy e p w) (he : e.Serves p) {pos : Value} {stage : Stage}
    {answer : Option Value} {w' : World σ} (hw' : stage.begin? e pos answer w = some w') :
    Tidy e p w' := by
  unfold Stage.begin? at hw'
  split at hw'
  · obtain ⟨code, -, rfl⟩ := Option.map_eq_some_iff.1 hw'
    exact h.recorded he _ _
  · obtain rfl := Option.some.inj hw'
    exact h

end Tidy

namespace Plan

section Leaves

open Machine

variable {e : Emitter} {p : Program} (he : e.Serves p)
  {enter : FuncId → List Value → World σ → Ending σ}
  (henter : ∀ f base pos stop w, pos.isNull = false → Tidy e p w →
    (enter f [base, pos, stop] w).Leaves (Tidy e p))
include he henter

theorem through_leaves {f : FuncId} {x : Window} (hpos : x.pos.isNull = false)
    {goto : Nat → Answers → World σ → Ending σ}
    (hgoto : ∀ i answers w, Tidy e p w → (goto i answers w).Leaves (Tidy e p)) {answers : Answers}
    {w : World σ} (hw : Tidy e p w) (exit : Exit) :
    (through e enter f x goto answers w exit).Leaves (Tidy e p) := by
  cases exit with
  | closes s next failed =>
    rw [through]
    split
    · trivial
    · split
      · trivial
      · rename_i hopen
        exact (henter _ _ _ _ _ (by simpa using hopen)
          (hw.put fun _ _ _ _ => rfl)).andThen fun code w hw => hgoto _ _ _ hw
  | rebases color next =>
    rw [through]
    split
    · trivial
    · refine hgoto _ _ _ ?_
      split
      · exact hw
      · exact hw.put_of_ne_null _ hpos
  | flushes color next =>
    rw [through]
    split
    · trivial
    · split
      · exact hgoto _ _ _ hw
      · rename_i hopen
        split
        · exact hw
        · refine (henter _ _ _ _ _ (by simpa using hopen) hw).andThen fun code w hw => ?_
          split
          · exact hgoto _ _ _ hw
          · exact hw.recorded he _ _
  | resumes target => exact hw.put_of_ne_null _ rfl
  | jumps target => exact hgoto _ _ _ hw
  | branches value onTrue onFalse => exact hgoto _ _ _ hw
  | returns value =>
    rw [through]
    split
    · exact hw
    · trivial

theorem run_leaves {f : FuncId} {stages : List Stage} {x : Window} (hpos : x.pos.isNull = false)
    (fuel i : Nat) (answers : Answers) {w : World σ} (hw : Tidy e p w) :
    (run e enter f stages x fuel i answers w).Leaves (Tidy e p) := by
  induction fuel generalizing i answers w with
  | zero => trivial
  | succ fuel ih =>
    rw [run]
    split
    · trivial
    · split
      · trivial
      · split
        · exact hw
        · rename_i hbegin
          exact through_leaves he henter hpos (fun i answers w hw => ih i answers hw)
            ((hw.begin? he hbegin).openAll hpos _) _

omit henter in
theorem call_leaves {plan? : FuncId → Option Plan}
    {ask : FuncId → List Value → World σ → Ending σ}
    (hask : ∀ f args w, Tidy e p w → (ask f args w).Leaves (Tidy e p)) (limit depth : Nat)
    (f : FuncId) (base : Value) {pos : Value} (stop : Value) {w : World σ}
    (hpos : pos.isNull = false) (hw : Tidy e p w) :
    (call e plan? ask limit depth f [base, pos, stop] w).Leaves (Tidy e p) := by
  induction depth generalizing f base pos stop w with
  | zero =>
    rw [call]
    split
    · exact hask _ _ _ hw
    · exact hw
  | succ depth ih =>
    rw [call]
    split
    · exact hask _ _ _ hw
    · exact run_leaves he (fun f base pos stop w hpos hw => ih f base stop hpos hw) hpos _ _ _ hw

end Leaves

section Straight

open Machine

/-- Failure paths are entered only from their span ends. -/
def straight (k : Plan) : Bool :=
  (0 :: k.stages.flatMap fun stage => stage.exit.elim [] Exit.leads).all fun i =>
    !(k.stages[i]?.map Stage.failure).getD false

theorem not_failure_of_straight {k : Plan} (h : k.straight) {i : Nat} {stage : Stage}
    (hi : i = 0 ∨ ∃ stage exit, stage ∈ k.stages ∧ stage.exit = some exit ∧ i ∈ exit.leads)
    (hstage : k.stages[i]? = some stage) : stage.failure = false := by
  have hmem : i ∈ 0 :: k.stages.flatMap fun stage => stage.exit.elim [] Exit.leads := by
    rcases hi with rfl | ⟨stage', exit, hmem, hexit, hi⟩
    · exact List.mem_cons_self
    · refine List.mem_cons_of_mem _ (List.mem_flatMap.2 ⟨stage', hmem, ?_⟩)
      rw [hexit]
      exact hi
  simpa [hstage] using List.all_eq_true.1 h i hmem

def Ready (stages : List Stage) (answers : Answers) (i : Nat) : Prop :=
  ∀ stage, stages[i]? = some stage → stage.failure → (answers i).isSome

variable {e : Emitter} {enter : FuncId → List Value → World σ → Ending σ}
  (henter : ∀ f args w, (enter f args w).Defined)
include henter

theorem through_defined {f : FuncId} {x : Window} {stages : List Stage}
    {goto : Nat → Answers → World σ → Ending σ}
    (hgoto : ∀ i answers w, Ready stages answers i → (goto i answers w).Defined) {answers : Answers}
    {w : World σ} {exit : Exit}
    (hexit : ∀ i ∈ exit.leads, ∀ stage, stages[i]? = some stage → stage.failure = false) :
    (through e enter f x goto answers w exit).Defined := by
  have hlead : ∀ i ∈ exit.leads, ∀ answers, Ready stages answers i := by
    intro i hi answers stage hstage hfailure
    simp [hexit i hi stage hstage] at hfailure
  cases exit with
  | closes s next failed =>
    rw [through]
    split
    · trivial
    · split
      · trivial
      · refine (henter _ _ _).andThen fun code w => hgoto _ _ _ ?_
        split
        · exact hlead next (by simp [Exit.leads]) _
        · intro stage _ _
          simp
  | rebases color next =>
    rw [through]
    split
    · trivial
    · exact hgoto _ _ _ (hlead next (by simp [Exit.leads]) _)
  | flushes color next =>
    rw [through]
    split
    · trivial
    · split
      · exact hgoto _ _ _ (hlead next (by simp [Exit.leads]) _)
      · split
        · rename_i slots _ _ fault hcallee
          intro r heq
          subst heq
          unfold Dispatch.callee at hcallee
          split at hcallee
          · simp at hcallee
          · unfold asCallee at hcallee
            split at hcallee <;> simp at hcallee
        · refine (henter _ _ _).andThen fun code w => ?_
          split
          · exact hgoto _ _ _ (hlead next (by simp [Exit.leads]) _)
          · trivial
  | resumes target => trivial
  | jumps target => exact hgoto _ _ _ (hlead target (by simp [Exit.leads]) _)
  | branches value onTrue onFalse =>
    refine hgoto _ _ _ (hlead _ ?_ _)
    split <;> simp [Exit.leads]
  | returns value =>
    rw [through]
    split <;> trivial

theorem run_defined {f : FuncId} {x : Window} {k : Plan} (hk : k.straight) (fuel i : Nat)
    {answers : Answers} (hready : Ready k.stages answers i) (w : World σ) :
    (run e enter f k.stages x fuel i answers w).Defined := by
  induction fuel generalizing i answers w with
  | zero => trivial
  | succ fuel ih =>
    rw [run]
    split
    · trivial
    · rename_i stage hstage
      split
      · trivial
      · rename_i exit hexit
        split
        · rename_i hbegin
          unfold Stage.begin? at hbegin
          split at hbegin
          · rename_i hfailure
            have := hready stage hstage hfailure
            simp_all
          · simp at hbegin
        · refine through_defined henter (fun i answers w hready => ih i hready w) ?_
          intro i hi stage' hstage'
          exact not_failure_of_straight hk
            (.inr ⟨stage, exit, List.mem_of_getElem? hstage, hexit, hi⟩) hstage'

omit henter in
theorem call_defined {plan? : FuncId → Option Plan} {ask : FuncId → List Value → World σ → Ending σ}
    (hplan : ∀ f k, plan? f = some k → k.straight) (hask : ∀ f args w, (ask f args w).Defined)
    (limit depth : Nat) (f : FuncId) (args : List Value) (w : World σ) :
    (call e plan? ask limit depth f args w).Defined := by
  induction depth generalizing f args w with
  | zero =>
    rw [call]
    split
    · exact hask _ _ _
    · rintro r ⟨⟩
  | succ depth ih =>
    rw [call]
    split
    · exact hask _ _ _
    · rename_i k hk
      split
      · refine run_defined ih (hplan f k hk) _ _ ?_ _
        intro stage hstage hfailure
        simp [not_failure_of_straight (hplan f k hk) (.inl rfl) hstage] at hfailure
      · trivial

end Straight

end Plan

end SpanTracking
