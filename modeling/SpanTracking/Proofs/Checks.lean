import SpanTracking.Proofs.Drawing
import SpanTracking.Proofs.Safety

set_option autoImplicit false

namespace SpanTracking

variable {σ : Type}

def Assembly.endAt? (a : Assembly) (here : Point) : Option SpanId :=
  (a.ends.find? fun x => x.1.block = here.block ∧ x.1.done = here.done).map Prod.snd

namespace Moment

/-- A span end has just found that its color has no start: the function and the span. -/
def missing? (assemblies : List Assembly) : Moment σ → Option (FuncId × SpanId)
  | executed here (.load dst _ _) _ regs _ => do
    let a ← Assembly.find? assemblies here.block.owner
    let s ← a.endAt? here
    let v ← regs[dst.index]?.join
    if v.isNull then some (here.block.owner, s) else none
  | _ => none

def ending? : Moment σ → Option (Except Fault Value × World σ)
  | ended result w => some (result, w)
  | _ => none

end Moment

namespace Machine

theorem ending?_of_mem_trace {p : Program} {host : Host σ} {limit depth : Nat} {f : FuncId}
    {args : List Value} {w : World σ} {m : Moment σ} (hm : m ∈ trace p host limit depth f args w) :
    m.ending? = none := by
  induction depth generalizing f args w m with
  | zero => simp [trace] at hm
  | succ depth ih =>
    rw [trace] at hm
    split at hm
    · simp at hm
    · exact Along.of_mem_runTrace (I := fun _ => True) (P := fun m => m.ending? = none)
        ⟨fun _ _ => trivial, ih, fun _ _ => rfl, fun _ _ _ _ _ => rfl, fun _ _ _ _ _ => rfl⟩
        trivial hm

end Machine

/-- A fault without the number of a register, since other code has other registers. -/
def Fault.blurred : Fault → Fault
  | undefinedReg _ => undefinedReg ⟨0⟩
  | fault => fault

namespace Checks

/-- A span end that has found no start: its function, the span, and the world. -/
abbrev Find (σ : Type) := Option (FuncId × SpanId × World σ)

def found? (assemblies : List Assembly) (m : Moment σ) : Find σ :=
  (m.missing? assemblies).map fun x => (x.1, x.2, m.world)

abbrev Stop (σ : Type) :=
  FuncId → SpanId → World σ → EStateM.Result Fault (World σ) Value → Prop

def Fits (stops : Stop σ) : Ending σ → Find σ → EStateM.Result Fault (World σ) Value → Prop
  | .done v w, g, r => g = none ∧ r = .ok v w
  | .fails fault w, g, r =>
    g = none ∧ ∃ fault', r = .error fault' w ∧ fault'.blurred = fault.blurred
  | .missing f s w, g, r => g = some (f, s, w) ∧ stops f s w r
  | .spent, _, _ => False

/-- Looks for the first span end without a start, and compares the end of the run with a plan. -/
def watch (assemblies : List Assembly) (stops : Stop σ) (plan : Ending σ) : Watch σ (Find σ) where
  notice g m := g.or (found? assemblies m)
  holds _ _ := True
  done g v w := Fits stops plan g (.ok v w)
  failed g fault w := (∃ n, fault = .stepLimit n) ∨ Fits stops plan g (.error fault w)

def Carries (assemblies : List Assembly) (stops : Stop σ) (plan : Ending σ) (ms : List (Moment σ))
    (r : EStateM.Result Fault (World σ) Value) : Prop :=
  (watch assemblies stops plan).Meets (watch assemblies stops plan).done none ms r

section Watch

variable {assemblies : List Assembly} {stops : Stop σ} {plan : Ending σ}

@[simp] theorem notice_entered (g : Find σ) (here : BlockId) (w : World σ) :
    (watch assemblies stops plan).notice g (.entered here w) = g := by
  simp [watch, found?, Moment.missing?]

@[simp] theorem notice_calling (g : Find σ) (here : Point) (i : Instr) (args : List Value)
    (regs : Regs) (w : World σ) :
    (watch assemblies stops plan).notice g (.calling here i args regs w) = g := by
  simp [watch, found?, Moment.missing?]

/-- After a span end without a start nothing else is noted. -/
@[simp] theorem notice_some (x : FuncId × SpanId × World σ) (m : Moment σ) :
    (watch assemblies stops plan).notice (some x) m = some x := rfl

theorem Carries.fits {ms : List (Moment σ)} {r : EStateM.Result Fault (World σ) Value}
    (h : Carries assemblies stops plan ms r) :
    (∃ n w, r = .error (.stepLimit n) w) ∨
      Fits stops plan (ms.findSome? (found? assemblies)) r := by
  rw [← Option.none_or (o := ms.findSome? (found? assemblies))]
  unfold Carries at h
  -- The induction needs the watch with whatever was found before.
  generalize (none : Find σ) = g at h ⊢
  induction ms generalizing g with
  | nil =>
    rw [List.findSome?_nil, Option.or_none]
    cases r with
    | ok v w => exact .inr h
    | error fault w =>
      rcases h with ⟨n, rfl⟩ | hfits
      · exact .inl ⟨n, w, rfl⟩
      · exact .inr hfits
  | cons m ms ih =>
    have hcons : List.findSome? (found? assemblies) (m :: ms) =
        (found? assemblies m).or (ms.findSome? (found? assemblies)) := by
      rw [List.findSome?_cons]
      cases found? assemblies m <;> rfl
    rw [hcons, ← Option.or_assoc]
    exact ih _ h.2

/-- No more is asked of a run if any result will do. -/
theorem meets_free {α : Type} {f : FuncId} {s : SpanId} {w : World σ} (hfree : ∀ r, stops f s w r)
    {done : Find σ → α → World σ → Prop} (hdone : ∀ v w', done (some (f, s, w)) v w')
    (ms : List (Moment σ)) (r : EStateM.Result Fault (World σ) α) :
    (watch assemblies stops (.missing f s w)).Meets done (some (f, s, w)) ms r := by
  induction ms with
  | nil =>
    cases r with
    | ok v w' => exact hdone v w'
    | error fault w' => exact .inr ⟨rfl, hfree _⟩
  | cons m ms ih => exact ⟨trivial, ih⟩

/-- A call that carries out a plan, and what follows. -/
theorem Carries.andThen (hstops : ∀ f s w v w', stops f s w (.ok v w') → ∀ r, stops f s w r)
    {ms : List (Moment σ)} {r : EStateM.Result Fault (World σ) Value}
    (h : Carries assemblies stops plan ms r) {next : Value → World σ → Ending σ}
    {done : Find σ → Value → World σ → Prop}
    (hnext : ∀ v w, plan = .done v w → done none v w)
    (hfree : ∀ f s w, plan = .missing f s w → (∀ r, stops f s w r) →
      ∀ v w', done (some (f, s, w)) v w') :
    (watch assemblies stops (plan.andThen next)).Meets done none ms r := by
  unfold Carries at h
  generalize (none : Find σ) = g at h ⊢
  induction ms generalizing g with
  | cons m ms ih => exact ⟨trivial, ih _ h.2⟩
  | nil =>
    cases r with
    | ok v w =>
      cases plan with
      | done v' w' =>
        obtain ⟨rfl, hr⟩ := h
        obtain ⟨rfl, rfl⟩ := EStateM.Result.ok.inj hr
        exact hnext v w rfl
      | fails fault w' => simp [watch, Fits, Watch.Meets] at h
      | missing f s w' =>
        obtain ⟨rfl, hr⟩ := h
        exact hfree f s w' rfl (hstops f s w' v w hr) v w
      | spent => exact h.elim
    | error fault w =>
      rcases h with hlimit | hfits
      · exact .inl hlimit
      · cases plan with
        | done v w' => simp [Fits] at hfits
        | spent => exact hfits.elim
        | _ => exact .inr hfits

end Watch

def Matches (sites : List Site) (answers : Answers) (regs : Regs) : Prop :=
  ∀ (i : Nat) (site : Site) (r : Nat), sites[i]? = some site → site.answer = some r →
    regs[r]? = some (answers i)

theorem reached_callback (x : Window) {regs : Regs} {dst : Reg} {callee operand : Operand}
    {sig : Signature} {callees : Option (List FuncId)} {f : FuncId} {r : Nat} {v u : Value}
    (hcallee : callee.eval x.args regs = .ok (.func (some f))) (hv : regs[r]? = some (some v))
    (hu : operand.eval x.args regs = .ok u) :
    Machine.reached? x.args regs (.call dst callee sig [stateArg, .reg ⟨r⟩, operand] callees) =
      some (f, [x.base, v, u]) := by
  have hbase : stateArg.eval x.args regs = .ok x.base := rfl
  rw [Machine.reached?_eq_some]
  exact ⟨hcallee, by
    simp [List.mapM_cons, hbase, Operand.eval_reg hv, hu, bind, Except.bind, pure, Except.pure]⟩

section Matches

open Drawing

variable {sites : List Site} {answers : Answers} {regs : Regs}

theorem Matches.set (h : Matches sites answers regs) {y : Nat}
    (hy : ∀ (i : Nat) (site : Site), sites[i]? = some site → site.answer ≠ some y)
    (v : Option Value) : Matches sites answers (regs.set y v) := by
  intro i site r hsite hr
  rw [List.getElem?_set_ne]
  · exact h i site r hsite hr
  · rintro rfl
    exact hy i site hsite hr

theorem Matches.update (h : Matches sites answers regs) {failed y : Nat}
    (hy : ∀ (i : Nat) (site : Site), sites[i]? = some site → (site.answer = some y ↔ i = failed))
    (hlt : y < regs.length) (code : Value) :
    Matches sites (Function.update answers failed (some code)) (regs.set y (some code)) := by
  intro i site r hsite hr
  by_cases hi : i = failed
  · obtain rfl := Option.some.inj (hr.symm.trans ((hy i site hsite).2 hi))
    rw [List.getElem?_set_self hlt, hi, Function.update_self]
  · rw [Function.update_of_ne hi, List.getElem?_set_ne]
    · exact h i site r hsite hr
    · rintro rfl
      exact hi ((hy i site hsite).1 hr)

theorem not_answer_of_owned {lo hi : Nat} (h : Owned sites lo hi none) {y : Nat} (hlo : lo ≤ y)
    (hhi : y < hi) (i : Nat) (site : Site) (hsite : sites[i]? = some site) :
    site.answer ≠ some y := by
  intro hy
  simpa using h i site y hsite hy hlo hhi

theorem answer_iff_of_owned {lo hi failed : Nat} (h : Owned sites lo hi (some failed)) {y : Nat}
    {failed' : Site} (hfailed : sites[failed]? = some failed') (hanswer : failed'.answer = some y)
    (hlo : lo ≤ y) (hhi : y < hi) (i : Nat) (site : Site) (hsite : sites[i]? = some site) :
    site.answer = some y ↔ i = failed := by
  constructor
  · intro hy
    exact (Option.some.inj (h i site y hsite hy hlo hhi)).symm
  · rintro rfl
    obtain rfl := Option.some.inj (hsite.symm.trans hfailed)
    exact hanswer

theorem not_answer_of_owned_some {lo hi failed : Nat} (h : Owned sites lo hi (some failed))
    {x y : Nat} {failed' : Site} (hfailed : sites[failed]? = some failed')
    (hanswer : failed'.answer = some x) (hne : x ≠ y) (hlo : lo ≤ y) (hhi : y < hi) (i : Nat)
    (site : Site) (hsite : sites[i]? = some site) : site.answer ≠ some y := by
  intro hy
  obtain rfl := Option.some.inj (h i site y hsite hy hlo hhi)
  obtain rfl := Option.some.inj (hsite.symm.trans hfailed)
  exact hne (Option.some.inj (hanswer.symm.trans hy))

end Matches

/-- The setting in which a body runs that carries out the plan `k`. The functions it calls carry
out what `enter` says. -/
structure Setting (e : Emitter) (p : Program) (assemblies : List Assembly) (stops : Stop σ)
    (enter : FuncId → List Value → World σ → Ending σ) (a : Assembly) (k : Plan)
    (sites : List Site) (A : Activation σ) (x : Window) : Prop where
  serves : e.Serves p
  draws : Drawing.Draws e a.draft.body a.ends k.stages sites
  verified : a.draft.body.verify = .ok ()
  found : Assembly.find? assemblies a.draft.body.id = some a
  body : A.body = a.draft.body
  args : A.args = x.args
  pos : x.pos.isNull = false
  calls : ∀ f base pos stop w, pos.isNull = false → Tidy e p w →
    Carries assemblies stops (enter f [base, pos, stop] w) (A.inner f [base, pos, stop] w)
        (A.enter f [base, pos, stop] w) ∧
      (enter f [base, pos, stop] w).Leaves (Tidy e p)
  free : ∀ f s w v w', stops f s w (.ok v w') → ∀ r, stops f s w r
  trap : e.options.debugChecks = true → ∀ s w,
    stops a.draft.body.id s w (.error (.trap a.draft.body.name) w)
  null : e.options.debugChecks = false → ∀ s span color slots,
    e.locate s = .ok (span, color, slots) → ∀ f base stop w, (∀ r, stops f s w r) ∨
      ∃ fault, A.inner span.callback [base, .ptr none, stop] w = [] ∧
        A.enter span.callback [base, .ptr none, stop] w = .error fault w ∧
        stops f s w (.error fault w)

theorem goes_callee_error {γ : Type} {W : Watch σ γ} {A : Activation σ} {steps : Nat}
    {here : BlockId} {j : Nat} {is : List Instr} {t : Option Terminator} {g : γ} {regs : Regs}
    {w : World σ} {dst : Reg} {callee : Operand} {sig : Signature} {operands : List Operand}
    {callees : Option (List FuncId)} {v : Value} {fault : Fault}
    (hcallee : callee.eval A.args regs = .ok v) (hfault : Machine.asCallee v = .error fault)
    (hm : W.holds (W.notice g (.calling ⟨here, j⟩ (.call dst callee sig operands callees) A.args
      regs w)) (.calling ⟨here, j⟩ (.call dst callee sig operands callees) A.args regs w))
    (h : W.failed (W.notice g (.calling ⟨here, j⟩ (.call dst callee sig operands callees) A.args
      regs w)) fault w) :
    W.Goes A steps here j (.call dst callee sig operands callees :: is, t) g regs w := by
  have hreached : Machine.reached? A.args regs (.call dst callee sig operands callees) = none := by
    cases hr : Machine.reached? A.args regs (.call dst callee sig operands callees) with
    | none => rfl
    | some entry =>
      have heval := (Machine.reached?_eq_some.1 hr).1
      rw [hcallee] at heval
      obtain rfl := Except.ok.inj heval
      simp [Machine.asCallee] at hfault
  refine Watch.goes_cons (fun _ _ _ => False) ?_ fun _ _ _ h => h.elim
  rw [Machine.exec_callee_error hcallee hfault, Machine.instrTrace, hreached]
  exact ⟨hm, h⟩

namespace Setting

open Machine Watch Drawing

variable {e : Emitter} {p : Program} {assemblies : List Assembly} {stops : Stop σ}
  {enter : FuncId → List Value → World σ → Ending σ} {a : Assembly} {k : Plan}
  {sites : List Site} {A : Activation σ} {x : Window} {plan : Ending σ} {steps : Nat}
  {here : BlockId} {j : Nat} {is : List Instr} {t : Option Terminator} {regs : Regs} {w : World σ}
  {g : Find σ} {answers : Answers}

theorem quiet (S : Setting e p assemblies stops enter a k sites A x)
    (howner : here.owner = a.draft.body.id) (hend : ∀ s, (⟨here, j⟩, s) ∉ a.ends) :
    (watch assemblies stops plan).Quiet ⟨here, j⟩ := by
  have hnone : a.endAt? ⟨here, j⟩ = none := by
    rw [Assembly.endAt?, Option.map_eq_none_iff, List.find?_eq_none]
    rintro ⟨⟨block, done⟩, s⟩ hmem hpoint
    obtain ⟨rfl, rfl⟩ := of_decide_eq_true hpoint
    exact hend s hmem
  intro i args regs w g
  refine ⟨?_, trivial⟩
  cases i with
  | load dst field ty => simp [watch, found?, Moment.missing?, howner, S.found, hnone]
  | _ => simp [watch, found?, Moment.missing?]

theorem quiet_inner (S : Setting e p assemblies stops enter a k sites A x) {b : Terminator}
    (h : Inner a.draft.body sites here is b) : (watch assemblies stops plan).Quiet ⟨here, j⟩ := by
  refine S.quiet (Body.code?_some.1 h.code).1 fun s hmem => ?_
  obtain ⟨i, stage, site, next, failed, -, hsite, -, hpoint⟩ := S.draws.ends _ hmem
  exact h.apart site (List.mem_of_getElem? hsite) (congrArg Point.block hpoint).symm

/-- In the block of a stage, at most the instruction after the opened spans begins a span end. -/
theorem quiet_lead (S : Setting e p assemblies stops enter a k sites A x) {i : Nat} {stage : Stage}
    {site : Site} (hstage : k.stages[i]? = some stage) (hsite : sites[i]? = some site)
    (hj : j ≠ (stage.lead e site.answer).length ∨ ∀ s next failed,
      stage.exit ≠ some (.closes s next failed)) :
    (watch assemblies stops plan).Quiet ⟨site.block, j⟩ := by
  obtain ⟨is, t, hcode, -⟩ := (S.draws.drawn i stage site hstage hsite).code
  refine S.quiet (Body.code?_some.1 hcode).1 fun s hmem => ?_
  obtain ⟨i', stage', site', next, failed, hstage', hsite', hexit, hpoint⟩ := S.draws.ends _ hmem
  obtain ⟨hblock, hdone⟩ := Point.mk.inj hpoint
  obtain rfl := S.draws.block_inj hsite hsite' hblock
  obtain rfl := Option.some.inj (hsite.symm.trans hsite')
  obtain rfl := Option.some.inj (hstage.symm.trans hstage')
  rcases hj with hj | hj
  · exact hj hdone
  · exact hj s next failed hexit

theorem notice_end (S : Setting e p assemblies stops enter a k sites A x) {i : Nat} {stage : Stage}
    {site : Site} (hstage : k.stages[i]? = some stage) (hsite : sites[i]? = some site) {s : SpanId}
    (hend : (⟨site.block, (stage.lead e site.answer).length⟩, s) ∈ a.ends) {r : Nat}
    (hr : r < regs.length) (v : Value) (field : FieldId) (ty : Ty) (args : List Value) :
    (watch assemblies stops plan).notice none (.executed
        ⟨site.block, (stage.lead e site.answer).length⟩ (.load ⟨r⟩ field ty) args
        (regs.set r (some v)) w) =
      if v.isNull then some (a.draft.body.id, s, w) else none := by
  obtain ⟨is, t, hcode, -⟩ := (S.draws.drawn i stage site hstage hsite).code
  have howner := (Body.code?_some.1 hcode).1
  have hspan : a.endAt? ⟨site.block, (stage.lead e site.answer).length⟩ = some s := by
    rw [Assembly.endAt?]
    cases hfind : a.ends.find? fun x => x.1.block = site.block ∧
        x.1.done = (stage.lead e site.answer).length with
    | none => simpa using List.find?_eq_none.1 hfind _ hend
    | some y =>
      obtain ⟨⟨block, done⟩, s'⟩ := y
      have hpoint := List.find?_some hfind
      obtain ⟨rfl, rfl⟩ := of_decide_eq_true hpoint
      obtain ⟨i₁, stage₁, site₁, _, _, hstage₁, hsite₁, hexit₁, hpoint₁⟩ :=
        S.draws.ends _ (List.mem_of_find?_eq_some hfind)
      obtain ⟨i₂, stage₂, site₂, _, _, hstage₂, hsite₂, hexit₂, hpoint₂⟩ := S.draws.ends _ hend
      obtain rfl := S.draws.block_inj hsite₁ hsite₂
        ((Point.mk.inj hpoint₁).1.symm.trans (Point.mk.inj hpoint₂).1)
      obtain rfl := Option.some.inj (hstage₁.symm.trans hstage₂)
      obtain ⟨rfl, -, -⟩ := Exit.closes.inj (Option.some.inj (hexit₁.symm.trans hexit₂))
      rfl
  by_cases hnull : v.isNull
  · simp [watch, found?, Moment.missing?, howner, S.found, hspan, hr, hnull, Moment.world]
  · simp [watch, found?, Moment.missing?, howner, S.found, hr, hnull]

theorem goes_called (S : Setting e p assemblies stops enter a k sites A x) {dst : Reg}
    {callee : Operand} {sig : Signature} {operands : List Operand} {callees : Option (List FuncId)}
    {f : FuncId} {base pos stop : Value} {next : Value → World σ → Ending σ}
    (hq : ∀ plan, (watch assemblies stops plan).Quiet ⟨here, j⟩) (hdst : dst.index < regs.length)
    (hreached : reached? A.args regs (.call dst callee sig operands callees) =
      some (f, [base, pos, stop])) (hpos : pos.isNull = false) (hw : Tidy e p w)
    (hnext : ∀ v w, Tidy e p w → (watch assemblies stops (next v w)).Goes A steps here (j + 1)
      (is, t) none (regs.set dst.index (some v)) w) :
    (watch assemblies stops ((enter f [base, pos, stop] w).andThen next)).Goes A steps here j
      (.call dst callee sig operands callees :: is, t) none regs w := by
  obtain ⟨hcarries, hleaves⟩ := S.calls f base pos stop w hpos hw
  refine goes_call trivial hdst ?_ ?_
  · intro fault hnone
    simp [hreached] at hnone
  · intro f' vs hreached'
    obtain ⟨rfl, rfl⟩ := Prod.mk.inj (Option.some.inj (hreached.symm.trans hreached'))
    rw [notice_calling]
    refine hcarries.andThen S.free ?_ ?_
    · intro v w' hdone
      refine ⟨trivial, ?_⟩
      rw [(hq _ _ _ _ _ _).1, hdone]
      rw [hdone] at hleaves
      exact hnext v w' hleaves
    · intro f₁ s₁ w₁ hmissing hfree v w'
      refine ⟨trivial, ?_⟩
      rw [notice_some, hmissing]
      exact meets_free hfree (fun _ _ => ⟨rfl, hfree _⟩) _ _

def Continues (e : Emitter) (p : Program) (assemblies : List Assembly) (stops : Stop σ)
    (a : Assembly) (sites : List Site) (A : Activation σ)
    (goto : Nat → Answers → World σ → Ending σ) (steps : Nat) : Prop :=
  ∀ steps' ≤ steps, ∀ (i : Nat) (site : Site) (answers : Answers) (regs : Regs) (w : World σ),
    sites[i]? = some site → Matches sites answers regs →
    regs.length = a.draft.body.regs.length → Tidy e p w →
    (watch assemblies stops (goto i answers w)).Runs A steps' site.block none regs w

variable {goto : Nat → Answers → World σ → Ending σ}

theorem goes_close (S : Setting e p assemblies stops enter a k sites A x)
    (hgoto : Continues e p assemblies stops a sites A goto steps)
    (hq : ∀ plan, ∀ i < 3, (watch assemblies stops plan).Quiet ⟨here, j + i⟩) {s : SpanId}
    {span : SpanDecl} {color : Nat} {slots : ColorSlots} {next failed : Nat} {next' failed' : Site}
    (hs : e.locate s = .ok (span, color, slots)) (hnext : sites[next]? = some next')
    (hfailed : sites[failed]? = some failed') {r answer lo hi : Nat} {v : Value}
    (hstart : regs[r]? = some (some v)) (hv : v.isNull = false)
    (hanswer : failed'.answer = some answer) (howned : Owned sites lo hi (some failed))
    (hlo : lo ≤ answer) (hhi : answer + 1 < hi) (hregs : hi ≤ a.draft.body.regs.length)
    (hlen : regs.length = a.draft.body.regs.length) (hmatches : Matches sites answers regs)
    (hw : Tidy e p w) :
    (watch assemblies stops ((enter span.callback [x.base, v, x.pos]
        (put w slots.start.id (.ptr none))).andThen fun code w =>
          goto (if code = .int 0 then next else failed)
            (Function.update answers failed (some code)) w)).Goes A steps here j
      (slots.close span.callback r answer,
        some (.condBr (.reg ⟨answer + 1⟩) next'.block failed'.block .likelyTrue)) none regs w := by
  have hslots := (Emitter.mem_colors_of_locate hs).2.2
  have hlt : answer < regs.length := by omega
  refine goes_store (hq _ 0 (by omega))
    (eval_noStart (S.serves.start_ty (List.mem_of_getElem? hslots)))
    (S.serves.has_field (Emitter.field_start hslots) hw.fits) ?_
  refine S.goes_called (fun plan => hq plan 1 (by omega)) hlt ?_ hv (hw.put fun _ _ _ _ => rfl) ?_
  · rw [S.args]
    exact reached_callback x rfl hstart rfl
  · intro code w hw
    have hcode : (regs.set answer (some code))[answer]? = some (some code) :=
      List.getElem?_set_self hlt
    have hmatches' := (hmatches.update (answer_iff_of_owned howned hfailed hanswer hlo (by omega))
      hlt code).set (not_answer_of_owned_some howned hfailed hanswer (Nat.succ_ne_self _).symm
        (by omega) hhi) (some (.truth (decide (code = .int 0))))
    have hlen' : ((regs.set answer (some code)).set (answer + 1)
        (some (.truth (decide (code = .int 0))))).length = a.draft.body.regs.length := by
      simpa using hlen
    refine goes_answer_set (hq _ 2 (by omega)) (by rw [List.length_set]; omega) hcode ?_
    split
    · exact hgoto _ (Nat.le_refl _) next next' _ _ w hnext hmatches' hlen' hw
    · exact hgoto _ (Nat.le_refl _) failed failed' _ _ w hfailed hmatches' hlen' hw

theorem runs_inner (S : Setting e p assemblies stops enter a k sites A x) {b : Terminator}
    (h : Inner a.draft.body sites here is b)
    (hgo : ∀ steps' < steps, (watch assemblies stops plan).Goes A steps' here 0 (is, some b) g
      regs w) : (watch assemblies stops plan).Runs A steps here g regs w := by
  cases steps with
  | zero => exact runs_zero (.inl ⟨_, rfl⟩)
  | succ steps =>
    refine runs_succ (by rw [S.body]; exact h.code) trivial ?_
    rw [notice_entered]
    exact hgo steps (Nat.lt_succ_self _)

section Exits

variable {i : Nat} {stage : Stage} {site : Site} {s : SpanId} {span : SpanDecl} {color : Nat}
  {slots : ColorSlots} {next failed r : Nat} {next' failed' : Site}

/-- Without a check, the callback is called with the null position. -/
theorem goes_null (S : Setting e p assemblies stops enter a k sites A x)
    (hchecks : e.options.debugChecks = false) (hs : e.locate s = .ok (span, color, slots))
    (hnull : w.memory.get? slots.start.id = some (.ptr none)) {answer : Nat}
    (hstart : regs[r]? = some (some (.ptr none))) (hanswer : answer < regs.length) (f : FuncId) :
    (watch assemblies stops (.missing f s w)).Goes A steps here j
      (slots.close span.callback r answer, t) (some (f, s, w)) regs w := by
  have hslots := (Emitter.mem_colors_of_locate hs).2.2
  -- The start is null already, so that clearing it changes nothing.
  have hput : put w slots.start.id (.ptr none) = w := by
    have hset : w.memory.set slots.start.id (.ptr none) = w.memory := by
      obtain ⟨hlt, hv⟩ := List.getElem?_eq_some_iff.1 hnull
      rw [Memory.set, ← hv, List.set_getElem_self]
    rw [put, hset]
  rcases S.null hchecks s span color slots hs f x.base x.pos w with hfree |
    ⟨fault, hinner, henter, hstop⟩
  · exact meets_free hfree (fun _ _ => ⟨rfl, hfree _⟩) _ _
  · refine goes_step rfl
      (exec_store (eval_noStart (S.serves.start_ty (List.mem_of_getElem? hslots))) hnull) trivial ?_
    have hreached : reached? x.args regs (.call ⟨answer⟩ (.func span.callback) slots.sig
        [stateArg, .reg ⟨r⟩, posArg] none) = some (span.callback, [x.base, .ptr none, x.pos]) :=
      reached_callback x rfl hstart rfl
    rw [notice_some, hput]
    refine goes_call trivial hanswer ?_ ?_
    · intro fault hnone
      simp [S.args, hreached] at hnone
    · intro f' vs hreached'
      rw [S.args, hreached] at hreached'
      obtain ⟨rfl, rfl⟩ := Prod.mk.inj (Option.some.inj hreached')
      rw [hinner, henter]
      exact .inr ⟨rfl, hstop⟩

theorem goes_closes (S : Setting e p assemblies stops enter a k sites A x)
    (hgoto : Continues e p assemblies stops a sites A goto steps)
    (hstage : k.stages[i]? = some stage) (hsite : sites[i]? = some site)
    (hchecks : e.options.debugChecks = false) (hs : e.locate s = .ok (span, color, slots))
    (hends : (⟨site.block, (stage.lead e site.answer).length⟩, s) ∈ a.ends)
    (hr : r + 3 ≤ a.draft.body.regs.length) (howned : Owned sites r (r + 3) (some failed))
    (hnext : sites[next]? = some next') (hfailed : sites[failed]? = some failed')
    (hanswer : failed'.answer = some (r + 1)) (hlen : regs.length = a.draft.body.regs.length)
    (hmatches : Matches sites answers regs) (hw : Tidy e p w) :
    (watch assemblies stops (Plan.through e enter a.draft.body.id x goto answers w
        (.closes s next failed))).Goes A steps site.block (stage.lead e site.answer).length
      (.load ⟨r⟩ slots.start.id slots.start.ty :: slots.close span.callback r (r + 1),
        some (.condBr (.reg ⟨r + 2⟩) next'.block failed'.block .likelyTrue)) none regs w := by
  have hslots := (Emitter.mem_colors_of_locate hs).2.2
  obtain ⟨v, hv⟩ := (S.serves.has_field (Emitter.field_start hslots) hw.fits).get?
  have hrlt : r < regs.length := by omega
  have hstart : (regs.set r (some v))[r]? = some (some v) := List.getElem?_set_self hrlt
  refine goes_step rfl (exec_load hv hrlt) trivial ?_
  rw [S.notice_end hstage hsite hends hrlt, Plan.through, hs]
  simp only [World.look_eq hv]
  by_cases hnull : v.isNull
  · obtain rfl := hw.starts slots (List.mem_of_getElem? hslots) v hv hnull
    rw [if_pos hnull, if_pos hnull]
    exact S.goes_null hchecks hs hv hstart (by simp; omega) _
  · rw [if_neg hnull, if_neg hnull]
    refine S.goes_close hgoto (fun plan i _ => S.quiet_lead hstage hsite (.inl (by omega))) hs hnext
      hfailed hstart (by simpa using hnull) hanswer howned (by omega) (by omega) hr
      (by simpa using hlen) ?_ hw
    exact hmatches.set (not_answer_of_owned_some howned hfailed hanswer (by omega) (by omega)
      (by omega)) _

theorem goes_checks (S : Setting e p assemblies stops enter a k sites A x)
    (hgoto : Continues e p assemblies stops a sites A goto steps)
    (hstage : k.stages[i]? = some stage) (hsite : sites[i]? = some site) {trap opened : BlockId}
    (hchecks : e.options.debugChecks = true) (hs : e.locate s = .ok (span, color, slots))
    (hends : (⟨site.block, (stage.lead e site.answer).length⟩, s) ∈ a.ends)
    (hr : r + 4 ≤ a.draft.body.regs.length) (howned : Owned sites r (r + 4) (some failed))
    (hnext : sites[next]? = some next') (hfailed : sites[failed]? = some failed')
    (hanswer : failed'.answer = some (r + 2))
    (htrap : Inner a.draft.body sites trap [] .unreachable)
    (hopened : Inner a.draft.body sites opened (slots.close span.callback r (r + 2))
      (.condBr (.reg ⟨r + 3⟩) next'.block failed'.block .likelyTrue))
    (hlen : regs.length = a.draft.body.regs.length) (hmatches : Matches sites answers regs)
    (hw : Tidy e p w) :
    (watch assemblies stops (Plan.through e enter a.draft.body.id x goto answers w
        (.closes s next failed))).Goes A steps site.block (stage.lead e site.answer).length
      (slots.test .eq r, some (.condBr (.reg ⟨r + 1⟩) trap opened .likelyFalse)) none regs w := by
  have hslots := (Emitter.mem_colors_of_locate hs).2.2
  obtain ⟨v, hv⟩ := (S.serves.has_field (Emitter.field_start hslots) hw.fits).get?
  have hrlt : r < regs.length := by omega
  have hstart : (regs.set r (some v))[r]? = some (some v) := List.getElem?_set_self hrlt
  have hlt : r + 1 < (regs.set r (some v)).length := by rw [List.length_set]; omega
  refine goes_step rfl (exec_load hv hrlt) trivial ?_
  rw [S.notice_end hstage hsite hends hrlt, Plan.through, hs]
  simp only [World.look_eq hv]
  refine goes_quiet rfl (S.quiet_lead hstage hsite (.inl (by omega)))
    (exec_icmp (Operand.eval_reg hstart)
      (eval_noStart (S.serves.start_ty (List.mem_of_getElem? hslots))) hlt) ?_
  refine goes_condBr (Operand.eval_reg (List.getElem?_set_self hlt)) ?_
  rw [Comparison.holds, same_null]
  by_cases hnull : v.isNull
  · rw [if_pos hnull, if_pos hnull, if_pos hnull]
    refine S.runs_inner htrap fun steps' _ => goes_leave (by simp [leave]) (by simp [leave]) ?_
    intro fault hfault
    obtain rfl := Except.error.inj hfault
    rw [S.body]
    exact .inr ⟨rfl, S.trap hchecks s w⟩
  · rw [if_neg hnull, if_neg hnull, if_neg hnull]
    refine S.runs_inner hopened fun steps' hsteps => ?_
    have hstart' : ((regs.set r (some v)).set (r + 1) (some (.truth v.isNull)))[r]? =
        some (some v) := by
      rw [List.getElem?_set_ne (by omega)]
      exact hstart
    refine S.goes_close (fun n hn => hgoto n (by omega)) (fun plan i _ => S.quiet_inner hopened) hs
      hnext hfailed hstart' (by simpa using hnull) hanswer howned (by omega) (by omega) hr
      (by simpa using hlen) ?_ hw
    have hkeep := fun y (hne : r + 2 ≠ y) hlo hhi =>
      not_answer_of_owned_some howned hfailed hanswer hne hlo (y := y) hhi
    exact (hmatches.set (hkeep r (by omega) (by omega) (by omega)) _).set
      (hkeep (r + 1) (by omega) (by omega) (by omega)) _

theorem goes_rebases (S : Setting e p assemblies stops enter a k sites A x)
    (hgoto : Continues e p assemblies stops a sites A goto steps)
    (hq : ∀ plan, ∀ i < 2, (watch assemblies stops plan).Quiet ⟨here, j + i⟩) {restart : BlockId}
    (hslots : e.colors[color]? = some slots) (hr : r + 2 ≤ a.draft.body.regs.length)
    (howned : Owned sites r (r + 2) none) (hnext : sites[next]? = some next')
    (hrestart : Inner a.draft.body sites restart [.store slots.start.id posArg] (.br next'.block))
    (hlen : regs.length = a.draft.body.regs.length) (hmatches : Matches sites answers regs)
    (hw : Tidy e p w) :
    (watch assemblies stops (Plan.through e enter a.draft.body.id x goto answers w
        (.rebases color next))).Goes A steps here j
      (slots.test .ne r, some (.condBr (.reg ⟨r + 1⟩) restart next'.block .none)) none regs w := by
  have hhas := S.serves.has_field (Emitter.field_start hslots) hw.fits
  obtain ⟨v, hv⟩ := hhas.get?
  have hkeep := fun y hlo hhi => not_answer_of_owned howned (y := y) hlo hhi
  refine goes_test_set (hq _) (S.serves.start_ty (List.mem_of_getElem? hslots)) (by omega) hv ?_
  have hmatches' := (hmatches.set (hkeep r (by omega) (by omega)) (some v)).set
    (hkeep (r + 1) (by omega) (by omega)) (some (.truth (Comparison.ne.holds v (.ptr none))))
  rw [Plan.through, hslots]
  simp only [World.look_eq hv]
  by_cases hnull : v.isNull
  · rw [if_pos hnull, if_neg (by simp [Comparison.holds, same_null, hnull])]
    exact hgoto _ (Nat.le_refl _) next next' answers _ w hnext hmatches' (by simpa using hlen) hw
  · rw [if_neg hnull, if_pos (by simp [Comparison.holds, same_null, hnull])]
    refine S.runs_inner hrestart fun steps' hsteps => ?_
    refine goes_store (S.quiet_inner hrestart) (by rw [S.args]; rfl) hhas (goes_br ?_)
    exact hgoto _ (by omega) next next' answers _ _ hnext hmatches' (by simpa using hlen)
      (hw.put_of_ne_null _ S.pos)

theorem goes_flushed (S : Setting e p assemblies stops enter a k sites A x)
    (hgoto : Continues e p assemblies stops a sites A goto steps)
    (hq : ∀ plan, (watch assemblies stops plan).Quiet ⟨here, j⟩) {answer : Nat} {code : Value}
    {lost : BlockId} (hanswer : answer + 1 < a.draft.body.regs.length)
    (hcode : regs[answer]? = some (some code))
    (hkeep : ∀ (i : Nat) (site : Site), sites[i]? = some site → site.answer ≠ some (answer + 1))
    (hnext : sites[next]? = some next')
    (hlost : Inner a.draft.body sites lost (e.record.stores endArg (.reg ⟨answer⟩))
      (.ret (.reg ⟨answer⟩)))
    (hlen : regs.length = a.draft.body.regs.length) (hmatches : Matches sites answers regs)
    (hw : Tidy e p w) :
    (watch assemblies stops (if code = .int 0 then goto next answers w
        else .done code (recorded e.record x.stop code w))).Goes A steps here j
      ([.icmp ⟨answer + 1⟩ .eq (.reg ⟨answer⟩) (.status 0)],
        some (.condBr (.reg ⟨answer + 1⟩) next'.block lost .likelyTrue)) none regs w := by
  refine goes_answer_set (hq _) (by omega) hcode ?_
  split
  · exact hgoto _ (Nat.le_refl _) next next' answers _ w hnext (hmatches.set hkeep _)
      (by simpa using hlen) hw
  · have hcode' : (regs.set (answer + 1) (some (.truth (decide (code = .int 0)))))[answer]? =
        some (some code) := by
      rw [List.getElem?_set_ne (by omega)]
      exact hcode
    refine S.runs_inner hlost fun steps' _ => ?_
    rw [← List.append_nil (e.record.stores _ _)]
    refine goes_stores (fun i _ => S.quiet_inner hlost) (by rw [S.args]; rfl)
      (Operand.eval_reg hcode') (S.serves.has_field (x := .error) rfl hw.fits)
      (S.serves.has_field (x := .reason) rfl hw.fits)
      (S.serves.has_field (x := .errorPos) rfl hw.fits) ?_
    exact goes_ret (Operand.eval_reg hcode') ⟨rfl, rfl⟩

theorem goes_present (S : Setting e p assemblies stops enter a k sites A x)
    (hgoto : Continues e p assemblies stops a sites A goto steps)
    (hq : ∀ plan i, (watch assemblies stops plan).Quiet ⟨here, i⟩) {lost : BlockId} {v : Value}
    (hslots : e.colors[color]? = some slots)
    (hr : slots.dispatch.answer (r + 2) + 2 ≤ a.draft.body.regs.length)
    (howned : Owned sites r (slots.dispatch.answer (r + 2) + 2) none)
    (hnext : sites[next]? = some next')
    (hlost : Inner a.draft.body sites lost
      (e.record.stores endArg (.reg ⟨slots.dispatch.answer (r + 2)⟩))
      (.ret (.reg ⟨slots.dispatch.answer (r + 2)⟩)))
    (hstart : regs[r]? = some (some v)) (hv : v.isNull = false)
    (hlen : regs.length = a.draft.body.regs.length) (hmatches : Matches sites answers regs)
    (hw : Tidy e p w) :
    (watch assemblies stops
      (match slots.dispatch.callee w with
      | .error fault => .fails fault w
      | .ok callee => (enter callee [x.base, v, x.stop] w).andThen fun code w =>
          if code = .int 0 then goto next answers w
          else .done code (recorded e.record x.stop code w))).Goes A steps here 0
      (slots.dispatch.calling slots.sig [stateArg, .reg ⟨r⟩, endArg] e.options.calleeHints
          (r + 2) ++
        [.icmp ⟨slots.dispatch.answer (r + 2) + 1⟩ .eq (.reg ⟨slots.dispatch.answer (r + 2)⟩)
          (.status 0)],
        some (.condBr (.reg ⟨slots.dispatch.answer (r + 2) + 1⟩) next'.block lost .likelyTrue))
      none regs w := by
  have hkeep := fun y hlo hhi => not_answer_of_owned howned (y := y) hlo hhi
  cases hd : slots.dispatch with
  | direct callee =>
    simp only [hd, Dispatch.calling, Dispatch.answer, List.singleton_append] at hr hkeep hlost ⊢
    have hlt : r + 2 < regs.length := by omega
    refine S.goes_called (fun plan => hq plan 0) hlt ?_ hv hw fun code w hw => ?_
    · rw [S.args]
      exact reached_callback x rfl hstart rfl
    · exact S.goes_flushed hgoto (fun plan => hq plan 1) (by omega)
        (List.getElem?_set_self hlt) (hkeep (r + 3) (by omega) (by omega)) hnext hlost
        (by simpa using hlen) (hmatches.set (hkeep (r + 2) (by omega) (by omega)) _) hw
  | indirect slot candidates =>
    obtain ⟨u, hu⟩ := (S.serves.has_field (S.serves.field_slot hslots hd) hw.fits).get?
    simp only [hd, Dispatch.calling, Dispatch.answer, Dispatch.callee, World.look_eq hu,
      List.cons_append, List.nil_append] at hr hkeep hlost ⊢
    have hlt : r + 2 < regs.length := by omega
    have hload : (regs.set (r + 2) (some u))[r + 2]? = some (some u) := List.getElem?_set_self hlt
    have hstart' : (regs.set (r + 2) (some u))[r]? = some (some v) := by
      rw [List.getElem?_set_ne (by omega)]
      exact hstart
    refine goes_quiet rfl (hq _ 0) (exec_load hu hlt) ?_
    cases hcallee : asCallee u with
    | error fault =>
      exact goes_callee_error (Operand.eval_reg hload) hcallee trivial
        (.inr ⟨by simp, fault, rfl, rfl⟩)
    | ok callee =>
      obtain rfl := asCallee_ok hcallee
      refine S.goes_called (fun plan => hq plan 1) (by simp; omega) ?_ hv hw fun code w hw => ?_
      · rw [S.args]
        exact reached_callback x (Operand.eval_reg hload) hstart' rfl
      · exact S.goes_flushed hgoto (fun plan => hq plan 2) (by omega)
          (List.getElem?_set_self (by simp; omega)) (hkeep (r + 4) (by omega) (by omega)) hnext
          hlost (by simpa using hlen) ((hmatches.set (hkeep (r + 2) (by omega) (by omega)) _).set
            (hkeep (r + 3) (by omega) (by omega)) _) hw

theorem goes_flushes (S : Setting e p assemblies stops enter a k sites A x)
    (hgoto : Continues e p assemblies stops a sites A goto steps)
    (hq : ∀ plan, ∀ i < 2, (watch assemblies stops plan).Quiet ⟨here, j + i⟩)
    {present lost : BlockId} (hslots : e.colors[color]? = some slots)
    (hr : slots.dispatch.answer (r + 2) + 2 ≤ a.draft.body.regs.length)
    (howned : Owned sites r (slots.dispatch.answer (r + 2) + 2) none)
    (hnext : sites[next]? = some next')
    (hpresent : Inner a.draft.body sites present
      (slots.dispatch.calling slots.sig [stateArg, .reg ⟨r⟩, endArg] e.options.calleeHints
          (r + 2) ++
        [.icmp ⟨slots.dispatch.answer (r + 2) + 1⟩ .eq (.reg ⟨slots.dispatch.answer (r + 2)⟩)
          (.status 0)])
      (.condBr (.reg ⟨slots.dispatch.answer (r + 2) + 1⟩) next'.block lost .likelyTrue))
    (hlost : Inner a.draft.body sites lost
      (e.record.stores endArg (.reg ⟨slots.dispatch.answer (r + 2)⟩))
      (.ret (.reg ⟨slots.dispatch.answer (r + 2)⟩)))
    (hlen : regs.length = a.draft.body.regs.length) (hmatches : Matches sites answers regs)
    (hw : Tidy e p w) :
    (watch assemblies stops (Plan.through e enter a.draft.body.id x goto answers w
        (.flushes color next))).Goes A steps here j
      (slots.test .ne r, some (.condBr (.reg ⟨r + 1⟩) present next'.block .none)) none regs w := by
  obtain ⟨v, hv⟩ := (S.serves.has_field (Emitter.field_start hslots) hw.fits).get?
  have hkeep := fun y hlo hhi => not_answer_of_owned howned (y := y) hlo hhi
  have hle : r + 2 ≤ slots.dispatch.answer (r + 2) := by
    cases slots.dispatch <;> simp [Dispatch.answer]
  refine goes_test_set (hq _) (S.serves.start_ty (List.mem_of_getElem? hslots)) (by omega) hv ?_
  have hmatches' := (hmatches.set (hkeep r (by omega) (by omega)) (some v)).set
    (hkeep (r + 1) (by omega) (by omega)) (some (.truth (Comparison.ne.holds v (.ptr none))))
  rw [Plan.through, hslots]
  simp only [World.look_eq hv]
  by_cases hnull : v.isNull
  · rw [if_pos hnull, if_neg (by simp [Comparison.holds, same_null, hnull])]
    exact hgoto _ (Nat.le_refl _) next next' answers _ w hnext hmatches' (by simpa using hlen) hw
  · rw [if_neg hnull, if_pos (by simp [Comparison.holds, same_null, hnull])]
    refine S.runs_inner hpresent fun steps' hsteps => ?_
    refine S.goes_present (fun n hn => hgoto n (by omega)) (fun plan i => S.quiet_inner hpresent)
      hslots hr howned hnext hlost ?_ (by simpa using hnull) (by simpa using hlen) hmatches' hw
    rw [List.getElem?_set_ne (by omega)]
    exact List.getElem?_set_self (by omega)

theorem eval_constant {value : Operand} (h : value.isConstant) (args : List Value) (regs : Regs) :
    ∃ v, value.eval args regs = .ok v ∧ value.eval [] [] = .ok v := by
  cases value with
  | param i => simp [Operand.isConstant] at h
  | reg r => simp [Operand.isConstant] at h
  | _ => exact ⟨_, rfl, rfl⟩

theorem goes_exit (S : Setting e p assemblies stops enter a k sites A x)
    (hgoto : Continues e p assemblies stops a sites A goto steps)
    (hstage : k.stages[i]? = some stage) (hsite : sites[i]? = some site) {exit : Exit}
    (hexit : stage.exit = some exit)
    (hleaving : Leaving e a.draft.body a.ends sites site.block (stage.lead e site.answer).length
      (some exit) is t)
    (hlen : regs.length = a.draft.body.regs.length) (hmatches : Matches sites answers regs)
    (hw : Tidy e p w) :
    (watch assemblies stops (Plan.through e enter a.draft.body.id x goto answers w exit)).Goes A
      steps site.block (stage.lead e site.answer).length (is, t) none regs w := by
  have hplain : ∀ plan i, (∀ s next failed, exit ≠ .closes s next failed) →
      (watch assemblies stops plan).Quiet ⟨site.block, (stage.lead e site.answer).length + i⟩ := by
    intro plan i hne
    refine S.quiet_lead hstage hsite (.inr fun s next failed heq => hne s next failed ?_)
    exact Option.some.inj (hexit.symm.trans heq)
  cases hleaving with
  | closes hchecks hs hends hr howned hnext hfailed hanswer =>
    exact S.goes_closes hgoto hstage hsite hchecks hs hends hr howned hnext hfailed hanswer hlen
      hmatches hw
  | checks hchecks hs hends hr howned hnext hfailed hanswer htrap hopened =>
    exact S.goes_checks hgoto hstage hsite hchecks hs hends hr howned hnext hfailed hanswer htrap
      hopened hlen hmatches hw
  | rebases hslots hr howned hnext hrestart =>
    exact S.goes_rebases hgoto (fun plan i _ => hplain plan i (by simp)) hslots hr howned hnext
      hrestart hlen hmatches hw
  | flushes hslots hr howned hnext hpresent hfailed =>
    exact S.goes_flushes hgoto (fun plan i _ => hplain plan i (by simp)) hslots hr howned hnext
      hpresent hfailed hlen hmatches hw
  | resumes =>
    exact goes_store (hplain _ 0 (by simp)) rfl (S.serves.has_field (x := .current) rfl hw.fits)
      (goes_ret rfl ⟨rfl, rfl⟩)
  | jumps htarget =>
    exact goes_br (hgoto _ (Nat.le_refl _) _ _ answers regs w htarget hmatches hlen hw)
  | @branches bits value onTrue onFalse onTrue' onFalse' hint htrue hfalse =>
    have hl : leave A.body A.args regs
        (some (.condBr (.int bits value) onTrue'.block onFalse'.block hint)) =
          .ok (.goto (if value = 0 then onFalse'.block else onTrue'.block)) := by
      by_cases hzero : value = 0 <;>
        simp [leave, Operand.eval, asCondition, bind, Except.bind, pure, Except.pure, hzero]
    refine goes_leave ?_ (by simp [hl]) (by simp [hl])
    intro target htarget
    obtain rfl := Leave.goto.inj (Except.ok.inj (hl.symm.trans htarget))
    rw [Plan.through]
    split
    · exact hgoto _ (Nat.le_refl _) _ _ answers regs w hfalse hmatches hlen hw
    · exact hgoto _ (Nat.le_refl _) _ _ answers regs w htrue hmatches hlen hw
  | returns hvalue =>
    obtain ⟨v, hv, hv'⟩ := eval_constant hvalue A.args regs
    refine goes_ret hv ?_
    rw [Plan.through, hv']
    exact ⟨rfl, rfl⟩

end Exits

theorem goes_opens (S : Setting e p assemblies stops enter a k sites A x) (spans : List SpanId)
    (hq : ∀ i < (spans.flatMap e.openingOf).length,
      (watch assemblies stops plan).Quiet ⟨here, j + i⟩) (hw : Tidy e p w)
    (h : (watch assemblies stops plan).Goes A steps here (j + (spans.flatMap e.openingOf).length)
      (is, t) none regs (e.openAll x.pos spans w)) :
    (watch assemblies stops plan).Goes A steps here j (spans.flatMap e.openingOf ++ is, t) none
      regs w := by
  induction spans generalizing j w with
  | nil => exact h
  | cons s spans ih =>
    rw [List.flatMap_cons, List.length_append] at hq h
    rw [List.flatMap_cons, List.append_assoc]
    change (watch assemblies stops plan).Goes A steps here _ (is, t) none regs
      (e.openAll x.pos spans (e.openOne x.pos w s)) at h
    cases hs : e.locate s with
    | error fault =>
      simp only [Emitter.openingOf, Emitter.openOne, hs, List.nil_append, List.length_nil,
        Nat.zero_add] at hq h ⊢
      exact ih hq hw h
    | ok found =>
      obtain ⟨span, color, slots⟩ := found
      obtain ⟨-, -, hslots⟩ := Emitter.mem_colors_of_locate hs
      have hlength : (slots.opening span.callback).length = slots.slot?.toList.length + 1 := by
        simp [ColorSlots.opening]
      rw [Emitter.openingOf_eq hs] at hq h ⊢
      simp only [Emitter.openOne, hs] at h
      refine goes_opening (fun i hi => hq i (by omega)) (by rw [S.args]; rfl)
        (S.serves.has_field (Emitter.field_start hslots) hw.fits) ?_ fun i => ⟨trivial, ?_⟩
      · intro slot hslot
        exact S.serves.has_field (Emitter.field_of_slot? hslots hslot) hw.fits
      · rw [(hq slots.slot?.toList.length (by omega) _ _ _ _ _).1]
        refine ih (fun i hi => ?_) (hw.opened _ _ S.pos) ?_
        · rw [Nat.add_assoc]
          exact hq _ (by omega)
        · rw [Nat.add_assoc]
          exact h

/-- A stage begins, on a failure path with the stores of the error record. -/
theorem goes_lead (S : Setting e p assemblies stops enter a k sites A x) {i : Nat} {stage : Stage}
    {site : Site} (hstage : k.stages[i]? = some stage) (hsite : sites[i]? = some site)
    (hmatches : Matches sites answers regs) (hw : Tidy e p w)
    {exit : Exit}
    (h : ∀ w, Tidy e p w → (watch assemblies stops
      (Plan.through e enter a.draft.body.id x goto answers w exit)).Goes A steps site.block
      (stage.lead e site.answer).length (is, t) none regs w) :
    (watch assemblies stops
      (match stage.begin? e x.pos (answers i) w with
      | none => .fails (.undefinedReg ⟨0⟩) w
      | some w => Plan.through e enter a.draft.body.id x goto answers
          (e.openAll x.pos stage.opens w) exit)).Goes A steps site.block 0
      (stage.lead e site.answer ++ is, t) none regs w := by
  have hfailure := (S.draws.drawn i stage site hstage hsite).failure
  have hq : ∀ plan, ∀ j < (stage.lead e site.answer).length,
      (watch assemblies stops plan).Quiet ⟨site.block, j⟩ :=
    fun plan j hj => S.quiet_lead hstage hsite (.inl hj.ne)
  cases hanswer : site.answer with
  | none =>
    rw [hanswer] at hfailure hq h
    simp only [Stage.begin?, hfailure, Option.isSome_none, Bool.false_eq_true, ↓reduceIte]
    refine S.goes_opens stage.opens (fun j hj => ?_) hw ?_
    · rw [Nat.zero_add]
      exact hq _ j hj
    · rw [Nat.zero_add]
      exact h _ (hw.openAll S.pos _)
  | some r =>
    have hreg := hmatches i site r hsite hanswer
    rw [hanswer] at hfailure hq h
    simp only [Stage.begin?, hfailure, Option.isSome_some, ↓reduceIte]
    have hlength : (stage.lead e (some r)).length =
        3 + (stage.opens.flatMap e.openingOf).length := by
      rw [Stage.lead, List.length_append]
      rfl
    rw [Stage.lead, Option.elim_some, List.append_assoc]
    cases hcode : answers i with
    | none =>
      have herror : exec A.enter A.args regs (.store e.record.error.id (.reg ⟨r⟩)) w =
          .error (.undefinedReg ⟨r⟩) w :=
        bind_of_error (by simp [Operand.eval, hreg, hcode])
      exact goes_error rfl herror (.inr ⟨rfl, _, rfl, rfl⟩)
    | some code =>
      have heval : (Operand.reg ⟨r⟩).eval A.args regs = .ok code :=
        Operand.eval_reg (by rw [hreg, hcode])
      refine goes_stores (fun j hj => ?_) (by rw [S.args]; rfl) heval
        (S.serves.has_field (x := .error) rfl hw.fits)
        (S.serves.has_field (x := .reason) rfl hw.fits)
        (S.serves.has_field (x := .errorPos) rfl hw.fits) ?_
      · exact hq _ (0 + j) (by omega)
      · refine S.goes_opens stage.opens (fun j hj => hq _ _ (by omega))
          (hw.recorded S.serves x.pos code) ?_
        rw [Nat.zero_add, ← hlength]
        exact h _ ((hw.recorded S.serves x.pos code).openAll S.pos _)

theorem runs (S : Setting e p assemblies stops enter a k sites A x) (fuel : Nat) :
    Continues e p assemblies stops a sites A
      (Plan.run e enter a.draft.body.id k.stages x fuel) fuel := by
  -- A stage takes one block or more, so the steps are used up no later than the plan's fuel is.
  induction fuel with
  | zero =>
    intro steps hsteps i site answers regs w _ _ _ _
    obtain rfl := Nat.le_zero.1 hsteps
    exact runs_zero (.inl ⟨_, rfl⟩)
  | succ fuel ih =>
    intro steps hsteps i site answers regs w hsite hmatches hlen hw
    cases steps with
    | zero => exact runs_zero (.inl ⟨_, rfl⟩)
    | succ steps =>
      have hlt : i < k.stages.length := by
        rw [← S.draws.length]
        exact (List.getElem?_eq_some_iff.1 hsite).1
      have hstage : k.stages[i]? = some k.stages[i] := List.getElem?_eq_getElem hlt
      generalize k.stages[i] = stage at hstage
      obtain ⟨is, t, hcode, hleaving⟩ := (S.draws.drawn i stage site hstage hsite).code
      have hterm : t.isSome := Body.isSome_of_verify S.verified hcode
      refine runs_succ (by rw [S.body]; exact hcode) trivial ?_
      rw [notice_entered, Plan.run, hstage]
      cases hexit : stage.exit with
      | none =>
        rw [hexit] at hleaving
        cases hleaving
        simp at hterm
      | some exit =>
        rw [hexit] at hleaving
        simp only [hexit]
        exact S.goes_lead hstage hsite hmatches hw fun w hw =>
          S.goes_exit (fun n hn => ih n (by omega)) hstage hsite hexit hleaving hlen hmatches hw

end Setting

end Checks

end SpanTracking
