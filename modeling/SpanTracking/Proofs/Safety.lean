import SpanTracking.Proofs.Slots

set_option autoImplicit false

namespace SpanTracking

variable {σ : Type}

namespace Operand

def isFixed : Operand → Bool
  | param i => i < parserParams.length
  | reg _ => false
  | _ => true

def isStatus : Operand → Bool
  | int bits n => bits = 32 ∧ -2147483648 ≤ n ∧ n < 2147483648
  | _ => false

theorem eval_of_isStatus {value : Operand} (h : value.isStatus) (args : List Value) (regs : Regs) :
    ∃ code : Int32, value.eval args regs = .ok (.int code.toInt) := by
  cases value with
  | int bits n =>
    obtain ⟨-, hle, hlt⟩ : bits = 32 ∧ -2147483648 ≤ n ∧ n < 2147483648 := by
      simpa [isStatus] using h
    exact ⟨Int32.ofInt n, by rw [eval, Int32.toInt_ofInt_of_le hle hlt]⟩
  | _ => simp [isStatus] at h

end Operand

def Instr.isFixedTest : Instr → Bool
  | icmp _ _ lhs rhs => lhs.isFixed ∧ rhs.isFixed
  | _ => false

theorem Instr.of_isFixedTest {i : Instr} (h : i.isFixedTest) :
    ∃ dst how lhs rhs, i = .icmp dst how lhs rhs ∧ lhs.isFixed ∧ rhs.isFixed := by
  cases i with
  | icmp dst how lhs rhs => exact ⟨dst, how, lhs, rhs, rfl, by simpa [isFixedTest] using h⟩
  | _ => simp [isFixedTest] at h

namespace Draft

/-- The author leaves a block without a condition, by a constant, or by a comparison that was
appended to the same block. -/
def decides (d : Draft) (here : BlockId) : Terminator → Bool
  | .br _ => true
  | .condBr (.int _ _) _ _ _ => true
  | .condBr (.reg r) _ _ _ => d.own.any fun x => x.1 = here ∧ x.2.dst? = some r
  | .ret value => value.isStatus
  | _ => false

/-- Besides span operations, the author uses tests of constants and parameters, and branches only to
control points other than failure paths. -/
structure Disciplined (d : Draft) : Prop where
  own : ∀ x ∈ d.own, x.2.isFixedTest
  exits : ∀ x ∈ d.exits, d.decides x.1 x.2
  targets : ∀ x ∈ d.exits, ∀ target ∈ x.2.targets,
    target ∈ d.points ∧ ∀ path ∈ d.paths, path.block ≠ target

instance (d : Draft) : Decidable d.Disciplined :=
  decidable_of_iff (_ ∧ _ ∧ _) ⟨fun h => ⟨h.1, h.2.1, h.2.2⟩, fun h => ⟨h.own, h.exits, h.targets⟩⟩

end Draft

/-- The faults that are no fault of the code: the steps are used up, a callback gets no start, or a
check has found none. -/
def Fault.Benign (checks : Bool) : Fault → Prop
  | stepLimit _ => True
  | nullPosition _ => True
  | trap _ => checks = true
  | _ => False

structure Invocation (σ : Type) where
  host : Host σ
  limit : Nat
  depth : Nat
  callee : FuncId
  pos : Nat
  stop : Nat

def Machine.outcomes (p : Program) : List (Invocation σ) → World σ → List (Except Fault Int32)
  | [], _ => []
  | q :: rest, w =>
    match invoke p q.host q.limit q.depth q.callee q.pos q.stop w with
    | .ok code w' => .ok code :: outcomes p rest w'
    | .error fault w' => .error fault :: outcomes p rest w'

theorem Body.isSome_of_verify {b : Body} (h : b.verify = .ok ()) {here : BlockId} {code : Code}
    (hcode : b.code? here = some code) : code.2.isSome := by
  obtain ⟨block, hblock, rfl⟩ := List.mem_map.1 (List.mem_of_getElem? (code?_some.1 hcode).2)
  have hverify := forM_eq_ok.1 h block hblock
  cases hterm : block.term with
  | none => simp [verifyBlock, hterm] at hverify
  | some t => simp [Block.code, hterm]

theorem Body.code_of_verify {b : Body} (h : b.verify = .ok ()) {here : BlockId} {is : List Instr}
    {t : Terminator} (hcode : b.code? here = some (is, some t)) {target : BlockId}
    (htarget : target ∈ t.targets) : (b.code? target).isSome := by
  obtain ⟨block, hblock, hb⟩ := List.mem_map.1 (List.mem_of_getElem? (code?_some.1 hcode).2)
  have hterm : block.term = some t := (congrArg Prod.snd hb)
  have hverify := forM_eq_ok.1 h block hblock
  rw [verifyBlock, hterm] at hverify
  have hall : t.targets.all (fun t => (b.block? t).isSome) = true := by
    by_contra hnot
    simp [hnot] at hverify
  simpa [code?] using List.all_eq_true.1 hall target htarget

namespace Safety

variable {e : Emitter} {p : Program}

def Safe (e : Emitter) (p : Program) (m : Memory) : Prop := ∃ spans, Slots.Good e p spans m

section Safe

variable {m : Memory} {color : Nat} {slots : ColorSlots}

theorem Safe.has (h : Safe e p m) (he : e.Serves p) {x : Place} {f : Field}
    (hf : e.field? x = some f) : m.Has f.id :=
  h.elim fun _ hgood => he.has_field hf hgood.fits

theorem Safe.set_other (h : Safe e p m) (he : e.Serves p) {field : FieldId} (v : Value)
    (hfield : field ∉ e.spanFields) : Safe e p (m.set field v) :=
  h.imp fun _ hgood => hgood.set_other he v hfield

theorem Safe.set_start (h : Safe e p m) (he : e.Serves p) (hs : e.colors[color]? = some slots)
    (v : Value)
    (hv : v.isNull ∨ ∃ start, m.get? slots.start.id = some start ∧ start.isNull = false) :
    Safe e p (m.set slots.start.id v) :=
  h.imp fun _ hgood => hgood.set_start he hs v hv

theorem Safe.opened {w : World σ} (h : Safe e p w.memory) (he : e.Serves p) {s : SpanId}
    {span : SpanDecl} (hs : e.locate s = .ok (span, color, slots)) (pos : Value) :
    Safe e p (Machine.opened slots span.callback pos w).memory :=
  h.elim fun _ hgood => ⟨_, hgood.opened he hs pos⟩

end Safe

def Defined (regs : Regs) (r : Nat) : Prop := ∃ v, regs[r]? = some (some v)

def Opened (m : Memory) (slots : ColorSlots) : Prop :=
  ∃ start, m.get? slots.start.id = some start ∧ start.isNull = false

def Relies (regs : Regs) (m : Memory) : Role → Prop
  | .plain => True
  | .failed answer => Defined regs answer
  | .trap => True
  | .opened _ start => Defined regs start
  | .restart slots => Opened m slots
  | .present slots start => Defined regs start ∧ Opened m slots
  | .flushFailed answer => ∃ code : Int32, regs[answer]? = some (some (.int code.toInt))

def watch (σ : Type) (e : Emitter) (p : Program) : Watch σ Unit where
  notice _ _ := ()
  holds _ _ := True
  done _ v w := Safe e p w.memory ∧ ∃ code : Int32, v = .int code.toInt
  failed _ fault w := Safe e p w.memory ∧ fault.Benign e.options.debugChecks

section Body

open Machine Watch Draft

variable {roles : List Role} {A : Activation σ} {steps : Nat} {here : BlockId} {k : Nat}
  {is : List Instr} {t : Option Terminator} {regs : Regs} {w : World σ}

theorem quiet (point : Point) : (watch σ e p).Quiet point := fun _ _ _ _ _ => ⟨rfl, trivial⟩

/-- The comparisons of the author in the block `here` are still to come, or have a result. -/
def Tested (d : Draft) (here : BlockId) (is : List Instr) (regs : Regs) : Prop :=
  ∀ i, (here, i) ∈ d.own → i ∈ is ∨
    ∀ r, i.dst? = some r → ∃ n, regs[r.index]? = some (some (.int n))

theorem Tested.skip {d : Draft} {front : List Instr} (h : Tested d here (front ++ is) regs)
    (hown : ∀ x ∈ d.own, x.2.isFixedTest) (hfront : ∀ i ∈ front, i.isFixedTest = false) :
    Tested d here is regs := by
  intro i hi
  refine (h i hi).imp_left fun hmem => ?_
  rcases List.mem_append.1 hmem with hmem | hmem
  · simpa [hfront i hmem] using hown _ hi
  · exact hmem

theorem Tested.icmp {d : Draft} {dst : Reg} {how : Comparison} {lhs rhs : Operand}
    (h : Tested d here (.icmp dst how lhs rhs :: is) regs) (hdst : dst.index < regs.length)
    (b : Bool) : Tested d here is (regs.set dst.index (some (.truth b))) := by
  have hset : ∃ n, (regs.set dst.index (some (Value.truth b)))[dst.index]? =
      some (some (.int n)) := ⟨_, List.getElem?_set_self hdst⟩
  intro i hi
  rcases h i hi with hmem | hdone
  · rcases List.mem_cons.1 hmem with rfl | hmem
    · refine .inr fun r hr => ?_
      obtain rfl := Option.some.inj hr
      exact hset
    · exact .inl hmem
  · refine .inr fun r hr => ?_
    by_cases heq : dst.index = r.index
    · rwa [← heq]
    · rw [List.getElem?_set_ne heq]
      exact hdone r hr

structure Note (e : Emitter) (p : Program) (d : Draft) (roles : List Role) (here : BlockId)
    (regs : Regs) (w : World σ) : Prop where
  role : ∃ role, d.Plays roles here role ∧ Relies regs w.memory role
  safe : Safe e p w.memory
  regs : regs.length = d.body.regs.length

/-- The setting in which a body runs: callbacks answer, and the rest of the run does not go wrong
from any block. -/
structure Setting (e : Emitter) (p : Program) (d : Draft) (roles : List Role) (A : Activation σ)
    (steps : Nat) : Prop where
  serves : e.Serves p
  outlined : Outlined e d roles
  body : A.body = d.body
  verified : d.body.verify = .ok ()
  disciplined : d.Disciplined
  args : ∃ pos stop, A.args = [.state, .ptr (some pos), .ptr (some stop)]
  calls : ∀ span ∈ e.coloring.spans, ∀ vs w, Safe e p w.memory →
    (watch σ e p).Meets (watch σ e p).done () (A.inner span.callback vs w)
      (A.enter span.callback vs w)
  runs : ∀ here regs w, Note e p d roles here regs w → (watch σ e p).Runs A steps here () regs w

namespace Setting

variable {d : Draft}

theorem goto (S : Setting e p d roles A steps) {role : Role} (hplays : d.Plays roles here role)
    (hrelies : Relies regs w.memory role) (hsafe : Safe e p w.memory)
    (hregs : regs.length = d.body.regs.length) : (watch σ e p).Runs A steps here () regs w :=
  S.runs here regs w ⟨⟨role, hplays, hrelies⟩, hsafe, hregs⟩

theorem eval_fixed (S : Setting e p d roles A steps) (regs : Regs) {operand : Operand}
    (h : operand.isFixed) :
    ∃ v, operand.eval A.args regs = .ok v := by
  obtain ⟨pos, stop, hargs⟩ := S.args
  rw [hargs]
  cases operand with
  | param i =>
    have hi : i < 3 := by simpa [Operand.isFixed, parserParams] using h
    rcases i with _ | _ | _ | i
    · exact ⟨_, rfl⟩
    · exact ⟨_, rfl⟩
    · exact ⟨_, rfl⟩
    · omega
  | reg r => simp [Operand.isFixed] at h
  | int bits n => exact ⟨_, rfl⟩
  | null ty => exact ⟨_, rfl⟩
  | func f => exact ⟨_, rfl⟩
  | text t => exact ⟨_, rfl⟩

theorem goes_callee (S : Setting e p d roles A steps) {dst : Reg} {callee : Operand}
    {sig : Signature} {callees : Option (List FuncId)} {span : SpanDecl} {start : Nat}
    {operand : Operand} (hspan : span ∈ e.coloring.spans)
    (hcallee : callee.eval A.args regs = .ok (.func (some span.callback)))
    (hstart : Defined regs start) (hoperand : operand.isFixed) (hdst : dst.index < regs.length)
    (hsafe : Safe e p w.memory)
    (h : ∀ (code : Int32) w, Safe e p w.memory → (watch σ e p).Goes A steps here (k + 1) (is, t) ()
      (regs.set dst.index (some (.int code.toInt))) w) :
    (watch σ e p).Goes A steps here k
      (.call dst callee sig [stateArg, .reg ⟨start⟩, operand] callees :: is, t) () regs w := by
  have hreached : ∃ vs, reached? A.args regs
      (.call dst callee sig [stateArg, .reg ⟨start⟩, operand] callees) =
        some (span.callback, vs) := by
    obtain ⟨v, hv⟩ := hstart
    obtain ⟨u, hu⟩ := S.eval_fixed regs hoperand
    obtain ⟨s, hs⟩ : ∃ s, stateArg.eval A.args regs = .ok s := S.eval_fixed regs rfl
    refine ⟨[s, v, u], reached?_eq_some.2 ⟨hcallee, ?_⟩⟩
    simp [List.mapM_cons, hs, Operand.eval_reg hv, hu, bind, Except.bind, pure, Except.pure]
  refine goes_call trivial hdst ?_ ?_
  · intro fault hnone
    obtain ⟨vs, hvs⟩ := hreached
    simp [hvs] at hnone
  · intro f vs hsome
    obtain ⟨vs', hvs⟩ := hreached
    obtain ⟨rfl, rfl⟩ := Prod.mk.inj (Option.some.inj (hvs.symm.trans hsome))
    refine (S.calls span hspan vs' w hsafe).mono ?_
    rintro _ _ w' ⟨hsafe', code, rfl⟩
    exact ⟨trivial, h code w' hsafe'⟩

theorem goes_answered (S : Setting e p d roles A steps) {answer : Nat} {code : Int32}
    {next failed : BlockId} {role : Role} (hanswer : answer + 1 < d.body.regs.length)
    (hnext : d.Plays roles next .plain) (hfailed : d.Plays roles failed role)
    (hrole : role = .failed answer ∨ role = .flushFailed answer) (hsafe : Safe e p w.memory)
    (hregs : regs.length = d.body.regs.length) :
    (watch σ e p).Goes A steps here k ([.icmp ⟨answer + 1⟩ .eq (.reg ⟨answer⟩) (.status 0)],
      some (.condBr (.reg ⟨answer + 1⟩) next failed .likelyTrue)) ()
      (regs.set answer (some (.int code.toInt))) w := by
  have hlen : answer + 1 < (regs.set answer (some (Value.int code.toInt))).length := by
    rw [List.length_set, hregs]
    exact hanswer
  have hset : (regs.set answer (some (Value.int code.toInt)))[answer]? =
      some (some (.int code.toInt)) := by
    refine List.getElem?_set_self ?_
    rw [hregs]
    omega
  refine goes_answer (quiet _) hlen hset fun regs' hkeep => ?_
  have hregs' : regs'.length = d.body.regs.length := by
    rw [hkeep.length, List.length_set, hregs]
  have hkept : regs'[answer]? = some (some (.int code.toInt)) :=
    (hkeep.below answer (by omega)).trans hset
  split
  · exact S.goto hnext trivial hsafe hregs'
  · refine S.goto hfailed ?_ hsafe hregs'
    rcases hrole with rfl | rfl
    · exact ⟨_, hkept⟩
    · exact ⟨code, hkept⟩

theorem goes_closing (S : Setting e p d roles A steps) {slots : ColorSlots} {start answer : Nat}
    (hclosing : Closing e d roles here k slots start answer is t) (hstart : Defined regs start)
    (hsafe : Safe e p w.memory) (hregs : regs.length = d.body.regs.length) :
    (watch σ e p).Goes A steps here k (is, t) () regs w := by
  obtain ⟨s, span, color, hs, rfl, -⟩ := hclosing.code
  obtain ⟨next, failed, rfl, hnext, hfailed⟩ := hclosing.term
  obtain ⟨hspan, -, hslots⟩ := Emitter.mem_colors_of_locate hs
  have hanswer : answer < regs.length := by
    rw [hregs]
    have := hclosing.regs
    omega
  refine goes_store (quiet _) (eval_noStart (S.serves.start_ty (List.mem_of_getElem? hslots)))
    (hsafe.has S.serves (Emitter.field_start hslots)) ?_
  refine S.goes_callee (List.mem_of_getElem? hspan) rfl hstart rfl hanswer
    (hsafe.set_start S.serves hslots (.ptr none) (.inl rfl)) fun code w hsafe => ?_
  exact S.goes_answered hclosing.regs.2 hnext hfailed (.inl rfl) hsafe hregs

theorem goes_start (S : Setting e p d roles A steps) {slots : ColorSlots} {how : Comparison}
    {r : Nat} {onTrue onFalse : BlockId} {hint : BranchHint} (hslots : slots ∈ e.colors)
    (hr : r + 1 < d.body.regs.length) (hsafe : Safe e p w.memory)
    (hregs : regs.length = d.body.regs.length)
    (h : ∀ v regs, w.memory.get? slots.start.id = some v → Defined regs r →
      regs.length = d.body.regs.length → (watch σ e p).Runs A steps
        (if how.holds v (.ptr none) then onTrue else onFalse) () regs w) :
    (watch σ e p).Goes A steps here k
      (slots.test how r, some (.condBr (.reg ⟨r + 1⟩) onTrue onFalse hint)) () regs w := by
  obtain ⟨color, hcolor⟩ := List.getElem?_of_mem hslots
  obtain ⟨v, hv⟩ := (hsafe.has S.serves (Emitter.field_start hcolor)).get?
  refine goes_test (fun j _ => quiet _) (S.serves.start_ty hslots) (by rw [hregs]; exact hr) hv ?_
  intro regs' hkeep hset
  exact h v regs' hv ⟨v, hset⟩ (hkeep.length.trans hregs)

theorem goes_exit (S : Setting e p d roles A steps) {t : Terminator} (hexit : (here, t) ∈ d.exits)
    (htested : Tested d here [] regs) (hsafe : Safe e p w.memory)
    (hregs : regs.length = d.body.regs.length) :
    (watch σ e p).Goes A steps here k ([], some t) () regs w := by
  have hdecides := S.disciplined.exits _ hexit
  have hgoto : ∀ target ∈ t.targets, (watch σ e p).Runs A steps target () regs w := by
    intro target htarget
    obtain ⟨hpoint, hpaths⟩ := S.disciplined.targets _ hexit target htarget
    rcases S.outlined.points target hpoint with hplays | ⟨answer, howner, hrole⟩
    · exact S.goto hplays trivial hsafe hregs
    · obtain ⟨path, hmem, hblock⟩ := S.outlined.failures _ _ hrole
      refine absurd ?_ (hpaths path hmem)
      rw [hblock, ← howner]
  -- The rest of the proof shows that leaving does not fail, and that a value is a status.
  refine goes_leave (fun target htarget => hgoto target (mem_targets_of_leave htarget)) ?_ ?_
  all_goals
    cases t with
    | br target => simp [leave]
    | condBr cond onTrue onFalse hint =>
      obtain ⟨n, hn⟩ : ∃ n, cond.eval A.args regs = .ok (.int n) := by
        cases cond with
        | int bits n => exact ⟨n, rfl⟩
        | reg r =>
          simp only [decides, List.any_eq_true, decide_eq_true_eq] at hdecides
          obtain ⟨⟨block, i⟩, hown, rfl, hdst⟩ := hdecides
          rcases htested i hown with hmem | hdone
          · simp at hmem
          · obtain ⟨n, hn⟩ := hdone r hdst
            exact ⟨n, Operand.eval_reg hn⟩
        | _ => simp [decides] at hdecides
      simp [leave, hn, asCondition, bind, Except.bind, pure, Except.pure]
    | ret value =>
      obtain ⟨code, hcode⟩ := Operand.eval_of_isStatus hdecides A.args regs
      simp [leave, hcode, bind, Except.bind, pure, Except.pure, watch, hsafe]
    | unreachable => simp [decides] at hdecides

theorem goes_tail (S : Setting e p d roles A steps) (htail : Tail e d roles here k is t)
    (hterm : t.isSome) (htested : Tested d here is regs) (hsafe : Safe e p w.memory)
    (hregs : regs.length = d.body.regs.length) :
    (watch σ e p).Goes A steps here k (is, t) () regs w := by
  induction htail generalizing regs w with
  | unfinished => simp at hterm
  | @own k i is t hown hdst hm _ ih =>
    obtain ⟨dst, how, lhs, rhs, rfl, hl, hr⟩ := Instr.of_isFixedTest (S.disciplined.own _ hown)
    obtain ⟨v, hv⟩ := S.eval_fixed regs hl
    obtain ⟨u, hu⟩ := S.eval_fixed regs hr
    have hlt : dst.index < regs.length := by
      rw [hregs]
      exact hdst dst rfl
    exact goes_quiet rfl (quiet _) (exec_icmp hv hu hlt)
      (ih hterm (htested.icmp hlt _) hsafe (by simpa using hregs))
  | @opening k s span color slots is t hs hm _ ih =>
    have hslots := (Emitter.mem_colors_of_locate hs).2.2
    obtain ⟨pos, hpos⟩ : ∃ pos, posArg.eval A.args regs = .ok pos := S.eval_fixed regs rfl
    refine goes_opening (fun j _ => quiet _) hpos (hsafe.has S.serves (Emitter.field_start hslots))
      (fun slot hslot => ?_) fun i => ⟨trivial, ih hterm ?_ (hsafe.opened S.serves hs pos) hregs⟩
    · exact hsafe.has S.serves (Emitter.field_of_slot? hslots hslot)
    · refine htested.skip S.disciplined.own ?_
      simp [ColorSlots.opening, Instr.isFixedTest]
  | exit hexit => exact S.goes_exit hexit htested hsafe hregs
  | rebase hslots hr hm hrestart hnext =>
    refine S.goes_start hslots hr hsafe hregs fun v regs hv _ hregs => ?_
    simp only [Comparison.holds, same_null]
    cases hnull : v.isNull with
    | true => exact S.goto hnext trivial hsafe hregs
    | false => exact S.goto hrestart ⟨v, hv, hnull⟩ hsafe hregs
  | flush hslots hr hm hpresent hnext =>
    refine S.goes_start hslots hr hsafe hregs fun v regs hv hdefined hregs => ?_
    simp only [Comparison.holds, same_null]
    cases hnull : v.isNull with
    | true => exact S.goto hnext trivial hsafe hregs
    | false => exact S.goto hpresent ⟨hdefined, v, hv, hnull⟩ hsafe hregs
  | @close k slots r is t hdebug hm hclosing =>
    obtain ⟨s, span, color, hs, -⟩ := hclosing.code
    have hslots := (Emitter.mem_colors_of_locate hs).2.2
    obtain ⟨v, hv⟩ := (hsafe.has S.serves (Emitter.field_start hslots)).get?
    have hr : r < regs.length := by
      rw [hregs]
      have := hclosing.regs
      omega
    refine goes_quiet rfl (quiet _) (exec_load hv hr) ?_
    exact S.goes_closing hclosing ⟨v, List.getElem?_set_self hr⟩ hsafe (by simpa using hregs)
  | check hslots hr hm htrap hopened =>
    refine S.goes_start hslots hr hsafe hregs fun v regs hv hdefined hregs => ?_
    split
    · exact S.goto htrap trivial hsafe hregs
    · exact S.goto hopened hdefined hsafe hregs
  | @resume k p' target _ _ hm =>
    have hother := S.serves.not_mem_spanFields (x := .current) rfl (by simp) (by simp)
    refine goes_store (quiet _) rfl (hsafe.has S.serves (x := .current) rfl) ?_
    exact goes_ret rfl ⟨hsafe.set_other S.serves _ hother, _, rfl⟩

theorem goes_record (S : Setting e p d roles A steps) {position : Operand} {answer : Nat}
    (hposition : position.isFixed) (hanswer : Defined regs answer) (hsafe : Safe e p w.memory)
    (h : ∀ w, Safe e p w.memory → (watch σ e p).Goes A steps here (k + 3) (is, t) () regs w) :
    (watch σ e p).Goes A steps here k (e.record.stores position (.reg ⟨answer⟩) ++ is, t) () regs
      w := by
  obtain ⟨pos, hpos⟩ := S.eval_fixed regs hposition
  obtain ⟨code, hcode⟩ := hanswer
  refine goes_stores (fun _ _ => quiet _) hpos (Operand.eval_reg hcode)
    (hsafe.has S.serves (x := .error) rfl) (hsafe.has S.serves (x := .reason) rfl)
    (hsafe.has S.serves (x := .errorPos) rfl) (h _ ?_)
  have hother := fun {x : Place} {f : Field} => S.serves.not_mem_spanFields (x := x) (f := f)
  exact ((hsafe.set_other S.serves _ (hother (x := .error) rfl (by simp) (by simp))).set_other
    S.serves _ (hother (x := .reason) rfl (by simp) (by simp))).set_other S.serves _
      (hother (x := .errorPos) rfl (by simp) (by simp))

theorem goes_present (S : Setting e p d roles A steps) {slots : ColorSlots} {start : Nat}
    {code : Code} (hformed : Formed e d roles here (.present slots start) code)
    (hstart : Defined regs start) (hopen : Opened w.memory slots) (hsafe : Safe e p w.memory)
    (hregs : regs.length = d.body.regs.length) :
    (watch σ e p).Goes A steps here 0 code () regs w := by
  obtain ⟨hslots, hanswer, -, next, failed, hnext, hfailed, rfl⟩ := hformed
  obtain ⟨color, hcolor⟩ := List.getElem?_of_mem hslots
  cases hd : slots.dispatch with
  | direct callee =>
    simp only [hd, Dispatch.calling, Dispatch.answer, List.singleton_append] at hanswer hfailed ⊢
    obtain ⟨span, hspan, rfl⟩ := S.serves.direct_callee hcolor hd
    refine S.goes_callee hspan rfl hstart rfl (by rw [hregs]; simp; omega) hsafe
      fun code w hsafe => ?_
    exact S.goes_answered hanswer hnext hfailed (.inr rfl) hsafe hregs
  | indirect slot candidates =>
    simp only [hd, Dispatch.calling, Dispatch.answer, List.cons_append, List.nil_append]
      at hanswer hfailed ⊢
    obtain ⟨spans, hgood⟩ := hsafe
    obtain ⟨span, hspan, hget, -⟩ := hgood.callee hopen hcolor hd
    have hset : start + 2 < regs.length := by
      rw [hregs]
      omega
    refine goes_quiet rfl (quiet _) (exec_load hget hset) ?_
    have hregs' : (regs.set (start + 2) (some (Value.func (some span.callback)))).length =
        d.body.regs.length := by
      rw [List.length_set, hregs]
    have hstart' :
        Defined (regs.set (start + 2) (some (Value.func (some span.callback)))) start := by
      obtain ⟨v, hv⟩ := hstart
      exact ⟨v, by rw [List.getElem?_set_ne (by omega)]; exact hv⟩
    refine S.goes_callee hspan (Operand.eval_reg (List.getElem?_set_self hset)) hstart' rfl
      (by rw [hregs']; simp; omega) ⟨spans, hgood⟩ fun code w hsafe => ?_
    exact S.goes_answered hanswer hnext hfailed (.inr rfl) hsafe hregs'

theorem goes_block (S : Setting e p d roles A steps) (hnote : Note e p d roles here regs w) :
    ∃ code, A.body.code? here = some code ∧
      (watch σ e p).Goes A steps here 0 code () regs w := by
  obtain ⟨role, hplays, hrelies⟩ := hnote.role
  obtain ⟨code, hcode, hformed⟩ := S.outlined.formed_of_plays hplays
  refine ⟨code, by rw [S.body]; exact hcode, ?_⟩
  have hterm : code.2.isSome := Body.isSome_of_verify S.verified hcode
  have htested : Tested d here code.1 regs := by
    intro i hi
    obtain ⟨code', hcode', hmem⟩ := S.outlined.owned here i hi
    obtain rfl := Option.some.inj (hcode.symm.trans hcode')
    exact .inl hmem
  have hsafe := hnote.safe
  have hregs := hnote.regs
  cases role with
  | plain => exact S.goes_tail hformed hterm htested hsafe hregs
  | failed answer =>
    obtain ⟨is, t⟩ := code
    obtain ⟨rest, rfl, -, htail⟩ := hformed
    refine S.goes_record rfl hrelies hsafe fun w hsafe => ?_
    refine S.goes_tail htail hterm (htested.skip S.disciplined.own ?_) hsafe hregs
    simp [ErrorRecord.stores, Instr.isFixedTest]
  | trap =>
    obtain ⟨hchecks, rfl⟩ := hformed
    exact goes_leave (by simp [leave]) (by simp [leave]) (by simp [leave, watch, hsafe,
      Fault.Benign, hchecks])
  | opened slots start => exact S.goes_closing hformed hrelies hsafe hregs
  | restart slots =>
    obtain ⟨hslots, -, next, hnext, rfl⟩ := hformed
    obtain ⟨color, hcolor⟩ := List.getElem?_of_mem hslots
    obtain ⟨pos, hpos⟩ : ∃ pos, posArg.eval A.args regs = .ok pos := S.eval_fixed regs rfl
    refine goes_store (quiet _) hpos (hsafe.has S.serves (Emitter.field_start hcolor)) ?_
    exact goes_br (S.goto hnext trivial (hsafe.set_start S.serves hcolor pos (.inr hrelies)) hregs)
  | present slots start => exact S.goes_present hformed hrelies.1 hrelies.2 hsafe hregs
  | flushFailed answer =>
    obtain ⟨-, rfl⟩ := hformed
    obtain ⟨code, hcode'⟩ := hrelies
    rw [← List.append_nil (e.record.stores _ _)]
    refine S.goes_record rfl ⟨_, hcode'⟩ hsafe fun w hsafe => ?_
    exact goes_ret (Operand.eval_reg hcode') ⟨hsafe, code, rfl⟩

end Setting

/-- A callback without a body answers, unless it gets no start. -/
theorem meets_callback (he : e.Serves p) {host : Host σ} {span : SpanDecl}
    (hspan : span ∈ e.coloring.spans) (hbody : p.body? span.callback = none)
    (hhost : (host.answer span.callback).isSome) (limit depth : Nat) (vs : List Value)
    (hsafe : Safe e p w.memory) :
    (watch σ e p).Meets (watch σ e p).done () (trace p host limit depth span.callback vs w)
      (call p host limit depth span.callback vs w) := by
  obtain ⟨decl, hdecl⟩ := he.ready.callbacks span hspan
  have hb : decl.body = none := by simpa [Program.body?, hdecl] using hbody
  obtain ⟨reply, hreply⟩ := Option.isSome_iff_exists.1 hhost
  rw [trace_of_body_none hbody, call_of_ask hdecl hb, askHost, hreply]
  dsimp only
  split
  · exact ⟨hsafe, trivial⟩
  · exact ⟨hsafe, _, rfl⟩

/-- A function that was assembled with discipline ends in a status or in a benign fault. -/
theorem meets_assembled (he : e.Serves p) {host : Host σ} {book : FuncId → Draft} {f : FuncId}
    (hauthored : p.Authored e book f) (hdisciplined : (book f).Disciplined)
    (hbodies : ∀ span ∈ e.coloring.spans, p.body? span.callback = none)
    (hhosted : ∀ span ∈ e.coloring.spans, (host.answer span.callback).isSome)
    (limit depth pos stop : Nat) (hsafe : Safe e p w.memory) :
    (watch σ e p).Meets (watch σ e p).done ()
      (trace p host limit (depth + 1) f [.state, .ptr (some pos), .ptr (some stop)] w)
      (call p host limit (depth + 1) f [.state, .ptr (some pos), .ptr (some stop)] w) := by
  have hbody := hauthored.body
  obtain ⟨hid, hverified⟩ := he.reachable.bodies f _ hbody
  obtain ⟨new, houtlined⟩ := hauthored.made.outlined
  rw [trace_of_body hbody, call_of_body hbody]
  refine runs_of_blocks (A := ⟨call p host limit depth, trace p host limit depth, limit,
    (book f).body, [.state, .ptr (some pos), .ptr (some stop)]⟩)
    (fun here _ regs w => Note e p (book f) (.plain :: new) here regs w) ?_ ?_ ?_
  · intro here _ regs w hnote
    exact ⟨hnote.safe, trivial⟩
  · intro steps hruns here _ regs w hnote
    have S : Setting e p (book f) (.plain :: new) ⟨call p host limit depth,
        trace p host limit depth, limit, (book f).body,
        [.state, .ptr (some pos), .ptr (some stop)]⟩ steps :=
      ⟨he, houtlined, rfl, hverified, hdisciplined, ⟨pos, stop, rfl⟩,
        fun span hspan vs w hsafe => meets_callback he hspan (hbodies span hspan)
          (hhosted span hspan) limit depth vs hsafe,
        fun here regs w hnote => hruns here () regs w hnote⟩
    obtain ⟨code, hcode, hgoes⟩ := S.goes_block hnote
    exact ⟨code, hcode, trivial, hgoes⟩
  · exact ⟨⟨.plain, ⟨rfl, rfl⟩, trivial⟩, hsafe, by simp⟩

theorem invoke_cases (he : e.Serves p) {host : Host σ} {book : FuncId → Draft} {f : FuncId}
    (hauthored : p.Authored e book f) (hdisciplined : (book f).Disciplined)
    (hbodies : ∀ span ∈ e.coloring.spans, p.body? span.callback = none)
    (hhosted : ∀ span ∈ e.coloring.spans, (host.answer span.callback).isSome)
    (limit : Nat) {depth : Nat} (hdepth : 0 < depth) (pos stop : Nat) (hsafe : Safe e p w.memory) :
    (∃ code w', invoke p host limit depth f pos stop w = .ok code w' ∧ Safe e p w'.memory) ∨
      ∃ fault w', invoke p host limit depth f pos stop w = .error fault w' ∧
        Safe e p w'.memory ∧ fault.Benign e.options.debugChecks := by
  obtain ⟨depth, rfl⟩ := Nat.exists_eq_add_one.2 hdepth
  obtain ⟨_, hlast⟩ :=
    (meets_assembled he hauthored hdisciplined hbodies hhosted limit depth pos stop hsafe).last
  rw [invoke, bind_eq]
  cases hcall : call p host limit (depth + 1) f [.state, .ptr (some pos), .ptr (some stop)] w with
  | ok v w' =>
    rw [hcall] at hlast
    obtain ⟨hsafe', code, rfl⟩ := hlast
    exact .inl ⟨code, w', by simp [asStatus_toInt], hsafe'⟩
  | error fault w' =>
    rw [hcall] at hlast
    exact .inr ⟨fault, w', rfl, hlast⟩

end Body

end Safety

open Machine

/-- Parser functions that were assembled with discipline do not go wrong: whatever their control
flow, each of any invocations gives a status, or stops because no blocks are left to enter, because
a callback gets no start, or at a check for an open span. -/
theorem outcomes_benign {options : SpanOptions} {c : Coloring} {p₀ p₁ p : Program} {e : Emitter}
    (hp : p₀.Reachable) (he : Emitter.prepare options c p₀ = .ok e p₁) (hleads : p₁.Leads p)
    {book : FuncId → Draft} {invocations : List (Invocation σ)}
    (hassembled : ∀ q ∈ invocations, p.Authored e book q.callee ∧ (book q.callee).Disciplined)
    (hbodies : ∀ span ∈ c.spans, p.body? span.callback = none)
    (hhosted : ∀ q ∈ invocations, ∀ span ∈ c.spans, (q.host.answer span.callback).isSome)
    (hdepth : ∀ q ∈ invocations, 0 < q.depth) (host : σ) {fault : Fault}
    (hfault : .error fault ∈ outcomes p invocations { memory := .fresh p.layout, host }) :
    fault.Benign options.debugChecks := by
  have hserves := Emitter.serves_of_prepare hp he hleads
  obtain ⟨-, rfl, rfl, -⟩ := Emitter.prepare_ok hp.numbered he
  have hsafe : Safety.Safe e p (Memory.fresh p.layout) := ⟨[], Slots.good_fresh hserves⟩
  have hw : Safety.Safe e p (World.memory { memory := .fresh p.layout, host }) := hsafe
  generalize (⟨.fresh p.layout, host, #[]⟩ : World σ) = w at hfault hw
  induction invocations generalizing w with
  | nil => simp [outcomes] at hfault
  | cons q rest ih =>
    simp only [List.forall_mem_cons] at hassembled hhosted hdepth
    have hrest := ih hassembled.2 hdepth.2 hhosted.2
    rcases Safety.invoke_cases hserves hassembled.1.1 hassembled.1.2 hbodies hhosted.1 q.limit
        hdepth.1 q.pos q.stop hw with ⟨code, w', hinvoke, hw'⟩ | ⟨fault', w', hinvoke, hw', hbenign⟩
    · simp only [outcomes, hinvoke, List.mem_cons, reduceCtorEq, false_or] at hfault
      exact hrest w' hfault hw'
    · simp only [outcomes, hinvoke, List.mem_cons, Except.error.injEq] at hfault
      rcases hfault with rfl | hfault
      · exact hbenign
      · exact hrest w' hfault hw'

@[irreducible] def scanner : List Draft := [
  .written (pairEmitter { debugChecks := true }) ⟨2⟩ "parse" [
    .newBlock "more",
    .newBlock "end",
    .icmp ⟨⟨2⟩, 0⟩ .ne (.param 1) (.param 2),
    .leave ⟨⟨2⟩, 0⟩ (.condBr (.reg ⟨0⟩) ⟨⟨2⟩, 1⟩ ⟨⟨2⟩, 2⟩ .none),
    .leave ⟨⟨2⟩, 2⟩ (.ret (.status 1)),
    .prologue ⟨⟨2⟩, 1⟩,
    .spanStart ⟨⟨2⟩, 6⟩ ⟨1⟩,
    .epilogue ⟨⟨2⟩, 6⟩,
    .spanEnd ⟨⟨2⟩, 11⟩ ⟨0⟩,
    .leave ⟨⟨2⟩, 15⟩ (.br ⟨⟨2⟩, 0⟩),
    .resumeAt ⟨⟨⟨2⟩, 16⟩, EventParser.sharedFields.current, -1⟩ pairDeclared ⟨2⟩]]

@[irreducible] def scannerProgram : Program :=
  Build.after (Draft.defineAll scanner) pairPrepared

def scan (code : Int32) (pos stop : Nat) : Invocation Unit where
  host := ⟨fun _ => some fun _ _ _ => (code, ())⟩
  limit := 25
  depth := 1
  callee := ⟨2⟩
  pos
  stop

/-- The loop goes on as long as there are steps, a failing callback ends it, and so does an empty
buffer. -/
theorem outcomes_benign_scanner :
    outcomes scannerProgram [scan 0 3 9, scan 7 3 9, scan 0 4 4]
        { memory := .fresh scannerProgram.layout, host := () } =
      [.error (.stepLimit 25), .ok 7, .ok 1] ∧ (Fault.stepLimit 25).Benign true := by
  have hdefined : Draft.defineAll scanner pairPrepared = .ok () scannerProgram := by
    unfold scannerProgram
    exact Build.eq_ok_of_succeeds (by decide +kernel)
  have hmade : ∀ d ∈ scanner, d.Made (pairEmitter { debugChecks := true }) := by
    unfold scanner
    refine List.forall_mem_singleton.2 ?_
    refine Draft.made_written (by decide +kernel) fun path p target hmem => ?_
    simp only [List.mem_cons, List.not_mem_nil, reduceCtorEq, or_false, false_or,
      Operation.resumeAt.injEq] at hmem
    rw [hmem.1]
    exact ⟨rfl, rfl⟩
  have hdisciplined : ∀ d ∈ scanner, d.Disciplined := by decide +kernel
  have hbody : scannerProgram.body? ⟨2⟩ = some (Draft.book scanner ⟨2⟩).body := by decide +kernel
  have hbodies : ∀ span ∈ sharedPair.spans, scannerProgram.body? span.callback = none := by
    decide +kernel
  have hassembled : ∀ q ∈ [scan 0 3 9, scan 7 3 9, scan 0 4 4],
      scannerProgram.Authored (pairEmitter { debugChecks := true }) (Draft.book scanner) q.callee ∧
        (Draft.book scanner q.callee).Disciplined := by
    have hall := (Draft.authored_of_defineAll hdefined pairPrepared_bodiless (by decide +kernel)
      hmade hbody).imp_right (hdisciplined _)
    simp only [List.forall_mem_cons, List.not_mem_nil, false_imp_iff, implies_true, and_true, scan]
    exact ⟨hall, hall, hall⟩
  have houtcomes : outcomes scannerProgram [scan 0 3 9, scan 7 3 9, scan 0 4 4]
      { memory := .fresh scannerProgram.layout, host := () } =
        [.error (.stepLimit 25), .ok 7, .ok 1] := by decide +kernel
  refine ⟨houtcomes, ?_⟩
  refine outcomes_benign pairDeclared_reachable (prepare_pair true true)
    (Draft.leads_of_defineAll hdefined) hassembled hbodies ?_ ?_ () ?_
  · simp [scan]
  · simp [scan]
  · rw [houtcomes]
    exact List.mem_cons_self

end SpanTracking
