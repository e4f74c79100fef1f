import SpanTracking.Proofs.Failures

set_option autoImplicit false

/-!
# The error record

A failing callback leaves its code, the reason and a position in three fields, by three stores at
one of two kinds of places: the failure path of a span end, or that of a flush. Between calls from
outside the three fields belong together: they are as at first, or come from one and the same
failure, and from the last one as long as no call was cut short by its step limit. This holds for
any control flow, also after calls that ended in a fault.

The run keeps account of the failures so far. Only in the two kinds of failure paths the record may
lag behind by one failure, which is then the one whose code is in the register of the answer. As
long as nothing but span code writes the slots for callbacks, the account can be read off from the
log of the host as well.
-/

namespace SpanTracking

variable {σ : Type}

namespace Errors

variable {e : Emitter} {p : Program} {book : FuncId → Draft} {o : Origin σ}

def watch (e : Emitter) (p : Program) (book : FuncId → Draft) (o : Origin σ) : Watch σ Account where
  notice g m := ⟨g.failures ++ (m.failure? book).toList, g.cut || m.isCut⟩
  holds g m := m.KeepsRecord e p book g.failures g.cut
  done g _ w := Settled e p book o g w
  failed g fault w := Good e p book o g.failures w ∧
    ((∀ n, fault ≠ .stepLimit n) → Settled e p book o g w)

section Body

open Machine Watch Draft

variable {d : Draft} {roles : List Role} {A : Activation σ} {steps : Nat} {here : BlockId} {k : Nat}
  {is : List Instr} {t : Option Terminator} {g : Account} {regs : Regs} {w : World σ}
  {first : Value} {stop : Nat} {host : Host σ}

@[simp] theorem notice_entered : (watch e p book o).notice g (.entered here w) = g := by
  simp [watch, Moment.failure?, Moment.isCut]

@[simp] theorem notice_calling {point : Point} {i : Instr} {args : List Value} :
    (watch e p book o).notice g (.calling point i args regs w) = g := by
  simp [watch, Moment.failure?, Moment.isCut]

theorem notice_ended {result : Except Fault Value} :
    (watch e p book o).notice g (.ended result w) =
      ⟨g.failures, g.cut || (Moment.ended result w).isCut⟩ := by
  simp [watch, Moment.failure?]

theorem Settled.keeps (h : Settled e p book o g w) {result : Except Fault Value} :
    (watch e p book o).holds g (.ended result w) :=
  ⟨h.good.record, h.good.resumes, h.latest⟩

theorem settled_of_done {v : Value} (h : (watch e p book o).done g v w) :
    Settled e p book o ((watch e p book o).notice g (.ended (.ok v) w)) w := by
  rw [notice_ended]
  simp only [Moment.isCut, Bool.or_false]
  exact h

theorem settled_of_failed {fault : Fault} (h : (watch e p book o).failed g fault w) :
    Settled e p book o ((watch e p book o).notice g (.ended (.error fault) w)) w := by
  rw [notice_ended]
  obtain ⟨hgood, hsettled⟩ := h
  refine ⟨hgood, fun hcut => ?_⟩
  obtain ⟨hcut, hfault⟩ := Bool.or_eq_false_iff.1 hcut
  refine (hsettled fun n hn => ?_).latest hcut
  simp [hn, Moment.isCut] at hfault

theorem failed_of_settled (h : Settled e p book o g w) (fault : Fault) :
    (watch e p book o).failed g fault w := ⟨h.good, fun _ => h⟩

theorem notice_answered {deed : Deed} (hdeed : (book here.owner).deed ⟨here, k⟩ = some deed)
    {args : List Value} {position : Nat} (hposition : deed.errorPos? args = some position)
    {dst : Reg} {callee : Operand} {sig : Signature} {operands : List Operand}
    {callees : Option (List FuncId)} {code : Value}
    (hcode : regs[dst.index]? = some (some code)) :
    (watch e p book o).notice g
        (.executed ⟨here, k⟩ (.call dst callee sig operands callees) args regs w) =
      g.answered code position := by
  by_cases hzero : code = .int 0 <;>
    simp [watch, Moment.failure?, Moment.isCut, Account.answered, hcode, hdeed, hposition, hzero]

theorem quiet (h : ∀ deed ∈ (book here.owner).deed ⟨here, k⟩, deed.isCall = false) :
    (watch e p book o).Quiet ⟨here, k⟩ := by
  intro i args regs w g
  refine ⟨?_, trivial⟩
  have hnone : Moment.failure? book (.executed ⟨here, k⟩ i args regs w) = none := by
    cases i with
    | call dst callee sig operands callees =>
      rw [Moment.failure?]
      split
      · rename_i code deed _ hdeed
        cases deed with
        | opens s => simp [Deed.errorPos?]
        | closes s => simpa [Deed.isCall] using h _ hdeed
        | flushes => simpa [Deed.isCall] using h _ hdeed
      · rfl
    | _ => rfl
  simp [watch, hnone, Moment.isCut]

/-- The answer in the register is that of the last failure, which is still to be recorded. -/
def Pending (g : Account) (regs : Regs) (answer position : Nat) : Prop :=
  ∃ code, g.failures.getLast? = some ⟨code, position⟩ ∧ code ≠ .int 0 ∧
    regs[answer]? = some (some code)

def Relies (e : Emitter) (p : Program) (book : FuncId → Draft) (o : Origin σ) (first : Value)
    (stop : Nat) (g : Account) (regs : Regs) (w : World σ) : Role → Prop
  | .failed answer => Good e p book o g.failures w ∧
      ∃ pos, first = .ptr (some pos) ∧ Pending g regs answer pos
  | .flushFailed answer => Good e p book o g.failures w ∧ Pending g regs answer stop
  | _ => Settled e p book o g w

theorem Relies.good {role : Role} (h : Relies e p book o first stop g regs w role) :
    Good e p book o g.failures w := by
  cases role with
  | failed answer => exact h.1
  | flushFailed answer => exact h.1
  | _ => exact Settled.good h

structure Note (e : Emitter) (p : Program) (book : FuncId → Draft) (o : Origin σ) (first : Value)
    (stop : Nat) (d : Draft) (roles : List Role) (here : BlockId) (g : Account) (regs : Regs)
    (w : World σ) : Prop where
  role : ∃ role, d.Plays roles here role ∧ Relies e p book o first stop g regs w role
  regs : regs.length = d.body.regs.length

/-- The setting in which a body runs. Functions without a body are answered by the host, the others
keep the error record in order, and so does the rest of the run from any block. -/
structure Setting (e : Emitter) (p : Program) (book : FuncId → Draft) (o : Origin σ)
    (host : Host σ) (first : Value) (stop : Nat) (d : Draft) (roles : List Role)
    (A : Activation σ) (steps : Nat) : Prop where
  serves : e.Serves p
  outlined : Outlined e d roles
  page : book d.body.id = d
  defined : p.body? d.body.id = some d.body
  verified : d.body.verify = .ok ()
  leaves : d.LeavesErrors e p
  slots : o.strict → d.LeavesSlots e
  body : A.body = d.body
  args : A.args = [.state, first, .ptr (some stop)]
  bodiless : ∀ span ∈ e.coloring.spans, p.body? span.callback = none
  same : o.strict → host = o.host
  asks : ∀ f vs w, p.body? f = none → A.inner f vs w = [] ∧
    ((∃ fault, A.enter f vs w = .error fault w) ∨ ∃ m n, positions vs = some (m, n) ∧
      A.enter f vs w = .ok (.int (host.code ⟨f, m, n⟩ w.host).toInt) (w.told host [⟨f, m, n⟩]))
  calls : ∀ f b v g w, p.body? f = some b → Settled e p book o g w →
    (watch e p book o).Meets (watch e p book o).done g
      (A.inner f [.state, v, .ptr (some stop)] w) (A.enter f [.state, v, .ptr (some stop)] w)
  runs : ∀ here g regs w, Note e p book o first stop d roles here g regs w →
    (watch e p book o).Runs A steps here g regs w

namespace Setting

theorem goto (S : Setting e p book o host first stop d roles A steps) {role : Role}
    (hplays : d.Plays roles here role)
    (hrelies : Relies e p book o first stop g regs w role)
    (hregs : regs.length = d.body.regs.length) :
    (watch e p book o).Runs A steps here g regs w :=
  S.runs here g regs w ⟨⟨role, hplays, hrelies⟩, hregs⟩

theorem deed_eq (S : Setting e p book o host first stop d roles A steps)
    (howner : here.owner = d.body.id) : (book here.owner).deed = d.deed := by
  rw [howner, S.page]

theorem quiet_of_none (S : Setting e p book o host first stop d roles A steps)
    (howner : here.owner = d.body.id) {deeds : List (Option Deed)} (hm : d.Marked here k deeds)
    {j : Nat} (hj : deeds[j]? = some none) : (watch e p book o).Quiet ⟨here, k + j⟩ := by
  refine quiet ?_
  rw [S.deed_eq howner, hm j none hj]
  simp

/-- The arguments of a callback: the state, the start of the span, and a position. -/
theorem args_of_reached (S : Setting e p book o host first stop d roles A steps) {dst : Reg}
    {callee last : Operand} {sig : Signature} {callees : Option (List FuncId)} {start : Nat}
    {u : Value} (hlast : last.eval A.args regs = .ok u) {f : FuncId} {vs : List Value}
    (h : reached? A.args regs (.call dst callee sig [stateArg, .reg ⟨start⟩, last] callees) =
      some (f, vs)) : ∃ v, vs = [.state, v, u] := by
  have hstate : stateArg.eval A.args regs = .ok .state := by rw [S.args]; rfl
  have hargs := (reached?_eq_some.1 h).2
  cases hstart : (Operand.reg ⟨start⟩).eval A.args regs with
  | error fault => simp [List.mapM_cons, hstate, hstart, bind, Except.bind] at hargs
  | ok v =>
    refine ⟨v, ?_⟩
    simpa [List.mapM_cons, hstate, hstart, hlast, bind, Except.bind, pure, Except.pure, eq_comm]
      using hargs

/-- A callback has returned: its answer is tested, and parsing goes on or the failure is recorded.
-/
theorem goes_returned (S : Setting e p book o host first stop d roles A steps)
    (howner : here.owner = d.body.id) {deed : Deed} (hm : d.Marked here k [some deed, none])
    {position : Nat} (hposition : deed.errorPos? A.args = some position) {callee : Operand}
    {sig : Signature} {operands : List Operand} {callees : Option (List FuncId)} {answer : Nat}
    (hanswer : answer + 1 < d.body.regs.length) {next failed : BlockId}
    (hnext : d.Plays roles next .plain)
    (hfailed : ∀ g regs (w : World σ), Good e p book o g.failures w →
      Pending g regs answer position → regs.length = d.body.regs.length →
      (watch e p book o).Runs A steps failed g regs w)
    (hregs : regs.length = d.body.regs.length) {code : Value}
    (hgood : Good e p book o (g.answered code position).failures w)
    (hlatest : g.cut = false → e.record.Latest g.failures w.memory) :
    (watch e p book o).holds
      ((watch e p book o).notice g (.executed ⟨here, k⟩ (.call ⟨answer⟩ callee sig operands callees)
        A.args (regs.set answer (some code)) w))
      (.executed ⟨here, k⟩ (.call ⟨answer⟩ callee sig operands callees) A.args
        (regs.set answer (some code)) w) ∧
    (watch e p book o).Goes A steps here (k + 1)
      ([.icmp ⟨answer + 1⟩ .eq (.reg ⟨answer⟩) (.status 0)],
        some (.condBr (.reg ⟨answer + 1⟩) next failed .likelyTrue))
      ((watch e p book o).notice g (.executed ⟨here, k⟩ (.call ⟨answer⟩ callee sig operands callees)
        A.args (regs.set answer (some code)) w)) (regs.set answer (some code)) w := by
  have hset : (regs.set answer (some code))[answer]? = some (some code) :=
    List.getElem?_set_self (by omega)
  have hdeed : (book here.owner).deed ⟨here, k⟩ = some deed := by
    rw [S.deed_eq howner]
    exact hm 0 _ rfl
  refine ⟨trivial, ?_⟩
  rw [notice_answered hdeed hposition hset]
  refine goes_answer (S.quiet_of_none howner hm (j := 1) rfl) (by simp; omega) hset
    fun regs' hkeep => ?_
  have hregs' : regs'.length = d.body.regs.length := by
    rw [hkeep.length, List.length_set, hregs]
  by_cases hzero : code = .int 0
  · rw [if_pos hzero]
    have hsame : g.answered code position = g := if_pos hzero
    rw [hsame] at hgood ⊢
    exact S.goto hnext ⟨hgood, hlatest⟩ hregs'
  · rw [if_neg hzero]
    refine hfailed _ _ _ hgood ⟨code, ?_, hzero, ?_⟩ hregs'
    · simp [Account.answered, hzero]
    · exact (hkeep.below answer (by omega)).trans hset

theorem goes_callee (S : Setting e p book o host first stop d roles A steps)
    (howner : here.owner = d.body.id) {deed : Deed} (hm : d.Marked here k [some deed, none])
    (hcall : deed.isCall) {callee last : Operand} {sig : Signature}
    {callees : Option (List FuncId)} {start answer : Nat}
    (hanswer : answer + 1 < d.body.regs.length) {u : Value}
    (hlast : last.eval A.args regs = .ok u) (herror : deed.errorPos? A.args = u.position?)
    (hbody : ∀ f vs b, reached? A.args regs
        (.call ⟨answer⟩ callee sig [stateArg, .reg ⟨start⟩, last] callees) = some (f, vs) →
      p.body? f = some b → ¬ o.strict ∧ u = .ptr (some stop))
    {next failed : BlockId} (hnext : d.Plays roles next .plain)
    (hfailed : ∀ position, deed.errorPos? A.args = some position → ∀ g regs (w : World σ),
      Good e p book o g.failures w → Pending g regs answer position →
        regs.length = d.body.regs.length → (watch e p book o).Runs A steps failed g regs w)
    (hsettled : Settled e p book o g w) (hregs : regs.length = d.body.regs.length) :
    (watch e p book o).Goes A steps here k
      ([.call ⟨answer⟩ callee sig [stateArg, .reg ⟨start⟩, last] callees,
        .icmp ⟨answer + 1⟩ .eq (.reg ⟨answer⟩) (.status 0)],
        some (.condBr (.reg ⟨answer + 1⟩) next failed .likelyTrue)) g regs w := by
  have hdeed : (book here.owner).deed ⟨here, k⟩ = some deed := by
    rw [S.deed_eq howner]
    exact hm 0 _ rfl
  refine goes_call ?_ (by simp; omega) ?_ ?_
  · rw [notice_calling]
    simpa [watch, Moment.KeepsRecord, hdeed] using hcall
  · intro fault _
    rw [notice_calling]
    exact failed_of_settled hsettled fault
  · intro f vs hreached
    rw [notice_calling]
    obtain ⟨v, rfl⟩ := S.args_of_reached hlast hreached
    cases hb : p.body? f with
    | none =>
      obtain ⟨hinner, ⟨fault, henter⟩ | ⟨m, n, hpos, henter⟩⟩ := S.asks f _ w hb
      · rw [hinner, henter]
        exact failed_of_settled hsettled fault
      · rw [hinner, henter]
        have hposition := herror.trans (Value.position?_of_positions hpos)
        exact S.goes_returned howner hm hposition hanswer hnext (hfailed n hposition) hregs
          (hsettled.good.told S.same ⟨f, m, n⟩) hsettled.latest
    | some b =>
      -- The slot holds a function with a body, so calls of the host are not accounted for.
      obtain ⟨hloose, rfl⟩ := hbody f _ b hreached hb
      refine (S.calls f b v g w hb hsettled).mono fun g code w hsettled => ?_
      exact S.goes_returned howner hm herror hanswer hnext (hfailed stop herror) hregs
        (hsettled.good.loosen hloose (subset_answered ..) rfl) hsettled.latest

theorem goes_own (S : Setting e p book o host first stop d roles A steps)
    (howner : here.owner = d.body.id) {i : Instr} (hown : (here, i) ∈ d.own)
    (hdst : ∀ r, i.dst? = some r → r.index < d.body.regs.length) (hm : d.Marked here k [none])
    (hsettled : Settled e p book o g w) (hregs : regs.length = d.body.regs.length)
    (h : ∀ regs w, Settled e p book o g w → regs.length = d.body.regs.length →
      (watch e p book o).Goes A steps here (k + 1) (is, t) g regs w) :
    (watch e p book o).Goes A steps here k (i :: is, t) g regs w := by
  have hplain := S.leaves.plain _ hown
  have hq : (watch e p book o).Quiet ⟨here, k⟩ := S.quiet_of_none howner hm (j := 0) rfl
  rw [← hregs] at hdst
  obtain ⟨fault, hi⟩ | ⟨regs', hlen, hi⟩ | ⟨field, value, v, rfl, hi⟩ :=
    exec_plain A.enter A.args regs w hplain hdst
  · exact goes_error hplain hi (failed_of_settled hsettled fault)
  · exact goes_quiet hplain hq hi (h regs' w hsettled (hlen.trans hregs))
  · exact goes_quiet hplain hq hi (h regs _ (hsettled.put_other (S.leaves.stores _ hown field rfl)
      (fun hstrict => S.slots hstrict _ hown field rfl) v) hregs)

theorem settled_put_start (S : Setting e p book o host first stop d roles A steps) {color : Nat}
    {slots : ColorSlots} (hslots : e.colors[color]? = some slots)
    (hsettled : Settled e p book o g w) (v : Value) :
    Settled e p book o g (put w slots.start.id v) :=
  hsettled.put_other (start_not_mem_guarded S.serves hslots)
    (fun _ => start_not_mem_slotFields S.serves hslots) v

theorem goes_closing (S : Setting e p book o host first stop d roles A steps)
    (howner : here.owner = d.body.id) {slots : ColorSlots} {start answer : Nat}
    (hclosing : Closing e d roles here k slots start answer is t)
    (hsettled : Settled e p book o g w) (hregs : regs.length = d.body.regs.length) :
    (watch e p book o).Goes A steps here k (is, t) g regs w := by
  obtain ⟨s, span, color, hs, rfl, hm⟩ := hclosing.code
  obtain ⟨next, failed, rfl, hnext, hfailed⟩ := hclosing.term
  obtain ⟨hspan, -, hslots⟩ := Emitter.mem_colors_of_locate hs
  have hpos : posArg.eval A.args regs = .ok first := by rw [S.args]; rfl
  have herror : Deed.errorPos? A.args (.closes s) = first.position? := by rw [S.args]; rfl
  refine goes_store (S.quiet_of_none howner hm (j := 0) rfl)
    (eval_noStart (S.serves.start_ty (List.mem_of_getElem? hslots)))
    (S.serves.has_field (Emitter.field_start hslots) hsettled.good.fits) ?_
  refine S.goes_callee howner hm.tail rfl hclosing.regs.2 hpos herror ?_ hnext ?_
    (S.settled_put_start hslots hsettled _) hregs
  · intro f vs b hreached hb
    obtain rfl := Option.some.inj (Value.func.inj (Except.ok.inj (reached?_eq_some.1 hreached).1))
    simp [S.bodiless span (List.mem_of_getElem? hspan)] at hb
  · intro position hposition g regs w hgood hpending hregs
    refine S.goto hfailed ⟨hgood, position, ?_, hpending⟩ hregs
    rw [herror] at hposition
    unfold Value.position? at hposition
    split at hposition
    · rw [hposition]
    · simp at hposition

theorem goes_start (S : Setting e p book o host first stop d roles A steps)
    (howner : here.owner = d.body.id) {slots : ColorSlots} {how : Comparison} {r : Nat}
    {onTrue onFalse : BlockId} {hint : BranchHint} {role role' : Role} (hslots : slots ∈ e.colors)
    (hr : r + 1 < d.body.regs.length) (hm : d.Marked here k [none, none])
    (htrue : d.Plays roles onTrue role) (hfalse : d.Plays roles onFalse role')
    (hrelies : ∀ regs, Relies e p book o first stop g regs w role ∧
      Relies e p book o first stop g regs w role')
    (hsettled : Settled e p book o g w) (hregs : regs.length = d.body.regs.length) :
    (watch e p book o).Goes A steps here k
      (slots.test how r, some (.condBr (.reg ⟨r + 1⟩) onTrue onFalse hint)) g regs w := by
  obtain ⟨color, hcolor⟩ := List.getElem?_of_mem hslots
  obtain ⟨v, hv⟩ := (S.serves.has_field (Emitter.field_start hcolor) hsettled.good.fits).get?
  refine goes_test (fun j hj => S.quiet_of_none howner hm ?_) (S.serves.start_ty hslots)
    (by rw [hregs]; exact hr) hv fun regs' hkeep _ => ?_
  · rcases j with _ | _ | j
    · rfl
    · rfl
    · omega
  · have hregs' := hkeep.length.trans hregs
    split
    · exact S.goto htrue (hrelies regs').1 hregs'
    · exact S.goto hfalse (hrelies regs').2 hregs'

theorem goes_exit (S : Setting e p book o host first stop d roles A steps) {t : Terminator}
    (hexit : (here, t) ∈ d.exits) (hlands : ∀ target ∈ t.targets, (d.body.code? target).isSome)
    (hsettled : Settled e p book o g w) (hregs : regs.length = d.body.regs.length) :
    (watch e p book o).Goes A steps here k ([], some t) g regs w := by
  refine goes_leave ?_ (fun _ _ => hsettled) fun fault _ => failed_of_settled hsettled fault
  intro target htarget
  have hmem := mem_targets_of_leave htarget
  obtain ⟨code, hcode⟩ := Option.isSome_iff_exists.1 (hlands target hmem)
  obtain ⟨role, hplays, hformed⟩ := S.outlined.plays_of_code hcode
  have hwrites := S.leaves.targets _ hexit target hmem code hcode
  refine S.goto hplays ?_ hregs
  cases role with
  | failed answer =>
    obtain ⟨rest, hrest, -⟩ := hformed
    exact absurd (by simp [hrest, ErrorRecord.stores, Instr.writes?]) hwrites
  | flushFailed answer =>
    obtain ⟨-, rfl⟩ := hformed
    exact absurd (by simp [ErrorRecord.stores, Instr.writes?]) hwrites
  | _ => exact hsettled

theorem goes_tail (S : Setting e p book o host first stop d roles A steps)
    (howner : here.owner = d.body.id) (htail : Tail e d roles here k is t)
    (hlands : ∀ term, t = some term → ∀ target ∈ term.targets, (d.body.code? target).isSome)
    (hsettled : Settled e p book o g w) (hregs : regs.length = d.body.regs.length) :
    (watch e p book o).Goes A steps here k (is, t) g regs w := by
  induction htail generalizing g regs w with
  | unfinished =>
    exact goes_leave (by simp [leave]) (by simp [leave]) fun fault _ =>
      failed_of_settled hsettled fault
  | own hown hdst hm _ ih =>
    exact S.goes_own howner hown hdst hm hsettled hregs fun _ _ hsettled hregs =>
      ih hlands hsettled hregs
  | @opening k s span color slots is t hs hm _ ih =>
    have hslots := (Emitter.mem_colors_of_locate hs).2.2
    have hpos : posArg.eval A.args regs = .ok first := by rw [S.args]; rfl
    have hfits := hsettled.good.fits
    refine goes_opening ?_ hpos (S.serves.has_field (Emitter.field_start hslots) hfits) ?_ ?_
    · intro j hj
      refine quiet ?_
      rw [S.deed_eq howner, hm.before_opens hj]
      simp
    · intro slot hslot
      exact S.serves.has_field (Emitter.field_of_slot? hslots hslot) hfits
    · intro i
      have hq : (watch e p book o).Quiet ⟨here, k + slots.slot?.toList.length⟩ := by
        refine quiet ?_
        rw [S.deed_eq howner, hm.opens]
        simp [Deed.isCall]
      rw [(hq _ _ _ _ _).1]
      exact ⟨trivial, ih hlands (hsettled.opened S.serves hs _) hregs⟩
  | exit hexit => exact S.goes_exit hexit (hlands _ rfl) hsettled hregs
  | rebase hslots hr hm hrestart hnext =>
    exact S.goes_start howner hslots hr hm hrestart hnext (fun _ => ⟨hsettled, hsettled⟩) hsettled
      hregs
  | flush hslots hr hm hpresent hnext =>
    exact S.goes_start howner hslots hr hm hpresent hnext (fun _ => ⟨hsettled, hsettled⟩) hsettled
      hregs
  | @close k slots r is t hdebug hm hclosing =>
    obtain ⟨s, span, color, hs, -⟩ := hclosing.code
    have hslots := (Emitter.mem_colors_of_locate hs).2.2
    obtain ⟨v, hv⟩ := (S.serves.has_field (Emitter.field_start hslots) hsettled.good.fits).get?
    have hr := hclosing.regs
    refine goes_quiet rfl (S.quiet_of_none howner hm (j := 0) rfl)
      (exec_load hv (by rw [hregs]; simp; omega)) ?_
    exact S.goes_closing howner hclosing hsettled (by simpa using hregs)
  | check hslots hr hm htrap hopened =>
    exact S.goes_start howner hslots hr hm htrap hopened (fun _ => ⟨hsettled, hsettled⟩) hsettled
      hregs
  | @resume k q target hmem htarget hm =>
    obtain ⟨decl, hdecl, hsig⟩ := declared_of_leads htarget (S.leaves.resumed _ hmem)
    refine goes_store (S.quiet_of_none howner hm (j := 0) rfl) rfl
      (S.serves.has_field (x := .current) rfl hsettled.good.fits) (goes_ret rfl ?_)
    refine hsettled.put_current S.serves hdecl hsig (f := d.body.id) (q := q) ?_ ?_
    · rw [S.defined]
      rfl
    · rw [S.page]
      exact hmem

theorem goes_record (S : Setting e p book o host first stop d roles A steps)
    (howner : here.owner = d.body.id) {position : Operand} {n answer : Nat}
    (hposition : position.eval A.args regs = .ok (.ptr (some n)))
    (hm : d.Marked here k [none, none, none]) (hgood : Good e p book o g.failures w)
    (hpending : Pending g regs answer n)
    (h : ∀ w, Settled e p book o g w →
      (watch e p book o).Goes A steps here (k + 3) (is, t) g regs w) :
    (watch e p book o).Goes A steps here k (e.record.stores position (.reg ⟨answer⟩) ++ is, t) g
      regs w := by
  obtain ⟨code, hlast, hcode, hanswer⟩ := hpending
  have hplace := fun {x : Place} {f : Field} (hf : e.field? x = some f) =>
    S.serves.has_field hf hgood.fits
  refine goes_stores (fun j hj => S.quiet_of_none howner hm ?_) hposition
    (Operand.eval_reg hanswer) (hplace (x := .error) rfl) (hplace (x := .reason) rfl)
    (hplace (x := .errorPos) rfl) (h _ (hgood.recorded S.serves hlast hcode))
  rcases j with _ | _ | _ | j
  · rfl
  · rfl
  · rfl
  · omega

theorem goes_present (S : Setting e p book o host first stop d roles A steps)
    (howner : here.owner = d.body.id) {slots : ColorSlots} {start : Nat} {code : Code}
    (hformed : Formed e d roles here (.present slots start) code)
    (hsettled : Settled e p book o g w) (hregs : regs.length = d.body.regs.length) :
    (watch e p book o).Goes A steps here 0 code g regs w := by
  obtain ⟨hslots, hanswer, hm, next, failed, hnext, hfailed, rfl⟩ := hformed
  obtain ⟨color, hcolor⟩ := List.getElem?_of_mem hslots
  have hstop : ∀ regs, endArg.eval A.args regs = .ok (.ptr (some stop)) := fun regs => by
    rw [S.args]
    rfl
  have herror : Deed.errorPos? A.args .flushes = some stop := by
    rw [S.args]
    rfl
  have hgoto : ∀ position, Deed.errorPos? A.args .flushes = some position →
      ∀ g regs (w : World σ), Good e p book o g.failures w →
        Pending g regs (slots.dispatch.answer (start + 2)) position →
          regs.length = d.body.regs.length → (watch e p book o).Runs A steps failed g regs w := by
    intro position hposition g regs w hgood hpending hregs
    obtain rfl := Option.some.inj (herror.symm.trans hposition)
    exact S.goto hfailed ⟨hgood, hpending⟩ hregs
  cases hd : slots.dispatch with
  | direct callee =>
    simp only [hd, Dispatch.calling, Dispatch.answer, List.singleton_append] at hanswer hm hgoto ⊢
    refine S.goes_callee howner hm rfl hanswer (hstop _) herror ?_ hnext hgoto hsettled hregs
    intro f vs b hreached hb
    obtain rfl := Option.some.inj (Value.func.inj (Except.ok.inj (reached?_eq_some.1 hreached).1))
    obtain ⟨span, hspan, rfl⟩ := S.serves.direct_callee hcolor hd
    simp [S.bodiless span hspan] at hb
  | indirect slot candidates =>
    simp only [hd, Dispatch.calling, Dispatch.answer, List.cons_append, List.nil_append]
      at hanswer hm hgoto ⊢
    have hslot := S.serves.field_slot hcolor hd
    obtain ⟨v, hv⟩ := (S.serves.has_field hslot hsettled.good.fits).get?
    have hset : start + 2 < regs.length := by
      rw [hregs]
      omega
    refine goes_quiet rfl (S.quiet_of_none howner hm (j := 0) rfl) (exec_load hv hset) ?_
    refine S.goes_callee howner hm.tail rfl hanswer (hstop _) herror ?_ hnext hgoto hsettled
      (by simpa using hregs)
    intro f vs b hreached hb
    refine ⟨fun hstrict => ?_, rfl⟩
    have hf := (reached?_eq_some.1 hreached).1
    rw [Operand.eval_reg (List.getElem?_set_self hset)] at hf
    obtain rfl := Except.ok.inj hf
    rcases hsettled.good.callees hstrict color slot hslot with hnone | ⟨span, hspan, hget⟩
    · simp [hv] at hnone
    · obtain rfl : f = span.callback := by simpa [hv] using hget
      simp [S.bodiless span hspan] at hb

theorem goes_block (S : Setting e p book o host first stop d roles A steps)
    (hnote : Note e p book o first stop d roles here g regs w) :
    ∃ code, A.body.code? here = some code ∧
      (watch e p book o).Goes A steps here 0 code g regs w := by
  obtain ⟨role, hplays, hrelies⟩ := hnote.role
  have howner := hplays.1
  obtain ⟨code, hcode, hformed⟩ := S.outlined.formed_of_plays hplays
  refine ⟨code, by rw [S.body]; exact hcode, ?_⟩
  have hregs := hnote.regs
  have hlands : ∀ term, code.2 = some term → ∀ target ∈ term.targets,
      (d.body.code? target).isSome := by
    intro term hterm target htarget
    have hcode' : d.body.code? here = some (code.1, some term) := by rw [hcode, ← hterm]
    exact Body.code_of_verify S.verified hcode' htarget
  cases role with
  | plain => exact S.goes_tail howner hformed hlands hrelies hregs
  | failed answer =>
    obtain ⟨is, t⟩ := code
    obtain ⟨rest, rfl, hm, htail⟩ := hformed
    obtain ⟨hgood, pos, rfl, hpending⟩ := hrelies
    exact S.goes_record howner (by rw [S.args]; rfl) hm hgood hpending fun w hsettled =>
      S.goes_tail howner htail hlands hsettled hregs
  | trap =>
    obtain ⟨-, rfl⟩ := hformed
    exact goes_leave (by simp [leave]) (by simp [leave]) fun fault _ =>
      failed_of_settled hrelies fault
  | opened slots start => exact S.goes_closing howner hformed hrelies hregs
  | restart slots =>
    obtain ⟨hslots, hm, next, hnext, rfl⟩ := hformed
    obtain ⟨color, hcolor⟩ := List.getElem?_of_mem hslots
    have hsettled : Settled e p book o g w := hrelies
    refine goes_store (v := first) (S.quiet_of_none howner hm (j := 0) rfl)
      (by rw [S.args]; rfl) (S.serves.has_field (Emitter.field_start hcolor) hsettled.good.fits) ?_
    exact goes_br (S.goto hnext (S.settled_put_start hcolor hsettled _) hregs)
  | present slots start => exact S.goes_present howner hformed hrelies hregs
  | flushFailed answer =>
    obtain ⟨hm, rfl⟩ := hformed
    rw [← List.append_nil (e.record.stores _ _)]
    refine S.goes_record howner (by rw [S.args]; rfl) hm hrelies.1 hrelies.2 fun w hsettled => ?_
    obtain ⟨code, -, -, hanswer⟩ := hrelies.2
    exact goes_ret (Operand.eval_reg hanswer) hsettled

end Setting

section Calls

variable (he : e.Serves p)
  (hbook : ∀ f b, p.body? f = some b → p.Authored e book f ∧ (book f).LeavesErrors e p)
  (hbodiless : ∀ span ∈ e.coloring.spans, p.body? span.callback = none)
  (hslots : o.strict → ∀ f b, p.body? f = some b → (book f).LeavesSlots e)

include he hbook hbodiless hslots

theorem meets_body (hhost : o.strict → host = o.host) (limit depth : Nat) {f : FuncId} {b : Body}
    (hb : p.body? f = some b) (first : Value) (stop : Nat) (hsettled : Settled e p book o g w) :
    (watch e p book o).Meets (watch e p book o).done g
      (trace p host limit depth f [.state, first, .ptr (some stop)] w)
      (call p host limit depth f [.state, first, .ptr (some stop)] w) := by
  refine meets_call (fun f args g w => (p.body? f).isSome ∧
    (∃ first stop, args = [.state, first, .ptr (some stop)]) ∧ Settled e p book o g w) ?_ ?_ ?_
    depth ⟨by rw [hb]; rfl, ⟨first, stop, rfl⟩, hsettled⟩
  · rintro depth f args g w ⟨hsome, -, -⟩ hnone
    simp [hnone] at hsome
  · rintro f b args g w ⟨-, -, hsettled⟩ _
    exact failed_of_settled hsettled _
  · rintro depth f b _ g w hcalls ⟨-, ⟨first, stop, rfl⟩, hsettled⟩ hb
    obtain ⟨hauthored, hleaves⟩ := hbook f b hb
    obtain rfl : (book f).body = b := Option.some.inj (hauthored.body.symm.trans hb)
    obtain ⟨new, houtlined⟩ := hauthored.made.outlined
    obtain ⟨hid, hverified⟩ := he.reachable.bodies f _ hb
    refine runs_of_blocks (Note e p book o first stop (book f) (.plain :: new)) ?_ ?_
      ⟨⟨.plain, ⟨rfl, rfl⟩, hsettled⟩, by simp⟩
    · intro here g regs w hnote
      obtain ⟨role, -, hrelies⟩ := hnote.role
      exact ⟨hrelies.good, fun hne => absurd rfl (hne limit)⟩
    · intro steps hruns here g regs w hnote
      have S : Setting e p book o host first stop (book f) (.plain :: new) _ steps :=
        { serves := he, outlined := houtlined, page := by rw [hid], defined := by rw [hid]; exact hb
          verified := hverified, leaves := hleaves, slots := fun hstrict => hslots hstrict f _ hb
          body := rfl, args := rfl, bodiless := hbodiless, same := hhost
          asks := fun f vs w hnone =>
            ⟨trace_of_body_none hnone depth, call_of_body_none host limit depth vs w hnone⟩
          calls := fun f b v g w hb hsettled =>
            hcalls f _ g w ⟨by rw [hb]; rfl, ⟨v, stop, rfl⟩, hsettled⟩
          runs := hruns }
      obtain ⟨code, hcode, hgoes⟩ := S.goes_block hnote
      refine ⟨code, hcode, ?_, ?_⟩
      · rw [notice_entered]
        trivial
      · rw [notice_entered]
        exact hgoes

theorem meets_invocation {q : Invocation σ} (hhost : o.strict → q.host = o.host)
    (hinvoked : o.strict → (p.body? q.callee).isSome) (hsettled : Settled e p book o g w) :
    (watch e p book o).Meets (watch e p book o).done g
      (trace p q.host q.limit q.depth q.callee q.request.args w)
      (call p q.host q.limit q.depth q.callee q.request.args w) := by
  cases hb : p.body? q.callee with
  | some b => exact meets_body he hbook hbodiless hslots hhost q.limit q.depth hb _ _ hsettled
  | none =>
    have hloose : ¬ o.strict := fun hstrict => by simp [hb] at hinvoked; exact hinvoked hstrict
    rw [trace_of_body_none hb]
    obtain ⟨fault, hcall⟩ | ⟨start, stop, -, hcall⟩ :=
      call_of_body_none q.host q.limit q.depth q.request.args w hb
    · rw [hcall]
      exact failed_of_settled hsettled fault
    · rw [hcall]
      exact ⟨hsettled.good.loosen hloose (List.Subset.refl _) rfl, hsettled.latest⟩

end Calls

theorem foldl_notice (ms : List (Moment σ)) :
    ms.foldl (watch e p book o).notice g =
      ⟨g.failures ++ ms.filterMap (Moment.failure? book), g.cut || ms.any Moment.isCut⟩ := by
  induction ms generalizing g with
  | nil => simp
  | cons m ms ih =>
    rw [List.foldl_cons, ih, List.filterMap_cons]
    cases hm : m.failure? book <;> simp [watch, hm, Bool.or_assoc]

theorem settled_after {ms : List (Moment σ)} {r : EStateM.Result Fault (World σ) Value}
    (h : (watch e p book o).Meets (watch e p book o).done g ms r) :
    Settled e p book o ((ms ++ [Moment.ofResult r]).foldl (watch e p book o).notice g)
      (Moment.ofResult r).world := by
  rw [List.foldl_append]
  cases r with
  | ok v w => exact settled_of_done h.done_of_ok
  | error fault w => exact settled_of_failed h.failed_of_error

end Body

section Sessions

open Machine

theorem failure?_ofResult (r : EStateM.Result Fault (World σ) Value) :
    (Moment.ofResult r).failure? book = none := by
  cases r <;> rfl

/-- In a strict run the failures are those of the calls that were added to the log. -/
theorem failures_of_meets {strict : Prop} (hstrict : strict) {host : Host σ} {g : Account}
    {w : World σ} {ms : List (Moment σ)} {r : EStateM.Result Fault (World σ) Value}
    (h : (watch e p book ⟨strict, host, w, g.failures⟩).Meets
      (watch e p book ⟨strict, host, w, g.failures⟩).done g ms r) :
    ms.filterMap (Moment.failure? book) =
      (host.answers ((Moment.ofResult r).world.calls.toList.drop w.calls.size) w.host).filterMap
        Failure.ofReply? := by
  obtain ⟨made, hcalls, -, hfailures⟩ := (settled_after h).good.accounts hstrict
  have hmade : (Moment.ofResult r).world.calls.toList.drop w.calls.size = made := by
    rw [hcalls]
    simp [World.told]
  rw [foldl_notice, List.filterMap_append, List.filterMap_cons_none (failure?_ofResult r),
    List.filterMap_nil, List.append_nil] at hfailures
  rw [hmade]
  exact List.append_cancel_left hfailures

/-- If nobody but span code writes the slots, failures are those that the host has answered with. -/
theorem failures_session (he : e.Serves p)
    (hbook : ∀ f b, p.body? f = some b → p.Authored e book f ∧ (book f).LeavesErrors e p)
    (hbodiless : ∀ span ∈ e.coloring.spans, p.body? span.callback = none)
    (hslots : ∀ f b, p.body? f = some b → (book f).LeavesSlots e) (hstrict : o.strict)
    {invocations : List (Invocation σ)}
    (hinvoked : ∀ q ∈ invocations, (p.body? q.callee).isSome) {g : Account} {w : World σ}
    (h : Settled e p book o g w) :
    (session p (invocations.map Invocation.request) w).filterMap (Moment.failure? book) =
      (answers p (invocations.map Invocation.request) w).filterMap Failure.ofReply? := by
  induction invocations generalizing o g w with
  | nil => rfl
  | cons q rest ih =>
    obtain ⟨hq, hrest⟩ := List.forall_mem_cons.1 hinvoked
    have hmeets := meets_invocation he hbook hbodiless (fun _ => hslots)
      (fun _ => rfl) (fun _ => hq) (h.begin q.host)
    have hnow := failures_of_meets hstrict hmeets
    have hlater := ih (o := ⟨o.strict, q.host, w, g.failures⟩) hstrict hrest (settled_after hmeets)
    rw [List.map_cons, session, answers, List.filterMap_append, List.filterMap_append,
      List.filterMap_cons_none (failure?_ofResult _)]
    exact congrArg₂ (· ++ ·) hnow hlater

end Sessions

end Errors

open Machine

/-- Between calls from outside, also after calls that failed, the error record is as at first, or
has the code of a call that failed, the reason, and the position of that failure; and parsing
resumes nowhere, or at a declared function that a failure path was given. If no call has used up its
steps, the record tells of the last failure. Calls are made for nothing but the end of a span, where
the position is the one that the function was called at, and for an open span at the end of the
buffer, where the position is that end. As long as no author writes a slot for a callback, and
functions with a body are called from outside, the failures are the answers of the host other than
zero, with the ends that the host was given. -/
theorem last_error_wins {options : SpanOptions} {c : Coloring} {p₀ p₁ p : Program} {e : Emitter}
    (hp : p₀.Reachable) (he : Emitter.prepare options c p₀ = .ok e p₁) (hleads : p₁.Leads p)
    {book : FuncId → Draft}
    (hassembled : ∀ f b, p.body? f = some b → p.Authored e book f ∧ (book f).LeavesErrors e p)
    (hbodiless : ∀ span ∈ c.spans, p.body? span.callback = none)
    (invocations : List (Invocation σ)) (host : σ) :
    let w : World σ := { memory := .fresh p.layout, host }
    let requests := invocations.map Invocation.request
    p.literal? e.record.message = some options.errorReason ∧
    (∀ before m after, session p requests w = before ++ m :: after →
      m.KeepsRecord e p book ((before ++ [m]).filterMap (Moment.failure? book))
        ((before ++ [m]).any Moment.isCut)) ∧
    ((∀ f b, p.body? f = some b → (book f).LeavesSlots e) →
      (∀ q ∈ invocations, (p.body? q.callee).isSome) →
      (session p requests w).filterMap (Moment.failure? book) =
        (answers p requests w).filterMap Failure.ofReply?) := by
  intro w requests
  have hserves := Emitter.serves_of_prepare hp he hleads
  obtain ⟨-, rfl, rfl, -⟩ := Emitter.prepare_ok hp.numbered he
  have hfresh : ∀ strict, Errors.Settled e p book ⟨strict, ⟨fun _ => none⟩, w, []⟩ {} w :=
    fun strict => Errors.settled_fresh hserves strict _ host
  refine ⟨hserves.ready.message, fun before m after hm => ?_, fun hslots hinvoked => ?_⟩
  · -- Here calls of the host are not accounted for.
    have hmeets : (Errors.watch e p book ⟨False, ⟨fun _ => none⟩, w, []⟩).Meets (fun _ _ _ => True)
        {} (session p requests w) (.ok () w) := by
      refine Watch.meets_session (Errors.Settled e p book _) ?_ ?_ ?_ (hfresh False) w
      · intro q hq g w hsettled
        obtain ⟨q, -, rfl⟩ := List.mem_map.1 hq
        exact Errors.meets_invocation hserves hassembled hbodiless False.elim False.elim False.elim
          hsettled
      · intro g v w hdone
        have hsettled := Errors.settled_of_done hdone
        exact ⟨hsettled.keeps, hsettled⟩
      · intro g fault w hfailed
        have hsettled := Errors.settled_of_failed hfailed
        exact ⟨hsettled.keeps, hsettled⟩
    have hholds := hmeets.holds_of_eq hm
    rwa [Errors.foldl_notice, List.nil_append, Bool.false_or] at hholds
  · exact Errors.failures_session hserves hassembled hbodiless hslots trivial hinvoked (hfresh True)

@[irreducible] def courier : List Draft := [
  .written (pairEmitter {}) ⟨2⟩ "parse" [
    .spanStart ⟨⟨2⟩, 0⟩ ⟨1⟩,
    .epilogue ⟨⟨2⟩, 0⟩,
    .spanEnd ⟨⟨2⟩, 5⟩ ⟨1⟩,
    .leave ⟨⟨2⟩, 7⟩ (.ret (.status 0)),
    .resumeAt ⟨⟨⟨2⟩, 8⟩, EventParser.sharedFields.current, -1⟩ pairDeclared ⟨2⟩]]

@[irreducible] def courierProgram : Program := Build.after (Draft.defineAll courier) pairPrepared

def deliver (answer : Nat → Int32) (pos stop : Nat) : Invocation Unit where
  host := ⟨fun _ => some fun _ stop _ => (answer stop, ())⟩
  limit := 20
  depth := 1
  callee := ⟨2⟩
  pos
  stop

theorem courier_leaves (h : pairDeclared.Leads courierProgram) :
    ∀ d ∈ courier, d.LeavesErrors (pairEmitter {}) courierProgram ∧
      d.LeavesSlots (pairEmitter {}) := by
  have hresumed : ∀ d ∈ courier, d.resumed = [(pairDeclared, ⟨2⟩)] := by decide +kernel
  have hslots : ∀ d ∈ courier, d.LeavesSlots (pairEmitter {}) := by decide +kernel
  intro d hd
  refine ⟨⟨?_, ?_, ?_, ?_⟩, hslots d hd⟩
  · decide +kernel +revert
  · decide +kernel +revert
  · decide +kernel +revert
  · rwa [hresumed d hd, List.forall_mem_singleton]

/-- The first call fails when it hands over a span, and the second when it ends one. -/
def deliveries : List (Invocation Unit) :=
  [deliver (fun _ => 7) 3 9, deliver (fun stop => if stop = 8 then 0 else 5) 4 8]

theorem courier_made : ∀ d ∈ courier, d.Made (pairEmitter {}) := by
  unfold courier
  refine List.forall_mem_singleton.2 ?_
  refine Draft.made_written (by decide +kernel) fun path p target hmem => ?_
  simp only [List.mem_cons, List.not_mem_nil, reduceCtorEq, or_false, false_or,
    Operation.resumeAt.injEq] at hmem
  rw [hmem.1]
  exact ⟨rfl, rfl⟩

theorem session_deliveries_ne_nil :
    session courierProgram (deliveries.map Invocation.request)
      { memory := .fresh courierProgram.layout, host := () } ≠ [] := by
  simp [session, deliveries]

theorem last_error_wins_courier :
    let w : World Unit := { memory := .fresh courierProgram.layout, host := () }
    let requests := deliveries.map Invocation.request
    (∃ before m, session courierProgram requests w = before ++ [m] ∧
      m.world.memory.values.take 4 = [.func (some ⟨2⟩), .int 5, .text ⟨0⟩, .ptr (some 4)] ∧
      m.KeepsRecord (pairEmitter {}) courierProgram (Draft.book courier)
        ((before ++ [m]).filterMap (Moment.failure? (Draft.book courier)))
        ((before ++ [m]).any Moment.isCut)) ∧
    courierProgram.literal? ⟨0⟩ = some "Span callback error" ∧
    answers courierProgram requests w =
      [(⟨⟨1⟩, 3, 9⟩, 7), (⟨⟨1⟩, 4, 8⟩, 0), (⟨⟨1⟩, 4, 4⟩, 5)] ∧
    (session courierProgram requests w).filterMap (Moment.failure? (Draft.book courier)) =
      (answers courierProgram requests w).filterMap Failure.ofReply? := by
  intro w requests
  have hdefined : Draft.defineAll courier pairPrepared = .ok () courierProgram := by
    unfold courierProgram
    exact Build.eq_ok_of_succeeds (by decide +kernel)
  have hleads := Draft.leads_of_defineAll hdefined
  obtain ⟨-, -, -, -, hprepared⟩ :=
    Emitter.prepare_ok pairDeclared_reachable.numbered (prepare_pair true false)
  have hleaves : ∀ d ∈ courier, d.LeavesErrors (pairEmitter {}) courierProgram ∧
      d.LeavesSlots (pairEmitter {}) := courier_leaves (hprepared.trans hleads)
  have hbook : ∀ f b, courierProgram.body? f = some b →
      courierProgram.Authored (pairEmitter {}) (Draft.book courier) f ∧
        Draft.book courier f ∈ courier := fun f b hb =>
    Draft.authored_of_defineAll hdefined pairPrepared_bodiless (by decide +kernel) courier_made hb
  obtain ⟨hliteral, hkeeps, hhost⟩ := last_error_wins pairDeclared_reachable
    (prepare_pair true false) hleads
    (fun f b hb => (hbook f b hb).imp_right fun hmem => (hleaves _ hmem).1) (by decide +kernel)
    deliveries ()
  have hsplit := (List.dropLast_append_getLast session_deliveries_ne_nil).symm
  refine ⟨⟨_, _, hsplit, by decide +kernel, hkeeps _ _ _ hsplit⟩, hliteral, by decide +kernel,
    hhost (fun f b hb => (hleaves _ (hbook f b hb).2).2) (by decide +kernel)⟩

def swappedDeclared : Program :=
  EventParser.sharedProgram
    [("on_a", parserSig), ("on_b", parserSig), ("parse", parserSig), ("five", parserSig)]

def swappedPrepared : Program := { pairPrepared with decls := swappedDeclared.decls }

theorem prepare_swapped :
    Emitter.prepare {} sharedPair swappedDeclared = .ok (pairEmitter {}) swappedPrepared := rfl

/-- Opens a span, puts another function into the slot and hands the span over. -/
@[irreducible] def swapped : List Draft := [
  .written (pairEmitter {}) ⟨2⟩ "parse" [
    .spanStart ⟨⟨2⟩, 0⟩ ⟨0⟩,
    .store ⟨⟨2⟩, 0⟩ ⟨⟨5⟩, "_span_cb0", parserSig.ptr⟩ (.func ⟨3⟩),
    .epilogue ⟨⟨2⟩, 0⟩,
    .leave ⟨⟨2⟩, 5⟩ (.ret (.status 0))],
  .written (pairEmitter {}) ⟨3⟩ "five" [.leave ⟨⟨3⟩, 0⟩ (.ret (.status 5))]]

@[irreducible] def swappedProgram : Program := Build.after (Draft.defineAll swapped) swappedPrepared

def swappedCall : Invocation Unit where
  host := ⟨fun _ => some fun _ _ _ => (0, ())⟩
  limit := 20
  depth := 2
  callee := ⟨2⟩
  pos := 3
  stop := 9

/-- An author that writes a slot makes a function of the program fail in place of a callback: the
record has its code, although the host was never asked. -/
theorem failure_without_host :
    let w : World Unit := { memory := .fresh swappedProgram.layout, host := () }
    swappedDeclared.Reachable ∧
    Emitter.prepare {} sharedPair swappedDeclared = .ok (pairEmitter {}) swappedPrepared ∧
    swappedPrepared.Leads swappedProgram ∧
    (∀ f b, swappedProgram.body? f = some b →
      swappedProgram.Authored (pairEmitter {}) (Draft.book swapped) f ∧
        (Draft.book swapped f).LeavesErrors (pairEmitter {}) swappedProgram) ∧
    (∀ span ∈ sharedPair.spans, swappedProgram.body? span.callback = none) ∧
    ∃ before m, session swappedProgram [swappedCall.request] w = before ++ [m] ∧
      m.world.memory.values.take 4 = [.func none, .int 5, .text ⟨0⟩, .ptr (some 9)] ∧
      (before ++ [m]).any Moment.isCut = false ∧ m.world.calls = #[] ∧
      answers swappedProgram [swappedCall.request] w = [] := by
  intro w
  have hdefined : Draft.defineAll swapped swappedPrepared = .ok () swappedProgram := by
    unfold swappedProgram
    exact Build.eq_ok_of_succeeds (by decide +kernel)
  have hmade : ∀ d ∈ swapped, d.Made (pairEmitter {}) := by
    unfold swapped
    refine List.forall_mem_cons.2 ⟨?_, List.forall_mem_singleton.2 ?_⟩
    · exact Draft.made_written (by decide +kernel) (by simp)
    · exact Draft.made_written (by decide +kernel) (by simp)
  have hbodiless : ∀ f, swappedPrepared.body? f = none := by
    rintro ⟨i⟩
    rcases i with _ | _ | _ | _ | i <;> rfl
  have hleaves : ∀ d ∈ swapped, d.LeavesErrors (pairEmitter {}) swappedProgram := by
    have hresumed : ∀ d ∈ swapped, d.resumed = [] := by decide +kernel
    intro d hd
    refine ⟨?_, ?_, ?_, by simp [hresumed d hd]⟩
    · decide +kernel +revert
    · decide +kernel +revert
    · decide +kernel +revert
  have hsession := session_single swappedProgram swappedCall.request w
  refine ⟨EventParser.sharedProgram_reachable (by decide), prepare_swapped,
    Draft.leads_of_defineAll hdefined, fun f b hb => ?_, by decide +kernel, _, _, hsession,
    by decide +kernel, by decide +kernel, by decide +kernel, by decide +kernel⟩
  exact (Draft.authored_of_defineAll hdefined hbodiless (by decide +kernel) hmade hb).imp_right
    (hleaves _)

end SpanTracking
