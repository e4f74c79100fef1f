import SpanTracking.Proofs.Fragments
import SpanTracking.Proofs.Run

set_option autoImplicit false

namespace SpanTracking

namespace Machine

variable {σ : Type}

def record (r : ErrorRecord) (pos code : Value) : Exec σ Unit := do
  write r.error.id code
  write r.reason.id (.text r.message)
  write r.errorPos.id pos

def callee : Dispatch → Exec σ FuncId
  | .direct f => return f
  | .indirect slot _ => do
    let v ← read slot.id
    settle (asCallee v)

def openSpan (slots : ColorSlots) (callback : FuncId) (pos : Value) : Exec σ Unit := do
  write slots.start.id pos
  match slots.slot? with
  | some slot => write slot.id (.func (some callback))
  | none => return ()

/-- Hands over a span that goes from `start` to `pos`. A failing callback stops the function with
the sentinel, and parsing is to resume at `target`. -/
def handOver (enter : FuncId → List Value → Exec σ Value) (e : Emitter) (slots : ColorSlots)
    (callback target : FuncId) (start pos : Value) : Exec σ (Option Value) := do
  write slots.start.id (.ptr none)
  let code ← enter callback [.state, start, pos]
  if code = .int 0 then return none
  else
    record e.record pos code
    write e.current.id (.func (some target))
    return some (.int e.options.errorSentinel.toInt)

def closeSpan (enter : FuncId → List Value → Exec σ Value) (e : Emitter) (slots : ColorSlots)
    (callback target : FuncId) (name : String) (pos : Value) : Exec σ (Option Value) := do
  let start ← read slots.start.id
  if e.options.debugChecks && start.isNull then throw (.trap name)
  else handOver enter e slots callback target start pos

def rebase (slots : ColorSlots) (pos : Value) : Exec σ (Option Value) := do
  let start ← read slots.start.id
  if start.isNull then return none
  else
    write slots.start.id pos
    return none

def flush (enter : FuncId → List Value → Exec σ Value) (e : Emitter) (slots : ColorSlots)
    (stop : Value) : Exec σ (Option Value) := do
  let start ← read slots.start.id
  if start.isNull then return none
  else
    let f ← callee slots.dispatch
    let code ← enter f [.state, start, stop]
    if code = .int 0 then return none
    else
      record e.record stop code
      return some code

def inTurn (deal : ColorSlots → Exec σ (Option Value)) : List ColorSlots → Exec σ (Option Value)
  | [] => return none
  | slots :: rest => do
    match ← deal slots with
    | none => inTurn deal rest
    | some v => return some v

end Machine

/-- A place in a body: after the first `done` instructions of a block. -/
structure Point where
  block : BlockId
  done : Nat

/-- The run from the point `here` comes to `outcome`. It goes on at `next`, after `used` further
blocks and with the first `kept` registers as they were, or it ends within `used` blocks. -/
def Machine.Comes {σ : Type} (enter : FuncId → List Value → Exec σ Value) (limit : Nat)
    (whole : Body) (args : List Value) (kept : Nat) (here next : Point) (used : Nat) (regs : Regs)
    (w : World σ) : EStateM.Result Fault (World σ) (Option Value) → Prop
  | .ok none w' => ∃ regs', Regs.Keeps kept regs regs' ∧ ∀ steps,
      runAt enter limit whole args (steps + used) here.block here.done regs w =
        runAt enter limit whole args steps next.block next.done regs' w'
  | .ok (some v) w' => ∀ steps,
      runAt enter limit whole args (steps + used) here.block here.done regs w = .ok v w'
  | .error e w' => ∀ steps,
      runAt enter limit whole args (steps + used) here.block here.done regs w = .error e w'

/-- The run from the point `here` goes on at `next`, after `used` further blocks and with the first
`kept` registers as they were. It needs no callee, and none of them matters. -/
def Machine.Crosses {σ : Type} (whole : Body) (args : List Value) (kept : Nat) (here next : Point)
    (used : Nat) (regs : Regs) (w w' : World σ) : Prop :=
  ∃ regs', Regs.Keeps kept regs regs' ∧
    ∀ (enter : FuncId → List Value → Exec σ Value) (limit steps : Nat),
      runAt enter limit whole args (steps + used) here.block here.done regs w =
        runAt enter limit whole args steps next.block next.done regs' w'

def ColorSlots.cost (slots : ColorSlots) (m : Memory) : Nat :=
  match m.get? slots.start.id with
  | some v => if v.isNull then 1 else 2
  | none => 1

namespace Machine

variable {σ : Type} {enter : FuncId → List Value → Exec σ Value} {limit : Nat} {whole : Body}
  {pos stop : Value} {regs : Regs} {w : World σ}

theorem read_cases (id : FieldId) (w : World σ) :
    (∃ v, w.memory.get? id = some v ∧ read id w = .ok v w) ∨
      (w.memory.get? id = none ∧ read id w = .error (.unknownField id) w) := by
  unfold read
  cases w.memory.get? id <;> simp

theorem exec_load_error {args : List Value} {dst : Reg} {field : FieldId} {ty : Ty} {e : Fault}
    {w' : World σ} (h : read field w = .error e w') :
    exec enter args regs (.load dst field ty) w = .error e w' :=
  bind_of_error h

theorem exec_store_of_write {args : List Value} {field : FieldId} {value : Operand} {v : Value}
    (hv : value.eval args regs = .ok v) :
    exec enter args regs (.store field value) w =
      (write field v >>= fun _ => pure regs) w := by
  have hs : settle (value.eval args regs) w = .ok v w := by simp [hv]
  exact andThen hs rfl

theorem same_null (v : Value) : v.same (.ptr none) = v.isNull := by
  cases v with
  | ptr p => cases p <;> simp [Value.same, Value.isNull]
  | func f => cases f <;> simp [Value.same, Value.isNull]
  | int n => simp [Value.same, Value.isNull]
  | text t => simp [Value.same, Value.isNull]
  | state => simp [Value.same, Value.isNull]

theorem same_zero (v : Value) : v.same (.int 0) = decide (v = .int 0) := by
  simp [Value.same, Value.isNull]

theorem toInt_eq_zero {code : Int32} : Value.int code.toInt = .int 0 ↔ code = 0 := by
  rw [Value.int.injEq, ← Int32.toInt_zero, Int32.toInt_inj]

theorem eval_noStart {args : List Value} {slots : ColorSlots} (ht : slots.start.ty = .bytes) :
    slots.noStart.eval args regs = .ok (.ptr none) := by
  simp [ColorSlots.noStart, Operand.eval, ht, Value.zero, Ty.isFuncPtr, Ty.bytes]

theorem eval_success {args : List Value} :
    (Operand.status 0).eval args regs = .ok (.int 0) := rfl

theorem eval_posArg : posArg.eval [.state, pos, stop] regs = .ok pos := rfl

theorem eval_endArg : endArg.eval [.state, pos, stop] regs = .ok stop := rfl

/-- A block that ends in the test for an open span leaves the start in a register and branches. -/
theorem runAt_test (args : List Value) {here onTrue onFalse : BlockId} {old : List Instr}
    {slots : ColorSlots} {how : Comparison} {r : Nat} {hint : BranchHint}
    (hc : whole.code? here = some (old ++ slots.test how r,
      some (.condBr (.reg ⟨r + 1⟩) onTrue onFalse hint)))
    (ht : slots.start.ty = .bytes) (hr : r + 1 < regs.length) {v : Value}
    (hv : w.memory.get? slots.start.id = some v) :
    ∃ regs', Regs.Keeps r regs regs' ∧ regs'[r]? = some (some v) ∧
      ∀ (enter : FuncId → List Value → Exec σ Value) (limit steps : Nat),
        runAt enter limit whole args steps here old.length regs w =
          runFrom enter limit whole args steps
            (if how.holds v (.ptr none) then onTrue else onFalse) regs' w := by
  have hl : (regs.set r (some v))[r]? = some (some v) := List.getElem?_set_self (by omega)
  refine ⟨(regs.set r (some v)).set (r + 1) (some (.truth (how.holds v (.ptr none)))),
    ((Regs.Keeps.refl r regs).set (Nat.le_refl r) _).set (Nat.le_succ r) _, ?_, ?_⟩
  · rw [List.getElem?_set_ne (by omega)]
    exact hl
  · intro enter limit steps
    have hload : exec enter args regs (.load ⟨r⟩ slots.start.id slots.start.ty) w = _ :=
      exec_load hv (by simp; omega)
    have hicmp : exec enter args (regs.set r (some v))
        (.icmp ⟨r + 1⟩ how (.reg ⟨r⟩) slots.noStart) w = _ :=
      exec_icmp (Operand.eval_reg hl) (eval_noStart ht) (by simpa using hr)
    rw [runAt_of_code hc, ColorSlots.test, finish_cons hload, finish_cons hicmp]
    exact finish_condBr (Operand.eval_reg (List.getElem?_set_self (by simpa using hr)))

theorem runAt_test_error {args : List Value} {here : BlockId} {old : List Instr}
    {slots : ColorSlots} {how : Comparison} {r : Nat} {term : Option Terminator}
    (hc : whole.code? here = some (old ++ slots.test how r, term)) {e : Fault} {w' : World σ}
    (h : read slots.start.id w = .error e w') (steps : Nat) :
    runAt enter limit whole args steps here old.length regs w = .error e w' := by
  rw [runAt_of_code hc]
  exact finish_cons_error (exec_load_error h)

theorem Crosses.comes {args : List Value} {kept used : Nat} {here next : Point} {w' : World σ}
    (h : Crosses whole args kept here next used regs w w') :
    Comes enter limit whole args kept here next used regs w (.ok none w') := by
  obtain ⟨regs', hkeep, hgo⟩ := h
  exact ⟨regs', hkeep, hgo enter limit⟩

section Rebase

variable {b b' : Body} {here next : BlockId} {old : List Instr} {color : Nat} {slots : ColorSlots}

/-- Rebasing one color that has a start, in any body that its code is part of. -/
theorem rebase_crosses (h : b.Open here old) (hr : Emitter.rebase here color slots b = .ok next b')
    (hw : b'.Within whole) (hl : whole.regs.length ≤ regs.length) (ht : slots.start.ty = .bytes)
    {v : Value} (hv : w.memory.get? slots.start.id = some v) :
    Crosses whole [.state, pos, stop] b.regs.length ⟨here, old.length⟩ ⟨next, 0⟩
      (slots.cost w.memory) regs w (if v.isNull then w else put w slots.start.id pos) := by
  obtain ⟨b'', hr', g⟩ := Emitter.rebase_grown h color slots
  obtain ⟨rfl, rfl⟩ : next = _ ∧ b' = b'' := by simpa [hr] using hr'
  have hhere := hw.finished _ _ _ g.code_here
  have hrestart : whole.code? ⟨b.id, b.codes.length⟩ = _ := hw.finished _ _ _ (g.code_tail 0)
  have hregs : b.regs.length + 2 ≤ regs.length := by
    simpa [g.regs] using hw.regs.trans hl
  obtain ⟨regs', hkeep, -, hbr⟩ := runAt_test [.state, pos, stop] hhere ht hregs hv
  simp only [Comparison.holds, same_null] at hbr
  refine ⟨regs', hkeep, fun enter limit steps => ?_⟩
  cases hn : v.isNull with
  | true =>
    simp only [ColorSlots.cost, hv, hn, ↓reduceIte]
    rw [hbr, hn, runFrom_succ]
    rfl
  | false =>
    simp only [ColorSlots.cost, hv, hn]
    rw [show steps + (if false = true then 1 else 2) = (steps + 1) + 1 from rfl, hbr, hn]
    simp only [Bool.not_false, ↓reduceIte]
    rw [runFrom_of_code hrestart, finish_cons (exec_store eval_posArg hv), finish_br,
      runFrom_succ]
    rfl

/-- Rebasing one color, in any body that its code is part of. -/
theorem rebase_comes (h : b.Open here old) (hr : Emitter.rebase here color slots b = .ok next b')
    (hw : b'.Within whole) (hl : whole.regs.length ≤ regs.length) (ht : slots.start.ty = .bytes) :
    b'.Open next [] ∧ Comes enter limit whole [.state, pos, stop] b.regs.length ⟨here, old.length⟩
      ⟨next, 0⟩ (slots.cost w.memory) regs w (rebase slots pos w) := by
  obtain ⟨b'', hr', g⟩ := Emitter.rebase_grown h color slots
  obtain ⟨rfl, rfl⟩ : next = _ ∧ b' = b'' := by simpa [hr] using hr'
  refine ⟨g.code_tail 1, ?_⟩
  rcases read_cases slots.start.id w with ⟨v, hv, hread⟩ | ⟨hv, hread⟩
  · have hm : rebase slots pos w = .ok none (if v.isNull then w else put w slots.start.id pos) := by
      rw [rebase, bind_of_ok hread]
      split
      · rfl
      · exact bind_of_ok (write_ok hv pos)
    rw [hm]
    exact (rebase_crosses h hr hw hl ht hv).comes
  · have hm : rebase slots pos w = .error (.unknownField slots.start.id) w := bind_of_error hread
    rw [hm]
    exact fun steps => runAt_test_error (hw.finished _ _ _ g.code_here) hread _

end Rebase

theorem execAll_stores {args : List Value} (r : ErrorRecord) {position code : Operand}
    {p c : Value} (hp : position.eval args regs = .ok p) (hc : code.eval args regs = .ok c) :
    execAll enter args regs (r.stores position code) w =
      (record r p c >>= fun _ => pure regs) w := by
  have ht : (Operand.text r.message).eval args regs = .ok (.text r.message) := rfl
  simp only [ErrorRecord.stores, execAll, record, bind_eq, exec_store_of_write hc]
  cases write r.error.id c w with
  | error e w' => rfl
  | ok u w' =>
    simp only [pure_run, exec_store_of_write ht, bind_eq]
    cases write r.reason.id (.text r.message) w' with
    | error e w'' => rfl
    | ok u w'' =>
      simp only [pure_run, exec_store_of_write hp, bind_eq]
      cases write r.errorPos.id p w'' <;> rfl

theorem finish_stores {args : List Value} (r : ErrorRecord) {position code : Operand}
    {p c : Value} (hp : position.eval args regs = .ok p) (hc : code.eval args regs = .ok c)
    (steps : Nat) (is : List Instr) (term : Option Terminator) :
    finish enter limit whole args steps (r.stores position code ++ is, term) regs w =
      (record r p c >>= fun _ => finish enter limit whole args steps (is, term) regs) w := by
  cases hrec : record r p c w with
  | ok u w' =>
    rw [finish_append, bind_of_ok hrec]
    rw [execAll_stores r hp hc, bind_of_ok hrec, pure_run]
  | error e w' =>
    rw [bind_of_error hrec]
    refine bind_of_error ?_
    rw [execAll_append, bind_of_error]
    rw [execAll_stores r hp hc, bind_of_error hrec]

theorem finish_record {args : List Value} {r : ErrorRecord} {position code value : Operand}
    {p c v : Value} (hp : position.eval args regs = .ok p) (hc : code.eval args regs = .ok c)
    (hv : value.eval args regs = .ok v) (steps : Nat) :
    finish enter limit whole args steps (r.stores position code, some (.ret value)) regs w =
      (record r p c >>= fun _ => pure v) w := by
  have hr : (fun _ : Unit => finish enter limit whole args steps ([], some (.ret value)) regs) =
      fun _ => pure v := funext fun _ => funext fun w => finish_ret hv
  rw [← List.append_nil (r.stores position code), finish_stores r hp hc, hr]

theorem comes_of_end {args : List Value} {kept used : Nat} {here next : Point} {x : Exec σ Value}
    {w' : World σ} (h : ∀ steps,
      runAt enter limit whole args (steps + used) here.block here.done regs w = x w') :
    Comes enter limit whole args kept here next used regs w
      ((x >>= fun v => pure (some v)) w') := by
  cases hx : x w' with
  | ok v w'' =>
    rw [bind_of_ok hx]
    exact fun steps => (h steps).trans hx
  | error e w'' =>
    rw [bind_of_error hx]
    exact fun steps => (h steps).trans hx

theorem execAll_calling (enter : FuncId → List Value → Exec σ Value) (w : World σ) (d : Dispatch)
    (sig : Signature) (hints : Bool) {args : List Value} {operands : List Operand} {r : Nat}
    {vs : List Value} (hr : d.answer r < regs.length)
    (ha : ∀ regs', Regs.Keeps r regs regs' → operands.mapM (Operand.eval args regs') = .ok vs) :
    match (callee d >>= fun f => enter f vs) w with
    | .ok code w' => ∃ regs', Regs.Keeps r regs regs' ∧
        regs'[d.answer r]? = some (some code) ∧
        execAll enter args regs (d.calling sig operands hints r) w = .ok regs' w'
    | .error e w' => execAll enter args regs (d.calling sig operands hints r) w = .error e w' := by
  cases d with
  | direct f =>
    have ha' := ha regs (.refl r regs)
    have hm : (callee (.direct f) >>= fun f => enter f vs) w = enter f vs w := rfl
    rw [hm]
    cases he : enter f vs w with
    | ok code w' =>
      refine ⟨regs.set r (some code), (Regs.Keeps.refl r regs).set (Nat.le_refl r) _,
        List.getElem?_set_self hr, ?_⟩
      exact bind_of_ok (exec_call_ok rfl ha' he hr)
    | error e w' => exact bind_of_error (exec_call_error rfl ha' he)
  | indirect slot candidates =>
    have hr₁ : r + 1 < regs.length := hr
    have hr' : r < regs.length := Nat.lt_of_succ_lt hr₁
    rcases read_cases slot.id w with ⟨v, hv, hread⟩ | ⟨hv, hread⟩
    · have hl : (regs.set r (some v))[r]? = some (some v) := List.getElem?_set_self hr'
      have hkeep := (Regs.Keeps.refl r regs).set (Nat.le_refl r) (some v)
      have hload : ∀ rest, execAll enter args regs (.load ⟨r⟩ slot.id slot.ty :: rest) w =
          execAll enter args (regs.set r (some v)) rest w :=
        fun rest => bind_of_ok (exec_load hv hr')
      rw [Dispatch.calling, hload]
      cases hf : asCallee v with
      | error e =>
        have hm : (callee (.indirect slot candidates) >>= fun f => enter f vs) w = .error e w :=
          bind_of_error (andThen hread (by simp [hf]))
        rw [hm]
        exact bind_of_error (exec_callee_error (Operand.eval_reg hl) hf)
      | ok f =>
        obtain rfl := asCallee_ok hf
        have hm : (callee (.indirect slot candidates) >>= fun f => enter f vs) w = enter f vs w :=
          bind_of_ok (andThen hread rfl)
        rw [hm]
        cases he : enter f vs w with
        | ok code w' =>
          refine ⟨(regs.set r (some (.func (some f)))).set (r + 1) (some code),
            hkeep.set (Nat.le_succ r) _, List.getElem?_set_self (by simpa using hr₁), ?_⟩
          exact bind_of_ok (exec_call_ok (Operand.eval_reg hl) (ha _ hkeep) he (by simpa using hr₁))
        | error e w' => exact bind_of_error (exec_call_error (Operand.eval_reg hl) (ha _ hkeep) he)
    · have hm : (callee (.indirect slot candidates) >>= fun f => enter f vs) w =
          .error (.unknownField slot.id) w := bind_of_error (bind_of_error hread)
      rw [hm]
      exact bind_of_error (exec_load_error hread)

theorem eval_args (pos stop : Value) {regs' : Regs} {r i : Nat} {v u : Value} {operand : Operand}
    (hk : Regs.Keeps r regs regs') (hi : i < r) (hv : regs[i]? = some (some v))
    (hu : ∀ regs, operand.eval [.state, pos, stop] regs = .ok u) :
    [stateArg, .reg ⟨i⟩, operand].mapM (Operand.eval [.state, pos, stop] regs') =
      .ok [.state, v, u] := by
  have hv' : (Operand.reg ⟨i⟩).eval [.state, pos, stop] regs' = .ok v :=
    Operand.eval_reg ((hk.below i hi).trans hv)
  have hs : stateArg.eval [.state, pos, stop] regs' = .ok .state := rfl
  simp [List.mapM_cons, hs, hv', hu, bind, Except.bind, pure, Except.pure]

theorem finish_calling (enter : FuncId → List Value → Exec σ Value) (limit : Nat) (whole : Body)
    (w : World σ) (d : Dispatch) (sig : Signature) (hints : Bool) (onTrue onFalse : BlockId)
    (hint : BranchHint) {args : List Value} {operands : List Operand} {r : Nat} {vs : List Value}
    (hr : d.answer r + 1 < regs.length)
    (ha : ∀ regs', Regs.Keeps r regs regs' → operands.mapM (Operand.eval args regs') = .ok vs) :
    match (callee d >>= fun f => enter f vs) w with
    | .ok code w' => ∃ regs', Regs.Keeps r regs regs' ∧
        regs'[d.answer r]? = some (some code) ∧ ∀ steps,
          finish enter limit whole args steps (d.calling sig operands hints r ++
              [.icmp ⟨d.answer r + 1⟩ .eq (.reg ⟨d.answer r⟩) (.status 0)],
            some (.condBr (.reg ⟨d.answer r + 1⟩) onTrue onFalse hint)) regs w =
          runFrom enter limit whole args steps (if code = .int 0 then onTrue else onFalse) regs' w'
    | .error e w' => ∀ steps,
        finish enter limit whole args steps (d.calling sig operands hints r ++
            [.icmp ⟨d.answer r + 1⟩ .eq (.reg ⟨d.answer r⟩) (.status 0)],
          some (.condBr (.reg ⟨d.answer r + 1⟩) onTrue onFalse hint)) regs w = .error e w' := by
  have hcall := execAll_calling enter w d sig hints (Nat.lt_of_succ_lt hr) ha
  cases hm : (callee d >>= fun f => enter f vs) w with
  | ok code w' =>
    rw [hm] at hcall
    obtain ⟨regs₁, hkeep, hcode, hall⟩ := hcall
    have hlen : d.answer r + 1 < regs₁.length := by rw [hkeep.length]; exact hr
    have hle : r ≤ d.answer r + 1 := by cases d <;> grind [Dispatch.answer]
    refine ⟨regs₁.set (d.answer r + 1) (some (.truth (decide (code = .int 0)))), hkeep.set hle _,
      ?_, fun steps => ?_⟩
    · rw [List.getElem?_set_ne (by omega)]
      exact hcode
    · have hicmp : exec enter args regs₁
          (.icmp ⟨d.answer r + 1⟩ .eq (.reg ⟨d.answer r⟩) (.status 0)) w' = _ :=
        exec_icmp (Operand.eval_reg hcode) eval_success hlen
      rw [finish_append hall, finish_cons hicmp, Comparison.holds, same_zero]
      rw [finish_condBr (Operand.eval_reg (List.getElem?_set_self hlen))]
      simp only [decide_eq_true_eq]
  | error e w' =>
    rw [hm] at hcall
    intro steps
    refine bind_of_error ?_
    rw [execAll_append, bind_of_error hcall]

/-- Flushing one color, in any body that its code is part of. -/
theorem flush_comes {b b' : Body} {here next : BlockId} {old : List Instr} {color : Nat}
    {slots : ColorSlots} {e : Emitter} (h : b.Open here old)
    (hr : e.flush here color slots b = .ok next b') (hw : b'.Within whole)
    (hl : whole.regs.length ≤ regs.length) (ht : slots.start.ty = .bytes) :
    b'.Open next [] ∧ Comes enter limit whole [.state, pos, stop] b.regs.length ⟨here, old.length⟩
      ⟨next, 0⟩ (slots.cost w.memory) regs w (flush enter e slots stop w) := by
  obtain ⟨b'', hr', g⟩ := Emitter.flush_grown e h color slots
  obtain ⟨rfl, rfl⟩ : next = _ ∧ b' = b'' := by simpa [hr] using hr'
  refine ⟨g.code_tail 1, ?_⟩
  have hhere := hw.finished _ _ _ g.code_here
  have hpresent : whole.code? ⟨b.id, b.codes.length⟩ = _ := hw.finished _ _ _ (g.code_tail 0)
  have hfailed := hw.finished _ _ _ (g.code_tail 2)
  have hlen := hw.regs.trans hl
  rw [g.regs] at hlen
  simp only [List.length_append, List.length_cons, List.length_nil] at hlen
  have htypes := slots.dispatch.types_length slots.sig (b.regs.length + 2)
  have hregs : b.regs.length + 2 ≤ regs.length := by omega
  rcases read_cases slots.start.id w with ⟨v, hv, hread⟩ | ⟨hv, hread⟩
  · obtain ⟨regs₁, hkeep₁, hstart, hbr⟩ :=
      runAt_test [.state, pos, stop] hhere ht hregs hv
    replace hbr := hbr enter limit
    simp only [Comparison.holds, same_null] at hbr
    cases hn : v.isNull with
    | true =>
      have hm : flush enter e slots stop w = .ok none w := by
        rw [flush, bind_of_ok hread, if_pos hn, pure_run]
      rw [hm]
      refine ⟨regs₁, hkeep₁, fun steps => ?_⟩
      simp only [ColorSlots.cost, hv, hn, ↓reduceIte]
      rw [hbr, hn, runFrom_succ]
      rfl
    | false =>
      have hm : flush enter e slots stop w =
          ((callee slots.dispatch >>= fun f => enter f [.state, v, stop]) >>= fun code =>
            if code = .int 0 then pure none
            else do
              record e.record stop code
              return some code) w := by
        rw [flush, bind_of_ok hread, if_neg (by simp [hn]), bind_eq, bind_eq, bind_eq]
        cases callee slots.dispatch w <;> rfl
      have hcost : slots.cost w.memory = 2 := by simp [ColorSlots.cost, hv, hn]
      have hgo : ∀ steps, runAt enter limit whole [.state, pos, stop] (steps + 2) here old.length
          regs w = runFrom enter limit whole [.state, pos, stop] (steps + 2)
            ⟨b.id, b.codes.length⟩ regs₁ w := by
        intro steps
        rw [hbr, hn]
        rfl
      have hfit : slots.dispatch.answer (b.regs.length + 2) + 1 < regs₁.length := by
        rw [hkeep₁.length]
        omega
      have hcall := finish_calling enter limit whole w slots.dispatch slots.sig
        e.options.calleeHints ⟨b.id, b.codes.length + 1⟩ ⟨b.id, b.codes.length + 2⟩ .likelyTrue hfit
        fun regs' hk => eval_args pos stop hk (by omega) hstart
          fun regs => eval_endArg
      rw [hm, hcost]
      cases hc : (callee slots.dispatch >>= fun f => enter f [.state, v, stop]) w with
      | error fault w' =>
        rw [hc] at hcall
        rw [bind_of_error hc]
        intro steps
        rw [hgo, runFrom_of_code hpresent, hcall]
      | ok code w' =>
        rw [hc] at hcall
        obtain ⟨regs₂, hkeep₂, hcode, hgo₂⟩ := hcall
        rw [bind_of_ok hc]
        by_cases hz : code = .int 0
        · rw [if_pos hz]
          refine ⟨regs₂, hkeep₁.trans (by omega) hkeep₂, fun steps => ?_⟩
          rw [hgo, runFrom_of_code hpresent, hgo₂, if_pos hz, runFrom_succ]
        · have hend : (record e.record stop code >>= fun _ => pure (some code)) w' =
              ((record e.record stop code >>= fun _ => pure code) >>=
                fun v => pure (some v)) w' := by
            simp only [bind_assoc, pure_bind]
          rw [if_neg hz, hend]
          refine comes_of_end fun steps => ?_
          rw [hgo, runFrom_of_code hpresent, hgo₂, if_neg hz, runFrom_of_code hfailed]
          exact finish_record eval_endArg (Operand.eval_reg hcode) (Operand.eval_reg hcode) steps
  · have hm : flush enter e slots stop w = .error (.unknownField slots.start.id) w :=
      bind_of_error hread
    rw [hm]
    exact fun steps => runAt_test_error hhere hread _

section Close

variable {e : Emitter} {slots : ColorSlots} {callback target : FuncId} {next failed : BlockId}

theorem runFrom_failed {code : Value} {r : Nat} (hcode : regs[r]? = some (some code))
    (hf : whole.code? failed = some (e.record.stores posArg (.reg ⟨r⟩) ++
      [.store e.current.id (.func target)], some (.ret (.status e.options.errorSentinel))))
    (steps : Nat) :
    runFrom enter limit whole [.state, pos, stop] (steps + 1) failed regs w =
      (do
        record e.record pos code
        write e.current.id (.func (some target))
        return Value.int e.options.errorSentinel.toInt) w := by
  have hr : finish enter limit whole [.state, pos, stop] steps
      ([.store e.current.id (.func target)], some (.ret (.status e.options.errorSentinel))) regs =
        (do
          write e.current.id (.func (some target))
          return .int e.options.errorSentinel.toInt) := by
    funext w
    have ht : (Operand.func target).eval [.state, pos, stop] regs = .ok (.func (some target)) := rfl
    rw [finish_step, bind_eq, exec_store_of_write ht]
    cases hw : write e.current.id (.func (some target)) w with
    | ok u w' =>
      simp only [bind_of_ok hw, pure_run]
      exact finish_ret rfl
    | error fault w' => simp only [bind_of_error hw]
  rw [runFrom_of_code hf, finish_stores e.record eval_posArg (Operand.eval_reg hcode), hr]

/-- Once the start is in a register, the rest of a span end hands the span over. -/
theorem handOver_comes {here : Point} {used kept i r : Nat} {regs₁ : Regs} {start : Value}
    (ht : slots.start.ty = .bytes) (hk : Regs.Keeps kept regs regs₁)
    (hkr : kept ≤ r) (hi : i < r) (hr : r + 1 < regs₁.length) (hs : regs₁[i]? = some (some start))
    (hf : whole.code? failed = some (e.record.stores posArg (.reg ⟨r⟩) ++
      [.store e.current.id (.func target)], some (.ret (.status e.options.errorSentinel))))
    (hgo : ∀ steps,
      runAt enter limit whole [.state, pos, stop] (steps + used) here.block here.done regs w =
        finish enter limit whole [.state, pos, stop] (steps + 1) (slots.close callback i r,
          some (.condBr (.reg ⟨r + 1⟩) next failed .likelyTrue)) regs₁ w) :
    Comes enter limit whole [.state, pos, stop] kept here ⟨next, 0⟩ used regs w
      (handOver enter e slots callback target start pos w) := by
  have hgo₁ : ∀ steps,
      runAt enter limit whole [.state, pos, stop] (steps + used) here.block here.done regs w =
        (write slots.start.id (.ptr none) >>= fun _ =>
          finish enter limit whole [.state, pos, stop] (steps + 1)
            ((Dispatch.direct callback).calling slots.sig [stateArg, .reg ⟨i⟩, posArg] false r ++
              [.icmp ⟨r + 1⟩ .eq (.reg ⟨r⟩) (.status 0)],
              some (.condBr (.reg ⟨r + 1⟩) next failed .likelyTrue)) regs₁) w := by
    intro steps
    rw [hgo, ColorSlots.close, finish_step, bind_eq, exec_store_of_write (eval_noStart ht)]
    cases hw : write slots.start.id (.ptr none) w with
    | ok u w' => simp only [bind_of_ok hw, pure_run]; rfl
    | error fault w' => simp only [bind_of_error hw]
  rw [handOver]
  cases hw : write slots.start.id (.ptr none) w with
  | error fault w' =>
    rw [bind_of_error hw]
    intro steps
    rw [hgo₁, bind_of_error hw]
  | ok u w₁ =>
    simp only [bind_of_ok hw] at hgo₁ ⊢
    have hcall := finish_calling enter limit whole w₁ (.direct callback) slots.sig false next failed
      .likelyTrue hr fun regs' hk' => eval_args pos stop hk' hi hs fun regs => eval_posArg
    have hc : (callee (.direct callback) >>= fun f => enter f [.state, start, pos]) w₁ =
      enter callback [.state, start, pos] w₁ := rfl
    rw [hc] at hcall
    cases he : enter callback [.state, start, pos] w₁ with
    | error fault w₂ =>
      rw [he] at hcall
      rw [bind_of_error he]
      intro steps
      rw [hgo₁]
      exact hcall _
    | ok code w₂ =>
      rw [he] at hcall
      obtain ⟨regs₂, hk₂, hcode, hgo₂⟩ := hcall
      rw [bind_of_ok he]
      by_cases hz : code = .int 0
      · rw [if_pos hz]
        refine ⟨regs₂, hk.trans hkr hk₂, fun steps => ?_⟩
        rw [hgo₁]
        refine (hgo₂ _).trans ?_
        rw [if_pos hz, runFrom_succ]
      · have hend : (do
            record e.record pos code
            write e.current.id (.func (some target))
            return some (Value.int e.options.errorSentinel.toInt)) w₂ =
              ((do
                record e.record pos code
                write e.current.id (.func (some target))
                return Value.int e.options.errorSentinel.toInt) >>= fun v => pure (some v)) w₂ := by
          simp only [bind_assoc, pure_bind]
        rw [if_neg hz, hend]
        refine comes_of_end fun steps => ?_
        rw [hgo₁]
        refine (hgo₂ _).trans ?_
        rw [if_neg hz]
        exact runFrom_failed hcode hf steps

/-- Closing a span, in any body that its code is part of and that resumes at `target`. -/
theorem close_comes {b b' : Body} {here : BlockId} {old : List Instr} {s : SpanId}
    {span : SpanDecl} {color : Nat} {path : Resumption} (h : b.Open here old)
    (hb : b.sig = parserSig) (hs : e.locate s = .ok (span, color, slots))
    (he : e.spanEnd here s b = .ok (next, path) b') (hw : b'.Within whole)
    (hf : ∀ is, b'.Open path.block is → whole.code? path.block =
      some (is ++ [.store e.current.id (.func target)],
        some (.ret (.status e.options.errorSentinel))))
    (hl : whole.regs.length ≤ regs.length) (ht : slots.start.ty = .bytes) :
    Comes enter limit whole [.state, pos, stop] b.regs.length ⟨here, old.length⟩ ⟨next, 0⟩
      (if e.options.debugChecks then 2 else 1) regs w
      (closeSpan enter e slots span.callback target b.name pos w) := by
  cases hd : e.options.debugChecks with
  | false =>
    obtain ⟨b'', he', g⟩ := Emitter.spanEnd_grown_plain h hb hs hd
    rw [he] at he'
    obtain ⟨hpair, rfl⟩ := EStateM.Result.ok.inj he'
    obtain ⟨rfl, rfl⟩ := Prod.mk.inj hpair
    have hhere := hw.finished _ _ _ g.code_here
    have hregs : b.regs.length + 3 ≤ regs.length := by simpa [g.regs] using hw.regs.trans hl
    rcases read_cases slots.start.id w with ⟨v, hv, hread⟩ | ⟨hv, hread⟩
    · have hm : closeSpan enter e slots span.callback target b.name pos w =
          handOver enter e slots span.callback target v pos w := by
        rw [closeSpan, bind_of_ok hread, hd]
        rfl
      rw [hm]
      refine handOver_comes ht ((Regs.Keeps.refl _ regs).set (Nat.le_refl _) (some v))
        (Nat.le_succ _) (Nat.lt_succ_self _) (by simp; omega)
        (List.getElem?_set_self (by omega)) (hf _ (g.code_tail 1)) fun steps => ?_
      rw [runAt_of_code hhere, finish_cons (exec_load hv (by simp; omega))]
      rfl
    · have hm : closeSpan enter e slots span.callback target b.name pos w =
          .error (.unknownField slots.start.id) w := bind_of_error hread
      rw [hm]
      intro steps
      rw [runAt_of_code hhere]
      exact finish_cons_error (exec_load_error hread)
  | true =>
    obtain ⟨b'', he', g⟩ := Emitter.spanEnd_grown_checked h hb hs hd
    rw [he] at he'
    obtain ⟨hpair, rfl⟩ := EStateM.Result.ok.inj he'
    obtain ⟨rfl, rfl⟩ := Prod.mk.inj hpair
    have hhere := hw.finished _ _ _ g.code_here
    have htrap : whole.code? ⟨b.id, b.codes.length⟩ = _ := hw.finished _ _ _ (g.code_tail 0)
    have hopen := hw.finished _ _ _ (g.code_tail 1)
    have hregs : b.regs.length + 4 ≤ regs.length := by simpa [g.regs] using hw.regs.trans hl
    have htest : b.regs.length + 1 < regs.length := by omega
    rcases read_cases slots.start.id w with ⟨v, hv, hread⟩ | ⟨hv, hread⟩
    · obtain ⟨regs₁, hkeep, hstart, hbr⟩ :=
        runAt_test [.state, pos, stop] hhere ht htest hv
      replace hbr := hbr enter limit
      simp only [Comparison.holds, same_null] at hbr
      cases hn : v.isNull with
      | true =>
        have hm : closeSpan enter e slots span.callback target b.name pos w =
            .error (.trap b.name) w := by
          rw [closeSpan, bind_of_ok hread, hd, hn]
          rfl
        rw [hm]
        intro steps
        simp only [↓reduceIte]
        rw [show steps + 2 = (steps + 1) + 1 from rfl, hbr, hn]
        simp only [↓reduceIte]
        rw [runFrom_of_code htrap, finish_unreachable, hw.name, g.head_eq.name]
      | false =>
        have hm : closeSpan enter e slots span.callback target b.name pos w =
            handOver enter e slots span.callback target v pos w := by
          rw [closeSpan, bind_of_ok hread, hd, hn]
          rfl
        rw [hm]
        have hcall : b.regs.length + 3 < regs₁.length := by
          rw [hkeep.length]
          omega
        refine handOver_comes ht hkeep (Nat.le_add_right _ 2) (Nat.lt_add_of_pos_right Nat.two_pos)
          hcall hstart (hf _ (g.code_tail 3)) fun steps => ?_
        simp only [↓reduceIte]
        rw [show steps + 2 = (steps + 1) + 1 from rfl, hbr, hn]
        exact congrFun (runFrom_of_code hopen) w
    · have hm : closeSpan enter e slots span.callback target b.name pos w =
          .error (.unknownField slots.start.id) w := bind_of_error hread
      rw [hm]
      exact fun steps => runAt_test_error hhere hread _

end Close

theorem finish_opening {slots : ColorSlots} {callback : FuncId} (steps : Nat) (is : List Instr)
    (term : Option Terminator) :
    finish enter limit whole [.state, pos, stop] steps (slots.opening callback ++ is, term) regs w =
      (openSpan slots callback pos >>= fun _ =>
        finish enter limit whole [.state, pos, stop] steps (is, term) regs) w := by
  have hc : (Operand.func callback).eval [.state, pos, stop] regs = .ok (.func (some callback)) :=
    rfl
  rw [ColorSlots.opening, List.cons_append, finish_step, openSpan, bind_eq,
    exec_store_of_write eval_posArg, bind_eq, bind_eq, bind_eq]
  cases write slots.start.id pos w with
  | error fault w' => rfl
  | ok u w' =>
    simp only [pure_run]
    cases slots.slot? with
    | none => rfl
    | some slot =>
      simp only [Option.toList_some, List.map_cons, List.map_nil, List.cons_append, List.nil_append]
      rw [finish_step, bind_eq, exec_store_of_write hc, bind_eq]
      cases write slot.id (.func (some callback)) w' <;> rfl

theorem Comes.andThen {args : List Value} {kept used : Nat} {here mid : Point} {w₁ : World σ}
    (h : Comes enter limit whole args kept here mid used regs w (.ok none w₁)) :
    ∃ regs₁, regs₁.length = regs.length ∧ ∀ (kept' used' : Nat) (next : Point)
      (result : EStateM.Result Fault (World σ) (Option Value)), kept ≤ kept' →
        Comes enter limit whole args kept' mid next used' regs₁ w₁ result →
        Comes enter limit whole args kept here next (used' + used) regs w result := by
  obtain ⟨regs₁, hkeep, hgo⟩ := h
  refine ⟨regs₁, hkeep.length, fun kept' used' next result hle h' => ?_⟩
  match result with
  | .ok none w₂ =>
    obtain ⟨regs₂, hkeep', hgo'⟩ := h'
    refine ⟨regs₂, hkeep.trans hle hkeep', fun steps => ?_⟩
    rw [← Nat.add_assoc, hgo, hgo']
  | .ok (some v) w₂ =>
    intro steps
    rw [← Nat.add_assoc, hgo]
    exact h' steps
  | .error e w₂ =>
    intro steps
    rw [← Nat.add_assoc, hgo]
    exact h' steps

end Machine

end SpanTracking
