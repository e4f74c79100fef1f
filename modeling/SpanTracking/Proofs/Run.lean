import SpanTracking.Proofs.Code

set_option autoImplicit false

namespace SpanTracking

structure Regs.Keeps (n : Nat) (regs regs' : Regs) : Prop where
  length : regs'.length = regs.length
  below : ∀ i < n, regs'[i]? = regs[i]?

theorem Regs.Keeps.refl (n : Nat) (regs : Regs) : Regs.Keeps n regs regs :=
  ⟨rfl, fun _ _ => rfl⟩

theorem Regs.Keeps.trans {m n : Nat} {regs regs' regs'' : Regs} (hmn : m ≤ n)
    (h : Regs.Keeps m regs regs') (h' : Regs.Keeps n regs' regs'') : Regs.Keeps m regs regs'' :=
  ⟨h'.length.trans h.length, fun i hi => (h'.below i (by omega)).trans (h.below i hi)⟩

theorem Regs.Keeps.set {n : Nat} {regs regs' : Regs} (h : Regs.Keeps n regs regs') {i : Nat}
    (hi : n ≤ i) (v : Option Value) : Regs.Keeps n regs (regs'.set i v) := by
  refine ⟨by simpa using h.length, fun j hj => ?_⟩
  rw [List.getElem?_set_ne (by omega)]
  exact h.below j hj

theorem Operand.eval_reg {args : List Value} {regs : Regs} {i : Nat} {v : Value}
    (h : regs[i]? = some (some v)) : Operand.eval args regs (.reg ⟨i⟩) = .ok v := by
  simp [Operand.eval, h]

namespace Memory

theorem get?_set_self {m : Memory} {id : FieldId} {v u : Value} (h : m.get? id = some u) :
    (m.set id v).get? id = some v := by
  have hi : id.index < m.values.length := (List.getElem?_eq_some_iff.1 h).1
  simp [get?, set, hi]

theorem get?_set_ne {m : Memory} {id id' : FieldId} {v : Value} (h : id ≠ id') :
    (m.set id v).get? id' = m.get? id' := by
  have hi : id.index ≠ id'.index := fun he => h (by cases id; cases id'; simp_all)
  simp [get?, set, hi]

theorem set_length (m : Memory) (id : FieldId) (v : Value) :
    (m.set id v).values.length = m.values.length := by
  simp [set]

end Memory

namespace Machine

variable {σ : Type} {enter : FuncId → List Value → Exec σ Value} {limit : Nat} {b : Body}
  {args : List Value} {regs : Regs} {w : World σ}

def put (w : World σ) (id : FieldId) (v : Value) : World σ :=
  { w with memory := w.memory.set id v }

@[simp] theorem put_memory (w : World σ) (id : FieldId) (v : Value) :
    (put w id v).memory = w.memory.set id v := rfl

@[simp] theorem put_host (w : World σ) (id : FieldId) (v : Value) : (put w id v).host = w.host :=
  rfl

@[simp] theorem put_calls (w : World σ) (id : FieldId) (v : Value) :
    (put w id v).calls = w.calls := rfl

theorem read_ok {id : FieldId} {v : Value} (h : w.memory.get? id = some v) :
    read id w = .ok v w := by
  simp [read, h]

theorem write_ok {id : FieldId} {u : Value} (h : w.memory.get? id = some u) (v : Value) :
    write id v w = .ok () (put w id v) := by
  simp [write, h, put]

theorem exec_load {dst : Reg} {field : FieldId} {ty : Ty} {v : Value}
    (hv : w.memory.get? field = some v) (hd : dst.index < regs.length) :
    exec enter args regs (.load dst field ty) w = .ok (regs.set dst.index (some v)) w := by
  refine andThen (read_ok hv) ?_
  simp [assign, hd]

theorem exec_store {field : FieldId} {value : Operand} {v u : Value}
    (hv : value.eval args regs = .ok v) (hf : w.memory.get? field = some u) :
    exec enter args regs (.store field value) w = .ok regs (put w field v) := by
  have hs : settle (value.eval args regs) w = .ok v w := by simp [hv]
  exact andThen hs (bind_of_ok (write_ok hf v))

theorem exec_icmp {dst : Reg} {how : Comparison} {lhs rhs : Operand} {v u : Value}
    (hl : lhs.eval args regs = .ok v) (hr : rhs.eval args regs = .ok u)
    (hd : dst.index < regs.length) :
    exec enter args regs (.icmp dst how lhs rhs) w =
      .ok (regs.set dst.index (some (.truth (how.holds v u)))) w := by
  have hs : settle (lhs.eval args regs) w = .ok v w := by simp [hl]
  have hs' : settle (rhs.eval args regs) w = .ok u w := by simp [hr]
  refine andThen hs (andThen hs' ?_)
  simp [assign, hd]

theorem asStatus_toInt (code : Int32) : asStatus (.int code.toInt) = .ok code := by
  have := code.toInt_lt
  have := code.le_toInt
  simp only [asStatus, Int32.ofInt_toInt]
  rw [if_pos (by omega)]

theorem asCallee_ok {v : Value} {f : FuncId} (h : asCallee v = .ok f) : v = .func (some f) := by
  unfold asCallee at h
  split at h <;> simp_all

section Call

variable {dst : Reg} {callee : Operand} {sig : Signature} {operands : List Operand}
  {callees : Option (List FuncId)} {f : FuncId} {vs : List Value}

theorem exec_call (hc : callee.eval args regs = .ok (.func (some f)))
    (ha : operands.mapM (Operand.eval args regs) = .ok vs) :
    exec enter args regs (.call dst callee sig operands callees) w =
      (enter f vs >>= fun result => settle (assign regs dst result)) w := by
  have hs : settle (callee.eval args regs) w = .ok (.func (some f)) w := by simp [hc]
  have hf : (settle (asCallee (.func (some f))) : Exec σ FuncId) w = .ok f w := rfl
  have ho : settle (operands.mapM (Operand.eval args regs)) w = .ok vs w := by simp [ha]
  exact andThen hs (andThen hf (andThen ho rfl))

theorem exec_call_ok (hc : callee.eval args regs = .ok (.func (some f)))
    (ha : operands.mapM (Operand.eval args regs) = .ok vs) {r : Value} {w' : World σ}
    (he : enter f vs w = .ok r w') (hd : dst.index < regs.length) :
    exec enter args regs (.call dst callee sig operands callees) w =
      .ok (regs.set dst.index (some r)) w' := by
  rw [exec_call hc ha, bind_of_ok he]
  simp [assign, hd]

theorem exec_call_error (hc : callee.eval args regs = .ok (.func (some f)))
    (ha : operands.mapM (Operand.eval args regs) = .ok vs) {e : Fault} {w' : World σ}
    (he : enter f vs w = .error e w') :
    exec enter args regs (.call dst callee sig operands callees) w = .error e w' := by
  rw [exec_call hc ha, bind_of_error he]

theorem exec_callee_error {v : Value} (hc : callee.eval args regs = .ok v) {e : Fault}
    (hf : asCallee v = .error e) :
    exec enter args regs (.call dst callee sig operands callees) w = .error e w := by
  have hs : settle (callee.eval args regs) w = .ok v w := by simp [hc]
  have he : (settle (asCallee v) : Exec σ FuncId) w = .error e w := by simp [hf]
  exact andThen hs (bind_of_error he)

end Call

theorem execAll_append (xs ys : List Instr) :
    execAll enter args regs (xs ++ ys) w =
      (execAll enter args regs xs >>= fun regs => execAll enter args regs ys) w := by
  induction xs generalizing regs w with
  | nil => rfl
  | cons i rest ih =>
    change (exec enter args regs i >>= fun regs => execAll enter args regs (rest ++ ys)) w =
      ((exec enter args regs i >>= fun regs => execAll enter args regs rest) >>= _) w
    cases hi : exec enter args regs i w with
    | ok regs' w' =>
      rw [bind_of_ok hi, ih, bind_eq, bind_eq, bind_of_ok hi]
    | error e w' => rw [bind_of_error hi, bind_of_error (bind_of_error hi)]

def finish (enter : FuncId → List Value → Exec σ Value) (limit : Nat) (b : Body)
    (args : List Value) (steps : Nat) (code : Code) (regs : Regs) : Exec σ Value := do
  let regs ← execAll enter args regs code.1
  match ← settle (leave b args regs code.2) with
  | .goto next => runFrom enter limit b args steps next regs
  | .done v => return v

def runAt (enter : FuncId → List Value → Exec σ Value) (limit : Nat) (b : Body)
    (args : List Value) (steps : Nat) (here : BlockId) (done : Nat) (regs : Regs) :
    Exec σ Value :=
  match b.code? here with
  | none => throw (.unknownBlock b.name)
  | some code => finish enter limit b args steps (code.1.drop done, code.2) regs

theorem runFrom_succ (steps : Nat) (here : BlockId) (regs : Regs) :
    runFrom enter limit b args (steps + 1) here regs =
      runAt enter limit b args steps here 0 regs := by
  rw [runFrom, runAt, Body.code?]
  cases b.block? here with
  | none => rfl
  | some block => rfl

theorem runAt_of_code {steps : Nat} {here : BlockId} {old is : List Instr}
    {term : Option Terminator} (h : b.code? here = some (old ++ is, term)) :
    runAt enter limit b args steps here old.length regs =
      finish enter limit b args steps (is, term) regs := by
  simp [runAt, h]

theorem runFrom_of_code {steps : Nat} {here : BlockId} {code : Code}
    (h : b.code? here = some code) :
    runFrom enter limit b args (steps + 1) here regs =
      finish enter limit b args steps code regs := by
  rw [runFrom_succ, runAt, h]
  rfl

theorem finish_cons {steps : Nat} {i : Instr} {is : List Instr} {term : Option Terminator}
    {regs' : Regs} {w' : World σ} (h : exec enter args regs i w = .ok regs' w') :
    finish enter limit b args steps (i :: is, term) regs w =
      finish enter limit b args steps (is, term) regs' w' := by
  have hc : execAll enter args regs (i :: is) w = execAll enter args regs' is w' := bind_of_ok h
  rw [finish, finish, bind_eq, bind_eq, hc]

theorem finish_cons_error {steps : Nat} {i : Instr} {is : List Instr} {term : Option Terminator}
    {e : Fault} {w' : World σ} (h : exec enter args regs i w = .error e w') :
    finish enter limit b args steps (i :: is, term) regs w = .error e w' :=
  bind_of_error (bind_of_error h)

theorem finish_step {steps : Nat} {i : Instr} {is : List Instr} {term : Option Terminator} :
    finish enter limit b args steps (i :: is, term) regs w =
      (exec enter args regs i >>= finish enter limit b args steps (is, term)) w := by
  cases hi : exec enter args regs i w with
  | ok regs' w' => rw [finish_cons hi, bind_of_ok hi]
  | error e w' => rw [finish_cons_error hi, bind_of_error hi]

theorem finish_append {steps : Nat} {xs is : List Instr} {term : Option Terminator}
    {regs' : Regs} {w' : World σ} (h : execAll enter args regs xs w = .ok regs' w') :
    finish enter limit b args steps (xs ++ is, term) regs w =
      finish enter limit b args steps (is, term) regs' w' := by
  rw [finish, finish, bind_eq, bind_eq, execAll_append, bind_of_ok h]

theorem finish_br {steps : Nat} {target : BlockId} :
    finish enter limit b args steps ([], some (.br target)) regs w =
      runFrom enter limit b args steps target regs w := rfl

theorem finish_condBr {steps : Nat} {cond : Operand} {onTrue onFalse : BlockId}
    {hint : BranchHint} {t : Bool} (hc : cond.eval args regs = .ok (.truth t)) :
    finish enter limit b args steps ([], some (.condBr cond onTrue onFalse hint)) regs w =
      runFrom enter limit b args steps (if t then onTrue else onFalse) regs w := by
  have hl : leave b args regs (some (.condBr cond onTrue onFalse hint)) =
      .ok (.goto (if t then onTrue else onFalse)) := by
    cases t <;> simp [leave, hc, asCondition, Value.truth, bind, Except.bind, pure, Except.pure]
  exact andThen rfl (by rw [hl]; rfl)

theorem finish_ret {steps : Nat} {value : Operand} {v : Value}
    (hv : value.eval args regs = .ok v) :
    finish enter limit b args steps ([], some (.ret value)) regs w = .ok v w := by
  have hl : leave b args regs (some (.ret value)) = .ok (.done v) := by
    simp [leave, hv, bind, Except.bind, pure, Except.pure]
  exact andThen rfl (by rw [hl]; rfl)

theorem finish_unreachable {steps : Nat} :
    finish enter limit b args steps ([], some .unreachable) regs w = .error (.trap b.name) w :=
  rfl

end Machine

namespace Body

/-- The body `b` is an early stage of `whole`: finished blocks stay as they are, and open ones keep
what they hold. -/
structure Within (b whole : Body) : Prop where
  id : whole.id = b.id
  name : whole.name = b.name
  regs : b.regs.length ≤ whole.regs.length
  finished : ∀ (here : BlockId) (is : List Instr) (t : Terminator),
    b.code? here = some (is, some t) → whole.code? here = some (is, some t)
  unfinished : ∀ (here : BlockId) (is : List Instr), b.code? here = some (is, none) →
    ∃ more term, whole.code? here = some (is ++ more, term)

theorem Within.refl (b : Body) : Within b b :=
  ⟨rfl, rfl, Nat.le_refl _, fun _ _ _ h => h, fun _ _ h => ⟨[], none, by simpa using h⟩⟩

theorem Within.trans {a b c : Body} (h : Within a b) (h' : Within b c) : Within a c := by
  refine ⟨h'.id.trans h.id, h'.name.trans h.name, h.regs.trans h'.regs,
    fun here is t hc => h'.finished here is t (h.finished here is t hc), fun here is hc => ?_⟩
  obtain ⟨more, term, hb⟩ := h.unfinished here is hc
  cases term with
  | none =>
    obtain ⟨more', term', hc'⟩ := h'.unfinished here _ hb
    exact ⟨more ++ more', term', by rw [← List.append_assoc]; exact hc'⟩
  | some t => exact ⟨more, some t, h'.finished here _ t hb⟩

theorem Grown.code_of_ne {b b' : Body} {here : BlockId} {old head : List Instr}
    {term : Option Terminator} {tail : List Code} {tys : List Ty}
    (g : b.Grown here old head term tail tys b') {there : BlockId} {code : Code}
    (hc : b.code? there = some code) (hne : there ≠ here) : b'.code? there = some code := by
  obtain ⟨ho, hi⟩ := code?_some.1 hc
  have ho' : here.owner = b.id := (code?_some.1 g.base).1
  refine code?_some.2 ⟨g.head_eq.id ▸ ho, ?_⟩
  rw [g.code_other (List.getElem?_eq_some_iff.1 hi).1]
  · exact hi
  · intro he
    exact hne (by cases there; cases here; simp_all)

theorem Grown.within {b b' : Body} {here : BlockId} {old head : List Instr}
    {term : Option Terminator} {tail : List Code} {tys : List Ty}
    (g : b.Grown here old head term tail tys b') : Within b b' := by
  refine ⟨g.head_eq.id, g.head_eq.name, by simp [g.regs], ?_, ?_⟩
  · intro there is t hc
    refine g.code_of_ne hc fun he => ?_
    have hb := g.base
    rw [he, hb] at hc
    simp at hc
  · intro there is hc
    by_cases he : there = here
    · have hb := g.base
      rw [he, hb] at hc
      obtain ⟨rfl, -⟩ := Prod.mk.inj (Option.some.inj hc)
      exact ⟨head, term, he ▸ g.code_here⟩
    · exact ⟨[], none, by simpa using g.code_of_ne hc he⟩

end Body

end SpanTracking
