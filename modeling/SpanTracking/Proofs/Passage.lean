import SpanTracking.Proofs.Assembly

set_option autoImplicit false

namespace SpanTracking

namespace Memory

def Has (m : Memory) (id : FieldId) : Prop := id.index < m.values.length

theorem Has.get? {m : Memory} {id : FieldId} (h : m.Has id) : ∃ v, m.get? id = some v :=
  ⟨_, List.getElem?_eq_getElem h⟩

theorem has_set {m : Memory} {id id' : FieldId} {v : Value} : (m.set id v).Has id' ↔ m.Has id' := by
  rw [Has, Has, set_length]

end Memory

namespace Machine

variable {σ : Type}

def recorded (r : ErrorRecord) (pos code : Value) (w : World σ) : World σ :=
  put (put (put w r.error.id code) r.reason.id (.text r.message)) r.errorPos.id pos

def opened (slots : ColorSlots) (callback : FuncId) (pos : Value) (w : World σ) : World σ :=
  match slots.slot? with
  | some slot => put (put w slots.start.id pos) slot.id (.func (some callback))
  | none => put w slots.start.id pos

section Plain

variable (enter : FuncId → List Value → Exec σ Value) (args : List Value) (regs : Regs)
  (w : World σ)

theorem exec_store_cases (field : FieldId) (value : Operand) :
    (∃ fault, exec enter args regs (.store field value) w = .error fault w) ∨
      ∃ v, value.eval args regs = .ok v ∧
        exec enter args regs (.store field value) w = .ok regs (put w field v) := by
  cases hv : value.eval args regs with
  | error fault => exact .inl ⟨fault, bind_of_error (by simp [hv])⟩
  | ok v =>
    cases hget : w.memory.get? field with
    | none =>
      refine .inl ⟨.unknownField field, ?_⟩
      rw [exec_store_of_write hv]
      exact bind_of_error (by simp [write, hget])
    | some u => exact .inr ⟨v, rfl, exec_store hv hget⟩

/-- What an instruction other than a call can do. -/
theorem exec_plain {i : Instr} (hplain : i.isPlain)
    (hdst : ∀ r, i.dst? = some r → r.index < regs.length) :
    (∃ fault, exec enter args regs i w = .error fault w) ∨
      (∃ regs', regs'.length = regs.length ∧ exec enter args regs i w = .ok regs' w) ∨
      ∃ field value v, i = .store field value ∧
        exec enter args regs i w = .ok regs (put w field v) := by
  cases i with
  | load dst field ty =>
    rcases read_cases field w with ⟨v, hv, -⟩ | ⟨-, hread⟩
    · exact .inr (.inl ⟨_, by simp, exec_load hv (hdst dst rfl)⟩)
    · exact .inl ⟨_, exec_load_error hread⟩
  | store field value =>
    rcases exec_store_cases enter args regs w field value with hfault | ⟨v, -, hi⟩
    · exact .inl hfault
    · exact .inr (.inr ⟨field, value, v, rfl, hi⟩)
  | icmp dst how lhs rhs =>
    cases hl : lhs.eval args regs with
    | error fault => exact .inl ⟨fault, bind_of_error (by simp [hl])⟩
    | ok v =>
      have hs : settle (lhs.eval args regs) w = .ok v w := by simp [hl]
      cases hr : rhs.eval args regs with
      | error fault => exact .inl ⟨fault, andThen hs (bind_of_error (by simp [hr]))⟩
      | ok u => exact .inr (.inl ⟨_, by simp, exec_icmp hl hr (hdst dst rfl)⟩)
  | call dst callee sig operands callees => simp [Instr.isPlain] at hplain

end Plain

theorem mem_targets_of_leave {b : Body} {args : List Value} {regs : Regs} {t : Terminator}
    {target : BlockId} (h : leave b args regs (some t) = .ok (.goto target)) :
    target ∈ t.targets := by
  cases t with
  | br next =>
    obtain rfl := Leave.goto.inj (Except.ok.inj h)
    exact List.mem_singleton_self _
  | condBr cond onTrue onFalse hint =>
    obtain ⟨v, -, h⟩ := except_ok h
    obtain ⟨holds, -, h⟩ := except_ok h
    obtain rfl := Leave.goto.inj (Except.ok.inj h)
    cases holds <;> simp [Terminator.targets]
  | ret value =>
    obtain ⟨v, -, h⟩ := except_ok h
    simp [pure, Except.pure] at h
  | unreachable => simp [leave] at h

end Machine

namespace Watch

open Machine

variable {σ γ : Type} {W : Watch σ γ} {A : Activation σ} {steps : Nat} {here : BlockId} {k : Nat}
  {is : List Instr} {term : Option Terminator} {g : γ} {regs : Regs} {w : World σ}

theorem goes_store {field : FieldId} {value : Operand} {v : Value} (hq : W.Quiet ⟨here, k⟩)
    (hv : value.eval A.args regs = .ok v) (hf : w.memory.Has field)
    (h : W.Goes A steps here (k + 1) (is, term) g regs (put w field v)) :
    W.Goes A steps here k (.store field value :: is, term) g regs w := by
  obtain ⟨u, hu⟩ := hf.get?
  exact goes_quiet rfl hq (exec_store hv hu) h

theorem goes_test_set {slots : ColorSlots} {how : Comparison} {r : Nat} {onTrue onFalse : BlockId}
    {hint : BranchHint} (hq : ∀ j < 2, W.Quiet ⟨here, k + j⟩) (ht : slots.start.ty = .bytes)
    (hr : r + 1 < regs.length) {v : Value} (hv : w.memory.get? slots.start.id = some v)
    (h : W.Runs A steps (if how.holds v (.ptr none) then onTrue else onFalse) g
      ((regs.set r (some v)).set (r + 1) (some (.truth (how.holds v (.ptr none))))) w) :
    W.Goes A steps here k
      (slots.test how r, some (.condBr (.reg ⟨r + 1⟩) onTrue onFalse hint)) g regs w := by
  have hl : (regs.set r (some v))[r]? = some (some v) := List.getElem?_set_self (by omega)
  refine goes_quiet rfl (hq 0 (by omega)) (exec_load hv (by simp; omega)) ?_
  refine goes_quiet rfl (hq 1 (by omega))
    (exec_icmp (Operand.eval_reg hl) (eval_noStart ht) (by simpa using hr)) ?_
  exact goes_condBr (Operand.eval_reg (List.getElem?_set_self (by simpa using hr))) h

theorem goes_test {slots : ColorSlots} {how : Comparison} {r : Nat} {onTrue onFalse : BlockId}
    {hint : BranchHint} (hq : ∀ j < 2, W.Quiet ⟨here, k + j⟩) (ht : slots.start.ty = .bytes)
    (hr : r + 1 < regs.length) {v : Value} (hv : w.memory.get? slots.start.id = some v)
    (h : ∀ regs', Regs.Keeps r regs regs' → regs'[r]? = some (some v) →
      W.Runs A steps (if how.holds v (.ptr none) then onTrue else onFalse) g regs' w) :
    W.Goes A steps here k
      (slots.test how r, some (.condBr (.reg ⟨r + 1⟩) onTrue onFalse hint)) g regs w := by
  refine goes_test_set hq ht hr hv (h _ ?_ ?_)
  · exact ((Regs.Keeps.refl r regs).set (Nat.le_refl r) _).set (Nat.le_succ r) _
  · rw [List.getElem?_set_ne (by simp)]
    exact List.getElem?_set_self (by omega)

theorem goes_answer_set {a : Nat} {onTrue onFalse : BlockId} {hint : BranchHint}
    (hq : W.Quiet ⟨here, k⟩) (ha : a + 1 < regs.length) {code : Value}
    (hcode : regs[a]? = some (some code))
    (h : W.Runs A steps (if code = .int 0 then onTrue else onFalse) g
      (regs.set (a + 1) (some (.truth (decide (code = .int 0))))) w) :
    W.Goes A steps here k ([.icmp ⟨a + 1⟩ .eq (.reg ⟨a⟩) (.status 0)],
      some (.condBr (.reg ⟨a + 1⟩) onTrue onFalse hint)) g regs w := by
  refine goes_quiet rfl hq (exec_icmp (Operand.eval_reg hcode) eval_success ha) ?_
  rw [Comparison.holds, same_zero]
  refine goes_condBr (Operand.eval_reg (List.getElem?_set_self ha)) ?_
  simpa only [decide_eq_true_eq] using h

theorem goes_answer {a : Nat} {onTrue onFalse : BlockId} {hint : BranchHint}
    (hq : W.Quiet ⟨here, k⟩) (ha : a + 1 < regs.length) {code : Value}
    (hcode : regs[a]? = some (some code))
    (h : ∀ regs', Regs.Keeps (a + 1) regs regs' →
      W.Runs A steps (if code = .int 0 then onTrue else onFalse) g regs' w) :
    W.Goes A steps here k ([.icmp ⟨a + 1⟩ .eq (.reg ⟨a⟩) (.status 0)],
      some (.condBr (.reg ⟨a + 1⟩) onTrue onFalse hint)) g regs w :=
  goes_answer_set hq ha hcode (h _ ((Regs.Keeps.refl (a + 1) regs).set (Nat.le_refl _) _))

theorem goes_stores {r : ErrorRecord} {position code : Operand} {pos c : Value}
    (hq : ∀ j < 3, W.Quiet ⟨here, k + j⟩) (hpos : position.eval A.args regs = .ok pos)
    (hcode : code.eval A.args regs = .ok c) (herror : w.memory.Has r.error.id)
    (hreason : w.memory.Has r.reason.id) (herrorPos : w.memory.Has r.errorPos.id)
    (h : W.Goes A steps here (k + 3) (is, term) g regs (recorded r pos c w)) :
    W.Goes A steps here k (r.stores position code ++ is, term) g regs w := by
  refine goes_store (hq 0 (by omega)) hcode herror ?_
  refine goes_store (hq 1 (by omega)) rfl (Memory.has_set.2 hreason) ?_
  exact goes_store (hq 2 (by omega)) hpos (Memory.has_set.2 (Memory.has_set.2 herrorPos)) h

/-- Opening a span. The watch takes notice after the last store. -/
theorem goes_opening {slots : ColorSlots} {callback : FuncId} {pos : Value}
    (hq : ∀ j < slots.slot?.toList.length, W.Quiet ⟨here, k + j⟩)
    (hpos : posArg.eval A.args regs = .ok pos) (hstart : w.memory.Has slots.start.id)
    (hslot : ∀ slot, slots.slot? = some slot → w.memory.Has slot.id)
    (h : ∀ i, W.holds
        (W.notice g (.executed ⟨here, k + slots.slot?.toList.length⟩ i A.args regs
          (opened slots callback pos w)))
        (.executed ⟨here, k + slots.slot?.toList.length⟩ i A.args regs
          (opened slots callback pos w)) ∧
      W.Goes A steps here (k + (slots.opening callback).length) (is, term)
        (W.notice g (.executed ⟨here, k + slots.slot?.toList.length⟩ i A.args regs
          (opened slots callback pos w))) regs (opened slots callback pos w)) :
    W.Goes A steps here k (slots.opening callback ++ is, term) g regs w := by
  obtain ⟨u, hu⟩ := hstart.get?
  unfold ColorSlots.opening opened at *
  cases hs : slots.slot? with
  | none =>
    simp only [hs] at h
    obtain ⟨hm, hgo⟩ := h (.store slots.start.id posArg)
    exact goes_step rfl (exec_store hpos hu) hm hgo
  | some slot =>
    simp only [hs] at h hq
    obtain ⟨hm, hgo⟩ := h (.store slot.id (.func callback))
    have hput : (put w slots.start.id pos).memory.Has slot.id :=
      Memory.has_set.2 (hslot slot hs)
    obtain ⟨u', hu'⟩ := hput.get?
    refine goes_store (hq 0 (by simp)) hpos hstart ?_
    exact goes_step rfl (exec_store rfl hu') hm hgo

theorem goes_opening_error {slots : ColorSlots} {callback : FuncId} {fault : Fault}
    (hpos : posArg.eval A.args regs = .error fault) (h : W.failed g fault w) :
    W.Goes A steps here k (slots.opening callback ++ is, term) g regs w := by
  refine goes_error rfl ?_ h
  exact bind_of_error (by simp [hpos])

end Watch

end SpanTracking
