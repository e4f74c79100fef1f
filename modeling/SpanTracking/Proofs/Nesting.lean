import SpanTracking.Proofs.Editing
import SpanTracking.Proofs.Safety

set_option autoImplicit false

namespace SpanTracking

namespace Body

inductive Act where
  | newBlock (name : String)
  | load (here : BlockId) (field : Field)
  | store (here : BlockId) (field : Field) (value : Operand)
  | icmp (here : BlockId) (how : Comparison) (lhs rhs : Operand)
  | call (here : BlockId) (callee : Operand) (sig : Signature) (args : List Operand)
      (callees : Option (List FuncId))
  | br (here target : BlockId)
  | condBr (here : BlockId) (cond : Operand) (onTrue onFalse : BlockId) (hint : BranchHint)
  | ret (here : BlockId) (value : Operand)
  | unreachable (here : BlockId)

def Act.run : Act → Build Body Unit
  | newBlock name => discard (Body.newBlock name)
  | load here field => discard (Body.load here field)
  | store here field value => Body.store here field value
  | icmp here how lhs rhs => discard (Body.icmp here how lhs rhs)
  | call here callee sig args callees => discard (Body.call here callee sig args callees)
  | br here target => Body.br here target
  | condBr here cond onTrue onFalse hint => Body.condBr here cond onTrue onFalse hint
  | ret here value => Body.ret here value
  | unreachable here => Body.unreachable here

/-- The body after what its author has asked for, granted or not. -/
def worked (acts : List Act) (b : Body) : Body :=
  acts.foldl (fun b act => Build.after act.run b) b

/-- The body has been made from an empty one, as badly as one likes. -/
def Handmade (b : Body) : Prop :=
  ∃ id name sig params acts, b = worked acts (.start id name sig params)

section Blocks

variable {α β : Type}

def Retains (step : Build Body α) : Prop :=
  ∀ b, b.blocks.length ≤ (Build.after step b).blocks.length

theorem Retains.bind {x : Build Body α} {f : α → Build Body β} (hx : Retains x)
    (hf : ∀ a, Retains (f a)) : Retains (x >>= f) :=
  Build.Keeps.bind (R := fun b b' : Body => b.blocks.length ≤ b'.blocks.length) Nat.le_trans hx hf

theorem retains_pure (a : α) : Retains (pure a) := fun _ => Nat.le_refl _

theorem retains_newReg (ty : Ty) : Retains (newReg ty) := fun _ => Nat.le_refl _

theorem retains_newBlock (name : String) : Retains (newBlock name) := by
  intro b
  simp [Build.after, newBlock]

theorem retains_edit (here : BlockId) (change : Block → Block) : Retains (edit here change) := by
  intro b
  unfold Build.after edit
  by_cases howner : here.owner = b.id
  · cases hblock : b.blocks[here.index]? with
    | none => simp [howner]
    | some block => cases hterm : block.term <;> simp [howner, hterm]
  · simp [howner]

theorem Act.retains (act : Act) : Retains act.run := by
  cases act with
  | newBlock name => exact (retains_newBlock name).bind fun _ => retains_pure _
  | load here field =>
    exact ((retains_newReg _).bind fun _ =>
      (retains_edit _ _).bind fun _ => retains_pure _).bind fun _ => retains_pure _
  | icmp here how lhs rhs =>
    exact ((retains_newReg _).bind fun _ =>
      (retains_edit _ _).bind fun _ => retains_pure _).bind fun _ => retains_pure _
  | call here callee sig args callees =>
    exact ((retains_newReg _).bind fun _ =>
      (retains_edit _ _).bind fun _ => retains_pure _).bind fun _ => retains_pure _
  | _ => exact retains_edit _ _

theorem Handmade.blocks_pos {b : Body} (h : b.Handmade) : 0 < b.blocks.length := by
  obtain ⟨id, name, sig, params, acts, rfl⟩ := h
  have hacts : ∀ b : Body, b.blocks.length ≤ (worked acts b).blocks.length := by
    induction acts with
    | nil => exact fun _ => Nat.le_refl _
    | cons act rest ih => exact fun b => (act.retains b).trans (ih _)
  exact hacts (.start id name sig params)

theorem Handmade.code_entry {b : Body} (h : b.Handmade) : (b.code? b.entry).isSome := by
  simp [code?, block?, entry, h.blocks_pos]

end Blocks

end Body

namespace Program

theorem Edit.body_cases {edit : Edit} {p p' : Program} {r : Receipt} (h : edit.run p = .ok r p')
    {f : FuncId} {b : Body} (hb : p'.body? f = some b) :
    p.body? f = some b ∨ edit = .define b := by
  cases edit with
  | field name ty =>
    obtain ⟨g, hg, -⟩ := map_ok h
    obtain ⟨l, -, rfl⟩ := onLayout_ok hg
    exact .inl hb
  | declare name sig =>
    obtain ⟨g, hg, -⟩ := map_ok h
    exact .inl ((body?_of_declare hg f).symm.trans hb)
  | intern text =>
    obtain ⟨t, ht, -⟩ := map_ok h
    obtain ⟨-, rfl | rfl⟩ := intern_cases ht <;> exact .inl hb
  | define b₀ =>
    obtain ⟨u, hu, -⟩ := map_ok h
    by_cases hf : b₀.id = f
    · subst hf
      obtain rfl := Option.some.inj ((define_body hu).symm.trans hb)
      exact .inr rfl
    · exact .inl ((body?_of_define_ne hu hf).symm.trans hb)

theorem Edit.body?_after {edit : Edit} {p : Program} {f : FuncId} {b : Body}
    (h : (Build.after edit.run p).body? f = some b) : p.body? f = some b ∨ edit = .define b := by
  unfold Build.after at h
  split at h
  · rename_i r p' hrun
    exact Edit.body_cases hrun h
  · rename_i err p' hrun
    rw [Edit.unchanged_of_error hrun] at h
    exact .inl h

/-- Only the bodies given to the edits are added. -/
theorem body?_edited {edits : List Edit} {p : Program} {f : FuncId} {b : Body}
    (h : (edited edits p).body? f = some b) : p.body? f = some b ∨ Edit.define b ∈ edits := by
  induction edits generalizing p with
  | nil => exact .inl h
  | cons edit rest ih =>
    rcases ih h with hafter | hmem
    · rcases Edit.body?_after hafter with hold | rfl
      · exact .inl hold
      · exact .inr List.mem_cons_self
    · exact .inr (List.mem_cons_of_mem _ hmem)

/-- Every body can be entered, and its jumps land in its blocks. -/
def Landing (p : Program) : Prop :=
  ∀ f b, p.body? f = some b → b.id = f ∧ b.verify = .ok () ∧ (b.code? b.entry).isSome

theorem landing_edited {edits : List Edit} (h : ∀ b, Edit.define b ∈ edits → b.Handmade) :
    (edited edits {}).Landing := by
  intro f b hb
  have hreachable : Reachable (edited edits {}) := leads_edited edits {}
  obtain ⟨hid, hverify⟩ := hreachable.bodies f b hb
  refine ⟨hid, hverify, ?_⟩
  rcases body?_edited hb with hnone | hmem
  · simp [body?, decl?] at hnone
  · exact (h b hmem).code_entry

end Program

/-- The fault is about an operand, the record, the host or the number of steps, and not about where
control goes. -/
def Fault.isLocal : Fault → Bool
  | .unknownBlock _ => false
  | .trap _ => false
  | .tooDeep => false
  | _ => true

namespace Machine

variable {σ : Type}

/-- The block last entered by each open activation, the innermost first. One that has just begun has
entered none. -/
def nest (active : List (Option BlockId)) : Moment σ → List (Option BlockId)
  | .entered here _ => some here :: active.tail
  | .calling .. => none :: active
  | .executed _ i _ _ _ => if i.isPlain then active else active.tail
  | .ended .. => active

section Faults

variable {args : List Value} {regs : Regs} {fault : Fault}

theorem eval_local {o : Operand} (h : o.eval args regs = .error fault) :
    fault.isLocal := by
  cases o with
  | param i =>
    simp only [Operand.eval] at h
    split at h
    · simp at h
    · obtain rfl := Except.error.inj h
      rfl
  | reg r =>
    simp only [Operand.eval] at h
    split at h
    · simp at h
    · obtain rfl := Except.error.inj h
      rfl
  | _ => simp [Operand.eval] at h

theorem mapM_local {os : List Operand} (h : os.mapM (Operand.eval args regs) = .error fault) :
    fault.isLocal := by
  induction os with
  | nil => simp [pure, Except.pure] at h
  | cons o rest ih =>
    rw [List.mapM_cons] at h
    cases ho : o.eval args regs with
    | error fault' =>
      simp only [ho, bind, Except.bind, Except.error.injEq] at h
      exact h ▸ eval_local ho
    | ok v =>
      cases hrest : rest.mapM (Operand.eval args regs) with
      | error fault' =>
        simp only [ho, hrest, bind, Except.bind, Except.error.injEq] at h
        exact ih (h ▸ hrest)
      | ok vs => simp [ho, hrest, bind, Except.bind, pure, Except.pure] at h

theorem assign_local {r : Reg} {v : Value} (h : assign regs r v = .error fault) :
    fault.isLocal := by
  unfold assign at h
  split at h
  · simp at h
  · obtain rfl := Except.error.inj h
    rfl

theorem asCallee_local {v : Value} (h : asCallee v = .error fault) :
    fault.isLocal := by
  unfold asCallee at h
  split at h
  · simp at h
  all_goals
    obtain rfl := Except.error.inj h
    rfl

theorem asCondition_local {v : Value} (h : asCondition v = .error fault) :
    fault.isLocal := by
  unfold asCondition at h
  split at h
  · simp at h
  · obtain rfl := Except.error.inj h
    rfl

theorem asStatus_local {v : Value} (h : asStatus v = .error fault) :
    fault.isLocal := by
  unfold asStatus at h
  repeat' split at h
  · simp at h
  all_goals
    obtain rfl := Except.error.inj h
    rfl

def Steady {α : Type} (x : Exec σ α) : Prop :=
  ∀ w fault w', x w = .error fault w' → fault.isLocal

theorem Steady.bind {α β : Type} {x : Exec σ α} {f : α → Exec σ β} (hx : Steady x)
    (hf : ∀ w a w', x w = .ok a w' → Steady (f a)) : Steady (x >>= f) := by
  intro w fault w' h
  rw [bind_eq] at h
  cases hw : x w with
  | ok a w₁ => exact hf w a w₁ hw w₁ fault w' (by simpa only [hw] using h)
  | error fault' w₁ =>
    simp only [hw, EStateM.Result.error.injEq] at h
    exact hx w fault w₁ (by rw [hw, h.1])

theorem steady_pure {α : Type} (a : α) : Steady (pure a : Exec σ α) := by
  intro w fault w' h
  simp at h

theorem steady_settle {α : Type} {outcome : Except Fault α}
    (h : ∀ fault, outcome = .error fault → fault.isLocal) :
    Steady (settle outcome : Exec σ α) := by
  intro w fault w' hw
  rw [settle_run] at hw
  split at hw
  · simp at hw
  · simp only [EStateM.Result.error.injEq] at hw
    exact h fault (by rw [← hw.1])

theorem settle_eq_ok {α : Type} {outcome : Except Fault α} {a : α} {w w' : World σ}
    (h : settle outcome w = .ok a w') : outcome = .ok a := by
  rw [settle_run] at h
  split at h
  · simp only [EStateM.Result.ok.injEq] at h
    rw [h.1]
  · simp at h

theorem steady_read (id : FieldId) : Steady (read id : Exec σ Value) := by
  intro w fault w' h
  unfold read at h
  split at h
  · simp at h
  · simp only [EStateM.Result.error.injEq] at h
    rw [← h.1]
    rfl

theorem steady_write (id : FieldId) (v : Value) : Steady (write id v : Exec σ Unit) := by
  intro w fault w' h
  unfold write at h
  split at h
  · simp at h
  · simp only [EStateM.Result.error.injEq] at h
    rw [← h.1]
    rfl

theorem steady_exec {enter : FuncId → List Value → Exec σ Value} {i : Instr} (h : i.isPlain) :
    Steady (exec enter args regs i) := by
  cases i with
  | load dst field ty =>
    exact (steady_read _).bind fun _ _ _ _ => steady_settle fun _ => assign_local
  | store field value =>
    exact (steady_settle fun _ => eval_local).bind fun _ _ _ _ =>
      (steady_write _ _).bind fun _ _ _ _ => steady_pure _
  | icmp dst how lhs rhs =>
    exact (steady_settle fun _ => eval_local).bind fun _ _ _ _ =>
      (steady_settle fun _ => eval_local).bind fun _ _ _ _ =>
        steady_settle fun _ => assign_local
  | call => simp [Instr.isPlain] at h

theorem steady_unreached (enter : FuncId → List Value → Exec σ Value) {dst : Reg}
    {callee : Operand} {sig : Signature} {operands : List Operand} {callees : Option (List FuncId)}
    (h : reached? args regs (.call dst callee sig operands callees) = none) :
    Steady (exec enter args regs (.call dst callee sig operands callees)) := by
  refine (steady_settle fun _ => eval_local).bind fun _ v _ hv => ?_
  refine (steady_settle fun _ => asCallee_local).bind fun _ f _ hf => ?_
  refine (steady_settle fun _ => mapM_local).bind fun _ vs _ hvs => ?_
  obtain rfl := asCallee_ok (settle_eq_ok hf)
  have hreached : reached? args regs (.call dst callee sig operands callees) = some (f, vs) :=
    reached?_eq_some.2 ⟨settle_eq_ok hv, settle_eq_ok hvs⟩
  rw [hreached] at h
  simp at h

theorem steady_bodiless {p : Program} {host : Host σ} {limit depth : Nat} {f : FuncId}
    (h : p.body? f = none) : Steady (call p host limit depth f args) := by
  intro w fault w' hcall
  cases hd : p.decl? f with
  | none =>
    have hunknown : call p host limit depth f args w = .error (.unknownFunction f) w := by
      cases depth <;> simp [call, dispatch, hd]
    simp only [hunknown, EStateM.Result.error.injEq] at hcall
    rw [← hcall.1]
    rfl
  | some d =>
    have hb : d.body = none := by simpa [Program.body?, hd] using h
    rw [call_of_ask hd hb, askHost] at hcall
    repeat' split at hcall
    all_goals simp only [EStateM.Result.error.injEq, reduceCtorEq] at hcall
    all_goals
      rw [← hcall.1]
      rfl

/-- A block is left for one of its targets, or the fault is in an operand, or it is never left. -/
theorem leave_error {b : Body} {t : Terminator} (h : leave b args regs (some t) = .error fault) :
    fault.isLocal ∨ t = .unreachable ∧ fault = .trap b.name := by
  cases t with
  | br target => simp [leave] at h
  | condBr cond onTrue onFalse hint =>
    left
    cases hv : cond.eval args regs with
    | error fault' =>
      simp only [leave, hv, bind, Except.bind, Except.error.injEq] at h
      exact h ▸ eval_local hv
    | ok v =>
      cases hc : asCondition v with
      | error fault' =>
        simp only [leave, hv, hc, bind, Except.bind, Except.error.injEq] at h
        exact h ▸ asCondition_local hc
      | ok holds => simp [leave, hv, hc, bind, Except.bind, pure, Except.pure] at h
  | ret value =>
    left
    cases hv : value.eval args regs with
    | error fault' =>
      simp only [leave, hv, bind, Except.bind, Except.error.injEq] at h
      exact h ▸ eval_local hv
    | ok v => simp [leave, hv, bind, Except.bind, pure, Except.pure] at h
  | unreachable => exact .inr ⟨rfl, (Except.error.inj h).symm⟩

end Faults

end Machine

namespace Nesting

open Machine Watch

variable {σ : Type}

def watch (allowed : List (Option BlockId) → Fault → Prop) (rest : List (Option BlockId)) :
    Watch σ (List (Option BlockId)) where
  notice := nest
  holds _ _ := True
  done active _ _ := active.tail = rest
  failed active fault _ := allowed active fault

structure Admits (p : Program) (allowed : List (Option BlockId) → Fault → Prop) : Prop where
  ordinary : ∀ active fault, fault.isLocal → allowed active fault
  stuck : ∀ here rest b block, p.body? here.owner = some b → b.block? here = some block →
    block.term = some .unreachable → allowed (some here :: rest) (.trap b.name)

variable {allowed : List (Option BlockId) → Fault → Prop} {p : Program}
  {rest : List (Option BlockId)} {A : Activation σ} {steps : Nat} {here : BlockId}

/-- Watching an inner activation is watching the outer one. -/
theorem meets_outer {rest' : List (Option BlockId)} {α : Type}
    {done : List (Option BlockId) → α → World σ → Prop} {active : List (Option BlockId)}
    {ms : List (Moment σ)} {r : EStateM.Result Fault (World σ) α}
    (h : (watch allowed rest).Meets done active ms r) :
    (watch allowed rest').Meets done active ms r := by
  induction ms generalizing active with
  | nil => cases r <;> exact h
  | cons m ms ih => exact ⟨trivial, ih h.2⟩

def Returns (allowed : List (Option BlockId) → Fault → Prop) (active : List (Option BlockId))
    (A : Activation σ) : Prop :=
  ∀ f vs w, (watch allowed active).Meets (fun active' _ _ => active'.tail = active)
    (none :: active) (A.inner f vs w) (A.enter f vs w)

theorem meets_calling (hp : Admits p allowed) {active : List (Option BlockId)}
    (hcalls : Returns allowed active A) {i : Instr} (hi : ¬ i.isPlain) {here : Point}
    {regs : Regs} {w : World σ} :
    (watch allowed rest).Meets (fun active' _ _ => active'.tail = active) active
      (instrTrace A.inner here A.args regs i w) (exec A.enter A.args regs i w) := by
  cases i with
  | call dst callee sig operands callees =>
    refine ⟨trivial, ?_⟩
    cases hreached : reached? A.args regs (.call dst callee sig operands callees) with
    | none =>
      obtain ⟨fault, hfault⟩ := exec_call_unreached A.enter w hreached
      rw [hfault]
      exact hp.ordinary _ _ (steady_unreached A.enter hreached w fault w hfault)
    | some entry =>
      obtain ⟨f, vs⟩ := entry
      obtain ⟨hcallee, hargs⟩ := reached?_eq_some.1 hreached
      rw [exec_call hcallee hargs]
      refine (meets_outer (hcalls f vs w)).andThen fun active' v w' htail => ?_
      rw [settle_run]
      cases hassign : assign regs dst v with
      | ok regs' => exact htail
      | error fault => exact hp.ordinary _ _ (assign_local hassign)
  | _ => simp [Instr.isPlain] at hi

theorem goes_rest (hp : Admits p allowed) (hcalls : Returns allowed (some here :: rest) A)
    (hbody : p.body? here.owner = some A.body) (hverify : A.body.verify = .ok ())
    (hnext : ∀ target regs w, (A.body.code? target).isSome →
      (watch allowed rest).Runs A steps target (some here :: rest) regs w)
    {all : List Instr} {t : Terminator} (hcode : A.body.code? here = some (all, some t))
    (is : List Instr) (k : Nat) (regs : Regs) (w : World σ) :
    (watch allowed rest).Goes A steps here k (is, some t) (some here :: rest) regs w := by
  induction is generalizing k regs w with
  | nil =>
    refine goes_leave ?_ (fun _ _ => rfl) ?_
    · intro target hleave
      exact hnext target regs w (Body.code_of_verify hverify hcode (mem_targets_of_leave hleave))
    · intro fault hfault
      rcases leave_error hfault with hlocal | ⟨rfl, rfl⟩
      · exact hp.ordinary _ _ hlocal
      · obtain ⟨block, hblock, hb⟩ := Option.map_eq_some_iff.1 hcode
        exact hp.stuck here rest A.body block hbody hblock (congrArg Prod.snd hb)
  | cons i is ih =>
    by_cases hplain : i.isPlain
    · refine goes_cons (fun active _ _ => active = some here :: rest) ?_ ?_
      · rw [instrTrace_of_isPlain hplain]
        cases hi : exec A.enter A.args regs i w with
        | ok regs' w' => exact rfl
        | error fault w' => exact hp.ordinary _ _ (steady_exec hplain w fault w' hi)
      · rintro _ regs' w' rfl
        have hsame : (watch allowed rest).notice (some here :: rest)
            (.executed ⟨here, k⟩ i A.args regs' w') = some here :: rest := if_pos hplain
        rw [hsame]
        exact ⟨trivial, ih (k + 1) regs' w'⟩
    · refine goes_cons (fun active _ _ => active.tail = some here :: rest) ?_ ?_
      · exact meets_calling hp hcalls hplain
      · intro active regs' w' htail
        have hback : (watch allowed rest).notice active (.executed ⟨here, k⟩ i A.args regs' w') =
            some here :: rest := (if_neg hplain).trans htail
        rw [hback]
        exact ⟨trivial, ih (k + 1) regs' w'⟩

theorem runs_body (hp : Admits p allowed) (hcalls : ∀ x, Returns allowed (x :: rest) A)
    (hbody : p.body? A.body.id = some A.body) (hverify : A.body.verify = .ok ())
    (hhere : (A.body.code? here).isSome) (x : Option BlockId) (regs : Regs) (w : World σ) :
    (watch allowed rest).Runs A steps here (x :: rest) regs w := by
  induction steps generalizing here x regs w with
  | zero => exact runs_zero (hp.ordinary _ _ rfl)
  | succ steps ih =>
    obtain ⟨⟨is, term⟩, hcode⟩ := Option.isSome_iff_exists.1 hhere
    obtain ⟨t, rfl⟩ := Option.isSome_iff_exists.1 (Body.isSome_of_verify hverify hcode)
    have howner : here.owner = A.body.id := (Body.code?_some.1 hcode).1
    refine runs_succ hcode trivial ?_
    exact goes_rest hp (hcalls _) (howner ▸ hbody) hverify
      (fun target regs w htarget => ih htarget (some here) regs w) hcode is 0 regs w

theorem meets_bodiless (hp : Admits p allowed) {host : Host σ} {limit depth : Nat} {f : FuncId}
    {args : List Value} {x : Option BlockId} {w : World σ} (hb : p.body? f = none) :
    (watch allowed rest).Meets (watch allowed rest).done (x :: rest)
      (trace p host limit depth f args w) (call p host limit depth f args w) := by
  rw [trace_of_body_none hb]
  cases hcall : call p host limit depth f args w with
  | ok v w' => exact rfl
  | error fault w' => exact hp.ordinary _ _ (steady_bodiless hb w fault w' hcall)

/-- A call returns with the activations open that were open before, or fails as allowed. It is too
deep only inside as many activations as are let in. -/
theorem meets_call (hp : Admits p allowed) (hlanding : p.Landing) {most : Nat}
    (hdeep : ∀ x rest, rest.length = most → allowed (x :: rest) .tooDeep) (host : Host σ)
    (limit depth : Nat) (hmost : rest.length + depth = most) (f : FuncId) (args : List Value)
    (x : Option BlockId) (w : World σ) :
    (watch allowed rest).Meets (watch allowed rest).done (x :: rest)
      (trace p host limit depth f args w) (call p host limit depth f args w) := by
  induction depth generalizing f args x rest w with
  | zero =>
    cases hb : p.body? f with
    | none => exact meets_bodiless hp hb
    | some b =>
      rw [call_of_body_zero hb]
      exact hdeep x rest hmost
  | succ depth ih =>
    cases hb : p.body? f with
    | none => exact meets_bodiless hp hb
    | some b =>
      obtain ⟨rfl, hverify, hentry⟩ := hlanding f b hb
      rw [trace_of_body hb, call_of_body hb]
      refine runs_body (A := ⟨call p host limit depth, trace p host limit depth, limit, b, args⟩)
        hp ?_ hb hverify hentry x _ w
      intro y f vs w
      exact ih (by simp only [List.length_cons]; omega) f vs none w

theorem allowed_of_error (hp : Admits p allowed) (hlanding : p.Landing) {host : Host σ}
    {limit depth : Nat} (hdeep : ∀ x rest, rest.length = depth → allowed (x :: rest) .tooDeep)
    {f : FuncId} {args : List Value} {w w' : World σ} {fault : Fault}
    (h : call p host limit depth f args w = .error fault w') :
    allowed ((trace p host limit depth f args w).foldl nest [none]) fault := by
  have hmeets : (watch allowed []).Meets (watch allowed []).done [none]
      (trace p host limit depth f args w) (call p host limit depth f args w) :=
    meets_call hp hlanding hdeep host limit depth (Nat.zero_add _) f args none w
  rw [h] at hmeets
  exact hmeets.failed_of_error

end Nesting

end SpanTracking
