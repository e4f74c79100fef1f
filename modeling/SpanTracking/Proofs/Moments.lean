import SpanTracking.Proofs.Events

set_option autoImplicit false

/-!
# The moments of a run

A run is more than its result: blocks are entered, calls begin, instructions are executed, also in
the functions that are called, and also if the run ends in a fault. `trace` lists these moments in
order, read off from the machine itself.

A watch goes along with a run. It notices each moment and says what must hold then. What has to be
shown of a body is what each block keeps, instruction by instruction; the rules below are one for
each way in which a run can go on.
-/

namespace SpanTracking

namespace Host

variable {σ : Type}

def code (host : Host σ) (c : HostCall) (s : σ) : Int32 :=
  match host.answer c.callee with
  | some reply => (reply c.start c.stop s).1
  | none => 0

def next (host : Host σ) (s : σ) (c : HostCall) : σ :=
  match host.answer c.callee with
  | some reply => (reply c.start c.stop s).2
  | none => s

def answers (host : Host σ) : List HostCall → σ → List (HostCall × Int32)
  | [], _ => []
  | c :: rest, s => (c, host.code c s) :: host.answers rest (host.next s c)

theorem answers_append (host : Host σ) (xs ys : List HostCall) (s : σ) :
    host.answers (xs ++ ys) s = host.answers xs s ++ host.answers ys (xs.foldl host.next s) := by
  induction xs generalizing s with
  | nil => rfl
  | cons c xs ih => exact congrArg _ (ih (host.next s c))

end Host

namespace World

variable {σ : Type}

def told (w : World σ) (host : Host σ) (calls : List HostCall) : World σ :=
  { w with host := calls.foldl host.next w.host, calls := w.calls ++ calls.toArray }

theorem told_nil (w : World σ) (host : Host σ) : w.told host [] = w := by
  simp [told]

theorem told_append (w : World σ) (host : Host σ) (xs ys : List HostCall) :
    w.told host (xs ++ ys) = (w.told host xs).told host ys := by
  simp [told, List.foldl_append]

end World

inductive Moment (σ : Type) where
  | entered (here : BlockId) (w : World σ)
  /-- A call instruction begins to execute. -/
  | calling (here : Point) (i : Instr) (args : List Value) (regs : Regs) (w : World σ)
  | executed (here : Point) (i : Instr) (args : List Value) (regs : Regs) (w : World σ)
  /-- A call made from outside has come to its end. -/
  | ended (result : Except Fault Value) (w : World σ)

namespace Moment

variable {σ : Type}

def world : Moment σ → World σ
  | entered _ w => w
  | calling _ _ _ _ w => w
  | executed _ _ _ _ w => w
  | ended _ w => w

def ofResult : EStateM.Result Fault (World σ) Value → Moment σ
  | .ok v w => ended (.ok v) w
  | .error fault w => ended (.error fault) w

end Moment

structure Request (σ : Type) where
  host : Host σ
  limit : Nat
  depth : Nat
  callee : FuncId
  args : List Value

namespace Machine

variable {σ : Type}

def afterOk {α : Type} (x : Exec σ α) (next : α → World σ → List (Moment σ)) (w : World σ) :
    List (Moment σ) :=
  match x w with
  | .ok a w' => next a w'
  | .error _ _ => []

/-- The function that a call instruction enters, with its arguments. -/
def reached? (args : List Value) (regs : Regs) : Instr → Option (FuncId × List Value)
  | .call _ callee _ operands _ =>
    match callee.eval args regs, operands.mapM (Operand.eval args regs) with
    | .ok (.func (some f)), .ok vs => some (f, vs)
    | _, _ => none
  | _ => none

section Body

variable (enter : FuncId → List Value → Exec σ Value)
  (inner : FuncId → List Value → World σ → List (Moment σ))

/-- The moments of an instruction before it is done; `inner` gives those of a called function. -/
def instrTrace (here : Point) (args : List Value) (regs : Regs) (i : Instr) (w : World σ) :
    List (Moment σ) :=
  match i with
  | .call .. => .calling here i args regs w ::
      (match reached? args regs i with
      | some (f, vs) => inner f vs w
      | none => [])
  | _ => []

def codeTrace (here : BlockId) (args : List Value) :
    (k : Nat) → Regs → List Instr → World σ → List (Moment σ)
  | _, _, [], _ => []
  | k, regs, i :: is, w =>
    instrTrace inner ⟨here, k⟩ args regs i w ++
      afterOk (exec enter args regs i) (fun regs w =>
        .executed ⟨here, k⟩ i args regs w :: codeTrace here args (k + 1) regs is w) w

def leaveTrace (next : BlockId → Regs → World σ → List (Moment σ)) (b : Body) (args : List Value)
    (term : Option Terminator) (regs : Regs) (w : World σ) : List (Moment σ) :=
  match leave b args regs term with
  | .ok (.goto target) => next target regs w
  | _ => []

/-- The moments of a body from one of its blocks on, with `steps` blocks left to enter. -/
def runTrace (b : Body) (args : List Value) :
    (steps : Nat) → BlockId → Regs → World σ → List (Moment σ)
  | 0, _, _, _ => []
  | steps + 1, here, regs, w =>
    match b.code? here with
    | none => []
    | some code =>
      .entered here w :: (codeTrace enter inner here args 0 regs code.1 w ++
        afterOk (execAll enter args regs code.1)
          (leaveTrace (runTrace b args steps) b args code.2) w)

def restTrace (b : Body) (args : List Value) (steps : Nat) (here : BlockId) (k : Nat) (code : Code)
    (regs : Regs) (w : World σ) : List (Moment σ) :=
  codeTrace enter inner here args k regs code.1 w ++
    afterOk (execAll enter args regs code.1)
      (leaveTrace (runTrace enter inner b args steps) b args code.2) w

end Body

def trace (p : Program) (host : Host σ) (limit : Nat) :
    (depth : Nat) → FuncId → List Value → World σ → List (Moment σ)
  | 0, _, _, _ => []
  | depth + 1, f, args, w =>
    match p.body? f with
    | none => []
    | some b =>
      runTrace (call p host limit depth) (trace p host limit depth) b args limit b.entry
        (List.replicate b.regs.length none) w

/-- The moments of calls made from outside, one after another, on one state record. -/
def session (p : Program) : List (Request σ) → World σ → List (Moment σ)
  | [], _ => []
  | q :: rest, w =>
    let last := Moment.ofResult (call p q.host q.limit q.depth q.callee q.args w)
    trace p q.host q.limit q.depth q.callee q.args w ++ last :: session p rest last.world

theorem session_single (p : Program) (q : Request σ) (w : World σ) :
    session p [q] w = trace p q.host q.limit q.depth q.callee q.args w ++
      [Moment.ofResult (call p q.host q.limit q.depth q.callee q.args w)] := rfl

section Along

variable {σ : Type}

/-- What `I` says of registers is kept by instructions, and as long as it holds, `P` holds of the
moments of a run. -/
structure Along (enter : FuncId → List Value → Exec σ Value)
    (inner : FuncId → List Value → World σ → List (Moment σ)) (args : List Value)
    (I : Regs → Prop) (P : Moment σ → Prop) : Prop where
  exec : ∀ {regs regs' i w w'}, I regs → Machine.exec enter args regs i w = .ok regs' w' → I regs'
  inner : ∀ {f vs w m}, m ∈ inner f vs w → P m
  entered : ∀ here w, P (.entered here w)
  calling : ∀ here i w {regs}, I regs → P (.calling here i args regs w)
  executed : ∀ here i w {regs}, I regs → P (.executed here i args regs w)

namespace Along

variable {enter : FuncId → List Value → Exec σ Value}
  {inner : FuncId → List Value → World σ → List (Moment σ)} {args : List Value}
  {I : Regs → Prop} {P : Moment σ → Prop} {regs : Regs} {w : World σ} {m : Moment σ}

theorem execAll (h : Along enter inner args I P) (hI : I regs) {is : List Instr} {regs' : Regs}
    {w' : World σ} (hrun : Machine.execAll enter args regs is w = .ok regs' w') : I regs' := by
  induction is generalizing regs w with
  | nil => exact (pure_ok hrun).1 ▸ hI
  | cons i is ih =>
    obtain ⟨regs₁, w₁, hi, hrest⟩ := bind_ok hrun
    exact ih (h.exec hI hi) hrest

theorem of_mem_instrTrace (h : Along enter inner args I P) (hI : I regs) {here : Point} {i : Instr}
    (hm : m ∈ instrTrace inner here args regs i w) : P m := by
  unfold instrTrace at hm
  split at hm
  · rcases List.mem_cons.1 hm with rfl | hm
    · exact h.calling _ _ _ hI
    · split at hm
      · exact h.inner hm
      · simp at hm
  · simp at hm

theorem of_mem_codeTrace (h : Along enter inner args I P) (hI : I regs) {here : BlockId} {k : Nat}
    {is : List Instr} (hm : m ∈ codeTrace enter inner here args k regs is w) : P m := by
  induction is generalizing k regs w with
  | nil => simp [codeTrace] at hm
  | cons i is ih =>
    rcases List.mem_append.1 hm with hm | hm
    · exact h.of_mem_instrTrace hI hm
    · unfold afterOk at hm
      split at hm
      · rename_i regs₁ w₁ hi
        rcases List.mem_cons.1 hm with rfl | hm
        · exact h.executed _ _ _ (h.exec hI hi)
        · exact ih (h.exec hI hi) hm
      · simp at hm

theorem of_mem_runTrace (h : Along enter inner args I P) (hI : I regs) {b : Body} {steps : Nat}
    {here : BlockId} (hm : m ∈ runTrace enter inner b args steps here regs w) : P m := by
  induction steps generalizing here regs w with
  | zero => simp [runTrace] at hm
  | succ steps ih =>
    rw [runTrace] at hm
    split at hm
    · simp at hm
    · rcases List.mem_cons.1 hm with rfl | hm
      · exact h.entered _ _
      rcases List.mem_append.1 hm with hm | hm
      · exact h.of_mem_codeTrace hI hm
      · unfold afterOk leaveTrace at hm
        split at hm
        · rename_i regs₁ w₁ hcode
          split at hm
          · exact ih (h.execAll hI hcode) hm
          · simp at hm
        · simp at hm

end Along

end Along

end Machine

def Instr.isPlain : Instr → Bool
  | .call .. => false
  | _ => true

namespace Machine

variable {σ : Type} {enter : FuncId → List Value → Exec σ Value}
  {inner : FuncId → List Value → World σ → List (Moment σ)} {args : List Value} {regs : Regs}
  {w : World σ}

theorem instrTrace_of_isPlain {i : Instr} {here : Point} (h : i.isPlain) :
    instrTrace inner here args regs i w = [] := by
  cases i with
  | call => simp [Instr.isPlain] at h
  | _ => rfl

section Call

variable {dst : Reg} {callee : Operand} {sig : Signature} {operands : List Operand}
  {callees : Option (List FuncId)}

theorem reached?_eq_some {f : FuncId} {vs : List Value} :
    reached? args regs (.call dst callee sig operands callees) = some (f, vs) ↔
      callee.eval args regs = .ok (.func (some f)) ∧
        operands.mapM (Operand.eval args regs) = .ok vs := by
  rw [reached?]
  split <;> simp_all

theorem exec_call_unreached (enter : FuncId → List Value → Exec σ Value) (w : World σ)
    (h : reached? args regs (.call dst callee sig operands callees) = none) :
    ∃ fault, exec enter args regs (.call dst callee sig operands callees) w = .error fault w := by
  have hs : ∀ v, callee.eval args regs = .ok v → settle (callee.eval args regs) w = .ok v w := by
    intro v hv
    simp [hv]
  cases hcallee : callee.eval args regs with
  | error fault => exact ⟨fault, bind_of_error (by simp [hcallee])⟩
  | ok v =>
    cases hf : asCallee v with
    | error fault => exact ⟨fault, exec_callee_error hcallee hf⟩
    | ok f =>
      obtain rfl := asCallee_ok hf
      cases hargs : operands.mapM (Operand.eval args regs) with
      | error fault =>
        refine ⟨fault, andThen (hs _ hcallee) (andThen (a := f) (t := w) rfl ?_)⟩
        exact bind_of_error (by simp [hargs])
      | ok vs => simp [reached?, hcallee, hargs] at h

end Call

section Bodies

variable {p : Program} {host : Host σ} {limit : Nat} {f : FuncId}

theorem call_of_body {b : Body} (h : p.body? f = some b) (depth : Nat) :
    call p host limit (depth + 1) f args w = runBody (call p host limit depth) limit b args w := by
  obtain ⟨d, hd, hb⟩ := Option.bind_eq_some_iff.1 h
  simp only [call, dispatch, hd, hb]

theorem call_of_body_zero {b : Body} (h : p.body? f = some b) :
    call p host limit 0 f args w = .error .tooDeep w := by
  obtain ⟨d, hd, hb⟩ := Option.bind_eq_some_iff.1 h
  simp only [call, dispatch, hd, hb, throw_run]

theorem call_of_ask {d : Decl} (hd : p.decl? f = some d) (hb : d.body = none) (depth : Nat) :
    call p host limit depth f args w = askHost host f d.name args w := by
  cases depth <;> simp only [call, dispatch, hd, hb]

theorem call_of_decl_eq {q : Program} (hdecl : q.decl? f = p.decl? f) (hbody : p.body? f = none)
    (depth depth' : Nat) :
    call q host limit depth f args w = call p host limit depth' f args w := by
  cases hd : p.decl? f with
  | none => cases depth <;> cases depth' <;> simp [call, dispatch, hd, hdecl]
  | some d =>
    have hb : d.body = none := by simpa [Program.body?, hd] using hbody
    rw [call_of_ask hd hb, call_of_ask (hdecl.trans hd) hb]

theorem trace_of_body {b : Body} (h : p.body? f = some b) (depth : Nat) :
    trace p host limit (depth + 1) f args w =
      runTrace (call p host limit depth) (trace p host limit depth) b args limit b.entry
        (List.replicate b.regs.length none) w := by
  simp only [trace, h]

theorem trace_of_body_none (h : p.body? f = none) (depth : Nat) :
    trace p host limit depth f args w = [] := by
  cases depth <;> simp only [trace, h]

theorem askHost_eq {host : Host σ} {f : FuncId} (h : (host.answer f).isSome) (name : String)
    {args : List Value} {start stop : Nat} (hargs : positions args = some (start, stop))
    (w : World σ) :
    askHost host f name args w =
      .ok (.int (host.code ⟨f, start, stop⟩ w.host).toInt) (w.told host [⟨f, start, stop⟩]) := by
  obtain ⟨reply, hreply⟩ := Option.isSome_iff_exists.1 h
  simp [askHost, hreply, hargs, Host.code, Host.next, World.told]

/-- A function without a body is answered by the host, which sees positions, or changes nothing. -/
theorem call_of_body_none (host : Host σ) (limit depth : Nat) (args : List Value) (w : World σ)
    (h : p.body? f = none) :
    (∃ fault, call p host limit depth f args w = .error fault w) ∨
      ∃ start stop, positions args = some (start, stop) ∧ call p host limit depth f args w =
        .ok (.int (host.code ⟨f, start, stop⟩ w.host).toInt)
          (w.told host [⟨f, start, stop⟩]) := by
  cases hd : p.decl? f with
  | none => exact .inl ⟨.unknownFunction f, by cases depth <;> simp [call, dispatch, hd]⟩
  | some decl =>
    have hb : decl.body = none := by simpa [Program.body?, hd] using h
    rw [call_of_ask hd hb]
    cases hanswer : host.answer f with
    | none => exact .inl ⟨_, by rw [askHost, hanswer]⟩
    | some reply =>
      cases hpos : positions args with
      | none => exact .inl ⟨_, by rw [askHost, hanswer, hpos]⟩
      | some pair =>
        exact .inr ⟨pair.1, pair.2, rfl, askHost_eq (by rw [hanswer]; rfl) _ hpos w⟩

end Bodies

end Machine

/-- Goes along with a run: what it makes of each moment, what must hold of a moment by then, and
what must hold when a function returns or the run fails. -/
structure Watch (σ γ : Type) where
  notice : γ → Moment σ → γ
  holds : γ → Moment σ → Prop
  done : γ → Value → World σ → Prop
  failed : γ → Fault → World σ → Prop

/-- One run of a body: how functions are called from it, their moments, and its arguments. -/
structure Activation (σ : Type) where
  enter : FuncId → List Value → Exec σ Value
  inner : FuncId → List Value → World σ → List (Moment σ)
  limit : Nat
  body : Body
  args : List Value

namespace Watch

open Machine

variable {σ γ α β : Type} (W : Watch σ γ)

/-- All moments are as they must be, and at the end `done` holds or the run has failed properly. -/
def Meets (done : γ → α → World σ → Prop) :
    γ → List (Moment σ) → EStateM.Result Fault (World σ) α → Prop
  | g, [], .ok a w => done g a w
  | g, [], .error fault w => W.failed g fault w
  | g, m :: ms, r => W.holds (W.notice g m) m ∧ Meets done (W.notice g m) ms r

section Meets

variable {W} {done : γ → α → World σ → Prop} {g : γ} {ms : List (Moment σ)}
  {r : EStateM.Result Fault (World σ) α}

theorem Meets.mono (h : W.Meets done g ms r) {done' : γ → α → World σ → Prop}
    (hdone : ∀ g a w, done g a w → done' g a w) : W.Meets done' g ms r := by
  induction ms generalizing g with
  | nil =>
    cases r with
    | ok a w => exact hdone g a w h
    | error fault w => exact h
  | cons m ms ih => exact ⟨h.1, ih h.2⟩

/-- The moments of one computation and then those of another. -/
theorem Meets.append {ms' : List (Moment σ)} {r' : EStateM.Result Fault (World σ) β}
    {done' : γ → β → World σ → Prop} (h : W.Meets done g ms r)
    (hok : ∀ g a w, r = .ok a w → done g a w → W.Meets done' g ms' r')
    (herror : ∀ g fault w, r = .error fault w → W.failed g fault w → W.Meets done' g ms' r') :
    W.Meets done' g (ms ++ ms') r' := by
  induction ms generalizing g with
  | nil =>
    cases r with
    | ok a w => exact hok g a w rfl h
    | error fault w => exact herror g fault w rfl h
  | cons m ms ih => exact ⟨h.1, ih h.2⟩

/-- A computation and what follows it if it succeeds. -/
theorem Meets.bind {x : Exec σ α} {f : α → Exec σ β} {next : α → World σ → List (Moment σ)}
    {w : World σ} {done' : γ → β → World σ → Prop} (h : W.Meets done g ms (x w))
    (hnext : ∀ g a w, done g a w → W.Meets done' g (next a w) (f a w)) :
    W.Meets done' g (ms ++ afterOk x next w) ((x >>= f) w) := by
  refine h.append ?_ ?_
  · intro g a w' hx hd
    rw [afterOk, bind_eq, hx]
    exact hnext g a w' hd
  · intro g fault w' hx hf
    rw [afterOk, bind_eq, hx]
    exact hf

theorem Meets.andThen {x : Exec σ α} {f : α → Exec σ β} {w : World σ}
    {done' : γ → β → World σ → Prop} (h : W.Meets done g ms (x w))
    (hnext : ∀ g a w, done g a w → W.Meets done' g [] (f a w)) :
    W.Meets done' g ms ((x >>= f) w) := by
  have hnil : ms = ms ++ afterOk x (fun _ _ => []) w := by
    unfold afterOk
    split <;> simp
  rw [hnil]
  exact h.bind hnext

theorem Meets.last (h : W.Meets done g ms r) : ∃ g, W.Meets done g [] r := by
  induction ms generalizing g with
  | nil => exact ⟨g, h⟩
  | cons m ms ih => exact ih h.2

theorem Meets.done_of_ok {a : α} {w : World σ} (h : W.Meets done g ms (.ok a w)) :
    done (ms.foldl W.notice g) a w := by
  induction ms generalizing g with
  | nil => exact h
  | cons m ms ih => exact ih h.2

theorem Meets.failed_of_error {fault : Fault} {w : World σ}
    (h : W.Meets done g ms (.error fault w)) : W.failed (ms.foldl W.notice g) fault w := by
  induction ms generalizing g with
  | nil => exact h
  | cons m ms ih => exact ih h.2

theorem Meets.holds_of_eq (h : W.Meets done g ms r) {before after : List (Moment σ)}
    {m : Moment σ} (hms : ms = before ++ m :: after) :
    W.holds ((before ++ [m]).foldl W.notice g) m := by
  induction before generalizing g ms with
  | nil =>
    subst hms
    exact h.1
  | cons m' before ih =>
    subst hms
    exact ih h.2 rfl

end Meets

/-- The watch makes nothing of the instruction at a point after it has been executed. -/
def Quiet (here : Point) : Prop :=
  ∀ i args regs w g, W.notice g (.executed here i args regs w) = g ∧
    W.holds g (.executed here i args regs w)

def Goes (A : Activation σ) (steps : Nat) (here : BlockId) (k : Nat) (code : Code) (g : γ)
    (regs : Regs) (w : World σ) : Prop :=
  W.Meets W.done g (restTrace A.enter A.inner A.body A.args steps here k code regs w)
    (finish A.enter A.limit A.body A.args steps code regs w)

def Runs (A : Activation σ) (steps : Nat) (here : BlockId) (g : γ) (regs : Regs) (w : World σ) :
    Prop :=
  W.Meets W.done g (runTrace A.enter A.inner A.body A.args steps here regs w)
    (runFrom A.enter A.limit A.body A.args steps here regs w)

section Rules

variable {W} {A : Activation σ} {steps : Nat} {here : BlockId} {k : Nat} {i : Instr}
  {is : List Instr} {term : Option Terminator} {g : γ} {regs : Regs} {w : World σ}

theorem runs_zero (h : W.failed g (.stepLimit A.limit) w) : W.Runs A 0 here g regs w := h

theorem runs_succ {code : Code} (hcode : A.body.code? here = some code)
    (hm : W.holds (W.notice g (.entered here w)) (.entered here w))
    (h : W.Goes A steps here 0 code (W.notice g (.entered here w)) regs w) :
    W.Runs A (steps + 1) here g regs w := by
  rw [Runs, runTrace, hcode, runFrom_of_code hcode]
  exact ⟨hm, h⟩

theorem goes_cons (mid : γ → Regs → World σ → Prop)
    (h : W.Meets mid g (instrTrace A.inner ⟨here, k⟩ A.args regs i w)
      (exec A.enter A.args regs i w))
    (hnext : ∀ g regs' w', mid g regs' w' →
      W.holds (W.notice g (.executed ⟨here, k⟩ i A.args regs' w'))
        (.executed ⟨here, k⟩ i A.args regs' w') ∧
      W.Goes A steps here (k + 1) (is, term) (W.notice g (.executed ⟨here, k⟩ i A.args regs' w'))
        regs' w') :
    W.Goes A steps here k (i :: is, term) g regs w := by
  have htrace : restTrace A.enter A.inner A.body A.args steps here k (i :: is, term) regs w =
      instrTrace A.inner ⟨here, k⟩ A.args regs i w ++
        afterOk (exec A.enter A.args regs i) (fun regs' w' =>
          .executed ⟨here, k⟩ i A.args regs' w' ::
            restTrace A.enter A.inner A.body A.args steps here (k + 1) (is, term) regs' w') w := by
    rw [restTrace, codeTrace, List.append_assoc]
    congr 1
    cases hi : exec A.enter A.args regs i w with
    | ok regs' w' =>
      simp only [afterOk, hi, execAll, bind_of_ok hi, List.cons_append]
      rfl
    | error fault w' => simp only [afterOk, hi, execAll, bind_of_error hi, List.append_nil]
  rw [Goes, htrace, finish_step]
  exact h.bind hnext

theorem goes_step (hplain : i.isPlain) {regs' : Regs} {w' : World σ}
    (hi : exec A.enter A.args regs i w = .ok regs' w')
    (hm : W.holds (W.notice g (.executed ⟨here, k⟩ i A.args regs' w'))
      (.executed ⟨here, k⟩ i A.args regs' w'))
    (h : W.Goes A steps here (k + 1) (is, term)
      (W.notice g (.executed ⟨here, k⟩ i A.args regs' w')) regs' w') :
    W.Goes A steps here k (i :: is, term) g regs w := by
  refine goes_cons (fun g₁ regs₁ w₁ => g₁ = g ∧ regs₁ = regs' ∧ w₁ = w') ?_ ?_
  · rw [instrTrace_of_isPlain hplain, hi]
    exact ⟨rfl, rfl, rfl⟩
  · rintro _ _ _ ⟨rfl, rfl, rfl⟩
    exact ⟨hm, h⟩

theorem goes_quiet (hplain : i.isPlain) (hq : W.Quiet ⟨here, k⟩) {regs' : Regs} {w' : World σ}
    (hi : exec A.enter A.args regs i w = .ok regs' w')
    (h : W.Goes A steps here (k + 1) (is, term) g regs' w') :
    W.Goes A steps here k (i :: is, term) g regs w := by
  obtain ⟨hsame, hholds⟩ := hq i A.args regs' w' g
  exact goes_step hplain hi (by rwa [hsame]) (by rwa [hsame])

theorem goes_error (hplain : i.isPlain) {fault : Fault} {w' : World σ}
    (hi : exec A.enter A.args regs i w = .error fault w') (h : W.failed g fault w') :
    W.Goes A steps here k (i :: is, term) g regs w := by
  refine goes_cons (fun _ _ _ => False) ?_ (fun _ _ _ h => h.elim)
  rw [instrTrace_of_isPlain hplain, hi]
  exact h

/-- A call: the callee or an argument has no value, or a function is entered. -/
theorem goes_call {dst : Reg} {callee : Operand} {sig : Signature} {operands : List Operand}
    {callees : Option (List FuncId)}
    (hm : W.holds (W.notice g (.calling ⟨here, k⟩ (.call dst callee sig operands callees) A.args
      regs w)) (.calling ⟨here, k⟩ (.call dst callee sig operands callees) A.args regs w))
    (hdst : dst.index < regs.length)
    (hnone : ∀ fault, reached? A.args regs (.call dst callee sig operands callees) = none →
      W.failed (W.notice g (.calling ⟨here, k⟩ (.call dst callee sig operands callees) A.args
        regs w)) fault w)
    (hsome : ∀ f vs, reached? A.args regs (.call dst callee sig operands callees) = some (f, vs) →
      W.Meets (fun g v w' =>
          W.holds
            (W.notice g (.executed ⟨here, k⟩ (.call dst callee sig operands callees) A.args
              (regs.set dst.index (some v)) w'))
            (.executed ⟨here, k⟩ (.call dst callee sig operands callees) A.args
              (regs.set dst.index (some v)) w') ∧
          W.Goes A steps here (k + 1) (is, term)
            (W.notice g (.executed ⟨here, k⟩ (.call dst callee sig operands callees) A.args
              (regs.set dst.index (some v)) w')) (regs.set dst.index (some v)) w')
        (W.notice g (.calling ⟨here, k⟩ (.call dst callee sig operands callees) A.args regs w))
        (A.inner f vs w) (A.enter f vs w)) :
    W.Goes A steps here k (.call dst callee sig operands callees :: is, term) g regs w := by
  refine goes_cons (fun g regs' w' => W.holds
      (W.notice g (.executed ⟨here, k⟩ (.call dst callee sig operands callees) A.args regs' w'))
      (.executed ⟨here, k⟩ (.call dst callee sig operands callees) A.args regs' w') ∧
    W.Goes A steps here (k + 1) (is, term)
      (W.notice g (.executed ⟨here, k⟩ (.call dst callee sig operands callees) A.args regs' w'))
      regs' w') ⟨hm, ?_⟩ fun _ _ _ h => h
  cases hreached : reached? A.args regs (.call dst callee sig operands callees) with
  | none =>
    obtain ⟨fault, hfault⟩ := exec_call_unreached A.enter w hreached
    rw [hfault]
    exact hnone fault hreached
  | some entry =>
    obtain ⟨f, vs⟩ := entry
    obtain ⟨hcallee, hargs⟩ := reached?_eq_some.1 hreached
    have hassign : ∀ v, assign regs dst v = .ok (regs.set dst.index (some v)) := by
      intro v
      simp [assign, hdst]
    rw [exec_call hcallee hargs]
    simp only [hassign]
    exact (hsome f vs hreached).andThen fun g v w' h => h

theorem goes_leave
    (hgoto : ∀ target, leave A.body A.args regs term = .ok (.goto target) →
      W.Runs A steps target g regs w)
    (hdone : ∀ v, leave A.body A.args regs term = .ok (.done v) → W.done g v w)
    (hfault : ∀ fault, leave A.body A.args regs term = .error fault → W.failed g fault w) :
    W.Goes A steps here k ([], term) g regs w := by
  have htrace : restTrace A.enter A.inner A.body A.args steps here k ([], term) regs w =
      leaveTrace (runTrace A.enter A.inner A.body A.args steps) A.body A.args term regs w := rfl
  rw [Goes, htrace, leaveTrace, finish, execAll, pure_bind, bind_eq, settle_run]
  cases hleave : leave A.body A.args regs term with
  | error fault => exact hfault fault hleave
  | ok next =>
    cases next with
    | goto target => exact hgoto target hleave
    | done v => exact hdone v hleave

theorem goes_br {target : BlockId} (h : W.Runs A steps target g regs w) :
    W.Goes A steps here k ([], some (.br target)) g regs w := h

theorem goes_condBr {cond : Operand} {onTrue onFalse : BlockId} {hint : BranchHint} {t : Bool}
    (hc : cond.eval A.args regs = .ok (.truth t))
    (h : W.Runs A steps (if t then onTrue else onFalse) g regs w) :
    W.Goes A steps here k ([], some (.condBr cond onTrue onFalse hint)) g regs w := by
  have hl : leave A.body A.args regs (some (.condBr cond onTrue onFalse hint)) =
      .ok (.goto (if t then onTrue else onFalse)) := by
    cases t <;> simp [leave, hc, asCondition, Value.truth, bind, Except.bind, pure, Except.pure]
  refine goes_leave ?_ ?_ ?_
  · intro target htarget
    rw [hl] at htarget
    obtain rfl := Leave.goto.inj (Except.ok.inj htarget)
    exact h
  all_goals simp [hl]

theorem goes_ret {value : Operand} {v : Value} (hv : value.eval A.args regs = .ok v)
    (h : W.done g v w) : W.Goes A steps here k ([], some (.ret value)) g regs w := by
  have hl : leave A.body A.args regs (some (.ret value)) = .ok (.done v) := by
    simp [leave, hv, bind, Except.bind, pure, Except.pure]
  refine goes_leave ?_ ?_ ?_
  · simp [hl]
  · intro u hu
    rw [hl] at hu
    obtain rfl := Leave.done.inj (Except.ok.inj hu)
    exact h
  · simp [hl]

/-- What holds whenever a block is entered, and is kept by each of them, holds along the run. -/
theorem runs_of_blocks (note : BlockId → γ → Regs → World σ → Prop)
    (hlimit : ∀ here g regs w, note here g regs w → W.failed g (.stepLimit A.limit) w)
    (hblock : ∀ steps, (∀ here g regs w, note here g regs w → W.Runs A steps here g regs w) →
      ∀ here g regs w, note here g regs w → ∃ code, A.body.code? here = some code ∧
        W.holds (W.notice g (.entered here w)) (.entered here w) ∧
        W.Goes A steps here 0 code (W.notice g (.entered here w)) regs w)
    (hnote : note here g regs w) : W.Runs A steps here g regs w := by
  induction steps generalizing here g regs w with
  | zero => exact runs_zero (hlimit here g regs w hnote)
  | succ steps ih =>
    obtain ⟨code, hcode, hm, h⟩ := hblock steps (fun _ _ _ _ => ih) here g regs w hnote
    exact runs_succ hcode hm h

end Rules

section Calls

variable {W} {p : Program} {host : Host σ} {limit : Nat}

/-- A function is called: it has a body, or the host answers. -/
theorem meets_call (pre : FuncId → List Value → γ → World σ → Prop)
    (hask : ∀ depth f args g w, pre f args g w → p.body? f = none →
      W.Meets W.done g [] (call p host limit depth f args w))
    (hdeep : ∀ f b args g w, pre f args g w → p.body? f = some b → W.failed g .tooDeep w)
    (hbody : ∀ depth f b args g w,
      (∀ f args g w, pre f args g w →
        W.Meets W.done g (trace p host limit depth f args w) (call p host limit depth f args w)) →
      pre f args g w → p.body? f = some b →
      W.Runs ⟨call p host limit depth, trace p host limit depth, limit, b, args⟩ limit b.entry g
        (List.replicate b.regs.length none) w)
    (depth : Nat) {f : FuncId} {args : List Value} {g : γ} {w : World σ} (h : pre f args g w) :
    W.Meets W.done g (trace p host limit depth f args w) (call p host limit depth f args w) := by
  induction depth generalizing f args g w with
  | zero =>
    cases hb : p.body? f with
    | none => exact hask 0 f args g w h hb
    | some b =>
      rw [call_of_body_zero hb]
      exact hdeep f b args g w h hb
  | succ depth ih =>
    cases hb : p.body? f with
    | none =>
      rw [trace_of_body_none hb]
      exact hask (depth + 1) f args g w h hb
    | some b =>
      rw [trace_of_body hb, call_of_body hb]
      exact hbody depth f b args g w (fun _ _ _ _ => ih) h hb

/-- What holds between calls from outside, and is kept by each of them. -/
theorem meets_session (pre : γ → World σ → Prop) {requests : List (Request σ)}
    (hcall : ∀ q ∈ requests, ∀ g w, pre g w →
      W.Meets W.done g (trace p q.host q.limit q.depth q.callee q.args w)
        (call p q.host q.limit q.depth q.callee q.args w))
    (hdone : ∀ g v w, W.done g v w →
      W.holds (W.notice g (.ended (.ok v) w)) (.ended (.ok v) w) ∧
        pre (W.notice g (.ended (.ok v) w)) w)
    (hfailed : ∀ g fault w, W.failed g fault w →
      W.holds (W.notice g (.ended (.error fault) w)) (.ended (.error fault) w) ∧
        pre (W.notice g (.ended (.error fault) w)) w)
    {g : γ} {w : World σ} (h : pre g w) (last : World σ) :
    W.Meets (fun _ _ _ => True) g (session p requests w) (.ok () last) := by
  induction requests generalizing g w with
  | nil => trivial
  | cons q rest ih =>
    have hrest : ∀ g w, pre g w →
        W.Meets (fun _ _ _ => True) g (session p rest w) (.ok () last) := fun g w h =>
      ih (fun q' hq' => hcall q' (List.mem_cons_of_mem _ hq')) h
    refine (hcall q List.mem_cons_self g w h).append ?_ ?_
    · intro g v w' hr hd
      obtain ⟨hm, hpre⟩ := hdone g v w' hd
      rw [hr]
      exact ⟨hm, hrest _ w' hpre⟩
    · intro g fault w' hr hf
      obtain ⟨hm, hpre⟩ := hfailed g fault w' hf
      rw [hr]
      exact ⟨hm, hrest _ w' hpre⟩

end Calls

end Watch

end SpanTracking
