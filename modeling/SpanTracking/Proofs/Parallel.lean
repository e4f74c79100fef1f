import SpanTracking.Proofs.Moments

set_option autoImplicit false

/-!
# Two runs side by side

A run can be compared with another run of the same code: one that may enter more blocks or nest
calls deeper, one in a program that has grown, one on a record with more fields. All of these
comparisons have the same form. Unless the first run stops with a fault that it is excused for, the
second ends as the first does, and the worlds they leave are related as those were in which they
began. It is enough to look at the accesses to the record, at the host, at the table of functions
and at the two bounds of a run.
-/

namespace SpanTracking.Machine

variable {σ α β : Type} {rel : World σ → World σ → Prop} {excused : Fault → Prop}

/-- From related worlds, `y` ends as `x` does and leaves related worlds, unless `x` stops with a
fault that is excused. -/
def Parallel (rel : World σ → World σ → Prop) (excused : Fault → Prop) (x y : Exec σ α) : Prop :=
  ∀ w v, rel w v →
    match x w with
    | .ok a w' => ∃ v', y v = .ok a v' ∧ rel w' v'
    | .error fault w' => excused fault ∨ ∃ v', y v = .error fault v' ∧ rel w' v'

theorem parallel_pure (a : α) : Parallel rel excused (pure a) (pure a) :=
  fun _ v h => ⟨v, rfl, h⟩

theorem parallel_throw (fault : Fault) :
    Parallel rel excused (throw fault : Exec σ α) (throw fault) :=
  fun _ v h => .inr ⟨v, rfl, h⟩

theorem parallel_of_excused {fault : Fault} (h : excused fault) (y : Exec σ α) :
    Parallel rel excused (throw fault) y :=
  fun _ _ _ => .inl h

theorem parallel_settle (outcome : Except Fault α) :
    Parallel rel excused (settle outcome) (settle outcome) := by
  cases outcome with
  | ok a => exact parallel_pure a
  | error fault => exact parallel_throw fault

theorem Parallel.bind {x y : Exec σ α} {f g : α → Exec σ β} (h : Parallel rel excused x y)
    (hf : ∀ a, Parallel rel excused (f a) (g a)) :
    Parallel rel excused (x >>= f) (y >>= g) := by
  intro w v hrel
  have hx := h w v hrel
  rw [bind_eq]
  cases hw : x w with
  | ok a w' =>
    rw [hw] at hx
    obtain ⟨v', hv, hrel'⟩ := hx
    rw [bind_of_ok hv]
    exact hf a w' v' hrel'
  | error fault w' =>
    rw [hw] at hx
    rcases hx with hexcused | ⟨v', hv, hrel'⟩
    · exact .inl hexcused
    · exact .inr ⟨v', bind_of_error hv, hrel'⟩

/-- What the first computation comes to without an excuse, the second comes to as well. -/
theorem Parallel.outcome {x y : Exec σ α} (h : Parallel rel excused x y) {w v w' : World σ}
    (hrel : rel w v) {outcome : Except Fault α} (hx : x w = settle outcome w')
    (hne : ∀ fault, outcome = .error fault → ¬ excused fault) :
    ∃ v', y v = settle outcome v' ∧ rel w' v' := by
  have hy := h w v hrel
  cases outcome with
  | ok a =>
    rw [hx] at hy
    exact hy
  | error fault =>
    rw [hx] at hy
    exact hy.resolve_left (hne fault rfl)

/-- In the same world, the second computation is the first one up to the excuse. -/
theorem Parallel.eq_or_excused {x y : Exec σ α} (h : Parallel Eq excused x y) (w : World σ) :
    (∃ fault w', x w = .error fault w' ∧ excused fault) ∨ x w = y w := by
  have hx := h w w rfl
  cases hw : x w with
  | ok a w' =>
    rw [hw] at hx
    obtain ⟨v', hv, rfl⟩ := hx
    exact .inr hv.symm
  | error fault w' =>
    rw [hw] at hx
    rcases hx with hexcused | ⟨v', hv, rfl⟩
    · exact .inl ⟨fault, w', rfl, hexcused⟩
    · exact .inr hv.symm

/-- Accesses to the record and questions to the host keep the relation. -/
structure Respected (rel : World σ → World σ → Prop) (excused : Fault → Prop) : Prop where
  read : ∀ id, Parallel rel excused (read id) (read id)
  write : ∀ id v, Parallel rel excused (write id v) (write id v)
  ask : ∀ host f name args,
    Parallel rel excused (askHost host f name args) (askHost host f name args)

theorem respected_eq (excused : Fault → Prop) : Respected (σ := σ) Eq excused := by
  have hsame : ∀ {α : Type} (x : Exec σ α), Parallel Eq excused x x := by
    rintro α x w _ rfl
    cases hw : x w with
    | ok a w' => exact ⟨w', rfl, rfl⟩
    | error fault w' => exact .inr ⟨w', rfl, rfl⟩
  exact ⟨fun id => hsame _, fun id v => hsame _, fun host f name args => hsame _⟩

section Code

variable {enter enter' : FuncId → List Value → Exec σ Value} (hrel : Respected rel excused)
  (henter : ∀ f vs, Parallel rel excused (enter f vs) (enter' f vs))

include hrel henter

theorem exec_parallel (args : List Value) (regs : Regs) (i : Instr) :
    Parallel rel excused (exec enter args regs i) (exec enter' args regs i) := by
  cases i with
  | load dst field ty => exact (hrel.read field).bind fun _ => parallel_settle _
  | store field value =>
    exact (parallel_settle _).bind fun v => (hrel.write field v).bind fun _ => parallel_pure _
  | icmp dst how lhs rhs =>
    exact (parallel_settle _).bind fun _ => (parallel_settle _).bind fun _ => parallel_settle _
  | call dst callee sig operands callees =>
    exact (parallel_settle _).bind fun _ => (parallel_settle _).bind fun f =>
      (parallel_settle _).bind fun vs => (henter f vs).bind fun _ => parallel_settle _

theorem execAll_parallel (args : List Value) (is : List Instr) (regs : Regs) :
    Parallel rel excused (execAll enter args regs is) (execAll enter' args regs is) := by
  induction is generalizing regs with
  | nil => exact parallel_pure regs
  | cons i is ih => exact (exec_parallel hrel henter args regs i).bind ih

/-- The second run may have more blocks left to enter, if running out of them is an excuse. -/
theorem runFrom_parallel (b : Body) (args : List Value) {limit limit' steps steps' : Nat}
    (hle : steps ≤ steps')
    (hsteps : excused (.stepLimit limit) ∨ steps' = steps ∧ limit' = limit) (here : BlockId)
    (regs : Regs) :
    Parallel rel excused (runFrom enter limit b args steps here regs)
      (runFrom enter' limit' b args steps' here regs) := by
  induction steps generalizing steps' here regs with
  | zero =>
    rcases hsteps with hexcused | ⟨rfl, rfl⟩
    · exact parallel_of_excused hexcused _
    · exact parallel_throw _
  | succ steps ih =>
    obtain ⟨rest, rfl⟩ := Nat.exists_eq_add_of_le' (Nat.le_trans (Nat.le_add_left 1 steps) hle)
    simp only [runFrom]
    cases b.block? here with
    | none => exact parallel_throw _
    | some block =>
      refine (execAll_parallel hrel henter args block.instrs regs).bind fun regs' => ?_
      refine (parallel_settle _).bind fun next => ?_
      cases next with
      | goto target =>
        exact ih (by omega) (hsteps.imp_right fun h => ⟨by omega, h.2⟩) target regs'
      | done v => exact parallel_pure v

end Code

/-- A function that the first program has is the same in the second. -/
theorem dispatch_parallel {p q : Program} {host : Host σ}
    {run run' : Body → List Value → Exec σ Value} (hrel : Respected rel excused)
    (hdecl : ∀ f, q.decl? f = p.decl? f ∨ p.decl? f = none ∧ excused (.unknownFunction f))
    (hrun : ∀ b args, Parallel rel excused (run b args) (run' b args)) (f : FuncId)
    (args : List Value) :
    Parallel rel excused (dispatch p host run f args) (dispatch q host run' f args) := by
  rcases hdecl f with hsame | ⟨hnone, hexcused⟩
  · rw [dispatch, dispatch, hsame]
    cases p.decl? f with
    | none => exact parallel_throw _
    | some d =>
      cases hb : d.body with
      | none => simpa only [hb] using hrel.ask host f d.name args
      | some b => simpa only [hb] using hrun b args
  · rw [dispatch, hnone]
    exact parallel_of_excused hexcused _

/-- Calls in two programs, the second with the same functions and maybe more, with bounds that are
no smaller. A bound that differs has to be an excuse. -/
theorem call_parallel {p q : Program} (hrel : Respected rel excused)
    (hdecl : ∀ f, q.decl? f = p.decl? f ∨ p.decl? f = none ∧ excused (.unknownFunction f))
    (host : Host σ) {limit limit' : Nat} (hlimit : limit ≤ limit')
    (hsteps : excused (.stepLimit limit) ∨ limit' = limit) {depth depth' : Nat}
    (hdepth : depth ≤ depth') (hdeep : excused .tooDeep ∨ depth' = depth) (f : FuncId)
    (args : List Value) :
    Parallel rel excused (call p host limit depth f args) (call q host limit' depth' f args) := by
  induction depth generalizing depth' f args with
  | zero =>
    cases depth' with
    | zero => exact dispatch_parallel hrel hdecl (fun _ _ => parallel_throw _) f args
    | succ deeper =>
      have hexcused : excused .tooDeep := hdeep.resolve_right (Nat.succ_ne_zero deeper)
      exact dispatch_parallel hrel hdecl (fun _ _ => parallel_of_excused hexcused _) f args
  | succ depth ih =>
    obtain ⟨deeper, rfl⟩ := Nat.exists_eq_add_of_le' (Nat.le_trans (Nat.le_add_left 1 depth) hdepth)
    have hinner : ∀ g vs, Parallel rel excused (call p host limit depth g vs)
        (call q host limit' deeper g vs) :=
      ih (by omega) (hdeep.imp_right fun h => by omega)
    refine dispatch_parallel hrel hdecl (fun b vs => ?_) f args
    exact runFrom_parallel hrel hinner b vs hlimit (hsteps.imp_right fun h => ⟨h, h⟩) b.entry _

/-! ### The number of fields -/

def SameSize (n : Nat) (w v : World σ) : Prop := w = v ∧ w.memory.values.length = n

theorem respected_sameSize (n : Nat) :
    Respected (σ := σ) (SameSize n) fun _ => False where
  read id := by
    rintro w _ ⟨rfl, hlen⟩
    rcases read_cases id w with ⟨v, -, hread⟩ | ⟨-, hread⟩
    · rw [hread]
      exact ⟨w, rfl, rfl, hlen⟩
    · rw [hread]
      exact .inr ⟨w, rfl, rfl, hlen⟩
  write id v := by
    rintro w _ ⟨rfl, hlen⟩
    unfold write
    cases w.memory.get? id with
    | none => exact .inr ⟨w, rfl, rfl, hlen⟩
    | some u => exact ⟨_, rfl, rfl, (Memory.set_length w.memory id v).trans hlen⟩
  ask host f name args := by
    rintro w _ ⟨rfl, hlen⟩
    unfold askHost
    cases host.answer f with
    | none => exact .inr ⟨w, rfl, rfl, hlen⟩
    | some reply =>
      cases positions args with
      | none => exact .inr ⟨w, rfl, rfl, hlen⟩
      | some pair => exact ⟨_, rfl, rfl, hlen⟩

/-- Whatever a function does, the record keeps its number of fields. -/
theorem call_length {p : Program} {host : Host σ} {limit depth : Nat} {f : FuncId}
    {args : List Value} {w w' : World σ} {r : Value}
    (h : call p host limit depth f args w = .ok r w') :
    w'.memory.values.length = w.memory.values.length := by
  have hcall : Parallel (SameSize w.memory.values.length) (fun _ => False)
      (call p host limit depth f args) (call p host limit depth f args) :=
    call_parallel (respected_sameSize _) (fun _ => .inl rfl) host le_rfl (.inr rfl) le_rfl
      (.inr rfl) f args
  have hok : call p host limit depth f args w = settle (.ok r) w' := h
  obtain ⟨v', -, -, hlen⟩ := hcall.outcome ⟨rfl, rfl⟩ hok (by simp)
  exact hlen

end SpanTracking.Machine
