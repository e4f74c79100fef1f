import SpanTracking.Machine.Script
import SpanTracking.Proofs.Nesting
import SpanTracking.Proofs.Parallel

set_option autoImplicit false

/-!
# When runs end

Each activation enters at most `limit` blocks, counted for itself. So a run that stays within some
depth of nesting enters no more blocks than can be said in advance, and the depth that is let in
makes no difference to a run that needs less. What the limit does not stop is a function that keeps
calling itself: every one of its activations begins to count anew.
-/

namespace SpanTracking

namespace Moment

variable {σ : Type}

def isEntered : Moment σ → Bool
  | entered .. => true
  | _ => false

end Moment

def Block.calls (block : Block) : Nat := block.instrs.countP fun i => !i.isPlain

def Program.width (p : Program) : Nat :=
  ((p.bodies.flatMap Body.blocks).map Block.calls).foldr max 0

/-- The block goes on to another one, whatever its instructions have done. -/
def Block.jumps (block : Block) : Bool :=
  match block.term with
  | some (.br _) => true
  | some (.condBr (.int ..) ..) => true
  | _ => false

namespace Machine

variable {σ : Type}

def visits (ms : List (Moment σ)) : Nat := ms.countP Moment.isEntered

/-- How many blocks can be entered at a depth of nesting, if a block makes at most `width` calls. -/
def effort (limit width : Nat) : (depth : Nat) → Nat
  | 0 => 0
  | depth + 1 => limit * (1 + width * effort limit width depth)

section Visits

variable (enter : FuncId → List Value → Exec σ Value)
  {inner : FuncId → List Value → World σ → List (Moment σ)} {n : Nat}

theorem visits_instr (hinner : ∀ f vs w, visits (inner f vs w) ≤ n) (here : Point)
    (args : List Value) (regs : Regs) (i : Instr) (w : World σ) :
    visits (instrTrace inner here args regs i w) ≤ if i.isPlain then 0 else n := by
  cases i with
  | call dst callee sig operands callees =>
    cases hreached : reached? args regs (.call dst callee sig operands callees) with
    | none => simp [instrTrace, hreached, visits, Moment.isEntered]
    | some entry =>
      simpa [instrTrace, hreached, visits, Moment.isEntered, Instr.isPlain] using
        hinner entry.1 entry.2 w
  | _ => exact Nat.zero_le _

theorem visits_code (hinner : ∀ f vs w, visits (inner f vs w) ≤ n) (here : BlockId)
    (args : List Value) (is : List Instr) (k : Nat) (regs : Regs) (w : World σ) :
    visits (codeTrace enter inner here args k regs is w) ≤
      (is.countP fun i => !i.isPlain) * n := by
  induction is generalizing k regs w with
  | nil => exact Nat.zero_le _
  | cons i is ih =>
    have hfirst := visits_instr hinner ⟨here, k⟩ args regs i w
    have hrest : visits (afterOk (exec enter args regs i) (fun regs w =>
        .executed ⟨here, k⟩ i args regs w :: codeTrace enter inner here args (k + 1) regs is w) w) ≤
        (is.countP fun i => !i.isPlain) * n := by
      unfold afterOk
      split
      · rename_i regs' w' _
        simpa [visits, Moment.isEntered] using ih (k + 1) regs' w'
      · exact Nat.zero_le _
    rw [codeTrace, visits, List.countP_append, List.countP_cons, Nat.add_mul]
    cases hplain : i.isPlain with
    | true =>
      simp only [hplain, visits] at hfirst hrest ⊢
      simpa using Nat.add_le_add hfirst hrest
    | false =>
      simp only [hplain, visits] at hfirst hrest ⊢
      simpa [Nat.add_comm] using Nat.add_le_add hfirst hrest

/-- One block and what its calls come to, for every block that is entered. -/
theorem visits_run {width : Nat} (hinner : ∀ f vs w, visits (inner f vs w) ≤ n) {b : Body}
    (hwidth : ∀ here code, b.code? here = some code → (code.1.countP fun i => !i.isPlain) ≤ width)
    (args : List Value) (steps : Nat) (here : BlockId) (regs : Regs) (w : World σ) :
    visits (runTrace enter inner b args steps here regs w) ≤ steps * (1 + width * n) := by
  induction steps generalizing here regs w with
  | zero => exact Nat.zero_le _
  | succ steps ih =>
    rw [runTrace]
    cases hcode : b.code? here with
    | none => exact Nat.zero_le _
    | some code =>
      have hblock := visits_code enter hinner here args code.1 0 regs w
      have hcalls : (code.1.countP fun i => !i.isPlain) * n ≤ width * n :=
        Nat.mul_le_mul_right n (hwidth here code hcode)
      have hrest : visits (afterOk (execAll enter args regs code.1)
          (leaveTrace (runTrace enter inner b args steps) b args code.2) w) ≤
          steps * (1 + width * n) := by
        unfold afterOk
        split
        · unfold leaveTrace
          split
          · exact ih _ _ _
          · exact Nat.zero_le _
        · exact Nat.zero_le _
      simp only [visits, List.countP_cons, List.countP_append, Moment.isEntered, ↓reduceIte] at *
      rw [Nat.succ_mul]
      omega

end Visits

end Machine

theorem Program.calls_le_width {p : Program} {f : FuncId} {b : Body} (hb : p.body? f = some b)
    {here : BlockId} {code : Code} (hcode : b.code? here = some code) :
    (code.1.countP fun i => !i.isPlain) ≤ p.width := by
  obtain ⟨d, hd, hbody⟩ := Option.bind_eq_some_iff.1 hb
  obtain ⟨block, hblock, rfl⟩ := List.mem_map.1 (List.mem_of_getElem? (Body.code?_some.1 hcode).2)
  have hmem : b ∈ p.bodies := List.mem_filterMap.2 ⟨d, List.mem_of_getElem? hd, hbody⟩
  exact List.le_max_of_le (List.mem_map_of_mem (List.mem_flatMap.2 ⟨b, hmem, hblock⟩)) le_rfl

namespace Machine

variable {σ : Type}

theorem visits_trace (p : Program) (host : Host σ) (limit depth : Nat) (f : FuncId)
    (args : List Value) (w : World σ) :
    visits (trace p host limit depth f args w) ≤ effort limit p.width depth := by
  induction depth generalizing f args w with
  | zero => exact Nat.zero_le _
  | succ depth ih =>
    cases hb : p.body? f with
    | none =>
      rw [trace_of_body_none hb]
      exact Nat.zero_le _
    | some b =>
      rw [trace_of_body hb]
      exact visits_run _ ih (fun _ _ hcode => p.calls_le_width hb hcode) args limit b.entry _ w

/-- The one computation goes as the other, unless it gets too deep. -/
def Refines {α : Type} (x y : Exec σ α) : Prop :=
  ∀ w, (∃ w', x w = .error .tooDeep w') ∨ x w = y w

/-- One more level of nesting makes no difference to a call that does not get too deep. -/
theorem call_refines (p : Program) (host : Host σ) (limit depth : Nat) (f : FuncId)
    (args : List Value) :
    Refines (call p host limit depth f args) (call p host limit (depth + 1) f args) := by
  have hcall : Parallel Eq (· = .tooDeep) (call p host limit depth f args)
      (call p host limit (depth + 1) f args) :=
    call_parallel (respected_eq (· = .tooDeep)) (fun _ => .inl rfl) host le_rfl (.inr rfl)
      (Nat.le_succ depth) (.inl rfl) f args
  intro w
  refine (hcall.eq_or_excused w).imp_left ?_
  rintro ⟨fault, w', hw, rfl⟩
  exact ⟨w', hw⟩

theorem call_settled {p : Program} {host : Host σ} {limit depth : Nat} {f : FuncId}
    {args : List Value} {w : World σ}
    (h : ∀ w', call p host limit depth f args w ≠ .error .tooDeep w') {deeper : Nat}
    (hle : depth ≤ deeper) :
    call p host limit deeper f args w = call p host limit depth f args w := by
  induction hle with
  | refl => rfl
  | @step deeper _ ih =>
    rcases call_refines p host limit deeper f args w with ⟨w', hdeep⟩ | hsame
    · exact absurd (ih.symm.trans hdeep) (h w')
    · exact hsame.symm.trans ih

theorem execAll_error {enter : FuncId → List Value → Exec σ Value} {args : List Value}
    {is : List Instr} {regs : Regs} {w w' : World σ} {fault : Fault}
    (h : execAll enter args regs is w = .error fault w') :
    ∃ i ∈ is, ∃ regs₁ w₁, exec enter args regs₁ i w₁ = .error fault w' := by
  induction is generalizing regs w with
  | nil => simp [execAll] at h
  | cons i is ih =>
    rw [execAll, bind_eq] at h
    cases hi : exec enter args regs i w with
    | ok regs' w₁ =>
      simp only [hi] at h
      obtain ⟨i', hi', hrest⟩ := ih h
      exact ⟨i', List.mem_cons_of_mem _ hi', hrest⟩
    | error fault' w₁ =>
      simp only [hi, EStateM.Result.error.injEq] at h
      obtain ⟨rfl, rfl⟩ := h
      exact ⟨i, List.mem_cons_self, regs, w, hi⟩

theorem leave_of_jumps {block : Block} (h : block.jumps) (b : Body) (args : List Value)
    (regs : Regs) : ∃ t target, block.term = some t ∧ target ∈ t.targets ∧
      leave b args regs block.term = .ok (.goto target) := by
  unfold Block.jumps at h
  split at h
  · rename_i target hterm
    exact ⟨_, target, hterm, List.mem_singleton_self _, by rw [hterm]; rfl⟩
  · rename_i bits n onTrue onFalse hint hterm
    refine ⟨_, if n ≠ 0 then onTrue else onFalse, hterm, ?_, ?_⟩
    · simp only [Terminator.targets]
      split <;> simp
    · rw [hterm]
      simp [leave, Operand.eval, asCondition, bind, Except.bind, pure, Except.pure]
  · simp at h

/-- A body that always goes on to another block is stopped by the limit, or by an instruction. -/
theorem runFrom_of_jumps {enter : FuncId → List Value → Exec σ Value} {b : Body}
    (hverify : b.verify = .ok ()) (hjumps : ∀ block ∈ b.blocks, block.jumps) (limit : Nat)
    (args : List Value) (steps : Nat) {here : BlockId} (hhere : (b.code? here).isSome) (regs : Regs)
    (w : World σ) :
    ∃ fault w', runFrom enter limit b args steps here regs w = .error fault w' ∧
      (fault = .stepLimit limit ∨ ∃ block ∈ b.blocks, ∃ i ∈ block.instrs, ∃ regs₁ w₁,
        exec enter args regs₁ i w₁ = .error fault w') := by
  induction steps generalizing here regs w with
  | zero => exact ⟨_, w, rfl, .inl rfl⟩
  | succ steps ih =>
    obtain ⟨code, hcode⟩ := Option.isSome_iff_exists.1 hhere
    obtain ⟨block, hblock, rfl⟩ :=
      List.mem_map.1 (List.mem_of_getElem? (Body.code?_some.1 hcode).2)
    rw [runFrom_of_code hcode, Block.code, finish, bind_eq]
    cases hinstrs : execAll enter args regs block.instrs w with
    | error fault w' => exact ⟨fault, w', rfl, .inr ⟨block, hblock, execAll_error hinstrs⟩⟩
    | ok regs' w₁ =>
      obtain ⟨t, target, hterm, htarget, hleave⟩ :=
        leave_of_jumps (hjumps block hblock) b args regs'
      have hjump : b.code? here = some (block.instrs, some t) := by
        rw [hcode, ← hterm]
        rfl
      have hnext := Body.code_of_verify hverify hjump htarget
      dsimp only
      rw [bind_eq, settle_run, hleave]
      exact ih hnext regs' w₁

end Machine

namespace Nesting

def Deep (most : Nat) (active : List (Option BlockId)) (fault : Fault) : Prop :=
  fault = .tooDeep → active.length = most + 1

theorem admits_deep (p : Program) (most : Nat) : Admits p (Deep most) where
  ordinary active fault h := by
    rintro rfl
    simp [Fault.isLocal] at h
  stuck here rest b block _ _ _ := by simp [Deep]

end Nesting

open Machine Program in
/-- At each depth of nesting there is a bound on the blocks that a run enters. A run has its result
from some depth on, or else calls are nested in it without end. A body that always goes on to
another block is stopped by the limit, unless one of its instructions fails. -/
theorem call_ends {edits : List Edit} (hedits : ∀ b, Edit.define b ∈ edits → b.Handmade)
    {σ : Type} (host : Host σ) (limit : Nat) (f : FuncId) (args : List Value) (w : World σ) :
    (∀ depth, visits (trace (edited edits {}) host limit depth f args w) ≤
      effort limit (edited edits {}).width depth) ∧
    ((∃ depth result, (∀ w', result ≠ .error .tooDeep w') ∧
        ∀ deeper ≥ depth, call (edited edits {}) host limit deeper f args w = result) ∨
      ∀ depth, (∃ w', call (edited edits {}) host limit depth f args w = .error .tooDeep w') ∧
        ((trace (edited edits {}) host limit depth f args w).foldl nest [none]).length =
          depth + 1) ∧
    ∀ b, (edited edits {}).body? f = some b → (∀ block ∈ b.blocks, block.jumps) →
      ∀ depth, ∃ fault w', call (edited edits {}) host limit (depth + 1) f args w =
          .error fault w' ∧
        (fault = .stepLimit limit ∨ ∃ block ∈ b.blocks, ∃ i ∈ block.instrs, ∃ regs w₁,
          exec (call (edited edits {}) host limit depth) args regs i w₁ = .error fault w') := by
  have hlanding : (edited edits {}).Landing := landing_edited hedits
  refine ⟨fun depth => visits_trace _ host limit depth f args w, ?_, ?_⟩
  · by_cases h : ∃ depth, ∀ w', call (edited edits {}) host limit depth f args w ≠
        .error .tooDeep w'
    · obtain ⟨depth, hdepth⟩ := h
      exact .inl ⟨depth, _, hdepth, fun deeper hle => call_settled hdepth hle⟩
    · refine .inr fun depth => ?_
      obtain ⟨w', hdeep⟩ : ∃ w', call (edited edits {}) host limit depth f args w =
          .error .tooDeep w' := by
        by_contra hnone
        exact h ⟨depth, fun w' hw' => hnone ⟨w', hw'⟩⟩
      refine ⟨⟨w', hdeep⟩, ?_⟩
      exact Nesting.allowed_of_error (Nesting.admits_deep _ depth) hlanding
        (fun x rest hrest _ => congrArg (· + 1) hrest) hdeep rfl
  · intro b hb hjumps depth
    obtain ⟨-, hverify, hentry⟩ := hlanding f b hb
    rw [call_of_body hb]
    exact runFrom_of_jumps hverify hjumps limit args limit hentry _ w

/-! ### Loops and functions that call themselves -/

/-- The functions `spin` and `idle` jump back to their only block, `spin` after asking `tick`. -/
def spinning : List Program.Edit := [
  .declare "spin" parserSig,
  .declare "tick" (callbackSig .external),
  .declare "idle" parserSig,
  .define (.worked [
    .call ⟨⟨0⟩, 0⟩ (.func ⟨1⟩) (callbackSig .external) [stateArg, posArg, endArg] none,
    .br ⟨⟨0⟩, 0⟩ ⟨⟨0⟩, 0⟩] (.start ⟨0⟩ "spin" parserSig parserParams)),
  .define (.worked [.br ⟨⟨2⟩, 0⟩ ⟨⟨2⟩, 0⟩] (.start ⟨2⟩ "idle" parserSig parserParams))]

theorem spinning_handmade (b : Body) (h : Program.Edit.define b ∈ spinning) : b.Handmade := by
  simp only [spinning, List.mem_cons, reduceCtorEq, false_or, List.not_mem_nil, or_false,
    Program.Edit.define.injEq] at h
  rcases h with rfl | rfl
  · exact ⟨_, _, _, _, _, rfl⟩
  · exact ⟨_, _, _, _, _, rfl⟩

open Machine in
theorem call_ends_spinning :
    let p := Program.edited spinning {}
    let host := (Scripts.constant [⟨1⟩] 0).host
    let args : List Value := [.state, .ptr (some 0), .ptr (some 5)]
    let w : World Scripts := ⟨⟨[]⟩, Scripts.constant [⟨1⟩] 0, #[]⟩
    (∀ b, Program.Edit.define b ∈ spinning → b.Handmade) ∧
      visits (trace p host 3 1 ⟨0⟩ args w) ≤ 3 ∧
      ∀ depth, ∃ w', call p host 3 (depth + 1) ⟨2⟩ args w = .error (.stepLimit 3) w' := by
  intro p host args w
  refine ⟨spinning_handmade, ?_, fun depth => ?_⟩
  · exact ((call_ends spinning_handmade host 3 ⟨0⟩ args w).1 1).trans (by decide)
  · -- Nothing can fail in a body without instructions, so the limit is what stops it.
    obtain ⟨fault, w', hcall, rfl | ⟨block, hblock, i, hi, -⟩⟩ :=
      (call_ends spinning_handmade host 3 ⟨2⟩ args w).2.2 _ rfl (by decide) depth
    · exact ⟨w', hcall⟩
    · obtain rfl := List.mem_singleton.1 hblock
      exact absurd hi List.not_mem_nil

def echoing : List Program.Edit := [
  .declare "again" parserSig,
  .define (.worked [
    .call ⟨⟨0⟩, 0⟩ (.func ⟨0⟩) parserSig [stateArg, posArg, endArg] none,
    .ret ⟨⟨0⟩, 0⟩ (.reg ⟨0⟩)] (.start ⟨0⟩ "again" parserSig parserParams))]

def counting : List Program.Edit := [
  .declare "again" parserSig,
  .declare "more" (callbackSig .external),
  .define (.worked [
    .call ⟨⟨0⟩, 0⟩ (.func ⟨1⟩) (callbackSig .external) [stateArg, posArg, endArg] none,
    .icmp ⟨⟨0⟩, 0⟩ .eq (.reg ⟨0⟩) (.status 0),
    .newBlock "deeper",
    .newBlock "done",
    .condBr ⟨⟨0⟩, 0⟩ (.reg ⟨1⟩) ⟨⟨0⟩, 1⟩ ⟨⟨0⟩, 2⟩ .none,
    .call ⟨⟨0⟩, 1⟩ (.func ⟨0⟩) parserSig [stateArg, posArg, endArg] none,
    .ret ⟨⟨0⟩, 1⟩ (.reg ⟨2⟩),
    .ret ⟨⟨0⟩, 2⟩ (.status 0)] (.start ⟨0⟩ "again" parserSig parserParams))]

/-- Every activation of `again` counts its blocks anew, so that the limit never stops it. -/
theorem echoing_too_deep (depth : Nat) (w : World Unit) :
    Machine.call (Program.edited echoing {}) ⟨fun _ => none⟩ Machine.defaultLimit depth ⟨0⟩
      [.state, .ptr (some 0), .ptr (some 5)] w = .error .tooDeep w := by
  induction depth with
  | zero => rfl
  | succ depth ih =>
    have hbody : (Program.edited echoing {}).body? ⟨0⟩ = some ⟨⟨0⟩, "again", parserSig,
        parserParams, [⟨"entry", [.call ⟨0⟩ (.func ⟨0⟩) parserSig [stateArg, posArg, endArg] none],
          some (.ret (.reg ⟨0⟩))⟩], [.i32]⟩ := rfl
    rw [Machine.call_of_body hbody]
    change Machine.runFrom _ _ _ _ (65535 + 1) _ _ w = _
    have hargs : [stateArg, posArg, endArg].mapM (Operand.eval
        [.state, .ptr (some 0), .ptr (some 5)] (List.replicate 1 none)) =
          .ok [.state, .ptr (some 0), .ptr (some 5)] := rfl
    exact Machine.finish_cons_error (Machine.exec_call_error (f := ⟨0⟩) rfl hargs ih)

open Machine in
/-- The limit is no bound on functions that call themselves. One that always does so never comes
back, at whatever depth; and one that does so while `more` returns zero enters six blocks and
returns, with a limit of two. -/
theorem limit_outlasted :
    (Program.edited echoing {}).Reachable ∧
      (∀ depth, call (Program.edited echoing {}) ⟨fun _ => none⟩ defaultLimit depth ⟨0⟩
        [.state, .ptr (some 0), .ptr (some 5)] ⟨⟨[]⟩, (), #[]⟩ =
          .error .tooDeep ⟨⟨[]⟩, (), #[]⟩) ∧
      (Program.edited counting {}).Reachable ∧
      (∃ w', invoke (Program.edited counting {}) (Scripts.bind {} ⟨1⟩ ⟨0, [0, 1]⟩).host 2 3 ⟨0⟩ 0 5
        ⟨⟨[]⟩, Scripts.bind {} ⟨1⟩ ⟨0, [0, 1]⟩, #[]⟩ = .ok 0 w') ∧
      visits (trace (Program.edited counting {}) (Scripts.bind {} ⟨1⟩ ⟨0, [0, 1]⟩).host 2 3 ⟨0⟩
        [.state, .ptr (some 0), .ptr (some 5)]
        ⟨⟨[]⟩, Scripts.bind {} ⟨1⟩ ⟨0, [0, 1]⟩, #[]⟩) = 6 :=
  ⟨Program.leads_edited echoing {}, fun depth => echoing_too_deep depth _,
    Program.leads_edited counting {}, ⟨_, rfl⟩, rfl⟩

end SpanTracking
