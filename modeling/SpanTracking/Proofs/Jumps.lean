import SpanTracking.Proofs.Nesting

set_option autoImplicit false

namespace SpanTracking

/-- What may end a run while activations are open, given the block last entered by each, the
innermost first. No jump is without a block, and the activation that traps is in a block that is
marked as never left. -/
def Program.Allows (p : Program) (active : List (Option BlockId)) : Fault → Prop
  | .unknownBlock _ => False
  | .trap name => ∃ here rest b block, active = some here :: rest ∧
      p.body? here.owner = some b ∧ b.name = name ∧ b.block? here = some block ∧
      block.term = some .unreachable
  | _ => True

theorem Program.allows_of_isLocal {p : Program} {active : List (Option BlockId)} {fault : Fault}
    (h : fault.isLocal) : p.Allows active fault := by
  cases fault with
  | unknownBlock => simp [Fault.isLocal] at h
  | trap => simp [Fault.isLocal] at h
  | _ => trivial

theorem Program.admits_allows (p : Program) : Nesting.Admits p p.Allows where
  ordinary _ _ := allows_of_isLocal
  stuck here rest b block hbody hblock hterm :=
    ⟨here, rest, b, block, rfl, hbody, rfl, hblock, hterm⟩

open Machine Program in
/-- Whatever has been asked for while a program was put together, its runs do not get lost: no jump
is without a block, and a trap comes from an activation whose last block is marked as never left. -/
theorem jumps_land {edits : List Edit} (hedits : ∀ b, Edit.define b ∈ edits → b.Handmade)
    {σ : Type} (host : Host σ) (limit depth : Nat) (f : FuncId) (w : World σ) :
    (∀ args fault w', call (edited edits {}) host limit depth f args w = .error fault w' →
      (edited edits {}).Allows
        ((trace (edited edits {}) host limit depth f args w).foldl nest [none]) fault) ∧
    ∀ pos stop fault w',
      invoke (edited edits {}) host limit depth f pos stop w = .error fault w' →
      (edited edits {}).Allows
        ((trace (edited edits {}) host limit depth f
          [.state, .ptr (some pos), .ptr (some stop)] w).foldl nest [none]) fault := by
  have hlanding : (edited edits {}).Landing := landing_edited hedits
  have hadmits := (edited edits {}).admits_allows
  refine ⟨fun args fault w' h =>
    Nesting.allowed_of_error hadmits hlanding (fun _ _ _ => trivial) h, ?_⟩
  intro pos stop fault w' h
  unfold invoke at h
  rw [bind_eq] at h
  cases hcall : call (edited edits {}) host limit depth f
      [.state, .ptr (some pos), .ptr (some stop)] w with
  | ok v w₁ =>
    simp only [hcall, settle_run] at h
    split at h
    · simp at h
    · rename_i fault' hstatus
      simp only [EStateM.Result.error.injEq] at h
      obtain rfl := h.1
      exact allows_of_isLocal (asStatus_local hstatus)
  | error fault' w₁ =>
    simp only [hcall, EStateM.Result.error.injEq] at h
    obtain rfl := h.1
    exact Nesting.allowed_of_error hadmits hlanding (fun _ _ _ => trivial) hcall

/-! ### A trap after a call -/

/-- The function `main` calls `leaf` from a block that is never left. An attempt to give it a body
that jumps elsewhere was refused. -/
def deadEnd : List Program.Edit := [
  .declare "main" parserSig,
  .declare "leaf" parserSig,
  .define (.worked [.br ⟨⟨0⟩, 0⟩ ⟨⟨1⟩, 0⟩] (.start ⟨0⟩ "main" parserSig parserParams)),
  .define (.worked [.call ⟨⟨0⟩, 0⟩ (.func ⟨1⟩) parserSig [] none, .unreachable ⟨⟨0⟩, 0⟩]
    (.start ⟨0⟩ "main" parserSig parserParams)),
  .define (.worked [.ret ⟨⟨1⟩, 0⟩ (.status 0)] (.start ⟨1⟩ "leaf" parserSig parserParams))]

theorem deadEnd_handmade (b : Body) (h : Program.Edit.define b ∈ deadEnd) : b.Handmade := by
  simp only [deadEnd, List.mem_cons, reduceCtorEq, false_or, List.not_mem_nil, or_false,
    Program.Edit.define.injEq] at h
  rcases h with rfl | rfl | rfl <;> exact ⟨_, _, _, _, _, rfl⟩

theorem jumps_land_deadEnd :
    (∀ b, Program.Edit.define b ∈ deadEnd → b.Handmade) ∧
      Machine.call (Program.edited deadEnd {}) ⟨fun _ => none⟩ 1 2 ⟨0⟩ [] ⟨⟨[]⟩, (), #[]⟩ =
        .error (.trap "main") ⟨⟨[]⟩, (), #[]⟩ ∧
      (Program.edited deadEnd {}).Allows
        ((Machine.trace (Program.edited deadEnd {}) ⟨fun _ => none⟩ 1 2 ⟨0⟩ []
          ⟨⟨[]⟩, (), #[]⟩).foldl Machine.nest [none]) (.trap "main") :=
  have hrun : Machine.call (Program.edited deadEnd {}) ⟨fun _ => none⟩ 1 2 ⟨0⟩ []
      ⟨⟨[]⟩, (), #[]⟩ = .error (.trap "main") ⟨⟨[]⟩, (), #[]⟩ := rfl
  ⟨deadEnd_handmade, hrun,
    (jumps_land deadEnd_handmade ⟨fun _ => none⟩ 1 2 ⟨0⟩ ⟨⟨[]⟩, (), #[]⟩).1 [] _ _ hrun⟩

end SpanTracking
