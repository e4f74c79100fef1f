import SpanTracking.Proofs.Events

set_option autoImplicit false

namespace SpanTracking

namespace Emitter

def chain (emit : BlockId → Nat → ColorSlots → Build Body BlockId) (here : BlockId) (color : Nat) :
    List ColorSlots → Build Body BlockId
  | [] => return here
  | slots :: rest => do
    let next ← emit here color slots
    chain emit next (color + 1) rest

theorem rebaseFrom_eq (here : BlockId) (color : Nat) (list : List ColorSlots) :
    rebaseFrom here color list = chain rebase here color list := by
  induction list generalizing here color with
  | nil => rfl
  | cons slots rest ih => simp only [rebaseFrom, chain, ih]

theorem flushFrom_eq (e : Emitter) (here : BlockId) (color : Nat) (list : List ColorSlots) :
    e.flushFrom here color list = chain e.flush here color list := by
  induction list generalizing here color with
  | nil => rfl
  | cons slots rest ih => simp only [flushFrom, chain, ih]

/-- Emitting the code of a color at an open block succeeds, and leaves the body with a further open
block. -/
def Appends (emit : BlockId → Nat → ColorSlots → Build Body BlockId) : Prop :=
  ∀ (b : Body) (here : BlockId) (old : List Instr) (color : Nat) (slots : ColorSlots),
    b.Open here old → ∃ next b', emit here color slots b = .ok next b' ∧ b'.Open next [] ∧
      b.Within b' ∧ b.SameHead b' ∧ (b.Settled [here.index] → b'.Settled [next.index])

theorem rebase_appends : Appends rebase := by
  intro b here old color slots h
  obtain ⟨b', hr, g⟩ := rebase_grown h color slots
  refine ⟨_, b', hr, g.code_tail 1, g.within, g.head_eq, fun hs => g.settled hs (by simp) ?_ ?_⟩
  · simp [Terminator.targets, g.length_eq]
  · intro k code hk
    rcases k with _ | _ | k
    · obtain rfl := Option.some.inj hk
      simp [Terminator.targets, g.length_eq]
    · simp
    · simp at hk

theorem flush_appends (e : Emitter) : Appends e.flush := by
  intro b here old color slots h
  obtain ⟨b', hr, g⟩ := flush_grown e h color slots
  refine ⟨_, b', hr, g.code_tail 1, g.within, g.head_eq, fun hs => g.settled hs (by simp) ?_ ?_⟩
  · simp [Terminator.targets, g.length_eq]
  · intro k code hk
    rcases k with _ | _ | _ | k
    · obtain rfl := Option.some.inj hk
      simp [Terminator.targets, g.length_eq]
    · simp
    · obtain rfl := Option.some.inj hk
      simp [Terminator.targets]
    · simp at hk

open Machine

/-- In any body that it is part of, the code of a color does what `deal` does. -/
def Does {σ : Type} (emit : BlockId → Nat → ColorSlots → Build Body BlockId)
    (deal : ColorSlots → Exec σ (Option Value)) (enter : FuncId → List Value → Exec σ Value)
    (limit : Nat) (pos stop : Value) : Prop :=
  ∀ (b b' whole : Body) (here next : BlockId) (old : List Instr) (color : Nat) (slots : ColorSlots)
    (regs : Regs) (w : World σ), b.Open here old → slots.start.ty = .bytes →
    emit here color slots b = .ok next b' → b'.Within whole → whole.regs.length ≤ regs.length →
    ∃ used ≤ 2, Comes enter limit whole [.state, pos, stop] b.regs.length ⟨here, old.length⟩
      ⟨next, 0⟩ used regs w (deal slots w)

theorem cost_le (slots : ColorSlots) (m : Memory) : slots.cost m ≤ 2 := by
  unfold ColorSlots.cost
  split
  · split <;> omega
  · omega

theorem rebase_does {σ : Type} (enter : FuncId → List Value → Exec σ Value) (limit : Nat)
    (pos stop : Value) :
    Does rebase (fun slots => Machine.rebase slots pos) enter limit pos stop := by
  intro b b' whole here next old color slots regs w h ht hr hw hl
  exact ⟨_, cost_le slots w.memory, (rebase_comes h hr hw hl ht).2⟩

theorem flush_does {σ : Type} (e : Emitter) (enter : FuncId → List Value → Exec σ Value)
    (limit : Nat) (pos stop : Value) :
    Does e.flush (fun slots => Machine.flush enter e slots stop) enter limit pos stop := by
  intro b b' whole here next old color slots regs w h ht hr hw hl
  exact ⟨_, cost_le slots w.memory, (flush_comes h hr hw hl ht).2⟩

theorem chain_appends {emit : BlockId → Nat → ColorSlots → Build Body BlockId} (ha : Appends emit)
    (list : List ColorSlots) {b : Body} {here : BlockId} {old : List Instr} (h : b.Open here old)
    (color : Nat) : ∃ next b' rest, chain emit here color list b = .ok next b' ∧ b'.Open next rest ∧
      b.Within b' ∧ b.SameHead b' ∧ (b.Settled [here.index] → b'.Settled [next.index]) := by
  induction list generalizing b here old color with
  | nil => exact ⟨here, b, old, rfl, h, .refl b, .refl b, id⟩
  | cons slots rest ih =>
    obtain ⟨mid, b₁, he, hmid, hw₁, hh₁, hs₁⟩ := ha b here old color slots h
    obtain ⟨next, b₂, left, hc, hn, hw₂, hh₂, hs₂⟩ := ih hmid (color + 1)
    exact ⟨next, b₂, left, andThen he hc, hn, hw₁.trans hw₂, hh₁.trans hh₂, fun hs => hs₂ (hs₁ hs)⟩

/-- The code of all colors does for each color in turn what the code of a color does. -/
theorem chain_comes {σ : Type} {emit : BlockId → Nat → ColorSlots → Build Body BlockId}
    {deal : ColorSlots → Exec σ (Option Value)} {enter : FuncId → List Value → Exec σ Value}
    {limit : Nat} {pos stop : Value} (ha : Appends emit) (hd : Does emit deal enter limit pos stop)
    {list : List ColorSlots} (ht : ∀ slots ∈ list, slots.start.ty = .bytes) {b b' whole : Body}
    {here next : BlockId} {old rest : List Instr} {color : Nat} {regs : Regs} {w : World σ}
    (h : b.Open here old) (hc : chain emit here color list b = .ok next b')
    (hn : b'.Open next rest) (hw : b'.Within whole) (hl : whole.regs.length ≤ regs.length) :
    ∃ used ≤ 2 * list.length, Comes enter limit whole [.state, pos, stop] b.regs.length
      ⟨here, old.length⟩ ⟨next, rest.length⟩ used regs w (inTurn deal list w) := by
  induction list generalizing b here old color regs w with
  | nil =>
    obtain ⟨rfl, rfl⟩ := pure_ok hc
    obtain rfl : old = rest := (Prod.mk.inj (Option.some.inj (h.symm.trans hn))).1
    exact ⟨0, Nat.le_refl 0, regs, .refl _ _, fun steps => rfl⟩
  | cons slots list ih =>
    simp only [List.mem_cons, forall_eq_or_imp] at ht
    obtain ⟨mid, b₁, he, hmid, hw₁, -⟩ := ha b here old color slots h
    rw [chain, bind_of_ok he] at hc
    obtain ⟨next', b₂, rest', hc', -, hw₂, -⟩ := chain_appends ha list hmid (color + 1)
    obtain ⟨rfl, rfl⟩ : next = next' ∧ b' = b₂ := by simpa [hc] using hc'
    obtain ⟨used, hused, hcomes⟩ :=
      hd b b₁ whole here mid old color slots regs w h ht.1 he (hw₂.trans hw) hl
    rw [inTurn, bind_eq]
    match hdeal : deal slots w with
    | .error fault w₁ =>
      rw [hdeal] at hcomes
      exact ⟨used, by simp; omega, hcomes⟩
    | .ok (some v) w₁ =>
      rw [hdeal] at hcomes
      exact ⟨used, by simp; omega, hcomes⟩
    | .ok none w₁ =>
      rw [hdeal] at hcomes
      obtain ⟨regs₁, hlen, hgo⟩ := hcomes.andThen
      obtain ⟨used', hused', hcomes'⟩ := ih ht.2 hmid hc (by rw [hlen]; exact hl)
      exact ⟨used' + used, by simp; omega, hgo _ _ _ _ hw₁.regs hcomes'⟩

end Emitter

end SpanTracking
