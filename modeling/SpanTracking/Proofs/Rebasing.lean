import SpanTracking.Proofs.Contexts

set_option autoImplicit false

namespace SpanTracking

namespace World

variable {σ : Type} {pos : Value}

theorem eq_of_get? {w w' : World σ} (hfields : ∀ id, w.memory.get? id = w'.memory.get? id)
    (hhost : w.host = w'.host) (hcalls : w.calls = w'.calls) : w = w' := by
  obtain ⟨⟨values⟩, host, calls⟩ := w
  obtain ⟨⟨values'⟩, host', calls'⟩ := w'
  obtain rfl : host = host' := hhost
  obtain rfl : calls = calls' := hcalls
  obtain rfl : values = values' := List.ext_getElem? fun i => hfields ⟨i⟩
  rfl

/-- Every start of the colors that is not null has become `pos`. -/
def rebased (w : World σ) (colors : List ColorSlots) (pos : Value) : World σ :=
  { w with memory := ⟨w.memory.values.mapIdx fun i v =>
      if (∃ slots ∈ colors, slots.start.id = ⟨i⟩) ∧ v.isNull = false then pos else v⟩ }

theorem get?_rebased (w : World σ) (colors : List ColorSlots) (pos : Value) (id : FieldId) :
    (w.rebased colors pos).memory.get? id = (w.memory.get? id).map fun v =>
      if (∃ slots ∈ colors, slots.start.id = id) ∧ v.isNull = false then pos else v := by
  simp [rebased, Memory.get?, List.getElem?_mapIdx]

theorem rebased_nil (w : World σ) (pos : Value) : w.rebased [] pos = w := by
  refine eq_of_get? (fun id => ?_) rfl rfl
  simp [get?_rebased]

theorem rebased_cons (w : World σ) (slots : ColorSlots) (rest : List ColorSlots) (pos : Value) :
    (w.rebased [slots] pos).rebased rest pos = w.rebased (slots :: rest) pos := by
  refine eq_of_get? (fun id => ?_) rfl rfl
  simp only [get?_rebased, Option.map_map]
  congr 1
  funext v
  by_cases hid : slots.start.id = id <;> cases hn : v.isNull <;> simp [hid, hn]

theorem rebased_one {w : World σ} {slots : ColorSlots} {v : Value}
    (hv : w.memory.get? slots.start.id = some v) :
    w.rebased [slots] pos = if v.isNull then w else Machine.put w slots.start.id pos := by
  refine eq_of_get? (fun id => ?_) (by split <;> rfl) (by split <;> rfl)
  rw [get?_rebased]
  by_cases hid : slots.start.id = id
  · subst hid
    rw [hv]
    cases hn : v.isNull with
    | true => simp [hv, hn]
    | false => simp [hn, Memory.get?_set_self hv]
  · have hput : (Machine.put w slots.start.id pos).memory.get? id = w.memory.get? id :=
      Memory.get?_set_ne hid
    cases hn : v.isNull <;> simp_all

theorem rebased_rebased (w : World σ) (colors : List ColorSlots) (pos : Nat) (again : Value) :
    (w.rebased colors (.ptr (some pos))).rebased colors again = w.rebased colors again := by
  have hpos : (Value.ptr (some pos)).isNull = false := rfl
  refine eq_of_get? (fun id => ?_) rfl rfl
  simp only [get?_rebased, Option.map_map]
  congr 1
  funext v
  by_cases hid : ∃ slots ∈ colors, slots.start.id = id
  · cases hn : v.isNull <;> simp [hid, hn, hpos]
  · simp [hid]

theorem isNull_rebased (w : World σ) (colors : List ColorSlots) (pos : Nat) (id : FieldId) :
    ((w.rebased colors (.ptr (some pos))).memory.get? id).map Value.isNull =
      (w.memory.get? id).map Value.isNull := by
  rw [get?_rebased, Option.map_map]
  congr 1
  funext v
  cases hn : v.isNull with
  | true => simp [hn]
  | false =>
    simp only [Function.comp_apply]
    split
    · rfl
    · exact hn

end World

namespace Emitter

open Machine

/-- The code of all colors moves the open spans, in any body that it is part of. -/
theorem chain_crosses {σ : Type} {pos stop : Value} {list : List ColorSlots} {b b' whole : Body}
    {here next : BlockId} {old rest : List Instr} {color : Nat} {regs : Regs} {w : World σ}
    (ht : ∀ slots ∈ list, slots.start.ty = .bytes)
    (hhas : ∀ slots ∈ list, w.memory.Has slots.start.id) (h : b.Open here old)
    (hc : chain rebase here color list b = .ok next b') (hn : b'.Open next rest)
    (hw : b'.Within whole) (hl : whole.regs.length ≤ regs.length) :
    ∃ used ≤ 2 * list.length, Crosses whole [.state, pos, stop] b.regs.length ⟨here, old.length⟩
      ⟨next, rest.length⟩ used regs w (w.rebased list pos) := by
  induction list generalizing b here old color regs w with
  | nil =>
    obtain ⟨rfl, rfl⟩ := pure_ok hc
    obtain rfl : old = rest := (Prod.mk.inj (Option.some.inj (h.symm.trans hn))).1
    rw [World.rebased_nil]
    exact ⟨0, Nat.le_refl 0, regs, .refl _ _, fun _ _ _ => rfl⟩
  | cons slots list ih =>
    simp only [List.forall_mem_cons] at ht hhas
    obtain ⟨mid, b₁, he, hmid, hw₁, -⟩ := rebase_appends b here old color slots h
    rw [chain, bind_of_ok he] at hc
    obtain ⟨next', b₂, rest', hc', -, hw₂, -⟩ := chain_appends rebase_appends list hmid (color + 1)
    obtain ⟨rfl, rfl⟩ : next = next' ∧ b' = b₂ := by simpa [hc] using hc'
    obtain ⟨v, hv⟩ := hhas.1.get?
    obtain ⟨regs₁, hkeep, hgo⟩ : Crosses whole [.state, pos, stop] _ _ _ _ regs w _ :=
      rebase_crosses h he (hw₂.trans hw) hl ht.1 hv
    rw [← World.rebased_one hv] at hgo
    -- The record keeps its length, so the other colors still have their fields.
    have hhas' : ∀ slots' ∈ list, (w.rebased [slots] pos).memory.Has slots'.start.id := by
      intro slots' hmem
      simpa [Memory.Has, World.rebased] using hhas.2 slots' hmem
    obtain ⟨used, hused, regs₂, hkeep₂, hgo₂⟩ :=
      ih ht.2 hhas' hmid hc (by rw [hkeep.length]; exact hl)
    rw [World.rebased_cons] at hgo₂
    have hcost := cost_le slots w.memory
    refine ⟨used + slots.cost w.memory, by simp only [List.length_cons]; omega, regs₂,
      hkeep.trans hw₁.regs hkeep₂, fun enter limit steps => ?_⟩
    rw [← Nat.add_assoc, hgo]
    exact hgo₂ enter limit steps

/-- The prologue, emitted at an open block of a parser function. In whatever body this becomes part
of, and whatever callees there are, it comes to its end with the start of every open span at the
position, and with all other fields and all earlier registers as they were. A second prologue makes
the first one immaterial, and none opens or closes a span. -/
theorem prologue_in_context {options : SpanOptions} {c : Coloring} {p₀ p₁ : Program} {e : Emitter}
    (hp : p₀.Reachable) (he : prepare options c p₀ = .ok e p₁) {b : Body} {here : BlockId}
    {old : List Instr} (hb : b.sig = parserSig) (hopen : b.Open here old) :
    e.coloring = c ∧ e.Ready p₁ ∧ ∃ next b₁ rest, e.prologue here b = .ok next b₁ ∧
      b₁.Open next rest ∧
      (∀ (whole : Body), b₁.Within whole →
        ∀ (σ : Type) (pos : Nat) (stop : Value) (regs : Regs) (w : World σ),
          whole.regs.length ≤ regs.length → p₁.layout.fields.length ≤ w.memory.values.length →
          ∃ used ≤ 2 * c.colors.length,
            Crosses whole [.state, .ptr (some pos), stop] b.regs.length ⟨here, old.length⟩
              ⟨next, rest.length⟩ used regs w (w.rebased e.colors (.ptr (some pos)))) ∧
      ∀ (σ : Type) (w : World σ) (pos again : Nat),
        (w.rebased e.colors (.ptr (some pos))).rebased e.colors (.ptr (some again)) =
          w.rebased e.colors (.ptr (some again)) ∧
        ∀ id, ((w.rebased e.colors (.ptr (some pos))).memory.get? id).map Value.isNull =
          (w.memory.get? id).map Value.isNull := by
  have hserves : e.Serves p₁ := serves_of_prepare hp he .refl
  obtain ⟨hready, rfl, rfl, -⟩ := prepare_ok hp.numbered he
  obtain ⟨next, b₁, rest, hchain, hnext, -⟩ := chain_appends rebase_appends e.colors hopen 0
  refine ⟨rfl, hready, next, b₁, rest, ?_, hnext, ?_, ?_⟩
  · refine andThen (checkTarget_ok hopen hb) ?_
    rw [rebaseFrom_eq]
    exact hchain
  · intro whole hwhole σ pos stop regs w hregs hfields
    have hhas : ∀ slots ∈ e.colors, w.memory.Has slots.start.id := by
      intro slots hmem
      obtain ⟨color, hcolor⟩ := List.getElem?_of_mem hmem
      exact hserves.housed hfields (.start color) _ (field_start hcolor)
    rw [← hready.length]
    exact chain_crosses (fun slots hmem => hserves.start_ty hmem) hhas hopen hchain hnext hwhole
      hregs
  · intro σ w pos again
    exact ⟨w.rebased_rebased e.colors pos _, w.isNull_rebased e.colors pos⟩

/-- One of two colors is open, at a position of the previous buffer. -/
theorem prologue_in_context_open :
    ∃ next b₁ rest, (pairEmitter {}).prologue ⟨⟨2⟩, 0⟩
        (.start ⟨2⟩ "parse" parserSig parserParams) = .ok next b₁ ∧ b₁.Open next rest ∧
      ∃ used ≤ 4, ∃ regs', ∀ (enter : FuncId → List Value → Exec Unit Value) (limit steps : Nat),
        runAt enter limit b₁ [.state, .ptr (some 3), .ptr (some 9)] (steps + used) ⟨⟨2⟩, 0⟩ 0
          (List.replicate b₁.regs.length none)
          ⟨⟨[.func none, .int 0, .ptr none, .ptr none, .ptr none, .func (some ⟨1⟩),
            .ptr (some 6)]⟩, (), #[]⟩ =
        runAt enter limit b₁ [.state, .ptr (some 3), .ptr (some 9)] steps next rest.length regs'
          ⟨⟨[.func none, .int 0, .ptr none, .ptr none, .ptr none, .func (some ⟨1⟩),
            .ptr (some 3)]⟩, (), #[]⟩ := by
  obtain ⟨-, -, next, b₁, rest, hprologue, hnext, hcrosses, -⟩ :=
    prologue_in_context pairDeclared_reachable (prepare_pair _ _)
      (b := .start ⟨2⟩ "parse" parserSig parserParams) rfl (EventParser.open_start ⟨2⟩ "parse")
  obtain ⟨used, hused, regs', -, hgo⟩ := hcrosses b₁ (.refl b₁) Unit 3 (.ptr (some 9))
    (List.replicate b₁.regs.length none) ⟨⟨[.func none, .int 0, .ptr none, .ptr none, .ptr none,
      .func (some ⟨1⟩), .ptr (some 6)]⟩, (), #[]⟩ (by simp) (by decide)
  exact ⟨next, b₁, rest, hprologue, hnext, used, hused, regs', hgo⟩

end Emitter

end SpanTracking
