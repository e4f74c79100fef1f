import SpanTracking.Proofs.Code
import SpanTracking.Span.Buffers
import SpanTracking.Span.Edges

set_option autoImplicit false

namespace SpanTracking

namespace ColorSlots

def test (slots : ColorSlots) (how : Comparison) (r : Nat) : List Instr :=
  [.load ⟨r⟩ slots.start.id slots.start.ty, .icmp ⟨r + 1⟩ how (.reg ⟨r⟩) slots.noStart]

/-- Clears the start of a color, calls a callback with the start in register `start`, and compares
its answer with the success status. -/
def close (slots : ColorSlots) (callback : FuncId) (start r : Nat) : List Instr :=
  [.store slots.start.id slots.noStart,
    .call ⟨r⟩ (.func callback) slots.sig [stateArg, .reg ⟨start⟩, posArg] none,
    .icmp ⟨r + 1⟩ .eq (.reg ⟨r⟩) (.status 0)]

def opening (slots : ColorSlots) (callback : FuncId) : List Instr :=
  .store slots.start.id posArg ::
    (slots.slot?.toList.map fun slot => .store slot.id (.func callback))

end ColorSlots

namespace Dispatch

/-- The instructions that call the callback of an open span, with registers from `r` on. -/
def calling (d : Dispatch) (sig : Signature) (args : List Operand) (hints : Bool) (r : Nat) :
    List Instr :=
  match d with
  | direct callee => [.call ⟨r⟩ (.func callee) sig args none]
  | indirect slot candidates =>
    [.load ⟨r⟩ slot.id slot.ty,
      .call ⟨r + 1⟩ (.reg ⟨r⟩) sig args (if hints then some candidates else none)]

def answer (d : Dispatch) (r : Nat) : Nat :=
  match d with
  | direct _ => r
  | indirect .. => r + 1

def types (d : Dispatch) (sig : Signature) : List Ty :=
  match d with
  | direct _ => [sig.ret]
  | indirect slot _ => [slot.ty, sig.ret]

theorem types_length (d : Dispatch) (sig : Signature) (r : Nat) :
    r + (d.types sig).length = d.answer r + 1 := by
  cases d <;> simp [types, answer]

theorem emit_grown {b b' : Body} {here : BlockId} {old head : List Instr}
    {term : Option Terminator} {tail : List Code} {tys : List Ty}
    (g : b.Grown here old head term tail tys b') (d : Dispatch) {k : Nat} {is : List Instr}
    (hk : tail[k]? = some (is, none)) (sig : Signature) (args : List Operand) (hints : Bool) :
    ∃ b'', d.emit ⟨b.id, b.codes.length + k⟩ sig args hints b' =
        .ok (.reg ⟨d.answer (b.regs.length + tys.length)⟩) b'' ∧
      b.Grown here old head term
        (tail.set k (is ++ d.calling sig args hints (b.regs.length + tys.length), none))
        (tys ++ d.types sig) b'' := by
  cases d with
  | direct callee => exact g.callAt hk (.func callee) sig args none
  | indirect slot candidates =>
    have hlt : k < tail.length := (List.getElem?_eq_some_iff.1 hk).1
    obtain ⟨b₁, h₁, g₁⟩ := g.loadAt hk slot
    obtain ⟨b₂, h₂, g₂⟩ := g₁.callAt (List.getElem?_set_self hlt)
      (.reg ⟨b.regs.length + tys.length⟩) sig args (if hints then some candidates else none)
    refine ⟨b₂, ?_, ?_⟩
    · refine andThen h₁ ?_
      simpa [answer, Nat.add_assoc] using h₂
    · simpa [calling, types, Nat.add_assoc] using g₂

end Dispatch

def ErrorRecord.stores (r : ErrorRecord) (pos code : Operand) : List Instr :=
  [.store r.error.id code, .store r.reason.id (.text r.message), .store r.errorPos.id pos]

theorem ErrorRecord.emit_grown {b b' : Body} {here : BlockId} {old head : List Instr}
    {term : Option Terminator} {tail : List Code} {tys : List Ty}
    (g : b.Grown here old head term tail tys b') (r : ErrorRecord) {k : Nat}
    (hk : tail[k]? = some ([], none)) (pos code : Operand) :
    ∃ b'', r.emit ⟨b.id, b.codes.length + k⟩ pos code b' = .ok () b'' ∧
      b.Grown here old head term (tail.set k (r.stores pos code, none)) tys b'' := by
  have hlt : k < tail.length := (List.getElem?_eq_some_iff.1 hk).1
  obtain ⟨b₁, h₁, g₁⟩ := g.pushAt hk (.store r.error.id code)
  obtain ⟨b₂, h₂, g₂⟩ := g₁.pushAt (List.getElem?_set_self hlt)
    (.store r.reason.id (.text r.message))
  obtain ⟨b₃, h₃, g₃⟩ := g₂.pushAt (List.getElem?_set_self (by simpa using hlt))
    (.store r.errorPos.id pos)
  refine ⟨b₃, ?_, by simpa [stores] using g₃⟩
  exact andThen h₁ (andThen h₂ h₃)

theorem Resumption.resumeAt_grown {b : Body} {old : List Instr} (r : Resumption) {p : Program}
    {target : FuncId} (h : b.Open r.block old) (ht : checkTarget p target = .ok ()) :
    ∃ b', r.resumeAt p target b = .ok () b' ∧
      b.Grown r.block old [.store r.current.id (.func target)] (some (.ret (.status r.sentinel)))
        [] [] b' := by
  obtain ⟨b₁, h₁, g₁⟩ := (Body.grown_self h).push (.store r.current.id (.func target))
  obtain ⟨b₂, h₂, g₂⟩ := g₁.terminate (.ret (.status r.sentinel))
  have ho : r.block.owner = b.id := (Body.code?_some.1 h).1
  have hc : r.check p target b = .ok () := by
    simp [check, ho, Body.checkOpen_ok.2 ⟨old, h⟩, ht, bind, Except.bind]
  exact ⟨b₂, andThen (Build.check_of_ok hc) (andThen h₁ h₂), g₂⟩

namespace Emitter

section Shapes

variable {b : Body} {here : BlockId} {old : List Instr}

theorem checkTarget_ok (h : b.Open here old) (hb : b.sig = parserSig) :
    Build.check (checkTarget here) b = .ok () b := by
  apply Build.check_of_ok
  rw [checkTarget, if_pos hb]
  exact Body.checkOpen_ok.2 ⟨old, h⟩

theorem rebase_grown (h : b.Open here old) (color : Nat) (slots : ColorSlots) :
    ∃ b', rebase here color slots b = .ok ⟨b.id, b.codes.length + 1⟩ b' ∧
      b.Grown here old (slots.test .ne b.regs.length)
        (some (.condBr (.reg ⟨b.regs.length + 1⟩) ⟨b.id, b.codes.length⟩
          ⟨b.id, b.codes.length + 1⟩ .none))
        [([.store slots.start.id posArg], some (.br ⟨b.id, b.codes.length + 1⟩)), ([], none)]
        [slots.start.ty, .i1] b' := by
  obtain ⟨b₁, h₁, g₁⟩ := (Body.grown_self h).load slots.start
  obtain ⟨b₂, h₂, g₂⟩ := g₁.icmp .ne (.reg ⟨b.regs.length⟩) slots.noStart
  obtain ⟨b₃, h₃, g₃⟩ := g₂.newBlock (blockName "span_restart" color)
  obtain ⟨b₄, h₄, g₄⟩ := g₃.newBlock (blockName "span_rebased" color)
  obtain ⟨b₅, h₅, g₅⟩ := g₄.terminate (.condBr (.reg ⟨b.regs.length + 1⟩) ⟨b.id, b.codes.length⟩
    ⟨b.id, b.codes.length + 1⟩ .none)
  obtain ⟨b₆, h₆, g₆⟩ := g₅.pushAt (k := 0) rfl (.store slots.start.id posArg)
  obtain ⟨b₇, h₇, g₇⟩ := g₆.terminateAt (k := 0) rfl (.br ⟨b.id, b.codes.length + 1⟩)
  refine ⟨b₇, ?_, by simpa [ColorSlots.test] using g₇⟩
  exact andThen h₁ (andThen h₂ (andThen h₃ (andThen h₄ (andThen h₅ (andThen h₆ (bind_of_ok h₇))))))

theorem flush_grown (e : Emitter) (h : b.Open here old) (color : Nat) (slots : ColorSlots) :
    ∃ b', e.flush here color slots b = .ok ⟨b.id, b.codes.length + 1⟩ b' ∧
      b.Grown here old (slots.test .ne b.regs.length)
        (some (.condBr (.reg ⟨b.regs.length + 1⟩) ⟨b.id, b.codes.length⟩
          ⟨b.id, b.codes.length + 1⟩ .none))
        [(slots.dispatch.calling slots.sig [stateArg, .reg ⟨b.regs.length⟩, endArg]
              e.options.calleeHints (b.regs.length + 2) ++
            [.icmp ⟨slots.dispatch.answer (b.regs.length + 2) + 1⟩ .eq
              (.reg ⟨slots.dispatch.answer (b.regs.length + 2)⟩) (.status 0)],
          some (.condBr (.reg ⟨slots.dispatch.answer (b.regs.length + 2) + 1⟩)
            ⟨b.id, b.codes.length + 1⟩ ⟨b.id, b.codes.length + 2⟩ .likelyTrue)),
          ([], none),
          (e.record.stores endArg (.reg ⟨slots.dispatch.answer (b.regs.length + 2)⟩),
            some (.ret (.reg ⟨slots.dispatch.answer (b.regs.length + 2)⟩)))]
        ([slots.start.ty, .i1] ++ slots.dispatch.types slots.sig ++ [.i1]) b' := by
  obtain ⟨b₁, h₁, g₁⟩ := (Body.grown_self h).load slots.start
  obtain ⟨b₂, h₂, g₂⟩ := g₁.icmp .ne (.reg ⟨b.regs.length⟩) slots.noStart
  obtain ⟨b₃, h₃, g₃⟩ := g₂.newBlock (blockName "span_present" color)
  obtain ⟨b₄, h₄, g₄⟩ := g₃.newBlock (blockName "span_flushed" color)
  obtain ⟨b₅, h₅, g₅⟩ := g₄.terminate (.condBr (.reg ⟨b.regs.length + 1⟩) ⟨b.id, b.codes.length⟩
    ⟨b.id, b.codes.length + 1⟩ .none)
  obtain ⟨b₆, h₆, g₆⟩ := Dispatch.emit_grown g₅ slots.dispatch (k := 0) rfl slots.sig
    [stateArg, .reg ⟨b.regs.length⟩, endArg] e.options.calleeHints
  obtain ⟨b₇, h₇, g₇⟩ := g₆.icmpAt (k := 0) rfl .eq
    (.reg ⟨slots.dispatch.answer (b.regs.length + 2)⟩) (.status 0)
  obtain ⟨b₈, h₈, g₈⟩ := g₇.newBlock (blockName "span_flush_error" color)
  have hr : b.regs.length + (2 + (slots.dispatch.types slots.sig).length) =
      slots.dispatch.answer (b.regs.length + 2) + 1 := by
    rw [← Nat.add_assoc, Dispatch.types_length]
  simp only [List.length_append, List.length_cons, List.length_nil, Nat.zero_add, Nat.reduceAdd,
    hr] at h₆ h₇ g₇ h₈ g₈
  obtain ⟨b₉, h₉, g₉⟩ := g₈.terminateAt (k := 0) rfl
    (.condBr (.reg ⟨slots.dispatch.answer (b.regs.length + 2) + 1⟩)
      ⟨b.id, b.codes.length + 1⟩ ⟨b.id, b.codes.length + 2⟩ .likelyTrue)
  obtain ⟨b₁₀, h₁₀, g₁₀⟩ := ErrorRecord.emit_grown g₉ e.record (k := 2) rfl endArg
    (.reg ⟨slots.dispatch.answer (b.regs.length + 2)⟩)
  obtain ⟨b₁₁, h₁₁, g₁₁⟩ := g₁₀.terminateAt (k := 2) rfl
    (.ret (.reg ⟨slots.dispatch.answer (b.regs.length + 2)⟩))
  refine ⟨b₁₁, ?_, by simpa [ColorSlots.test] using g₁₁⟩
  exact andThen h₁ (andThen h₂ (andThen h₃ (andThen h₄ (andThen h₅ (andThen h₆ (andThen h₇
    (andThen h₈ (andThen h₉ (andThen h₁₀ (bind_of_ok h₁₁))))))))))

theorem spanEnd_grown_plain {e : Emitter} (h : b.Open here old) (hb : b.sig = parserSig)
    {s : SpanId} {span : SpanDecl} {color : Nat} {slots : ColorSlots}
    (hs : e.locate s = .ok (span, color, slots)) (hd : e.options.debugChecks = false) :
    ∃ b', e.spanEnd here s b = .ok (⟨b.id, b.codes.length⟩,
        ⟨⟨b.id, b.codes.length + 1⟩, e.current, e.options.errorSentinel⟩) b' ∧
      b.Grown here old
        (.load ⟨b.regs.length⟩ slots.start.id slots.start.ty ::
          slots.close span.callback b.regs.length (b.regs.length + 1))
        (some (.condBr (.reg ⟨b.regs.length + 2⟩) ⟨b.id, b.codes.length⟩
          ⟨b.id, b.codes.length + 1⟩ .likelyTrue))
        [([], none), (e.record.stores posArg (.reg ⟨b.regs.length + 1⟩), none)]
        [slots.start.ty, slots.sig.ret, .i1] b' := by
  obtain ⟨b₁, h₁, g₁⟩ := (Body.grown_self h).load slots.start
  obtain ⟨b₂, h₂, g₂⟩ := g₁.push (.store slots.start.id slots.noStart)
  obtain ⟨b₃, h₃, g₃⟩ := g₂.call (.func span.callback) slots.sig
    [stateArg, .reg ⟨b.regs.length⟩, posArg] none
  obtain ⟨b₄, h₄, g₄⟩ := g₃.icmp .eq (.reg ⟨b.regs.length + 1⟩) (.status 0)
  obtain ⟨b₅, h₅, g₅⟩ := g₄.newBlock (blockName "span_end" color)
  obtain ⟨b₆, h₆, g₆⟩ := g₅.newBlock (blockName "span_end_error" color)
  obtain ⟨b₇, h₇, g₇⟩ := g₆.terminate (.condBr (.reg ⟨b.regs.length + 2⟩) ⟨b.id, b.codes.length⟩
    ⟨b.id, b.codes.length + 1⟩ .likelyTrue)
  obtain ⟨b₈, h₈, g₈⟩ := ErrorRecord.emit_grown g₇ e.record (k := 1) rfl posArg
    (.reg ⟨b.regs.length + 1⟩)
  refine ⟨b₈, ?_, by simpa [ColorSlots.close] using g₈⟩
  simp only [spanEnd, hd, Bool.false_eq_true, ↓reduceIte]
  exact andThen (checkTarget_ok h hb) (andThen (Build.check_of_ok hs) (andThen h₁
    (andThen (pure_run here b₁) (andThen h₂ (andThen h₃ (andThen h₄ (andThen h₅ (andThen h₆
      (andThen h₇ (bind_of_ok h₈))))))))))

theorem spanEnd_grown_checked {e : Emitter} (h : b.Open here old) (hb : b.sig = parserSig)
    {s : SpanId} {span : SpanDecl} {color : Nat} {slots : ColorSlots}
    (hs : e.locate s = .ok (span, color, slots)) (hd : e.options.debugChecks = true) :
    ∃ b', e.spanEnd here s b = .ok (⟨b.id, b.codes.length + 2⟩,
        ⟨⟨b.id, b.codes.length + 3⟩, e.current, e.options.errorSentinel⟩) b' ∧
      b.Grown here old (slots.test .eq b.regs.length)
        (some (.condBr (.reg ⟨b.regs.length + 1⟩) ⟨b.id, b.codes.length⟩
          ⟨b.id, b.codes.length + 1⟩ .likelyFalse))
        [([], some .unreachable),
          (slots.close span.callback b.regs.length (b.regs.length + 2),
            some (.condBr (.reg ⟨b.regs.length + 3⟩) ⟨b.id, b.codes.length + 2⟩
              ⟨b.id, b.codes.length + 3⟩ .likelyTrue)),
          ([], none), (e.record.stores posArg (.reg ⟨b.regs.length + 2⟩), none)]
        [slots.start.ty, .i1, slots.sig.ret, .i1] b' := by
  obtain ⟨b₁, h₁, g₁⟩ := (Body.grown_self h).load slots.start
  obtain ⟨b₂, h₂, g₂⟩ := g₁.icmp .eq (.reg ⟨b.regs.length⟩) slots.noStart
  obtain ⟨b₃, h₃, g₃⟩ := g₂.newBlock (blockName "span_not_open" color)
  obtain ⟨b₄, h₄, g₄⟩ := g₃.newBlock (blockName "span_open" color)
  obtain ⟨b₅, h₅, g₅⟩ := g₄.terminate (.condBr (.reg ⟨b.regs.length + 1⟩) ⟨b.id, b.codes.length⟩
    ⟨b.id, b.codes.length + 1⟩ .likelyFalse)
  obtain ⟨b₆, h₆, g₆⟩ := g₅.terminateAt (k := 0) rfl .unreachable
  obtain ⟨b₇, h₇, g₇⟩ := g₆.pushAt (k := 1) rfl (.store slots.start.id slots.noStart)
  obtain ⟨b₈, h₈, g₈⟩ := g₇.callAt (k := 1) rfl (.func span.callback) slots.sig
    [stateArg, .reg ⟨b.regs.length⟩, posArg] none
  obtain ⟨b₉, h₉, g₉⟩ := g₈.icmpAt (k := 1) rfl .eq (.reg ⟨b.regs.length + 2⟩) (.status 0)
  obtain ⟨b₁₀, h₁₀, g₁₀⟩ := g₉.newBlock (blockName "span_end" color)
  obtain ⟨b₁₁, h₁₁, g₁₁⟩ := g₁₀.newBlock (blockName "span_end_error" color)
  obtain ⟨b₁₂, h₁₂, g₁₂⟩ := g₁₁.terminateAt (k := 1) rfl
    (.condBr (.reg ⟨b.regs.length + 3⟩) ⟨b.id, b.codes.length + 2⟩ ⟨b.id, b.codes.length + 3⟩
      .likelyTrue)
  obtain ⟨b₁₃, h₁₃, g₁₃⟩ := ErrorRecord.emit_grown g₁₂ e.record (k := 3) rfl posArg
    (.reg ⟨b.regs.length + 2⟩)
  refine ⟨b₁₃, ?_, by simpa [ColorSlots.test, ColorSlots.close] using g₁₃⟩
  have hassert : assertOpen here (.reg ⟨b.regs.length⟩) color slots b₁ =
      .ok ⟨b.id, b.codes.length + 1⟩ b₆ :=
    andThen h₂ (andThen h₃ (andThen h₄ (andThen h₅ (bind_of_ok h₆))))
  simp only [spanEnd, hd, ↓reduceIte]
  exact andThen (checkTarget_ok h hb) (andThen (Build.check_of_ok hs) (andThen h₁
    (andThen hassert (andThen h₇ (andThen h₈ (andThen h₉ (andThen h₁₀ (andThen h₁₁
      (andThen h₁₂ (bind_of_ok h₁₃))))))))))

theorem spanStart_grown {e : Emitter} (h : b.Open here old) (hb : b.sig = parserSig)
    {s : SpanId} {span : SpanDecl} {color : Nat} {slots : ColorSlots}
    (hs : e.locate s = .ok (span, color, slots)) :
    ∃ b', e.spanStart here s b = .ok here b' ∧
      b.Grown here old (slots.opening span.callback) none [] [] b' := by
  obtain ⟨b₁, h₁, g₁⟩ := (Body.grown_self h).push (.store slots.start.id posArg)
  cases hslot : slots.slot? with
  | none =>
    refine ⟨b₁, ?_, by simpa [ColorSlots.opening, hslot] using g₁⟩
    refine andThen (checkTarget_ok h hb) (andThen (Build.check_of_ok hs) (andThen h₁ ?_))
    simp only [hslot]
    rfl
  | some slot =>
    obtain ⟨b₂, h₂, g₂⟩ := g₁.push (.store slot.id (.func span.callback))
    refine ⟨b₂, ?_, by simpa [ColorSlots.opening, hslot] using g₂⟩
    refine andThen (checkTarget_ok h hb) (andThen (Build.check_of_ok hs) (andThen h₁ ?_))
    simp only [hslot]
    exact bind_of_ok h₂

end Shapes

end Emitter

end SpanTracking
