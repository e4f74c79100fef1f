import SpanTracking.Proofs.Grafts

set_option autoImplicit false

namespace SpanTracking

namespace Emitter

open Body

def Grafts (emit : BlockId → Nat → ColorSlots → Build Body BlockId) : Prop :=
  ∀ (b : Body) (here : BlockId) (color : Nat) (slots : ColorSlots), b.Live here →
    ∃ next b', emit here color slots b = .ok next b' ∧ b.Grafted here [next] b'

theorem rebase_grafts : Grafts rebase := by
  rintro b here color slots ⟨old, h⟩
  obtain ⟨b', hr, g⟩ := rebase_grown h color slots
  have hgraft := g.grafted ((compositional_naming.rebase trivial here color).names hr)
    (by simp [Terminator.targets])
  exact ⟨_, b', hr, by simpa [Body.loose] using hgraft⟩

theorem flush_grafts (e : Emitter) : Grafts e.flush := by
  rintro b here color slots ⟨old, h⟩
  obtain ⟨b', hr, g⟩ := e.flush_grown h color slots
  have hgraft := g.grafted
    ((compositional_naming.flush trivial (fun _ _ => trivial) here color).names hr)
    (by simp [Terminator.targets])
  exact ⟨_, b', hr, by simpa [Body.loose] using hgraft⟩

theorem chain_grafts {emit : BlockId → Nat → ColorSlots → Build Body BlockId} (hg : Grafts emit)
    (list : List ColorSlots) {b : Body} {here : BlockId} (h : b.Live here) (color : Nat) :
    ∃ next b', chain emit here color list b = .ok next b' ∧ b.Grafted here [next] b' := by
  induction list generalizing b here color with
  | nil => exact ⟨here, b, rfl, .refl h⟩
  | cons slots rest ih =>
    obtain ⟨mid, b₁, hemit, hgraft⟩ := hg b here color slots h
    obtain ⟨next, b₂, hchain, hgraft'⟩ :=
      ih (hgraft.live_of_mem (List.mem_singleton.2 rfl)) (color + 1)
    exact ⟨next, b₂, andThen hemit hchain, hgraft.trans hgraft'⟩

theorem checkTarget_eq_ok {b : Body} {here : BlockId} :
    checkTarget here b = .ok () ↔ b.sig = parserSig ∧ b.Live here := by
  unfold checkTarget
  split
  · rename_i hsig
    simp [hsig, Body.checkOpen_ok, Body.Live]
  · rename_i hsig
    simp [hsig]

section Edges

variable {e : Emitter} {b : Body} {here : BlockId} {s : SpanId} {span : SpanDecl} {color : Nat}
  {slots : ColorSlots}

theorem spanStart_grafts (h : b.Live here) (hb : b.sig = parserSig)
    (hs : e.locate s = .ok (span, color, slots)) :
    ∃ b', e.spanStart here s b = .ok here b' ∧ b.Grafted here [here] b' := by
  obtain ⟨old, hopen⟩ := h
  obtain ⟨b', hr, g⟩ := spanStart_grown hopen hb hs
  have hgraft := g.grafted ((compositional_naming.spanStart here s).names hr) (by simp)
  exact ⟨b', hr, by simpa [Body.loose] using hgraft⟩

theorem spanEnd_grafts (h : b.Live here) (hb : b.sig = parserSig)
    (hs : e.locate s = .ok (span, color, slots)) :
    ∃ next path b', e.spanEnd here s b = .ok (next, path) b' ∧
      b.Grafted here [next, path.block] b' := by
  obtain ⟨old, hopen⟩ := h
  have hnaming := compositional_naming.spanEnd (e := e) (fun _ _ => trivial) here s
  cases hd : e.options.debugChecks with
  | false =>
    obtain ⟨b', hr, g⟩ := spanEnd_grown_plain hopen hb hs hd
    have hgraft := g.grafted (hnaming.names hr) (by simp [Terminator.targets])
    exact ⟨_, _, b', hr, by simpa [Body.loose] using hgraft⟩
  | true =>
    obtain ⟨b', hr, g⟩ := spanEnd_grown_checked hopen hb hs hd
    have hgraft := g.grafted (hnaming.names hr) (by simp [Terminator.targets])
    exact ⟨_, _, b', hr, by simpa [Body.loose] using hgraft⟩

end Edges

end Emitter

theorem Resumption.resumeAt_grafts {b : Body} {path : Resumption} {p : Program} {target : FuncId}
    (h : b.Live path.block) (ht : checkTarget p target = .ok ()) :
    ∃ b', path.resumeAt p target b = .ok () b' ∧ b.Grafted path.block [] b' := by
  obtain ⟨old, hopen⟩ := h
  obtain ⟨b', hr, g⟩ := path.resumeAt_grown hopen ht
  have hgraft := g.grafted ((Body.compositional_naming.resumeAt path p target).names hr)
    (by simp [Terminator.targets])
  exact ⟨b', hr, by simpa [Body.loose] using hgraft⟩

namespace Emission

def handedOut (result : BlockId × Option Resumption) : List BlockId :=
  result.1 :: result.2.toList.map Resumption.block

section Run

variable {e : Emitter} {m : Emission} {b : Body} {err : BuildError}

theorem run_refused (h : Emitter.checkTarget m.block b = .error err) :
    m.run e b = .error err b := by
  have hcheck : Build.check (Emitter.checkTarget m.block) b = .error err b := by
    rw [Build.check_run, h]
  cases m <;> exact bind_of_error (bind_of_error hcheck)

theorem run_unlocated {s : SpanId} (hs : m.span? = some s)
    (h : Emitter.checkTarget m.block b = .ok ()) (hlocate : e.locate s = .error err) :
    m.run e b = .error err b := by
  have hcheck := Build.check_of_ok h
  have hsettle : (Build.settle (e.locate s) : Build Body _) b = .error err b := by
    rw [Build.settle, Build.check_run, hlocate]
  cases m with
  | prologue here => simp [span?] at hs
  | epilogue here => simp [span?] at hs
  | _ =>
    obtain rfl := Option.some.inj hs
    exact bind_of_error (andThen hcheck (bind_of_error hsettle))

theorem run_grafts (h : Emitter.checkTarget m.block b = .ok ())
    (hlocate : ∀ s, m.span? = some s → ∃ found, e.locate s = .ok found) :
    ∃ result b', m.run e b = .ok result b' ∧ b.Grafted m.block (handedOut result) b' := by
  obtain ⟨hsig, hlive⟩ := Emitter.checkTarget_eq_ok.1 h
  cases m with
  | spanStart here s =>
    obtain ⟨⟨span, color, slots⟩, hs⟩ := hlocate s rfl
    obtain ⟨b', hr, hgraft⟩ := Emitter.spanStart_grafts hlive hsig hs
    exact ⟨_, b', bind_of_ok hr, hgraft⟩
  | spanEnd here s =>
    obtain ⟨⟨span, color, slots⟩, hs⟩ := hlocate s rfl
    obtain ⟨next, path, b', hr, hgraft⟩ := Emitter.spanEnd_grafts hlive hsig hs
    exact ⟨_, b', bind_of_ok hr, hgraft⟩
  | prologue here =>
    obtain ⟨next, b', hr, hgraft⟩ := Emitter.chain_grafts Emitter.rebase_grafts e.colors hlive 0
    rw [← Emitter.rebaseFrom_eq] at hr
    exact ⟨_, b', bind_of_ok (andThen (Build.check_of_ok h) hr), hgraft⟩
  | epilogue here =>
    obtain ⟨next, b', hr, hgraft⟩ := Emitter.chain_grafts e.flush_grafts e.colors hlive 0
    rw [← Emitter.flushFrom_eq] at hr
    exact ⟨_, b', bind_of_ok (andThen (Build.check_of_ok h) hr), hgraft⟩

/-- An emission changes nothing or is a graft, whatever emitter it is asked of. -/
theorem run_cases (e : Emitter) (m : Emission) (b : Body) :
    (∃ err, m.run e b = .error err b) ∨
      ∃ result b', m.run e b = .ok result b' ∧ b.Grafted m.block (handedOut result) b' := by
  cases hcheck : Emitter.checkTarget m.block b with
  | error err => exact .inl ⟨err, run_refused hcheck⟩
  | ok u =>
    cases hspan : m.span? with
    | none => exact .inr (run_grafts hcheck (by simp [hspan]))
    | some s =>
      cases hlocate : e.locate s with
      | error err => exact .inl ⟨err, run_unlocated hspan hcheck hlocate⟩
      | ok found =>
        refine .inr (run_grafts hcheck fun s' hs' => ?_)
        obtain rfl := Option.some.inj (hspan.symm.trans hs')
        exact ⟨found, hlocate⟩

end Run

end Emission

def refusal : Option BuildError → Except BuildError Unit
  | none => .ok ()
  | some err => .error err

def Body.objection (b : Body) (here : BlockId) : Option BuildError :=
  if here.owner = b.id ∧ here.index < b.blocks.length then
    b.blocks[here.index]?.bind fun k => k.term.map fun _ => .terminatedBlock b.name k.name
  else some (.foreignBlock b.name here.index)

theorem Body.checkOpen_eq (b : Body) (here : BlockId) :
    b.checkOpen here = refusal (b.objection here) := by
  unfold checkOpen objection block?
  by_cases howner : here.owner = b.id
  · by_cases hlt : here.index < b.blocks.length
    · cases hterm : b.blocks[here.index].term <;> simp [howner, hlt, hterm, refusal]
    · simp [howner, hlt, refusal]
  · simp [howner, refusal]

/-- What speaks against an emission: the function is no parser function, or something speaks against
the block, or there is no such span. -/
def Emission.objection (m : Emission) (c : Coloring) (b : Body) : Option BuildError :=
  if b.sig = parserSig then
    (b.objection m.block).or (m.span?.bind fun s =>
      if s.index < c.spans.length then none else some (.unknownSpan s))
  else some (.notParserFunction b.name)

def Resumption.objection (path : Resumption) (p : Program) (target : FuncId) (b : Body) :
    Option BuildError :=
  if path.block.owner = b.id then
    (b.objection path.block).or
      (if (p.decl? target).map Decl.sig = some parserSig then none
        else some (.resumeTarget (p.nameOf target)))
  else some (.resumeElsewhere (p.nameOf path.block.owner) b.name)

theorem Body.objection_ne_misuse {b : Body} {here : BlockId} {err : BuildError}
    (h : b.objection here = some err) (cause : BlockMisuse) : err ≠ .misuse cause := by
  unfold objection at h
  split at h
  · obtain ⟨k, -, hk⟩ := Option.bind_eq_some_iff.1 h
    obtain ⟨t, -, rfl⟩ := Option.map_eq_some_iff.1 hk
    simp
  · obtain rfl := Option.some.inj h
    simp

/-- If there is an objection, the step fails with it and changes nothing. It is never that a block
takes no instruction. Otherwise the step succeeds, and what it did at `here` is a graft that leaves
the blocks `left` open. -/
def Body.AllOrNothing {α : Type} (b : Body) (objection : Option BuildError) (step : Build Body α)
    (here : BlockId) (left : α → List BlockId) : Prop :=
  match objection with
  | some err => step b = .error err b ∧ ∀ cause, err ≠ .misuse cause
  | none => ∃ result b', step b = .ok result b' ∧ b.Grafted here (left result) b'

theorem Emission.run_allOrNothing {e : Emitter} {c : Coloring}
    (hknown : ∀ s : SpanId, s.index < c.spans.length → ∃ found, e.locate s = .ok found)
    (hunknown : ∀ s : SpanId, ¬ s.index < c.spans.length → e.locate s = .error (.unknownSpan s))
    (m : Emission) (b : Body) :
    b.AllOrNothing (m.objection c b) (m.run e) m.block handedOut := by
  unfold objection
  by_cases hsig : b.sig = parserSig
  · have hcheck : Emitter.checkTarget m.block b = refusal (b.objection m.block) := by
      rw [Emitter.checkTarget, if_pos hsig, b.checkOpen_eq]
    rw [if_pos hsig]
    cases hobj : b.objection m.block with
    | some err =>
      rw [hobj] at hcheck
      exact ⟨run_refused hcheck, Body.objection_ne_misuse hobj⟩
    | none =>
      rw [hobj] at hcheck
      rw [Option.none_or]
      cases hspan : m.span? with
      | none => exact run_grafts hcheck (by simp [hspan])
      | some s =>
        rw [Option.bind_some]
        by_cases hlt : s.index < c.spans.length
        · rw [if_pos hlt]
          refine run_grafts hcheck fun s' hs' => ?_
          obtain rfl := Option.some.inj (hspan.symm.trans hs')
          exact hknown s hlt
        · rw [if_neg hlt]
          exact ⟨run_unlocated hspan hcheck (hunknown s hlt), by simp⟩
  · rw [if_neg hsig]
    refine ⟨run_refused ?_, by simp⟩
    rw [Emitter.checkTarget, if_neg hsig]

namespace Resumption

variable {path : Resumption} {p : Program} {target : FuncId} {b : Body}

theorem checkTarget_eq (p : Program) (target : FuncId) :
    checkTarget p target = refusal (if (p.decl? target).map Decl.sig = some parserSig then none
      else some (.resumeTarget (p.nameOf target))) := by
  unfold checkTarget Program.nameOf
  cases p.decl? target with
  | none => rfl
  | some d => by_cases hsig : d.sig = parserSig <;> simp [hsig, refusal]

theorem resumeAt_refused {err : BuildError} (h : path.check p target b = .error err) :
    path.resumeAt p target b = .error err b :=
  bind_of_error (by rw [Build.check_run, h])

theorem resumeAt_allOrNothing (path : Resumption) (p : Program) (target : FuncId) (b : Body) :
    b.AllOrNothing (path.objection p target b) (path.resumeAt p target) path.block
      fun _ => [] := by
  unfold objection
  by_cases howner : path.block.owner = b.id
  · have hcheck : path.check p target b =
        (b.checkOpen path.block >>= fun _ => checkTarget p target) := by
      simp [check, howner, bind, Except.bind]
    rw [b.checkOpen_eq] at hcheck
    rw [if_pos howner]
    cases hobj : b.objection path.block with
    | some err =>
      rw [hobj] at hcheck
      exact ⟨resumeAt_refused hcheck, Body.objection_ne_misuse hobj⟩
    | none =>
      rw [hobj] at hcheck
      rw [Option.none_or]
      by_cases hsig : (p.decl? target).map Decl.sig = some parserSig
      · have hlive : b.Live path.block :=
          Body.checkOpen_ok.1 (by rw [b.checkOpen_eq, hobj, refusal])
        have htarget : checkTarget p target = .ok () := by
          rw [checkTarget_eq, if_pos hsig, refusal]
        rw [if_pos hsig]
        obtain ⟨b', hr, hgraft⟩ := resumeAt_grafts hlive htarget
        exact ⟨(), b', hr, hgraft⟩
      · rw [if_neg hsig]
        refine ⟨resumeAt_refused (hcheck.trans ?_), by simp⟩
        change checkTarget p target = _
        rw [checkTarget_eq, if_neg hsig, refusal]
  · rw [if_neg howner]
    refine ⟨resumeAt_refused ?_, by simp⟩
    simp [check, howner, bind, Except.bind, throw, throwThe, MonadExceptOf.throw]

end Resumption

namespace Emitter

/-- Whatever body and block an emitter is given, an emission is all or nothing. It is refused if the
function is no parser function, if the block is none of the body, if it is finished, or if there is
no such span, and for no other reason. Resuming is refused if the failure path is that of another
function, if its block is none of the body or finished, or if the target is no parser function. -/
theorem emissions_allOrNothing {options : SpanOptions} {c : Coloring} {p₀ p₁ : Program}
    {e : Emitter} (hp : p₀.Reachable) (hc : c.Valid) (he : prepare options c p₀ = .ok e p₁)
    (b : Body) :
    (∀ m : Emission, b.AllOrNothing (m.objection c b) (m.run e) m.block Emission.handedOut) ∧
    ∀ (path : Resumption) (p : Program) (target : FuncId),
      b.AllOrNothing (path.objection p target b) (path.resumeAt p target) path.block
        fun _ => [] := by
  obtain ⟨hready, rfl, -, -, -⟩ := prepare_ok hp.numbered he
  refine ⟨fun m => m.run_allOrNothing ?_ ?_ b, fun path p target =>
    path.resumeAt_allOrNothing p target b⟩
  · intro s hlt
    obtain ⟨color, slots, hlocate, -⟩ := locate_ok hc hready.length (List.getElem?_eq_getElem hlt)
    exact ⟨_, hlocate⟩
  · intro s hge
    have hnone : e.coloring.span? s = none := List.getElem?_eq_none (Nat.not_lt.1 hge)
    simp [locate, hnone]

/-- A span that does not exist, and a block of another function. -/
theorem emissions_allOrNothing_refused :
    let b := Body.start ⟨2⟩ "parse" parserSig parserParams
    (Emission.spanEnd ⟨⟨2⟩, 0⟩ ⟨3⟩).run (pairEmitter {}) b = .error (.unknownSpan ⟨3⟩) b ∧
      (Emission.spanEnd ⟨⟨1⟩, 0⟩ ⟨3⟩).run (pairEmitter {}) b = .error (.foreignBlock "parse" 0) b ∧
      (∃ result b', (Emission.spanEnd ⟨⟨2⟩, 0⟩ ⟨2⟩).run (pairEmitter {}) b = .ok result b' ∧
        b.Grafted ⟨⟨2⟩, 0⟩ (Emission.handedOut result) b') := by
  intro b
  obtain ⟨hrun, -⟩ := emissions_allOrNothing pairDeclared_reachable sharedPair_valid
    (prepare_pair true false) b
  exact ⟨(hrun (.spanEnd ⟨⟨2⟩, 0⟩ ⟨3⟩)).1, (hrun (.spanEnd ⟨⟨1⟩, 0⟩ ⟨3⟩)).1,
    hrun (.spanEnd ⟨⟨2⟩, 0⟩ ⟨2⟩)⟩

end Emitter

end SpanTracking
