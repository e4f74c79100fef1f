import SpanTracking.Proofs.Rebasing
import SpanTracking.Proofs.Simulation
import SpanTracking.Proofs.Sweeps

set_option autoImplicit false

namespace SpanTracking

def Host.codes {σ : Type} (host : Host σ) (calls : List HostCall) (s : σ) : List Int32 :=
  (host.answers calls s).map Prod.snd

namespace ColorSlots

/-- The call by which the epilogue hands over the open span of the color, up to `stop`. -/
def handover? (m : Memory) (stop : Nat) (slots : ColorSlots) : Option HostCall :=
  match m.get? slots.start.id, slots.dispatch.calleeIn m with
  | some (.ptr (some start)), .ok f => some ⟨f, start, stop⟩
  | _, _ => none

def handovers (m : Memory) (stop : Nat) (colors : List ColorSlots) : List HostCall :=
  colors.filterMap (handover? m stop)

theorem isOpen_of_handover? {m : Memory} {slots : ColorSlots} {stop : Nat} {c : HostCall}
    (h : slots.handover? m stop = some c) : slots.isOpen m = true := by
  unfold handover? at h
  split at h
  case h_1 hv _ => exact isOpen_of_get? hv
  case h_2 => simp at h

theorem handovers_filter (m : Memory) (stop : Nat) (colors : List ColorSlots) :
    handovers m stop (colors.filter (isOpen m)) = handovers m stop colors := by
  rw [handovers, List.filterMap_filter]
  refine List.filterMap_congr fun slots _ => ?_
  cases hc : slots.handover? m stop with
  | none => simp
  | some c => simp [isOpen_of_handover? hc]

/-- The callback of the open span of the color is left to the host, which answers it. -/
def Bound {σ : Type} (p : Program) (host : Host σ) (m : Memory) (slots : ColorSlots) : Prop :=
  ∃ f d, slots.dispatch.calleeIn m = .ok f ∧ p.decl? f = some d ∧ d.body = none ∧
    (host.answer f).isSome

end ColorSlots

open ColorSlots (toll reached handovers isOpen)

namespace Machine

variable {σ : Type}

/-! ### Moving and handing over -/

section Code

variable {enter : FuncId → List Value → Exec σ Value} {limit : Nat} {pos stop : Value}

def rebasing (pos : Value) (slots : ColorSlots) (w : World σ) : Turn σ :=
  .on (put w slots.start.id pos)

theorem rebase_paced {colors : List ColorSlots} (hty : ∀ slots ∈ colors, slots.start.ty = .bytes) :
    Paces Emitter.rebase (rebasing pos) (fun w => ∀ slots ∈ colors, w.memory.Has slots.start.id)
      colors enter limit pos stop := by
  intro b b' whole here next old color regs w slots hmem h hr hw hl hhas
  obtain ⟨b'', hr', g⟩ := Emitter.rebase_grown h color slots
  obtain ⟨rfl, rfl⟩ : next = _ ∧ b' = b'' := by simpa [hr] using hr'
  have hhere := hw.finished _ _ _ g.code_here
  have hrestart : whole.code? ⟨b.id, b.codes.length⟩ = _ := hw.finished _ _ _ (g.code_tail 0)
  have hregs : b.regs.length + 2 ≤ regs.length := by
    simpa [g.regs] using hw.regs.trans hl
  obtain ⟨v, hv⟩ := (hhas slots hmem).get?
  obtain ⟨regs', hkeep, -, hbr⟩ := runAt_test [.state, pos, stop] hhere (hty slots hmem) hregs hv
  simp only [Comparison.holds, same_null] at hbr
  refine ⟨regs', hkeep.length, fun steps => ?_⟩
  rw [hbr, pass, ColorSlots.isOpen_of_get? hv, runFrom_entering]
  cases hn : v.isNull with
  | true => rfl
  | false =>
    simp only [Bool.not_false, ↓reduceIte, rebasing]
    congr 1
    funext steps
    rw [← runFrom_succ, runFrom_of_code hrestart, finish_cons (exec_store eval_posArg hv),
      finish_br, runFrom_entering]

/-- The block for an open span hands it over to the host. Any answer but 0 is recorded in a further
block, and stops the function. -/
def handing (host : Host σ) (e : Emitter) (stop : Nat) (slots : ColorSlots) (w : World σ) :
    Turn σ :=
  match slots.handover? w.memory stop with
  | none => .on w
  | some c =>
    if host.code c w.host = 0 then .on (w.told host [c])
    else .off (w.told host [c]) (.int (host.code c w.host).toInt)
      ((w.told host [c]).stored
        (e.record.entries (.ptr (some stop)) (.int (host.code c w.host).toInt)))

theorem call_of_bound {p : Program} {host : Host σ} {slots : ColorSlots} {start : Nat} {w : World σ}
    (h : slots.Bound p host w.memory)
    (hv : w.memory.get? slots.start.id = some (.ptr (some start))) (limit depth stop : Nat) :
    ∃ c, slots.handover? w.memory stop = some c ∧
      (callee slots.dispatch >>= fun f =>
          call p host limit depth f [.state, .ptr (some start), .ptr (some stop)]) w =
        .ok (.int (host.code c w.host).toInt) (w.told host [c]) := by
  obtain ⟨f, d, hf, hd, hb, hanswer⟩ := h
  have hcallee : callee slots.dispatch w = .ok f w := by rw [callee_eq, hf, settle_run]
  refine ⟨⟨f, start, stop⟩, by rw [ColorSlots.handover?, hv, hf], ?_⟩
  rw [bind_of_ok hcallee, call_of_ask hd hb, askHost_eq hanswer _ rfl]

theorem flush_paced {p : Program} {host : Host σ} {depth : Nat} {e : Emitter} {m : Memory}
    {stop : Nat} (hty : ∀ slots ∈ e.colors, slots.start.ty = .bytes) (hm : e.Housed m)
    (hstarts : ∀ slots ∈ e.colors, ∃ start, m.get? slots.start.id = some (.ptr start))
    (hbound : ∀ slots ∈ e.colors, slots.isOpen m = true → slots.Bound p host m) :
    Paces e.flush (handing host e stop) (fun w => w.memory = m) e.colors
      (call p host limit depth) limit pos (.ptr (some stop)) := by
  intro b b' whole here next old color regs w slots hmem h hr hw hl hw₀
  subst hw₀
  obtain ⟨b'', hr', g⟩ := Emitter.flush_grown e h color slots
  obtain ⟨rfl, rfl⟩ : next = _ ∧ b' = b'' := by simpa [hr] using hr'
  have hhere := hw.finished _ _ _ g.code_here
  have hpresent : whole.code? ⟨b.id, b.codes.length⟩ = _ := hw.finished _ _ _ (g.code_tail 0)
  have hfailed := hw.finished _ _ _ (g.code_tail 2)
  have hlen := hw.regs.trans hl
  rw [g.regs] at hlen
  simp only [List.length_append, List.length_cons, List.length_nil] at hlen
  have htypes := slots.dispatch.types_length slots.sig (b.regs.length + 2)
  have hregs : b.regs.length + 2 ≤ regs.length := by omega
  obtain ⟨start, hv⟩ := hstarts slots hmem
  obtain ⟨regs₁, hkeep₁, hstart, hbr⟩ :=
    runAt_test [.state, pos, .ptr (some stop)] hhere (hty slots hmem) hregs hv
  simp only [Comparison.holds, same_null] at hbr
  cases start with
  | none =>
    refine ⟨regs₁, hkeep₁.length, fun steps => ?_⟩
    rw [hbr, pass, ColorSlots.isOpen_of_get? hv, runFrom_entering]
    rfl
  | some start =>
    obtain ⟨c, hhandover, hcall⟩ :=
      call_of_bound (hbound slots hmem (ColorSlots.isOpen_of_get? hv)) hv limit depth stop
    have hfit : slots.dispatch.answer (b.regs.length + 2) + 1 < regs₁.length := by
      rw [hkeep₁.length]
      omega
    have hcalling := finish_calling (call p host limit depth) limit whole w slots.dispatch slots.sig
      e.options.calleeHints ⟨b.id, b.codes.length + 1⟩ ⟨b.id, b.codes.length + 2⟩ .likelyTrue hfit
      fun regs' hk => eval_args pos (.ptr (some stop)) hk (by omega) hstart fun regs => eval_endArg
    rw [hcall] at hcalling
    obtain ⟨regs₂, hkeep₂, hcode, hgo⟩ := hcalling
    refine ⟨regs₂, hkeep₂.length.trans hkeep₁.length, fun steps => ?_⟩
    rw [hbr, pass, ColorSlots.isOpen_of_get? hv, runFrom_entering]
    simp only [Value.isNull, Bool.not_false, ↓reduceIte, handing, hhandover]
    congr 1
    funext steps
    rw [← runFrom_succ, runFrom_of_code hpresent, hgo]
    by_cases hz : host.code c w.host = 0
    · rw [if_pos hz, if_pos (toInt_eq_zero.2 hz), runFrom_entering]
    · -- The block that records the failure has still to be entered.
      rw [if_neg hz, if_neg (mt toInt_eq_zero.1 hz), runFrom_entering]
      congr 1
      funext steps
      rw [← runFrom_succ, runFrom_of_code hfailed,
        finish_record eval_endArg (Operand.eval_reg hcode) (Operand.eval_reg hcode)]
      have hhoused : e.Housed (w.told host [c]).memory := hm
      exact bind_of_ok (record_of_housed hhoused _ _)

end Code

/-! ### What the blocks for open spans come to -/

section Visits

variable {m : Memory} {colors : List ColorSlots} {w : World σ}

theorem world_rebasing {slots : ColorSlots} (pos : Value) (h : slots.isOpen w.memory = true) :
    (rebasing pos slots w).world = w.rebased [slots] pos := by
  cases hv : w.memory.get? slots.start.id with
  | none => simp [ColorSlots.isOpen_eq, hv] at h
  | some v =>
    have hn : v.isNull = false := by simpa [ColorSlots.isOpen_eq, hv] using h
    simp [World.rebased_one hv, hn, rebasing]

theorem keepsOpen_rebasing (pos : Nat) : KeepsOpen (σ := σ) (rebasing (.ptr (some pos))) := by
  intro slots w hopen other
  rw [world_rebasing _ hopen, ColorSlots.isOpen_eq, World.isNull_rebased, ← ColorSlots.isOpen_eq]

theorem smooth_rebasing (pos : Value) (m : Memory) (colors : List ColorSlots) (w : World σ) :
    Smooth (rebasing pos) m colors w := by
  induction colors generalizing w with
  | nil => trivial
  | cons slots rest ih =>
    rw [Smooth]
    split
    · exact ⟨_, rfl, ih _⟩
    · exact ih w

theorem visitAll_rebasing (pos : Nat) (hopen : ∀ slots ∈ colors, slots.isOpen w.memory = true) :
    visitAll (rebasing (.ptr (some pos))) colors w = w.rebased colors (.ptr (some pos)) := by
  induction colors generalizing w with
  | nil => exact (w.rebased_nil _).symm
  | cons slots rest ih =>
    obtain ⟨hslots, hrest⟩ := List.forall_mem_cons.1 hopen
    have hkept : ∀ other ∈ rest,
        other.isOpen (w.rebased [slots] (.ptr (some pos))).memory = true := by
      intro other hmem
      rw [← world_rebasing _ hslots, keepsOpen_rebasing pos slots w hslots, hrest other hmem]
    calc visitAll (rebasing (.ptr (some pos))) (slots :: rest) w
        = visitAll (rebasing (.ptr (some pos))) rest (w.rebased [slots] (.ptr (some pos))) := by
          rw [← world_rebasing _ hslots, visitAll, visitAll, List.foldl_cons]
      _ = w.rebased (slots :: rest) (.ptr (some pos)) := by rw [ih hkept, World.rebased_cons]

theorem world_handing (host : Host σ) (e : Emitter) (stop : Nat) (slots : ColorSlots)
    (w : World σ) :
    (handing host e stop slots w).world = w.told host (slots.handover? w.memory stop).toList := by
  unfold handing
  cases slots.handover? w.memory stop with
  | none => exact (w.told_nil host).symm
  | some c => dsimp only; split <;> rfl

theorem keepsOpen_handing (host : Host σ) (e : Emitter) (stop : Nat) :
    KeepsOpen (handing host e stop) := by
  intro slots w _ other
  rw [world_handing]
  rfl

theorem visitAll_handing (host : Host σ) (e : Emitter) (stop : Nat) (colors : List ColorSlots)
    (w : World σ) : visitAll (handing host e stop) colors w =
      w.told host (handovers w.memory stop colors) := by
  induction colors using List.reverseRecOn with
  | nil => exact (w.told_nil host).symm
  | append_singleton colors slots ih =>
    rw [visitAll_concat, ih, world_handing, handovers, handovers, List.filterMap_append,
      World.told_append]
    rfl

/-- A callback that fails after those of other colors have been called stops the function. -/
theorem handing_off {host : Host σ} {stop : Nat} {slots : ColorSlots} {c : HostCall} {code : Int32}
    (e : Emitter) (hc : slots.handover? w.memory stop = some c)
    (hcode : host.code c (w.told host (handovers w.memory stop colors)).host = code)
    (hne : code ≠ 0) :
    handing host e stop slots
        (visitAll (handing host e stop) (colors.filter (isOpen w.memory)) w) =
      .off (w.told host (handovers w.memory stop colors ++ [c])) (.int code.toInt)
        ((w.told host (handovers w.memory stop colors ++ [c])).stored
          (e.record.entries (.ptr (some stop)) (.int code.toInt))) := by
  have hc' : slots.handover? (w.told host (handovers w.memory stop colors)).memory stop = some c :=
    hc
  subst hcode
  rw [visitAll_handing, ColorSlots.handovers_filter, World.told_append, handing, hc']
  exact if_neg hne

theorem smooth_handing {host : Host σ} {stop : Nat} (e : Emitter) (hw : w.memory = m)
    (hcodes : ∀ code ∈ host.codes (handovers m stop colors) w.host, code = 0) :
    Smooth (handing host e stop) m colors w := by
  induction colors generalizing w with
  | nil => trivial
  | cons slots rest ih =>
    subst hw
    rw [Smooth]
    cases hc : slots.handover? w.memory stop with
    | none =>
      rw [handovers, List.filterMap_cons_none hc] at hcodes
      split
      · exact ⟨w, by rw [handing, hc], ih rfl hcodes⟩
      · exact ih rfl hcodes
    | some c =>
      rw [handovers, List.filterMap_cons_some hc, Host.codes, Host.answers,
        List.map_cons, List.forall_mem_cons] at hcodes
      rw [if_pos (ColorSlots.isOpen_of_handover? hc)]
      refine ⟨w.told host [c], by rw [handing, hc]; exact if_pos hcodes.1, ih rfl hcodes.2⟩

end Visits

end Machine

/-! ### Generated parsers -/

namespace EventParser

open Machine

def sweeping (emit : BlockId → Nat → ColorSlots → Build Body BlockId) (colors : List ColorSlots)
    (here : BlockId) : Build Body Unit := do
  Build.check (Emitter.checkTarget here)
  let next ← Emitter.chain emit here 0 colors
  Body.ret next (.status 0)

theorem beginning_eq (e : Emitter) : beginning e = sweeping Emitter.rebase e.colors := by
  funext here
  simp only [beginning, Emitter.prologue, Emitter.rebaseFrom_eq, bind_assoc, sweeping]

theorem ending_eq (e : Emitter) : ending e = sweeping e.flush e.colors := by
  funext here
  simp only [ending, Emitter.epilogue, Emitter.flushFrom_eq, bind_assoc, sweeping]

def Sweeps (body : Body) (emit : BlockId → Nat → ColorSlots → Build Body BlockId)
    (colors : List ColorSlots) : Prop :=
  ∃ name b next rest,
    Emitter.chain emit body.entry 0 colors (.start body.id name parserSig parserParams) =
      .ok next b ∧ b.Open next rest ∧ b.Within body ∧
      body.code? next = some (rest, some (.ret (.status 0)))

section Sweeps

variable {emit : BlockId → Nat → ColorSlots → Build Body BlockId} {colors : List ColorSlots}

theorem defineParser_sweeps (ha : Emitter.Appends emit) {name : String} {p p' : Program}
    {f : FuncId} (h : defineParser name (fun _ => sweeping emit colors) p = .ok f p') :
    (∃ body, p'.body? f = some body ∧ Sweeps body emit colors) ∧ p.Leads p' := by
  obtain ⟨q, d, body, hleads, -, -, -, hrun, hdefine⟩ := defineParser_cases h
  obtain ⟨next, b, rest, hchain, hnext, -, hhead, -⟩ :=
    Emitter.chain_appends ha colors (open_start f name) 0
  obtain ⟨body', hret, g⟩ := (Body.grown_self hnext).terminate (.ret (.status 0))
  rw [sweeping, bind_of_ok (Emitter.checkTarget_ok (open_start f name) rfl),
    bind_of_ok hchain] at hrun
  obtain rfl : body = body' := (EStateM.Result.ok.inj (hrun.symm.trans hret)).2
  have hid : body.id = f := (hhead.trans g.head_eq).id
  refine ⟨⟨body, hid ▸ Program.define_body hdefine, name, b, next, rest, ?_, hnext, g.within, ?_⟩,
    hleads.trans (.single (.define hdefine))⟩
  · rw [Body.entry, hid]
    exact hchain
  · simpa using g.code_here

theorem Sweeps.run {σ : Type} {visit : ColorSlots → World σ → Turn σ} {inv : World σ → Prop}
    {enter : FuncId → List Value → Exec σ Value} {limit : Nat} {pos stop : Value} {body : Body}
    {w : World σ} (h : Sweeps body emit colors) (ha : Emitter.Appends emit)
    (hpaces : Paces emit visit inv colors enter limit pos stop)
    (hinv : ∀ slots ∈ colors, ∀ w w₁, inv w → slots.isOpen w.memory = true →
      visit slots w = .on w₁ → inv w₁) (hw : inv w) :
    runBody enter limit body [.state, pos, stop] w = entering limit limit w fun steps =>
      sweep limit visit (fun _ w => .ok (.int 0) w) colors steps w := by
  obtain ⟨name, b, next, rest, hchain, hnext, hwithin, hret⟩ := h
  rw [runBody, runFrom_entering]
  congr 1
  funext steps
  exact chain_paced ha hpaces hinv (open_start body.id name) hchain hnext hwithin hret (by simp) hw
    steps

end Sweeps

theorem generate_sweeps {options : SpanOptions} {c : Coloring} {p p' : Program}
    {parser : EventParser} (hp : p.Reachable) (hc : c.Valid)
    (h : generate options c p = .ok parser p') :
    parser.emitter.Serves parser.program ∧ parser.emitter.coloring = c ∧
      (∃ body, parser.program.body? parser.pre = some body ∧
        Sweeps body Emitter.rebase parser.emitter.colors) ∧
      ∃ body, parser.program.body? parser.post = some body ∧
        Sweeps body parser.emitter.flush parser.emitter.colors := by
  obtain ⟨hgenerated, rfl, hleads⟩ := generate_ok hp.numbered hc h
  obtain ⟨-, p₁, p₂, p₃, p₄, hprepare, -, -, hpre, hpost⟩ := generate_cases h
  rw [beginning_eq] at hpre
  rw [ending_eq] at hpost
  obtain ⟨⟨body, hbody, hsweeps⟩, -⟩ := defineParser_sweeps Emitter.rebase_appends hpre
  obtain ⟨hends, hlast⟩ := defineParser_sweeps parser.emitter.flush_appends hpost
  refine ⟨⟨hp.leads hleads, hgenerated.ready, Emitter.prepare_lists hprepare⟩,
    hgenerated.coloring, ⟨body, ?_, hsweeps⟩, hends⟩
  obtain ⟨d, hd, hb⟩ := Option.bind_eq_some_iff.1 hbody
  obtain ⟨d', hd', -, -, hbodies⟩ := hlast.extends.decls _ d hd
  exact Option.bind_eq_some_iff.2 ⟨d', hd', hbodies body hb⟩

theorem ofColors_sweeps {options : SpanOptions} {colors : List (List String)} {parser : EventParser}
    (h : ofColors options colors = .ok parser) :
    parser.emitter.Serves parser.program ∧ parser.emitter.colors.length = colors.length ∧
      (∃ body, parser.program.body? parser.pre = some body ∧
        Sweeps body Emitter.rebase parser.emitter.colors) ∧
      ∃ body, parser.program.body? parser.post = some body ∧
        Sweeps body parser.emitter.flush parser.emitter.colors := by
  obtain ⟨spans, p, hspans, hassemble⟩ := assemble_announced options colors
  have hreachable : p.Reachable := sharedProgram_nil_reachable.leads hspans.leads
  rw [ofColors, hassemble] at h
  split at h
  case h_2 => simp at h
  rename_i made p' hrun
  obtain rfl := Except.ok.inj h
  obtain ⟨c, q, hc, hgenerate⟩ := bind_ok hrun
  obtain ⟨hcoloring, rfl⟩ := Build.check_ok hc
  obtain ⟨-, hcolors, hvalid⟩ := Coloring.ofColors_eq_ok.1 hcoloring
  obtain ⟨hserves, hmade, hbodies⟩ := generate_sweeps hreachable hvalid hgenerate
  refine ⟨hserves, ?_, hbodies⟩
  rw [hserves.ready.length, hmade, hcolors, number_length, ← List.length_map List.length,
    hspans.lengths, List.length_map]

section Calls

variable {σ : Type} {p : Program} {e : Emitter} {f : FuncId} {body : Body} {w : World σ}

theorem call_rebasing (he : e.Serves p) (hbody : p.body? f = some body)
    (hsweeps : Sweeps body Emitter.rebase e.colors)
    (hsize : p.layout.fields.length ≤ w.memory.values.length) (host : Host σ)
    (limit depth pos : Nat) (stop : Value) :
    call p host limit (depth + 1) f [.state, .ptr (some pos), stop] w =
      if 1 + toll w.memory e.colors ≤ limit then
        .ok (.int 0) (w.rebased (reached w.memory limit e.colors) (.ptr (some pos)))
      else .error (.stepLimit limit)
        (w.rebased (reached w.memory limit e.colors) (.ptr (some pos))) := by
  have hhas : ∀ slots ∈ e.colors, w.memory.Has slots.start.id := by
    intro slots hmem
    obtain ⟨color, hcolor⟩ := List.getElem?_of_mem hmem
    exact he.housed hsize (.start color) _ (Emitter.field_start hcolor)
  rw [call_of_body hbody, hsweeps.run Emitter.rebase_appends
    (rebase_paced fun slots hmem => he.start_ty hmem) ?_ hhas,
    enter_smooth (keepsOpen_rebasing pos) (smooth_rebasing _ _ _ _), visitAll_rebasing]
  · intro slots hmem
    exact ColorSlots.isOpen_of_mem_reached hmem
  · rintro slots - w _ hw - ⟨⟩ other hmem
    exact Memory.has_set.2 (hw other hmem)

theorem call_handing (he : e.Serves p) (hbody : p.body? f = some body)
    (hsweeps : Sweeps body e.flush e.colors)
    (hsize : p.layout.fields.length ≤ w.memory.values.length)
    (hstarts : ∀ slots ∈ e.colors, ∃ start, w.memory.get? slots.start.id = some (.ptr start))
    {host : Host σ}
    (hbound : ∀ slots ∈ e.colors, slots.isOpen w.memory = true → slots.Bound p host w.memory)
    (limit depth stop : Nat) (pos : Value) :
    call p host limit (depth + 1) f [.state, pos, .ptr (some stop)] w =
      entering limit limit w fun steps =>
        sweep limit (handing host e stop) (fun _ w => .ok (.int 0) w) e.colors steps w := by
  rw [call_of_body hbody]
  refine hsweeps.run e.flush_appends (flush_paced (fun slots hmem => he.start_ty hmem)
    (he.housed hsize) hstarts hbound) ?_ rfl
  intro slots _ w' w₁ hw' _ hvisit
  have hworld := world_handing host e stop slots w'
  rw [hvisit, Turn.world_on] at hworld
  rw [hworld]
  exact hw'

theorem invoke_of_call {host : Host σ} {limit depth pos stop : Nat} {c : Prop} [Decidable c]
    {code : Int32} {fault : Fault} {done left : World σ}
    (h : call p host limit depth f [.state, .ptr (some pos), .ptr (some stop)] w =
      if c then .ok (.int code.toInt) done else .error fault left) :
    invoke p host limit depth f pos stop w = if c then .ok code done else .error fault left := by
  rw [invoke]
  split
  case isTrue hc =>
    rw [if_pos hc] at h
    rw [bind_of_ok h, settle_run, asStatus_toInt]
  case isFalse hc =>
    rw [if_neg hc] at h
    exact bind_of_error h

end Calls

/-- What the functions for the start and the end of a buffer do with a limit, in a record whose
starts are positions or null. Each needs one block for its entry, one for each color and one more
for each color with an open span. If the limit is lower, what has been done is what the blocks of
the colors do that have been reached: starts are moved, or spans are handed over to the host, in the
order of the colors. A callback that fails stops the second function in a block of its own, without
which nothing is recorded. -/
theorem buffer_costs {options : SpanOptions} {colors : List (List String)} {parser : EventParser}
    (h : ofColors options colors = .ok parser) {σ : Type} {w : World σ}
    (hsize : parser.program.layout.fields.length ≤ w.memory.values.length)
    (hstarts : ∀ slots ∈ parser.emitter.colors, ∃ start,
      w.memory.get? slots.start.id = some (.ptr start))
    (host : Host σ) (limit depth pos stop : Nat) :
    invoke parser.program host limit (depth + 1) parser.pre pos stop w =
        (if 1 + colors.length + parser.emitter.colors.countP (isOpen w.memory) ≤ limit then
          .ok 0 (w.rebased (reached w.memory limit parser.emitter.colors) (.ptr (some pos)))
        else .error (.stepLimit limit)
          (w.rebased (reached w.memory limit parser.emitter.colors) (.ptr (some pos)))) ∧
      ((∀ slots ∈ parser.emitter.colors, slots.isOpen w.memory = true →
          slots.Bound parser.program host w.memory) →
        ((∀ code ∈ host.codes (handovers w.memory stop parser.emitter.colors) w.host, code = 0) →
          invoke parser.program host limit (depth + 1) parser.post pos stop w =
            if 1 + colors.length + parser.emitter.colors.countP (isOpen w.memory) ≤ limit then
              .ok 0 (w.told host (handovers w.memory stop
                (reached w.memory limit parser.emitter.colors)))
            else .error (.stepLimit limit) (w.told host (handovers w.memory stop
              (reached w.memory limit parser.emitter.colors)))) ∧
        ∀ before slots rest c code, parser.emitter.colors = before ++ slots :: rest →
          (∀ code ∈ host.codes (handovers w.memory stop before) w.host, code = 0) →
          slots.handover? w.memory stop = some c →
          host.code c (w.told host (handovers w.memory stop before)).host = code → code ≠ 0 →
          invoke parser.program host limit (depth + 1) parser.post pos stop w =
            if 3 + toll w.memory before ≤ limit then
              .ok code ((w.told host (handovers w.memory stop before ++ [c])).stored
                (parser.emitter.record.entries (.ptr (some stop)) (.int code.toInt)))
            else .error (.stepLimit limit) (w.told host (handovers w.memory stop
              (reached w.memory limit parser.emitter.colors)))) := by
  obtain ⟨hserves, hlength, ⟨pre, hpre, hbegins⟩, post, hpost, hends⟩ := ofColors_sweeps h
  have htoll : 1 + toll w.memory parser.emitter.colors =
      1 + colors.length + parser.emitter.colors.countP (isOpen w.memory) := by
    rw [ColorSlots.toll_eq, hlength, Nat.add_assoc]
  rw [← htoll]
  refine ⟨invoke_of_call (call_rebasing hserves hpre hbegins hsize host limit depth pos _), ?_⟩
  intro hbound
  have hcall := call_handing hserves hpost hends hsize hstarts hbound limit depth stop
    (.ptr (some pos))
  constructor
  · intro hcodes
    refine invoke_of_call (hcall.trans ?_)
    rw [enter_smooth (keepsOpen_handing _ _ _) (smooth_handing _ rfl hcodes), visitAll_handing]
    rfl
  · intro before slots rest c code hcolors hcodes hc hcode hne
    refine invoke_of_call (hcall.trans ?_)
    rw [hcolors, enter_stopped (keepsOpen_handing _ _ _) (smooth_handing _ rfl hcodes)
      (ColorSlots.isOpen_of_handover? hc) (handing_off _ hc hcode hne), visitAll_handing]

def mixedColors : List ColorSlots :=
  [⟨[⟨0⟩, ⟨1⟩], [⟨0⟩, ⟨1⟩], callbackSig .external, ⟨⟨4⟩, "_span_pos0", .bytes⟩,
      some ⟨⟨5⟩, "_span_cb0", (callbackSig .external).ptr⟩,
      .indirect ⟨⟨5⟩, "_span_cb0", (callbackSig .external).ptr⟩ [⟨0⟩, ⟨1⟩]⟩,
    ⟨[⟨2⟩], [⟨2⟩], callbackSig .external, ⟨⟨6⟩, "_span_pos1", .bytes⟩, none, .direct ⟨2⟩⟩]

theorem exists_ok_of_any {ε α : Type} {x : Except ε α} {P : α → Prop} [DecidablePred P]
    (h : x.toOption.any (fun a => decide (P a)) = true) : ∃ a, x = .ok a ∧ P a := by
  cases x with
  | error e => simp [Except.toOption] at h
  | ok a => exact ⟨a, rfl, by simpa [Except.toOption] using h⟩

theorem ofColors_mixed : ∃ parser, ofColors {} [["on_a", "on_b"], ["on_c"]] = .ok parser ∧
    (parser.emitter.colors = mixedColors ∧
      parser.emitter.record =
        ⟨sharedFields.error, sharedFields.reason, sharedFields.errorPos, ⟨0⟩⟩ ∧
      parser.program.layout.fields.length = 7 ∧
      ∀ f ∈ [(⟨1⟩ : FuncId), ⟨2⟩], (parser.program.decl? f).map Decl.body = some none) :=
  exists_ok_of_any (by decide +kernel)

def answering (code : Int32) : Host Unit where
  answer f := some fun _ _ s => (if f = ⟨2⟩ then code else 0, s)

def bothOpen (first second : Nat) (calls : Array HostCall) : World Unit :=
  ⟨⟨[.func none, .int 0, .ptr none, .ptr none, .ptr (some first), .func (some ⟨1⟩),
    .ptr (some second)]⟩, (), calls⟩

/-- A limit in the midst of the colors; one after a callback has failed but before this is recorded,
and one that is enough for this. -/
theorem buffer_costs_mixed : ∃ parser, ofColors {} [["on_a", "on_b"], ["on_c"]] = .ok parser ∧
    (∀ host, invoke parser.program host 3 1 parser.pre 8 9 (bothOpen 4 6 #[]) =
      .error (.stepLimit 3) (bothOpen 8 6 #[])) ∧
    invoke parser.program (answering 0) 3 1 parser.post 8 9 (bothOpen 4 6 #[]) =
      .error (.stepLimit 3) (bothOpen 4 6 #[⟨⟨1⟩, 4, 9⟩]) ∧
    invoke parser.program (answering 7) 4 1 parser.post 8 9 (bothOpen 4 6 #[]) =
      .error (.stepLimit 4) (bothOpen 4 6 #[⟨⟨1⟩, 4, 9⟩, ⟨⟨2⟩, 6, 9⟩]) ∧
    invoke parser.program (answering 7) 5 1 parser.post 8 9 (bothOpen 4 6 #[]) =
      .ok 7 ⟨⟨[.func none, .int 7, .text ⟨0⟩, .ptr (some 9), .ptr (some 4), .func (some ⟨1⟩),
        .ptr (some 6)]⟩, (), #[⟨⟨1⟩, 4, 9⟩, ⟨⟨2⟩, 6, 9⟩]⟩ := by
  obtain ⟨parser, hparser, hcolors, hrecord, hsize, hbodies⟩ := ofColors_mixed
  have hfits : parser.program.layout.fields.length ≤ (bothOpen 4 6 #[]).memory.values.length :=
    hsize.le
  have hstarts : ∀ slots ∈ parser.emitter.colors, ∃ start,
      (bothOpen 4 6 #[]).memory.get? slots.start.id = some (.ptr start) := by
    rw [hcolors]
    simp [mixedColors, bothOpen, Memory.get?]
  have hbound : ∀ code, ∀ slots ∈ parser.emitter.colors,
      slots.isOpen (bothOpen 4 6 #[]).memory = true →
        slots.Bound parser.program (answering code) (bothOpen 4 6 #[]).memory := by
    intro code slots hmem _
    rw [hcolors, mixedColors, List.mem_pair] at hmem
    obtain ⟨d, hd, hb⟩ := Option.map_eq_some_iff.1 (hbodies ⟨1⟩ (by decide))
    obtain ⟨d', hd', hb'⟩ := Option.map_eq_some_iff.1 (hbodies ⟨2⟩ (by decide))
    obtain rfl | rfl := hmem
    · exact ⟨⟨1⟩, d, rfl, hd, hb, rfl⟩
    · exact ⟨⟨2⟩, d', rfl, hd', hb', rfl⟩
  have hzero : (answering 0).codes
      (handovers (bothOpen 4 6 #[]).memory 9 mixedColors) () = [0, 0] := rfl
  have hbefore : (answering 7).codes
      (handovers (bothOpen 4 6 #[]).memory 9 (mixedColors.take 1)) () = [0] := rfl
  have hcosts := buffer_costs hparser hfits hstarts
  have hfails := fun limit => ((hcosts (answering 7) limit 0 8 9).2 (hbound 7)).2
    (mixedColors.take 1) _ [] _ 7 hcolors (by simp [hbefore]) rfl rfl (by decide)
  refine ⟨parser, hparser, fun host => ?_, ?_, ?_, ?_⟩
  · rw [(hcosts host 3 0 8 9).1, hcolors]
    rfl
  · rw [((hcosts (answering 0) 3 0 8 9).2 (hbound 0)).1 (by simp [hcolors, hzero]), hcolors]
    rfl
  · rw [hfails, hcolors]
    rfl
  · rw [hfails, hrecord]
    rfl

end EventParser

end SpanTracking
