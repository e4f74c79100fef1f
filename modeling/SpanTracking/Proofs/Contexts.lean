import SpanTracking.Machine.Script
import SpanTracking.Proofs.Authors
import SpanTracking.Proofs.Parallel

set_option autoImplicit false

namespace SpanTracking

namespace World

variable {σ : Type}

/-- The world `w'` is `w`, except that the given fields hold the given values. -/
structure Changed (changes : List (FieldId × Value)) (w w' : World σ) : Prop where
  holds : ∀ change ∈ changes, w'.memory.get? change.1 = some change.2
  others : ∀ id, (∀ change ∈ changes, change.1 ≠ id) → w'.memory.get? id = w.memory.get? id
  host : w'.host = w.host
  calls : w'.calls = w.calls

def stored (w : World σ) (changes : List (FieldId × Value)) : World σ :=
  changes.foldl (fun w change => Machine.put w change.1 change.2) w

@[simp] theorem stored_nil (w : World σ) : w.stored [] = w := rfl

@[simp] theorem stored_cons (w : World σ) (id : FieldId) (v : Value)
    (changes : List (FieldId × Value)) :
    w.stored ((id, v) :: changes) = (Machine.put w id v).stored changes := rfl

theorem changed_stored {changes : List (FieldId × Value)} {w : World σ}
    (hnodup : (changes.map Prod.fst).Nodup) (hhas : ∀ change ∈ changes, w.memory.Has change.1) :
    w.Changed changes (w.stored changes) := by
  induction changes generalizing w with
  | nil => exact ⟨by simp, fun _ _ => rfl, rfl, rfl⟩
  | cons change rest ih =>
    obtain ⟨id, v⟩ := change
    simp only [List.map_cons, List.nodup_cons] at hnodup
    simp only [List.forall_mem_cons] at hhas
    have hrest : (Machine.put w id v).Changed rest ((Machine.put w id v).stored rest) :=
      ih hnodup.2 fun change hmem => Memory.has_set.2 (hhas.2 change hmem)
    -- No later change is to the field of the first one.
    have hkept : ((Machine.put w id v).stored rest).memory.get? id = some v := by
      rw [hrest.others id fun change hmem heq => hnodup.1 (heq ▸ List.mem_map_of_mem hmem)]
      obtain ⟨u, hu⟩ := hhas.1.get?
      exact Memory.get?_set_self hu
    refine ⟨?_, fun other hother => ?_, hrest.host, hrest.calls⟩
    · rw [List.forall_mem_cons]
      exact ⟨hkept, hrest.holds⟩
    · rw [List.forall_mem_cons] at hother
      refine (hrest.others other hother.2).trans ?_
      exact Memory.get?_set_ne hother.1

end World

def ErrorRecord.entries (r : ErrorRecord) (pos code : Value) : List (FieldId × Value) :=
  [(r.error.id, code), (r.reason.id, .text r.message), (r.errorPos.id, pos)]

def Emitter.failure (e : Emitter) (target : FuncId) (pos code : Value) :
    List (FieldId × Value) :=
  e.record.entries pos code ++ [(e.current.id, .func (some target))]

def Dispatch.calleeIn (m : Memory) : Dispatch → Except Fault FuncId
  | direct f => .ok f
  | indirect slot _ =>
    match m.get? slot.id with
    | some v => Machine.asCallee v
    | none => .error (.unknownField slot.id)

namespace Machine

variable {σ : Type}

/-- What closing a span at `pos` comes to, in the function called `name`: the start, which is
`start`, is cleared, and the callback is called. -/
def closing (enter : FuncId → List Value → Exec σ Value) (e : Emitter) (slots : ColorSlots)
    (callback target : FuncId) (name : String) (start pos : Value) :
    Exec σ (Option Value) := fun w =>
  if e.options.debugChecks && start.isNull then .error (.trap name) w
  else
    match enter callback [.state, start, pos] (w.stored [(slots.start.id, .ptr none)]) with
    | .error fault w₁ => .error fault w₁
    | .ok code w₁ =>
      if code = .int 0 then .ok none w₁
      else .ok (some (.int e.options.errorSentinel.toInt)) (w₁.stored (e.failure target pos code))

def flushing (enter : FuncId → List Value → Exec σ Value) (e : Emitter) (stop : Value)
    (slots : ColorSlots) : Exec σ (Option Value) := fun w =>
  match w.memory.get? slots.start.id with
  | none => .error (.unknownField slots.start.id) w
  | some start =>
    if start.isNull then .ok none w
    else
      match slots.dispatch.calleeIn w.memory with
      | .error fault => .error fault w
      | .ok f =>
        match enter f [.state, start, stop] w with
        | .error fault w₁ => .error fault w₁
        | .ok code w₁ =>
          if code = .int 0 then .ok none w₁
          else .ok (some code) (w₁.stored (e.record.entries stop code))

def further (deal : ColorSlots → Exec σ (Option Value)) :
    EStateM.Result Fault (World σ) (Option Value) → ColorSlots →
      EStateM.Result Fault (World σ) (Option Value)
  | .ok none w, slots => deal slots w
  | ended, _ => ended

section Turns

variable {deal deal' : ColorSlots → Exec σ (Option Value)}

theorem foldl_further_of_ended {ended : EStateM.Result Fault (World σ) (Option Value)}
    (h : ∀ w, ended ≠ .ok none w) (list : List ColorSlots) :
    list.foldl (further deal) ended = ended := by
  induction list with
  | nil => rfl
  | cons slots rest ih =>
    have hstep : further deal ended slots = ended := by
      unfold further
      split
      · exact absurd rfl (h _)
      · rfl
    rw [List.foldl_cons, hstep, ih]

theorem inTurn_eq_foldl (list : List ColorSlots) (w : World σ) :
    inTurn deal list w = list.foldl (further deal) (.ok none w) := by
  induction list generalizing w with
  | nil => rfl
  | cons slots rest ih =>
    rw [inTurn, bind_eq, List.foldl_cons, further]
    cases deal slots w with
    | ok stopped w₁ =>
      cases stopped with
      | none => exact ih w₁
      | some v => exact (foldl_further_of_ended (by simp) rest).symm
    | error fault w₁ => exact (foldl_further_of_ended (by simp) rest).symm

/-- Two ways to deal with a color that agree as long as an invariant holds, which they keep. -/
theorem inTurn_congr (inv : World σ → Prop) (heq : ∀ slots w, inv w → deal slots w = deal' slots w)
    (hinv : ∀ slots w w', inv w → deal' slots w = .ok none w' → inv w') (list : List ColorSlots)
    {w : World σ} (hw : inv w) : inTurn deal list w = inTurn deal' list w := by
  induction list generalizing w with
  | nil => rfl
  | cons slots rest ih =>
    rw [inTurn, inTurn, bind_eq, bind_eq, heq slots w hw]
    cases hdeal : deal' slots w with
    | ok stopped w₁ =>
      cases stopped with
      | none => exact ih (hinv slots w w₁ hw hdeal)
      | some v => rfl
    | error fault w₁ => rfl

end Turns

end Machine

namespace Emitter

def Housed (e : Emitter) (m : Memory) : Prop := ∀ x f, e.field? x = some f → m.Has f.id

theorem Housed.of_length {e : Emitter} {m m' : Memory} (h : e.Housed m)
    (hlen : m'.values.length = m.values.length) : e.Housed m' := by
  intro x f hf
  rw [Memory.Has, hlen]
  exact h x f hf

namespace Serves

variable {e : Emitter} {p : Program}

theorem housed (h : e.Serves p) {m : Memory} (hm : p.layout.fields.length ≤ m.values.length) :
    e.Housed m :=
  fun _ _ hf => h.has_field_of_le hf hm

theorem failure_nodup (h : e.Serves p) (target : FuncId) (pos code : Value) :
    ((e.failure target pos code).map Prod.fst).Nodup := by
  have hne : ∀ {x y : Place} {f g : Field}, e.field? x = some f → e.field? y = some g → x ≠ y →
      f.id ≠ g.id := h.id_ne
  simp [failure, ErrorRecord.entries, hne (x := .error) (y := .reason) rfl rfl,
    hne (x := .error) (y := .errorPos) rfl rfl, hne (x := .error) (y := .current) rfl rfl,
    hne (x := .reason) (y := .errorPos) rfl rfl, hne (x := .reason) (y := .current) rfl rfl,
    hne (x := .errorPos) (y := .current) rfl rfl]

end Serves

theorem Housed.failure {e : Emitter} {m : Memory} (h : e.Housed m) (target : FuncId)
    (pos code : Value) : ∀ change ∈ e.failure target pos code, m.Has change.1 := by
  simp only [Emitter.failure, ErrorRecord.entries, List.cons_append, List.nil_append,
    List.forall_mem_cons, List.not_mem_nil, false_imp_iff, implies_true, and_true]
  exact ⟨h .error _ rfl, h .reason _ rfl, h .errorPos _ rfl, h .current _ rfl⟩

end Emitter

namespace Machine

variable {σ : Type} {enter : FuncId → List Value → Exec σ Value} {e : Emitter} {slots : ColorSlots}
  {w : World σ}

theorem write_of_has {id : FieldId} (h : w.memory.Has id) (v : Value) :
    write id v w = .ok () (put w id v) := by
  obtain ⟨u, hu⟩ := h.get?
  exact write_ok hu v

theorem record_of_housed (h : e.Housed w.memory) (pos code : Value) :
    record e.record pos code w = .ok () (w.stored (e.record.entries pos code)) := by
  refine andThen (write_of_has (h .error _ rfl) code) ?_
  refine andThen (write_of_has (Memory.has_set.2 (h .reason _ rfl)) _) ?_
  exact write_of_has (Memory.has_set.2 (Memory.has_set.2 (h .errorPos _ rfl))) pos

theorem callee_eq (d : Dispatch) (w : World σ) :
    callee d w = settle (d.calleeIn w.memory) w := by
  cases d with
  | direct f => rfl
  | indirect slot candidates =>
    rcases read_cases slot.id w with ⟨v, hv, hread⟩ | ⟨hv, hread⟩
    · rw [callee, bind_of_ok hread, Dispatch.calleeIn, hv]
    · rw [callee, bind_of_error hread, Dispatch.calleeIn, hv]
      rfl

def Sized (enter : FuncId → List Value → Exec σ Value) : Prop :=
  ∀ f args w code w', enter f args w = .ok code w' →
    w'.memory.values.length = w.memory.values.length

theorem sized_call (p : Program) (host : Host σ) (limit depth : Nat) :
    Sized (call p host limit depth) :=
  fun _ _ _ _ _ h => call_length h

theorem closeSpan_of_housed (hsized : Sized enter) (h : e.Housed w.memory) {start : Value}
    (hstart : w.memory.get? slots.start.id = some start) (callback target : FuncId) (name : String)
    (pos : Value) :
    closeSpan enter e slots callback target name pos w =
      closing enter e slots callback target name start pos w := by
  have hplace : w.memory.Has slots.start.id := (List.getElem?_eq_some_iff.1 hstart).1
  rw [closeSpan, bind_of_ok (read_ok hstart), closing]
  split
  · rfl
  rw [handOver, bind_of_ok (write_of_has hplace _), bind_eq, World.stored_cons, World.stored_nil]
  cases hcall : enter callback [.state, start, pos] (put w slots.start.id (.ptr none)) with
  | error fault w₁ => rfl
  | ok code w₁ =>
    have hhoused : e.Housed w₁.memory :=
      h.of_length ((hsized _ _ _ _ _ hcall).trans (Memory.set_length _ _ _))
    dsimp only
    split
    · rfl
    · have hcurrent : (w₁.stored (e.record.entries pos code)).memory.Has e.current.id := by
        simp only [ErrorRecord.entries, World.stored_cons, World.stored_nil, put_memory,
          Memory.has_set]
        exact hhoused .current _ rfl
      rw [bind_of_ok (record_of_housed hhoused pos code),
        bind_of_ok (write_of_has hcurrent _)]
      rfl

theorem flush_of_housed (hsized : Sized enter) (h : e.Housed w.memory) (stop : Value) :
    flush enter e slots stop w = flushing enter e stop slots w := by
  rcases read_cases slots.start.id w with ⟨start, hstart, hread⟩ | ⟨hstart, hread⟩
  · rw [flush, bind_of_ok hread, flushing, hstart]
    dsimp only
    split
    · rfl
    rw [bind_eq, callee_eq]
    cases slots.dispatch.calleeIn w.memory with
    | error fault => rfl
    | ok f =>
      simp only [settle]
      rw [bind_eq]
      cases hcall : enter f [.state, start, stop] w with
      | error fault w₁ => rfl
      | ok code w₁ =>
        dsimp only
        split
        · rfl
        · exact bind_of_ok (record_of_housed (h.of_length (hsized _ _ _ _ _ hcall)) stop code)
  · rw [flush, bind_of_error hread, flushing, hstart]

theorem flushing_housed (hsized : Sized enter) (h : e.Housed w.memory) {stop : Value}
    {w' : World σ} (hflush : flushing enter e stop slots w = .ok none w') : e.Housed w'.memory := by
  unfold flushing at hflush
  split at hflush
  · simp at hflush
  split at hflush
  · obtain ⟨-, rfl⟩ := EStateM.Result.ok.inj hflush
    exact h
  split at hflush
  · simp at hflush
  split at hflush
  · simp at hflush
  · rename_i hcall
    split at hflush
    · obtain ⟨-, rfl⟩ := EStateM.Result.ok.inj hflush
      exact h.of_length (hsized _ _ _ _ _ hcall)
    · simp at hflush

end Machine

/-- On the way from `b` to `whole`, the failure path was finished with `target`. Nothing else was
added to it. -/
def Resumption.FinishedAt (path : Resumption) (target : FuncId) (b whole : Body) : Prop :=
  ∃ (p : Program) (b₁ b₂ : Body), b.Within b₁ ∧ b₁.code? path.block = b.code? path.block ∧
    path.resumeAt p target b₁ = .ok () b₂ ∧ b₂.Within whole

namespace Resumption.FinishedAt

variable {path : Resumption} {target : FuncId} {b whole : Body}

theorem within (h : path.FinishedAt target b whole) : b.Within whole := by
  obtain ⟨p, b₁, b₂, hw₁, -, hresume, hw₂⟩ := h
  obtain ⟨-, old, g⟩ := resumeAt_inv hresume
  exact (hw₁.trans g.within).trans hw₂

theorem code (h : path.FinishedAt target b whole) {is : List Instr} (hopen : b.Open path.block is) :
    whole.code? path.block = some (is ++ [.store path.current.id (.func target)],
      some (.ret (.status path.sentinel))) := by
  obtain ⟨p, b₁, b₂, -, hsame, hresume, hw₂⟩ := h
  obtain ⟨-, old, g⟩ := resumeAt_inv hresume
  obtain rfl : old = is := (Prod.mk.inj (Option.some.inj (g.base.symm.trans (hsame.trans hopen)))).1
  exact hw₂.finished _ _ _ g.code_here

end Resumption.FinishedAt

namespace Emitter

open Machine in
/-- The end of a span, emitted at an open block of a parser function and finished with `target`. In
whatever body this becomes part of, it clears the start of the span and calls the callback once,
with the start and the position. What stops the callback stops the function. After the status 0 the
function goes on, with the record as the callback has left it. Any other result is recorded, and the
function returns the sentinel. If no span is open and checks are on, it traps at once. -/
theorem spanEnd_in_context {options : SpanOptions} {c : Coloring} {p₀ p₁ : Program} {e : Emitter}
    (hp : p₀.Reachable) (he : prepare options c p₀ = .ok e p₁) {b : Body} {here : BlockId}
    {old : List Instr} (hb : b.sig = parserSig) (hopen : b.Open here old) {s : SpanId}
    {span : SpanDecl} {color : Nat} (hspan : c.span? s = some span)
    (hcolor : c.colorOf s = some color) :
    e.options = options ∧ e.Ready p₁ ∧ ∃ slots next path b₁ is, e.colors[color]? = some slots ∧
      e.spanEnd here s b = .ok (next, path) b₁ ∧ b₁.Open next [] ∧ b₁.Open path.block is ∧
      (∀ (target : FuncId) (whole : Body), path.FinishedAt target b₁ whole →
        ∀ (σ : Type) (p : Program) (host : Host σ) (limit depth : Nat) (pos stop start : Value)
          (regs : Regs) (w : World σ), whole.regs.length ≤ regs.length →
          p₁.layout.fields.length ≤ w.memory.values.length →
          w.memory.get? slots.start.id = some start →
          Comes (call p host limit depth) limit whole [.state, pos, stop] b.regs.length
            ⟨here, old.length⟩ ⟨next, 0⟩ (if options.debugChecks then 2 else 1) regs w
            (closing (call p host limit depth) e slots span.callback target b.name start pos w)) ∧
      ∀ (σ : Type) (w : World σ) (target : FuncId) (pos code : Value),
        p₁.layout.fields.length ≤ w.memory.values.length →
        w.Changed [(slots.start.id, .ptr none)] (w.stored [(slots.start.id, .ptr none)]) ∧
          w.Changed (e.failure target pos code) (w.stored (e.failure target pos code)) := by
  have hserves : e.Serves p₁ := serves_of_prepare hp he .refl
  obtain ⟨hready, rfl, rfl, -⟩ := prepare_ok hp.numbered he
  obtain ⟨slots, hlocate, hslots⟩ := locate_of_color hready.length hspan hcolor
  obtain ⟨next, path, b₁, is, hend, hnext, hpath, -, hcurrent, hsentinel, -⟩ :=
    e.spanEnd_splits hopen hb hlocate
  refine ⟨rfl, hready, slots, next, path, b₁, is, hslots, hend, hnext, hpath, ?_, ?_⟩
  · intro target whole hfinished σ p host limit depth pos stop start regs w hregs hfields hstart
    rw [← closeSpan_of_housed (sized_call p host limit depth) (hserves.housed hfields) hstart]
    refine close_comes hopen hb hlocate hend hfinished.within (fun is' his => ?_) hregs
      (hserves.start_ty (List.mem_of_getElem? hslots))
    rw [hfinished.code his, hcurrent, hsentinel]
  · intro σ w target pos code hfields
    have hhoused := hserves.housed hfields
    refine ⟨World.changed_stored (by simp) ?_,
      World.changed_stored (hserves.failure_nodup target pos code)
        (hhoused.failure target pos code)⟩
    simpa using hhoused (.start color) _ (field_start hslots)

open Machine in
/-- A callback that fails at the end of a span which goes from 1 to 3. -/
theorem spanEnd_in_context_failing :
    ∃ next path b₁ whole,
      (pairEmitter { debugChecks := true }).spanEnd ⟨⟨2⟩, 0⟩ ⟨0⟩
        (.start ⟨2⟩ "parse" parserSig parserParams) = .ok (next, path) b₁ ∧
      path.resumeAt pairPrepared ⟨2⟩ b₁ = .ok () whole ∧
      ∀ steps, runAt (call pairPrepared (Scripts.constant [⟨0⟩] 7).host 3 0) 3 whole
          [.state, .ptr (some 3), .ptr (some 9)] (steps + 2) ⟨⟨2⟩, 0⟩ 0
          (List.replicate whole.regs.length none)
          ⟨⟨[.func none, .int 0, .ptr none, .ptr none, .ptr (some 1), .func (some ⟨0⟩), .ptr none]⟩,
            Scripts.constant [⟨0⟩] 7, #[]⟩ =
        .ok (.int (-1))
          ⟨⟨[.func (some ⟨2⟩), .int 7, .text ⟨0⟩, .ptr (some 3), .ptr none, .func (some ⟨0⟩),
            .ptr none]⟩, Scripts.constant [⟨0⟩] 7, #[⟨⟨0⟩, 1, 3⟩]⟩ := by
  obtain ⟨-, -, slots, next, path, b₁, is, hslots, hend, -, hpath, hcomes, -⟩ :=
    spanEnd_in_context pairDeclared_reachable (prepare_pair _ true)
      (b := .start ⟨2⟩ "parse" parserSig parserParams) (s := ⟨0⟩) rfl
      (EventParser.open_start ⟨2⟩ "parse") rfl rfl
  obtain rfl := Option.some.inj hslots
  have htarget : Resumption.checkTarget pairPrepared ⟨2⟩ = .ok () := rfl
  obtain ⟨whole, hresume, -⟩ := path.resumeAt_grown hpath htarget
  have hrun := hcomes ⟨2⟩ whole ⟨pairPrepared, b₁, whole, .refl b₁, rfl, hresume, .refl whole⟩
    Scripts pairPrepared (Scripts.constant [⟨0⟩] 7).host 3 0 (.ptr (some 3)) (.ptr (some 9))
    (.ptr (some 1)) (List.replicate whole.regs.length none)
    ⟨⟨[.func none, .int 0, .ptr none, .ptr none, .ptr (some 1), .func (some ⟨0⟩), .ptr none]⟩,
      Scripts.constant [⟨0⟩] 7, #[]⟩ (by rw [List.length_replicate]) (by decide) rfl
  exact ⟨next, path, b₁, whole, hend, hresume, hrun⟩

open Machine in
/-- The epilogue, emitted at an open block of a parser function. In whatever body this becomes part
of, it deals with the colors in the order of their numbers, each by the record as the callees before
it have left it, until one of them stops the function. -/
theorem epilogue_in_context {options : SpanOptions} {c : Coloring} {p₀ p₁ : Program} {e : Emitter}
    (hp : p₀.Reachable) (he : prepare options c p₀ = .ok e p₁) {b : Body} {here : BlockId}
    {old : List Instr} (hb : b.sig = parserSig) (hopen : b.Open here old) :
    e.coloring = c ∧ e.Ready p₁ ∧ ∃ next b₁ rest, e.epilogue here b = .ok next b₁ ∧
      b₁.Open next rest ∧
      (∀ (whole : Body), b₁.Within whole →
        ∀ (σ : Type) (p : Program) (host : Host σ) (limit depth : Nat) (pos stop : Value)
          (regs : Regs) (w : World σ), whole.regs.length ≤ regs.length →
          p₁.layout.fields.length ≤ w.memory.values.length →
          ∃ used ≤ 2 * c.colors.length,
            Comes (call p host limit depth) limit whole [.state, pos, stop] b.regs.length
              ⟨here, old.length⟩ ⟨next, rest.length⟩ used regs w
              (e.colors.foldl (further (flushing (call p host limit depth) e stop)) (.ok none w))) ∧
      ∀ (σ : Type) (w : World σ) (stop code : Value),
        p₁.layout.fields.length ≤ w.memory.values.length →
        w.Changed (e.record.entries stop code) (w.stored (e.record.entries stop code)) := by
  have hserves : e.Serves p₁ := serves_of_prepare hp he .refl
  obtain ⟨hready, rfl, rfl, -⟩ := prepare_ok hp.numbered he
  obtain ⟨next, b₁, rest, hchain, hnext, -⟩ := chain_appends e.flush_appends e.colors hopen 0
  refine ⟨rfl, hready, next, b₁, rest, ?_, hnext, ?_, ?_⟩
  · refine andThen (checkTarget_ok hopen hb) ?_
    rw [flushFrom_eq]
    exact hchain
  · intro whole hwhole σ p host limit depth pos stop regs w hregs hfields
    -- Callees may change every value, but all fields stay, so nothing that is recorded gets lost.
    have hsized := sized_call p host limit depth
    have hfold :
        inTurn (fun slots => Machine.flush (call p host limit depth) e slots stop) e.colors w =
          e.colors.foldl (further (flushing (call p host limit depth) e stop)) (.ok none w) := by
      rw [← inTurn_eq_foldl]
      exact inTurn_congr (fun w => e.Housed w.memory)
        (fun slots w hw => flush_of_housed hsized hw stop)
        (fun slots w w' hw hflush => flushing_housed hsized hw hflush) e.colors
        (hserves.housed hfields)
    rw [← hfold, ← hready.length]
    exact chain_comes e.flush_appends (e.flush_does (call p host limit depth) limit pos stop)
      (fun slots hmem => hserves.start_ty hmem) hopen hchain hnext hwhole hregs
  · intro σ w stop code hfields
    have hnodup := hserves.failure_nodup ⟨0⟩ stop code
    have hplaces := (hserves.housed hfields).failure ⟨0⟩ stop code
    rw [failure, List.map_append] at hnodup
    exact World.changed_stored hnodup.of_append_left fun change hmem =>
      hplaces change (List.mem_append_left _ hmem)

open Machine in
/-- Both colors are open, the first for the second of its spans. The callback of the other color
fails. -/
theorem epilogue_in_context_failing :
    ∃ next b₁, (pairEmitter {}).epilogue ⟨⟨2⟩, 0⟩ (.start ⟨2⟩ "parse" parserSig parserParams) =
        .ok next b₁ ∧
      ∃ used ≤ 4, ∀ steps, runAt (call pairPrepared
          ((Scripts.constant [⟨1⟩] 0).bind ⟨0⟩ ⟨5, []⟩).host 5 0) 5 b₁
          [.state, .ptr (some 3), .ptr (some 9)] (steps + used) ⟨⟨2⟩, 0⟩ 0
          (List.replicate b₁.regs.length none)
          ⟨⟨[.func none, .int 0, .ptr none, .ptr none, .ptr (some 4), .func (some ⟨1⟩),
            .ptr (some 6)]⟩, (Scripts.constant [⟨1⟩] 0).bind ⟨0⟩ ⟨5, []⟩, #[]⟩ =
        .ok (.int 5)
          ⟨⟨[.func none, .int 5, .text ⟨0⟩, .ptr (some 9), .ptr (some 4), .func (some ⟨1⟩),
            .ptr (some 6)]⟩, (Scripts.constant [⟨1⟩] 0).bind ⟨0⟩ ⟨5, []⟩,
            #[⟨⟨1⟩, 4, 9⟩, ⟨⟨0⟩, 6, 9⟩]⟩ := by
  obtain ⟨-, -, next, b₁, rest, hepilogue, -, hcomes, -⟩ :=
    epilogue_in_context pairDeclared_reachable (prepare_pair _ _)
      (b := .start ⟨2⟩ "parse" parserSig parserParams) rfl (EventParser.open_start ⟨2⟩ "parse")
  obtain ⟨used, hused, hrun⟩ := hcomes b₁ (.refl b₁) _ pairPrepared
    ((Scripts.constant [⟨1⟩] 0).bind ⟨0⟩ ⟨5, []⟩).host 5 0 (.ptr (some 3)) (.ptr (some 9))
    (List.replicate b₁.regs.length none) ⟨⟨[.func none, .int 0, .ptr none, .ptr none, .ptr (some 4),
      .func (some ⟨1⟩), .ptr (some 6)]⟩, (Scripts.constant [⟨1⟩] 0).bind ⟨0⟩ ⟨5, []⟩, #[]⟩ (by simp)
    (by decide)
  exact ⟨next, b₁, hepilogue, used, hused, hrun⟩

end Emitter

end SpanTracking
