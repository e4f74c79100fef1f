import SpanTracking.Proofs.Safety

set_option autoImplicit false

namespace SpanTracking

variable {σ : Type}

/-- A call that was made for a span has returned something other than zero. -/
structure Failure where
  code : Value
  /-- The end of the span, or the end of the buffer if the span was only handed over. -/
  pos : Nat
deriving DecidableEq

def Failure.ofReply? (reply : HostCall × Int32) : Option Failure :=
  if reply.2 = 0 then none else some ⟨.int reply.2.toInt, reply.1.stop⟩

def Value.position? : Value → Option Nat
  | ptr pos => pos
  | _ => none

theorem Value.position?_of_positions {v u : Value} {m n : Nat}
    (h : Machine.positions [.state, v, u] = some (m, n)) : u.position? = some n := by
  unfold Machine.positions at h
  split at h
  · rename_i heq
    simp_all [Value.position?]
  · simp at h

namespace Deed

def isCall : Deed → Bool
  | opens _ => false
  | closes _ => true
  | flushes => true

/-- The end of a span fails where its function was called, and a flush at the end of the buffer. -/
def errorPos? (args : List Value) : Deed → Option Nat
  | opens _ => none
  | closes _ => args[1]?.bind Value.position?
  | flushes => args[2]?.bind Value.position?

end Deed

namespace Moment

def failure? (book : FuncId → Draft) : Moment σ → Option Failure
  | executed here (.call dst _ _ _ _) args regs _ =>
    match regs[dst.index]?, (book here.block.owner).deed here with
    | some (some code), some deed =>
      if code = .int 0 then none else (deed.errorPos? args).map (Failure.mk code)
    | _, _ => none
  | _ => none

/-- A call from outside has used up its steps. -/
def isCut : Moment σ → Bool
  | ended (.error (.stepLimit _)) _ => true
  | _ => false

end Moment

/-- The calls of the host that are made by calls from outside, with the answers to them. -/
def Machine.answers (p : Program) : List (Request σ) → World σ → List (HostCall × Int32)
  | [], _ => []
  | q :: rest, w =>
    let last := (Moment.ofResult (call p q.host q.limit q.depth q.callee q.args w)).world
    q.host.answers (last.calls.toList.drop w.calls.size) w.host ++ answers p rest last

namespace ErrorRecord

structure Clear (r : ErrorRecord) (m : Memory) : Prop where
  error : m.get? r.error.id = some (.int 0)
  reason : m.get? r.reason.id = some (.ptr none)
  errorPos : m.get? r.errorPos.id = some (.ptr none)

structure Tells (r : ErrorRecord) (x : Failure) (m : Memory) : Prop where
  error : m.get? r.error.id = some x.code
  reason : m.get? r.reason.id = some (.text r.message)
  errorPos : m.get? r.errorPos.id = some (.ptr (some x.pos))

def ids (r : ErrorRecord) : List FieldId := [r.error.id, r.reason.id, r.errorPos.id]

/-- The fields tell of one of the failures, or of none. -/
def Coherent (r : ErrorRecord) (failures : List Failure) (m : Memory) : Prop :=
  r.Clear m ∨ ∃ x ∈ failures, x.code ≠ .int 0 ∧ r.Tells x m

def Latest (r : ErrorRecord) (failures : List Failure) (m : Memory) : Prop :=
  match failures.getLast? with
  | none => r.Clear m
  | some x => r.Tells x m

section Congr

variable {r : ErrorRecord} {m m' : Memory} {failures : List Failure}

theorem Clear.congr (h : r.Clear m) (hsame : ∀ id ∈ r.ids, m'.get? id = m.get? id) :
    r.Clear m' :=
  ⟨(hsame _ (by simp [ids])).trans h.error, (hsame _ (by simp [ids])).trans h.reason,
    (hsame _ (by simp [ids])).trans h.errorPos⟩

theorem Tells.congr {x : Failure} (h : r.Tells x m)
    (hsame : ∀ id ∈ r.ids, m'.get? id = m.get? id) : r.Tells x m' :=
  ⟨(hsame _ (by simp [ids])).trans h.error, (hsame _ (by simp [ids])).trans h.reason,
    (hsame _ (by simp [ids])).trans h.errorPos⟩

theorem Coherent.congr (h : r.Coherent failures m)
    (hsame : ∀ id ∈ r.ids, m'.get? id = m.get? id) : r.Coherent failures m' := by
  rcases h with hclear | ⟨x, hmem, hcode, htells⟩
  · exact .inl (hclear.congr hsame)
  · exact .inr ⟨x, hmem, hcode, htells.congr hsame⟩

theorem Coherent.mono (h : r.Coherent failures m) {failures' : List Failure}
    (hsub : failures ⊆ failures') : r.Coherent failures' m := by
  refine h.imp id ?_
  rintro ⟨x, hmem, htells⟩
  exact ⟨x, hsub hmem, htells⟩

theorem Latest.congr (h : r.Latest failures m) (hsame : ∀ id ∈ r.ids, m'.get? id = m.get? id) :
    r.Latest failures m' := by
  unfold Latest at h ⊢
  split at h
  · exact Clear.congr h hsame
  · exact Tells.congr h hsame

end Congr

end ErrorRecord

namespace Emitter

/-- The state record says nothing about where to resume, or names a parser function at which a
failure path of a parser function resumes. -/
def Resumes (e : Emitter) (p : Program) (book : FuncId → Draft) (m : Memory) : Prop :=
  m.get? e.current.id = some (.func none) ∨
    ∃ target decl f q, m.get? e.current.id = some (.func (some target)) ∧
      p.decl? target = some decl ∧ decl.sig = parserSig ∧ (p.body? f).isSome ∧
      (q, target) ∈ (book f).resumed

/-- The fields that are written by nothing but span operations: those of the error record and the
place to resume. -/
def guarded (e : Emitter) : List FieldId := e.current.id :: e.record.ids

def slotFields (e : Emitter) : List FieldId :=
  e.colors.filterMap fun slots => slots.slot?.map Field.id

end Emitter

/-- The error record is in order at a moment, if there have been these failures so far, and a call
was cut short or not. -/
def Moment.KeepsRecord (e : Emitter) (p : Program) (book : FuncId → Draft)
    (failures : List Failure) (cut : Bool) : Moment σ → Prop
  | .calling here .. => ((book here.block.owner).deed here).any Deed.isCall
  | .ended _ w => e.record.Coherent failures w.memory ∧ e.Resumes p book w.memory ∧
      (cut = false → e.record.Latest failures w.memory)
  | _ => True

namespace Draft

/-- The author calls nothing, leaves the guarded fields alone and does not branch to blocks that
record an error. Failure paths resume at functions of the program under construction. -/
structure LeavesErrors (d : Draft) (e : Emitter) (p : Program) : Prop where
  plain : ∀ x ∈ d.own, x.2.isPlain
  stores : ∀ x ∈ d.own, ∀ id ∈ x.2.writes?, id ∉ e.guarded
  targets : ∀ x ∈ d.exits, ∀ target ∈ x.2.targets, ∀ code ∈ d.body.code? target,
    e.record.error.id ∉ code.1.filterMap Instr.writes?
  resumed : ∀ x ∈ d.resumed, x.1.Leads p

def LeavesSlots (d : Draft) (e : Emitter) : Prop :=
  ∀ x ∈ d.own, ∀ id ∈ x.2.writes?, id ∉ e.slotFields

instance (d : Draft) (e : Emitter) : Decidable (d.LeavesSlots e) :=
  inferInstanceAs (Decidable (∀ x ∈ d.own, ∀ id ∈ x.2.writes?, id ∉ e.slotFields))

end Draft

def Invocation.request (q : Invocation σ) : Request σ where
  host := q.host
  limit := q.limit
  depth := q.depth
  callee := q.callee
  args := [.state, .ptr (some q.pos), .ptr (some q.stop)]

namespace Errors

/-- How things stand when an invocation begins: the host that will answer, the world, and the
failures so far. The origin is strict if calls of the host are to be accounted for. -/
structure Origin (σ : Type) where
  strict : Prop
  host : Host σ
  world : World σ
  failures : List Failure

def Origin.Accounts (o : Origin σ) (failures : List Failure) (w : World σ) : Prop :=
  ∃ made, w.calls = (o.world.told o.host made).calls ∧ w.host = (o.world.told o.host made).host ∧
    failures = o.failures ++ (o.host.answers made o.world.host).filterMap Failure.ofReply?

theorem Origin.Accounts.told {o : Origin σ} {failures : List Failure} {w : World σ}
    (h : o.Accounts failures w) (c : HostCall) :
    o.Accounts (failures ++ (Failure.ofReply? (c, o.host.code c w.host)).toList)
      (w.told o.host [c]) := by
  obtain ⟨made, hcalls, hhost, rfl⟩ := h
  refine ⟨made ++ [c], ?_, ?_, ?_⟩
  · simp [World.told, hcalls]
  · simp [World.told, hhost]
  · have hone : [(c, o.host.code c w.host)].filterMap Failure.ofReply? =
        (Failure.ofReply? (c, o.host.code c w.host)).toList := by
      cases hreply : Failure.ofReply? (c, o.host.code c w.host) <;> simp [hreply]
    rw [Host.answers_append, List.filterMap_append, List.append_assoc, ← hone, hhost]
    rfl

variable {e : Emitter} {p : Program} {book : FuncId → Draft} {o : Origin σ}

/-- The record is one of the program, and the error record is in order. In a strict run, slots hold
callbacks if anything, and the host accounts for the failures. -/
structure Good (e : Emitter) (p : Program) (book : FuncId → Draft) (o : Origin σ)
    (failures : List Failure) (w : World σ) : Prop where
  fits : w.memory.values.length = p.layout.fields.length
  resumes : e.Resumes p book w.memory
  record : e.record.Coherent failures w.memory
  callees : o.strict → ∀ color slot, e.field? (.slot color) = some slot →
    w.memory.get? slot.id = some (.func none) ∨
      ∃ span ∈ e.coloring.spans, w.memory.get? slot.id = some (.func (some span.callback))
  accounts : o.strict → o.Accounts failures w

structure Account where
  failures : List Failure := []
  cut : Bool := false

def Account.answered (g : Account) (code : Value) (pos : Nat) : Account :=
  if code = .int 0 then g else { g with failures := g.failures ++ [⟨code, pos⟩] }

/-- The error record lags behind no failure. -/
structure Settled (e : Emitter) (p : Program) (book : FuncId → Draft) (o : Origin σ) (g : Account)
    (w : World σ) : Prop where
  good : Good e p book o g.failures w
  latest : g.cut = false → e.record.Latest g.failures w.memory

section Worlds

variable {failures : List Failure} {g : Account} {w : World σ}

theorem settled_fresh (he : e.Serves p) (strict : Prop) (host : Host σ) (state : σ) :
    let w : World σ := { memory := .fresh p.layout, host := state }
    Settled e p book ⟨strict, host, w, []⟩ {} w := by
  intro w
  have hfield := fun {x : Place} {f : Field} => he.get?_fresh (x := x) (f := f)
  have hclear : e.record.Clear w.memory := by
    obtain ⟨_, rfl, herror⟩ := hfield (x := .error) rfl
    obtain ⟨_, rfl, hreason⟩ := hfield (x := .reason) rfl
    obtain ⟨_, rfl, herrorPos⟩ := hfield (x := .errorPos) rfl
    exact ⟨herror, hreason, herrorPos⟩
  refine ⟨⟨by simp [w, Memory.fresh], ?_, .inl hclear, ?_, fun _ => ⟨[], ?_⟩⟩, fun _ => hclear⟩
  · obtain ⟨_, rfl, hget⟩ := hfield (x := .current) rfl
    exact .inl hget
  · intro _ color slot hslot
    obtain ⟨_, ⟨sig, rfl⟩, hget⟩ := hfield hslot
    exact .inl hget
  · simp [World.told_nil, Host.answers]

/-- Between invocations another host may take over. -/
theorem Settled.begin (h : Settled e p book o g w) (host : Host σ) :
    Settled e p book ⟨o.strict, host, w, g.failures⟩ g w :=
  ⟨⟨h.good.fits, h.good.resumes, h.good.record, h.good.callees,
    fun _ => ⟨[], by simp [World.told_nil, Host.answers]⟩⟩, h.latest⟩

theorem slot_mem_slotFields {color : Nat} {slot : Field}
    (hslot : e.field? (.slot color) = some slot) : slot.id ∈ e.slotFields := by
  obtain ⟨slots, hslots, hslot⟩ := Option.bind_eq_some_iff.1 hslot
  exact List.mem_filterMap.2 ⟨slots, List.mem_of_getElem? hslots, by simp [hslot]⟩

theorem start_not_mem_guarded (he : e.Serves p) {color : Nat} {slots : ColorSlots}
    (hs : e.colors[color]? = some slots) : slots.start.id ∉ e.guarded := by
  have hne := fun {x : Place} {f : Field} (hf : e.field? x = some f) =>
    he.id_ne (Emitter.field_start hs) hf
  simp only [Emitter.guarded, ErrorRecord.ids, List.mem_cons, List.not_mem_nil, not_or]
  exact ⟨hne (x := .current) rfl (by simp), hne (x := .error) rfl (by simp),
    hne (x := .reason) rfl (by simp), hne (x := .errorPos) rfl (by simp), not_false⟩

theorem start_not_mem_slotFields (he : e.Serves p) {color : Nat} {slots : ColorSlots}
    (hs : e.colors[color]? = some slots) : slots.start.id ∉ e.slotFields := by
  intro hmem
  obtain ⟨slots', hslots', hslot⟩ := List.mem_filterMap.1 hmem
  obtain ⟨slot, hslot, heq⟩ := Option.map_eq_some_iff.1 hslot
  obtain ⟨color', hcolor'⟩ := List.getElem?_of_mem hslots'
  exact he.id_ne (Emitter.field_start hs) (Emitter.field_of_slot? hcolor' hslot) (by simp) heq.symm

section Put

variable {field : FieldId} {v : Value}

/-- A store that leaves the record alone. -/
theorem Settled.put (h : Settled e p book o g w)
    (hrecord : ∀ id ∈ e.record.ids, (w.memory.set field v).get? id = w.memory.get? id)
    (hresumes : e.Resumes p book (w.memory.set field v))
    (hcallees : o.strict → ∀ color slot, e.field? (.slot color) = some slot →
      (w.memory.set field v).get? slot.id = some (.func none) ∨ ∃ span ∈ e.coloring.spans,
        (w.memory.set field v).get? slot.id = some (.func (some span.callback))) :
    Settled e p book o g (Machine.put w field v) :=
  ⟨⟨(Memory.set_length ..).trans h.good.fits, hresumes, h.good.record.congr hrecord, hcallees,
    h.good.accounts⟩, fun hcut => (h.latest hcut).congr hrecord⟩

theorem Settled.put_other (h : Settled e p book o g w) (hfield : field ∉ e.guarded)
    (hslots : o.strict → field ∉ e.slotFields) (v : Value) :
    Settled e p book o g (Machine.put w field v) := by
  have hsame : ∀ id, id ≠ field → (w.memory.set field v).get? id = w.memory.get? id :=
    fun id hne => Memory.get?_set_ne hne.symm
  refine h.put (fun id hid => hsame id ?_) ?_ fun hstrict color slot hslot => ?_
  · rintro rfl
    exact hfield (List.mem_cons_of_mem _ hid)
  · rw [Emitter.Resumes, hsame _ fun heq => hfield (by simp [Emitter.guarded, heq])]
    exact h.good.resumes
  · rw [hsame _ fun heq => hslots hstrict (heq ▸ slot_mem_slotFields hslot)]
    exact h.good.callees hstrict color slot hslot

theorem get?_set_ids {m : Memory} (he : e.Serves p) {x : Place} {f : Field}
    (hf : e.field? x = some f) (hx : x ∉ [Place.error, .reason, .errorPos]) (v : Value) :
    ∀ id ∈ e.record.ids, (m.set f.id v).get? id = m.get? id := by
  intro id hid
  obtain ⟨y, f', hy, hf', rfl⟩ : ∃ y f', y ∈ [Place.error, .reason, .errorPos] ∧
      e.field? y = some f' ∧ f'.id = id := by
    simpa [ErrorRecord.ids, Emitter.field?, eq_comm] using hid
  exact Memory.get?_set_ne (he.id_ne hf hf' fun heq => hx (heq ▸ hy))

theorem Settled.put_slot (h : Settled e p book o g w) (he : e.Serves p) {color : Nat} {slot : Field}
    (hslot : e.field? (.slot color) = some slot) {span : SpanDecl}
    (hspan : span ∈ e.coloring.spans) :
    Settled e p book o g (Machine.put w slot.id (.func (some span.callback))) := by
  refine h.put (get?_set_ids he hslot (by simp) _) ?_ fun hstrict color' slot' hslot' => ?_
  · rw [Emitter.Resumes, Memory.get?_set_ne (he.id_ne (y := .current) hslot rfl (by simp))]
    exact h.good.resumes
  · by_cases hcolor : color' = color
    · subst hcolor
      obtain rfl := Option.some.inj (hslot.symm.trans hslot')
      obtain ⟨u, hu⟩ := (he.has_field hslot h.good.fits).get?
      exact .inr ⟨span, hspan, Memory.get?_set_self hu⟩
    · rw [Memory.get?_set_ne (he.id_ne hslot hslot' (by simpa using Ne.symm hcolor))]
      exact h.good.callees hstrict color' slot' hslot'

theorem Settled.opened (h : Settled e p book o g w) (he : e.Serves p) {s : SpanId} {span : SpanDecl}
    {color : Nat} {slots : ColorSlots} (hs : e.locate s = .ok (span, color, slots)) (pos : Value) :
    Settled e p book o g (Machine.opened slots span.callback pos w) := by
  obtain ⟨hspan, -, hslots⟩ := Emitter.mem_colors_of_locate hs
  have hstart := h.put_other (start_not_mem_guarded he hslots)
    (fun _ => start_not_mem_slotFields he hslots) pos
  unfold Machine.opened
  split
  · rename_i slot hslot
    exact hstart.put_slot he (Emitter.field_of_slot? hslots hslot) (List.mem_of_getElem? hspan)
  · exact hstart

theorem declared_of_leads {q : Program} {target : FuncId}
    (h : Resumption.checkTarget q target = .ok ()) (hleads : q.Leads p) :
    ∃ decl, p.decl? target = some decl ∧ decl.sig = parserSig := by
  unfold Resumption.checkTarget at h
  split at h
  · simp at h
  · rename_i decl hdecl
    obtain ⟨decl', hdecl', -, hsig, -⟩ := hleads.extends.decls target decl hdecl
    split at h
    · rename_i hparser
      exact ⟨decl', hdecl', hsig.trans hparser⟩
    · simp at h

theorem Settled.put_current (h : Settled e p book o g w) (he : e.Serves p) {target f : FuncId}
    {decl : Decl} {q : Program} (hdecl : p.decl? target = some decl) (hsig : decl.sig = parserSig)
    (hbody : (p.body? f).isSome) (hmem : (q, target) ∈ (book f).resumed) :
    Settled e p book o g (Machine.put w e.current.id (.func (some target))) := by
  have hfield : e.field? .current = some e.current := rfl
  refine h.put (get?_set_ids he hfield (by simp) _) ?_ fun hstrict color slot hslot => ?_
  · obtain ⟨u, hu⟩ := (he.has_field hfield h.good.fits).get?
    exact .inr ⟨target, decl, f, q, Memory.get?_set_self hu, hdecl, hsig, hbody, hmem⟩
  · rw [Memory.get?_set_ne (he.id_ne hfield hslot (by simp))]
    exact h.good.callees hstrict color slot hslot

end Put

theorem Good.recorded (h : Good e p book o g.failures w) (he : e.Serves p) {x : Failure}
    (hx : g.failures.getLast? = some x) (hcode : x.code ≠ .int 0) :
    Settled e p book o g (Machine.recorded e.record (.ptr (some x.pos)) x.code w) := by
  have hne := fun {y z : Place} {f f' : Field} => he.id_ne (x := y) (y := z) (f := f) (g := f')
  have herror : e.field? .error = some e.record.error := rfl
  have hreason : e.field? .reason = some e.record.reason := rfl
  have hpos : e.field? .errorPos = some e.record.errorPos := rfl
  -- The stores do not touch each other, nor any other place.
  have hother : ∀ y f, e.field? y = some f → y ∉ [Place.error, .reason, .errorPos] →
      (Machine.recorded e.record (.ptr (some x.pos)) x.code w).memory.get? f.id =
        w.memory.get? f.id := by
    intro y f hf hy
    simp only [List.mem_cons, List.not_mem_nil, or_false, not_or] at hy
    simp only [Machine.recorded, Machine.put_memory]
    rw [Memory.get?_set_ne (hne hpos hf (Ne.symm hy.2.2)),
      Memory.get?_set_ne (hne hreason hf (Ne.symm hy.2.1)),
      Memory.get?_set_ne (hne herror hf (Ne.symm hy.1))]
  have htells : e.record.Tells x
      (Machine.recorded e.record (.ptr (some x.pos)) x.code w).memory := by
    obtain ⟨u₁, hu₁⟩ := (he.has_field herror h.fits).get?
    obtain ⟨u₂, hu₂⟩ := (he.has_field hreason h.fits).get?
    obtain ⟨u₃, hu₃⟩ := (he.has_field hpos h.fits).get?
    simp only [Machine.recorded, Machine.put_memory]
    refine ⟨?_, ?_, ?_⟩
    · rw [Memory.get?_set_ne (hne hpos herror (by simp)),
        Memory.get?_set_ne (hne hreason herror (by simp))]
      exact Memory.get?_set_self hu₁
    · rw [Memory.get?_set_ne (hne hpos hreason (by simp))]
      refine Memory.get?_set_self (u := u₂) ?_
      rw [Memory.get?_set_ne (hne herror hreason (by simp))]
      exact hu₂
    · refine Memory.get?_set_self (u := u₃) ?_
      rw [Memory.get?_set_ne (hne hreason hpos (by simp)),
        Memory.get?_set_ne (hne herror hpos (by simp))]
      exact hu₃
  refine ⟨⟨?_, ?_, .inr ⟨x, List.mem_of_getLast? hx, hcode, htells⟩, ?_, h.accounts⟩, fun _ => ?_⟩
  · simp [Machine.recorded, Memory.set_length, h.fits]
  · rw [Emitter.Resumes, hother .current _ rfl (by simp)]
    exact h.resumes
  · intro hstrict color slot hslot
    rw [hother _ _ hslot (by simp)]
    exact h.callees hstrict color slot hslot
  · rw [ErrorRecord.Latest, hx]
    exact htells

/-- Where calls of the host are not accounted for, any failures may follow. -/
theorem Good.loosen (h : Good e p book o failures w) (hloose : ¬ o.strict)
    {failures' : List Failure} (hsub : failures ⊆ failures') {w' : World σ}
    (hmemory : w'.memory = w.memory) : Good e p book o failures' w' := by
  refine ⟨by rw [hmemory, h.fits], by rw [hmemory]; exact h.resumes, ?_,
    fun hstrict => absurd hstrict hloose, fun hstrict => absurd hstrict hloose⟩
  rw [hmemory]
  exact h.record.mono hsub

theorem subset_answered (g : Account) (code : Value) (pos : Nat) :
    g.failures ⊆ (g.answered code pos).failures := by
  unfold Account.answered
  split <;> simp

theorem answered_reply (g : Account) (c : HostCall) (code : Int32) :
    (g.answered (.int code.toInt) c.stop).failures =
      g.failures ++ (Failure.ofReply? (c, code)).toList := by
  by_cases hzero : code = 0
  · simp [Account.answered, Failure.ofReply?, hzero]
  · have hne : Value.int code.toInt ≠ .int 0 := fun heq => hzero (Machine.toInt_eq_zero.1 heq)
    rw [Account.answered, if_neg hne, Failure.ofReply?, if_neg hzero]
    rfl

theorem Good.told (h : Good e p book o g.failures w) {host : Host σ}
    (hhost : o.strict → host = o.host) (c : HostCall) :
    Good e p book o (g.answered (.int (host.code c w.host).toInt) c.stop).failures
      (w.told host [c]) := by
  refine ⟨h.fits, h.resumes, h.record.mono (subset_answered ..), h.callees, fun hstrict => ?_⟩
  rw [answered_reply, hhost hstrict]
  exact (h.accounts hstrict).told c

end Worlds

end Errors

end SpanTracking
