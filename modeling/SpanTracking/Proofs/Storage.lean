import SpanTracking.Proofs.Store
import SpanTracking.Span.Emitter

set_option autoImplicit false

namespace SpanTracking

structure Layout.Holds (l : Layout) (f : Field) (name : String) (ty : Ty) : Prop where
  has : l.Has f
  name_eq : f.name = name
  ty_eq : f.ty = ty

theorem Layout.Holds.mono {l l' : Layout} {f : Field} {name : String} {ty : Ty}
    (h : l.Holds f name ty) (hl : l.fields <+: l'.fields) : l'.Holds f name ty :=
  ⟨h.has.mono hl, h.name_eq, h.ty_eq⟩

namespace ColorSlots

structure Planned (slots : ColorSlots) (c : Coloring) (l : Layout) (color : Nat)
    (members : List SpanId) : Prop where
  start : l.Holds slots.start (startName color) .bytes
  sole : ∀ s, members = [s] → ∃ span, c.span? s = some span ∧
    slots.callbacks = [span.callback] ∧ slots.slot? = none ∧ slots.dispatch = .direct span.callback
  shared : ∀ s t rest, members = s :: t :: rest → ∃ slot, slots.slot? = some slot ∧
    slots.dispatch = .indirect slot slots.callbacks ∧ l.Holds slot (slotName color) slots.sig.ptr

theorem Planned.mono {slots : ColorSlots} {c : Coloring} {l l' : Layout} {color : Nat}
    {members : List SpanId} (h : slots.Planned c l color members)
    (hl : l.fields <+: l'.fields) : slots.Planned c l' color members := by
  refine ⟨h.start.mono hl, h.sole, ?_⟩
  intro s t rest hm
  obtain ⟨slot, hslot, hd, hs⟩ := h.shared s t rest hm
  exact ⟨slot, hslot, hd, hs.mono hl⟩

/-- The way to the callback tells whether there is a slot, and which callbacks it may hold. -/
theorem Planned.slot_of_indirect {slots : ColorSlots} {c : Coloring} {l : Layout} {color : Nat}
    {members : List SpanId} (h : slots.Planned c l color members) (hne : members ≠ [])
    {slot : Field} {candidates : List FuncId} (hd : slots.dispatch = .indirect slot candidates) :
    slots.slot? = some slot ∧ slots.callbacks = candidates := by
  match members, hne with
  | [s], _ =>
    obtain ⟨span, -, -, -, hdirect⟩ := h.sole s rfl
    simp [hd] at hdirect
  | s :: t :: rest, _ =>
    obtain ⟨slot', hslot, hindirect, -⟩ := h.shared s t rest rfl
    rw [hd] at hindirect
    cases hindirect
    exact ⟨hslot, rfl⟩

end ColorSlots

theorem Coloring.callee_ok {c : Coloring} {p : Program} {s : SpanId} {span : SpanDecl} {d : Decl}
    (h : c.callee p s = .ok (span, d)) :
    c.span? s = some span ∧ p.decl? span.callback = some d := by
  unfold callee at h
  split at h
  · simp at h
  · rename_i hspan
    split at h
    · simp at h
    · rename_i hd
      obtain ⟨rfl, rfl⟩ := Prod.mk.inj (Except.ok.inj h)
      exact ⟨hspan, hd⟩

def Coloring.callbacksOf (c : Coloring) (members : List SpanId) : List FuncId :=
  members.filterMap fun s => (c.span? s).map SpanDecl.callback

theorem Coloring.callbacksOf_cons {c : Coloring} {s : SpanId} {span : SpanDecl}
    (hspan : c.span? s = some span) (rest : List SpanId) :
    c.callbacksOf (s :: rest) = span.callback :: c.callbacksOf rest := by
  simp [callbacksOf, hspan]

/-- The callbacks that are shared are those of the spans, and all have the one signature. -/
theorem Coloring.sharedCallbacks_ok {c : Coloring} {p : Program} {color : Nat} {first : String}
    {sig : Signature} {members : List SpanId} {callbacks : List FuncId}
    (h : c.sharedCallbacks p color first sig members = .ok callbacks) :
    callbacks = c.callbacksOf members ∧ ∀ s ∈ members, ∃ span d, c.span? s = some span ∧
      p.decl? span.callback = some d ∧ d.sig = sig := by
  induction members generalizing callbacks with
  | nil =>
    obtain rfl := Except.ok.inj h
    exact ⟨rfl, by simp⟩
  | cons s rest ih =>
    obtain ⟨⟨span, d⟩, hcallee, h⟩ := except_ok h
    obtain ⟨hspan, hd⟩ := callee_ok hcallee
    dsimp only at h
    split at h
    · rename_i hsig
      obtain ⟨others, hothers, h⟩ := except_ok h
      obtain rfl := Except.ok.inj h
      obtain ⟨rfl, hrest⟩ := ih hothers
      exact ⟨(callbacksOf_cons hspan rest).symm,
        List.forall_mem_cons.2 ⟨⟨span, d, hspan, hd, hsig⟩, hrest⟩⟩
    · simp [throw, throwThe, MonadExceptOf.throw] at h

/-- A color that is planned has members. Its start is declared, and a slot if it is shared. -/
theorem Coloring.planColor_cases {c : Coloring} {color : Nat} {members : List SpanId}
    {p p' : Program} {slots : ColorSlots} (h : c.planColor color members p = .ok slots p') :
    (∀ s ∈ members, ∃ span d, c.span? s = some span ∧ p.decl? span.callback = some d ∧
      d.sig = slots.sig) ∧ slots.members = members ∧
    slots.callbacks = (c.callbacksOf members).eraseDups ∧
    ∃ p₁, Program.onLayout (Layout.declare (ColorSlots.startName color) .bytes) p =
        .ok slots.start p₁ ∧
      ((∃ s span, members = [s] ∧ c.span? s = some span ∧
          slots.slot? = none ∧ slots.dispatch = .direct span.callback ∧ p' = p₁) ∨
        (1 < members.length ∧ ∃ slot,
          Program.onLayout (Layout.declare (ColorSlots.slotName color) slots.sig.ptr) p₁ =
            .ok slot p' ∧
          slots.slot? = some slot ∧ slots.dispatch = .indirect slot slots.callbacks)) := by
  cases members with
  | nil => simp [planColor] at h
  | cons s rest =>
    simp only [planColor] at h
    obtain ⟨⟨span, d⟩, q, hq, h₁⟩ := bind_ok h
    obtain ⟨hcallee, rfl⟩ := Build.check_ok hq
    obtain ⟨others, q', hq', h₂⟩ := bind_ok h₁
    obtain ⟨hothers, rfl⟩ := Build.check_ok hq'
    obtain ⟨start, p₁, hstart, h₃⟩ := bind_ok h₂
    obtain ⟨hspan, hd⟩ := callee_ok hcallee
    obtain ⟨rfl, hrest⟩ := sharedCallbacks_ok hothers
    have hall := List.forall_mem_cons.2 ⟨⟨span, d, hspan, hd, rfl⟩, hrest⟩
    rw [callbacksOf_cons hspan]
    cases rest with
    | nil =>
      obtain ⟨rfl, rfl⟩ := pure_ok h₃
      exact ⟨hall, rfl, rfl, p₁, hstart, .inl ⟨s, span, rfl, hspan, rfl, rfl, rfl⟩⟩
    | cons t rest =>
      obtain ⟨slot, p₂, hslot, h₄⟩ := bind_ok h₃
      obtain ⟨rfl, rfl⟩ := pure_ok h₄
      exact ⟨hall, rfl, rfl, p₁, hstart, .inr ⟨by simp, slot, hslot, rfl, rfl⟩⟩

/-- Planning one color declares its fields and nothing else. -/
theorem Coloring.planColor_ok {c : Coloring} {color : Nat} {members : List SpanId}
    {p p' : Program} {slots : ColorSlots} (hp : p.layout.Numbered)
    (h : c.planColor color members p = .ok slots p') :
    slots.Planned c p'.layout color members ∧ p.Leads p' := by
  obtain ⟨-, -, hcallbacks, p₁, hstart, hrest⟩ := planColor_cases h
  obtain ⟨l₁, hl₁, rfl⟩ := Program.onLayout_ok hstart
  obtain ⟨hs, hn, ht⟩ := Layout.declare_has hp hl₁
  obtain ⟨s, span, rfl, hspan, hnone, hd, rfl⟩ | ⟨hlen, slot, hslot, hsome, hd⟩ := hrest
  · refine ⟨⟨⟨hs, hn, ht⟩, ?_, by simp⟩, .single (.field hstart)⟩
    intro t ht
    obtain rfl := (List.cons.inj ht).1
    rw [callbacksOf_cons hspan] at hcallbacks
    exact ⟨span, hspan, hcallbacks, hnone, hd⟩
  · obtain ⟨l₂, hl₂, rfl⟩ := Program.onLayout_ok hslot
    obtain ⟨hs', hn', ht'⟩ := Layout.declare_has (Layout.declare_numbered hp hl₁) hl₂
    refine ⟨⟨⟨hs.mono (Layout.declare_prefix hl₂), hn, ht⟩, ?_, ?_⟩,
      .tail (.single (.field hstart)) (.field hslot)⟩
    · intro t ht
      simp [ht] at hlen
    · intro _ _ _ _
      exact ⟨slot, hsome, hd, hs', hn', ht'⟩

/-- What holds of a color when it has been planned, and in all later programs, holds of every color
in the end. -/
theorem Coloring.planFrom_induction {c : Coloring} {color : Nat} {colors : List (List SpanId)}
    {p p' : Program} {plan : List ColorSlots}
    {P : Program → Nat → List SpanId → ColorSlots → Prop} (hp : p.layout.Numbered)
    (hcolor : ∀ q q' i members slots, q.layout.Numbered →
      c.planColor i members q = .ok slots q' → P q' i members slots)
    (hmono : ∀ q q' i members slots, Program.Leads q q' → P q i members slots →
      P q' i members slots)
    (h : c.planFrom color colors p = .ok plan p') :
    p.Leads p' ∧ plan.length = colors.length ∧
      ∀ (i : Nat) (slots : ColorSlots) (members : List SpanId), plan[i]? = some slots →
        colors[i]? = some members → P p' (color + i) members slots := by
  induction colors generalizing color p plan with
  | nil =>
    obtain ⟨rfl, rfl⟩ := pure_ok h
    exact ⟨.refl, rfl, by simp⟩
  | cons members rest ih =>
    rw [planFrom] at h
    obtain ⟨slots, p₁, hslots, h₁⟩ := bind_ok h
    obtain ⟨others, p₂, hothers, h₂⟩ := bind_ok h₁
    obtain ⟨rfl, rfl⟩ := pure_ok h₂
    obtain ⟨-, hlead⟩ := planColor_ok hp hslots
    obtain ⟨hlead', hlen, hrest⟩ := ih (hlead.numbered hp) hothers
    refine ⟨hlead.trans hlead', by simp [hlen], ?_⟩
    intro i slots' members' hs hm
    cases i with
    | zero =>
      simp only [List.getElem?_cons_zero, Option.some.injEq] at hs hm
      subst hs hm
      exact hmono p₁ p₂ color members slots hlead' (hcolor p p₁ color members slots hp hslots)
    | succ i =>
      have hi := hrest i slots' members' (by simpa using hs) (by simpa using hm)
      rwa [Nat.add_assoc, Nat.add_comm 1] at hi

theorem Coloring.planFrom_ok {c : Coloring} {color : Nat} {colors : List (List SpanId)}
    {p p' : Program} {plan : List ColorSlots} (hp : p.layout.Numbered)
    (h : c.planFrom color colors p = .ok plan p') :
    p.Leads p' ∧ plan.length = colors.length ∧
      ∀ (i : Nat) (slots : ColorSlots) (members : List SpanId), plan[i]? = some slots →
        colors[i]? = some members → slots.Planned c p'.layout (color + i) members :=
  planFrom_induction (P := fun q i members slots => slots.Planned c q.layout i members) hp
    (fun _ _ _ _ _ hq hslots => (planColor_ok hq hslots).1)
    (fun _ _ _ _ _ hlead hplanned => hplanned.mono hlead.extends.fields) h

def SharedFields.expected : List (String × Ty) :=
  [(currentName, parserSig.ptr), (errorName, .i32), (reasonName, .bytes), (errorPosName, .bytes)]

def SharedFields.collect (found : String × Ty → Except BuildError Field) :
    Except BuildError SharedFields := do
  return {
    current := ← found (currentName, parserSig.ptr)
    error := ← found (errorName, .i32)
    reason := ← found (reasonName, .bytes)
    errorPos := ← found (errorPosName, .bytes) }

theorem SharedFields.resolve_eq_collect (l : Layout) :
    resolve l = collect fun ask => find l ask.1 ask.2 := rfl

theorem SharedFields.collect_eq_ok {found : String × Ty → Except BuildError Field}
    {s : SharedFields} : collect found = .ok s ↔
      found (currentName, parserSig.ptr) = .ok s.current ∧ found (errorName, .i32) = .ok s.error ∧
        found (reasonName, .bytes) = .ok s.reason ∧
        found (errorPosName, .bytes) = .ok s.errorPos := by
  constructor
  · intro h
    obtain ⟨current, hc, h⟩ := except_ok h
    obtain ⟨error, he, h⟩ := except_ok h
    obtain ⟨reason, hr, h⟩ := except_ok h
    obtain ⟨errorPos, hp, h⟩ := except_ok h
    obtain rfl := Except.ok.inj h
    exact ⟨hc, he, hr, hp⟩
  · rintro ⟨hc, he, hr, hp⟩
    simp [collect, hc, he, hr, hp, bind, Except.bind, pure, Except.pure]

theorem SharedFields.find_ok {l : Layout} {name : String} {ty : Ty} {f : Field}
    (hl : l.Numbered) (h : find l name ty = .ok f) : l.Holds f name ty := by
  unfold find at h
  split at h
  · simp at h
  · rename_i g hg
    split at h
    · rename_i ht
      obtain rfl := Except.ok.inj h
      exact ⟨(Layout.has_of_lookup hl hg).1, (Layout.has_of_lookup hl hg).2, ht⟩
    · simp at h

theorem SharedFields.resolve_ok {l : Layout} {s : SharedFields} (hl : l.Numbered)
    (h : resolve l = .ok s) : l.Holds s.current currentName parserSig.ptr ∧
      l.Holds s.error errorName .i32 ∧ l.Holds s.reason reasonName .bytes ∧
      l.Holds s.errorPos errorPosName .bytes := by
  rw [resolve_eq_collect, collect_eq_ok] at h
  obtain ⟨hc, he, hr, hp⟩ := h
  exact ⟨find_ok hl hc, find_ok hl he, find_ok hl hr, find_ok hl hp⟩

namespace Emitter

structure Ready (e : Emitter) (p : Program) : Prop where
  length : e.colors.length = e.coloring.colors.length
  planned : ∀ (i : Nat) (slots : ColorSlots) (members : List SpanId), e.colors[i]? = some slots →
    e.coloring.colors[i]? = some members → slots.Planned e.coloring p.layout i members
  current : p.layout.Holds e.current SharedFields.currentName parserSig.ptr
  error : p.layout.Holds e.record.error SharedFields.errorName .i32
  reason : p.layout.Holds e.record.reason SharedFields.reasonName .bytes
  errorPos : p.layout.Holds e.record.errorPos SharedFields.errorPosName .bytes
  message : p.literal? e.record.message = some e.options.errorReason
  callbacks : ∀ span ∈ e.coloring.spans, ∃ d, p.decl? span.callback = some d

theorem Ready.mono {e : Emitter} {p p' : Program} (h : e.Ready p) (hp : p.Extends p') :
    e.Ready p' := by
  refine ⟨h.length, fun i slots members hs hm => (h.planned i slots members hs hm).mono hp.fields,
    h.current.mono hp.fields, h.error.mono hp.fields, h.reason.mono hp.fields,
    h.errorPos.mono hp.fields, ?_, ?_⟩
  · obtain ⟨rest, hr⟩ := hp.literals
    have hi : e.record.message.index < p.literals.length :=
      (List.getElem?_eq_some_iff.1 h.message).1
    rw [Program.literal?, ← hr, List.getElem?_append_left hi]
    exact h.message
  · intro span hs
    obtain ⟨d, hd⟩ := h.callbacks span hs
    obtain ⟨d', hd', -⟩ := hp.decls _ d hd
    exact ⟨d', hd'⟩

theorem checkCallback_ok {p : Program} {span : SpanDecl} (h : checkCallback p span = .ok ()) :
    ∃ d, p.decl? span.callback = some d := by
  unfold checkCallback at h
  split at h
  · simp at h
  · rename_i d hd
    exact ⟨d, hd⟩

/-- An emitter that is prepared finds its fields in the program and in all later ones. -/
theorem prepare_ok {options : SpanOptions} {c : Coloring} {p p' : Program} {e : Emitter}
    (hp : p.layout.Numbered) (h : prepare options c p = .ok e p') :
    e.Ready p' ∧ e.coloring = c ∧ e.options = options ∧ options.errorSentinel ≠ 0 ∧
      p.Leads p' := by
  by_cases hsentinel : options.errorSentinel = 0
  · simp [prepare, hsentinel, bind_eq] at h
  simp only [prepare, hsentinel, ↓reduceIte] at h
  obtain ⟨u, q₁, hq₁, h₂⟩ := bind_ok h
  obtain ⟨hcallbacks, rfl⟩ := Build.check_ok hq₁
  obtain ⟨shared, q₂, hq₂, h₃⟩ := bind_ok h₂
  obtain ⟨hshared, rfl⟩ := Build.check_ok hq₂
  obtain ⟨colors, p₁, hcolors, h₄⟩ := bind_ok h₃
  obtain ⟨record, p₂, hrecord, h₅⟩ := bind_ok h₄
  obtain ⟨rfl, rfl⟩ := pure_ok h₅
  obtain ⟨message, p₃, hmessage, h₆⟩ := bind_ok hrecord
  obtain ⟨rfl, rfl⟩ := pure_ok h₆
  obtain ⟨hlead, hlen, hplan⟩ := Coloring.planFrom_ok hp hcolors
  obtain ⟨hc, he, hr, hpos⟩ := SharedFields.resolve_ok hp hshared
  have hlead' : Program.Leads p₁ p₃ := .single (.intern hmessage)
  have hall : Program.Leads q₂ p₃ := hlead.trans hlead'
  have hf := hall.extends.fields
  refine ⟨⟨hlen, ?_, hc.mono hf, he.mono hf, hr.mono hf, hpos.mono hf,
    (Program.intern_cases hmessage).1, ?_⟩, rfl, rfl, hsentinel, hall⟩
  · intro i slots members hs hm
    have h := hplan i slots members hs hm
    rw [Nat.zero_add] at h
    exact h.mono hlead'.extends.fields
  · intro span hspan
    obtain ⟨d, hd⟩ := checkCallback_ok (forM_eq_ok.1 hcallbacks span hspan)
    obtain ⟨d', hd', -⟩ := hall.extends.decls _ d hd
    exact ⟨d', hd'⟩

end Emitter

end SpanTracking
