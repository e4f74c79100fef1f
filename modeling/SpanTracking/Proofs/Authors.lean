import SpanTracking.Proofs.Construction
import SpanTracking.Proofs.Passage

set_option autoImplicit false

namespace SpanTracking

namespace Program

theorem decl?_of_define_ne {p p' : Program} {b : Body} (h : define b p = .ok () p') {f : FuncId}
    (hf : b.id ≠ f) : p'.decl? f = p.decl? f := by
  obtain ⟨-, d, -, -, -, -, rfl⟩ := define_cases h
  have hne : b.id.index ≠ f.index := fun heq => hf (by cases f; cases hb : b.id; simp_all)
  rw [decl?, List.getElem?_set_ne hne]
  rfl

theorem body?_of_define_ne {p p' : Program} {b : Body} (h : define b p = .ok () p') {f : FuncId}
    (hf : b.id ≠ f) : p'.body? f = p.body? f := by
  rw [body?, decl?_of_define_ne h hf]
  rfl

theorem body?_of_declare {p p' : Program} {name : String} {sig : Signature} {g : FuncId}
    (h : declare name sig p = .ok g p') (f : FuncId) : p'.body? f = p.body? f := by
  obtain ⟨-, rfl⟩ | ⟨-, -, rfl⟩ := declare_cases h
  · rfl
  rw [body?, body?, decl?, decl?]
  rcases Nat.lt_or_ge f.index p.decls.length with hlt | hge
  · rw [List.getElem?_append_left hlt]
  · rw [List.getElem?_append_right hge, List.getElem?_eq_none hge, List.getElem?_singleton]
    split <;> rfl

/-- A body was there before the step, or is the one that the step has defined. -/
theorem Step.body_cases {p p' : Program} (h : Step p p') {f : FuncId} {b : Body}
    (hb : p'.body? f = some b) : p.body? f = some b ∨
      b.id = f ∧ Program.define b p = .ok () p' := by
  cases h with
  | field h =>
    obtain ⟨l, -, rfl⟩ := onLayout_ok h
    exact .inl hb
  | declare h => exact .inl ((body?_of_declare h f).symm.trans hb)
  | intern h => obtain ⟨-, rfl | rfl⟩ := intern_cases h <;> exact .inl hb
  | @define b₀ h =>
    by_cases hf : b₀.id = f
    · subst hf
      obtain rfl := Option.some.inj ((define_body h).symm.trans hb)
      exact .inr ⟨rfl, h⟩
    · exact .inl ((body?_of_define_ne h hf).symm.trans hb)

theorem Step.bodies {p p' : Program} (h : Step p p')
    (hp : ∀ f b, p.body? f = some b → b.id = f ∧ b.verify = .ok ()) :
    ∀ f b, p'.body? f = some b → b.id = f ∧ b.verify = .ok () := by
  intro f b hb
  rcases h.body_cases hb with hold | ⟨hid, hdefine⟩
  · exact hp f b hold
  · exact ⟨hid, (define_cases hdefine).1⟩

theorem Reachable.bodies {p : Program} (h : Reachable p) :
    ∀ f b, p.body? f = some b → b.id = f ∧ b.verify = .ok () := by
  induction h with
  | refl =>
    intro f b hb
    simp [body?, decl?] at hb
  | tail _ hs ih => exact hs.bodies ih

end Program

namespace Coloring

/-- The slot of a shared color lists the callbacks of all members. -/
def Lists (c : Coloring) (slots : ColorSlots) (members : List SpanId) : Prop :=
  members ≠ [] ∧ ∀ s ∈ members, ∀ span, c.span? s = some span → span.callback ∈ slots.callbacks

theorem planColor_lists {c : Coloring} {color : Nat} {members : List SpanId} {p p' : Program}
    {slots : ColorSlots} (h : c.planColor color members p = .ok slots p') :
    c.Lists slots members := by
  obtain ⟨-, -, hcallbacks, p₁, -, hrest⟩ := planColor_cases h
  refine ⟨?_, ?_⟩
  · obtain ⟨s, span, rfl, -⟩ | ⟨hlen, -⟩ := hrest
    · exact List.cons_ne_nil _ _
    · exact List.ne_nil_of_length_pos (by omega)
  · intro s hs span hspan
    rw [hcallbacks, List.mem_eraseDups]
    exact List.mem_filterMap.2 ⟨s, hs, by simp [hspan]⟩

theorem planFrom_lists {c : Coloring} {color : Nat} {colors : List (List SpanId)}
    {p p' : Program} {plan : List ColorSlots} (h : c.planFrom color colors p = .ok plan p') :
    List.Forall₂ c.Lists plan colors := by
  induction colors generalizing color p plan with
  | nil =>
    obtain ⟨rfl, rfl⟩ := pure_ok h
    exact .nil
  | cons members rest ih =>
    rw [planFrom] at h
    obtain ⟨slots, p₁, hslots, h₁⟩ := bind_ok h
    obtain ⟨others, p₂, hothers, h₂⟩ := bind_ok h₁
    obtain ⟨rfl, rfl⟩ := pure_ok h₂
    exact .cons (planColor_lists hslots) (ih hothers)

end Coloring

namespace Emitter

theorem field_start {e : Emitter} {color : Nat} {slots : ColorSlots}
    (hs : e.colors[color]? = some slots) : e.field? (.start color) = some slots.start := by
  simp [field?, hs]

theorem field_of_slot? {e : Emitter} {color : Nat} {slots : ColorSlots}
    (hs : e.colors[color]? = some slots) {slot : Field} (hslot : slots.slot? = some slot) :
    e.field? (.slot color) = some slot := by
  simp [field?, hs, hslot]

def spanFields (e : Emitter) : List FieldId :=
  e.colors.flatMap fun slots => slots.start.id :: slots.slot?.toList.map Field.id

theorem start_mem_spanFields {e : Emitter} {color : Nat} {slots : ColorSlots}
    (hs : e.colors[color]? = some slots) : slots.start.id ∈ e.spanFields :=
  List.mem_flatMap.2 ⟨slots, List.mem_of_getElem? hs, List.mem_cons_self⟩

theorem slot_mem_spanFields {e : Emitter} {color : Nat} {slots : ColorSlots}
    (hs : e.colors[color]? = some slots) {slot : Field} (hslot : slots.slot? = some slot) :
    slot.id ∈ e.spanFields := by
  refine List.mem_flatMap.2 ⟨slots, List.mem_of_getElem? hs, List.mem_cons_of_mem _ ?_⟩
  simp [hslot]

theorem prepare_lists {options : SpanOptions} {c : Coloring} {p p' : Program} {e : Emitter}
    (h : prepare options c p = .ok e p') :
    List.Forall₂ e.coloring.Lists e.colors e.coloring.colors := by
  by_cases hsentinel : options.errorSentinel = 0
  · simp [prepare, hsentinel, bind_eq] at h
  simp only [prepare, hsentinel, ↓reduceIte] at h
  obtain ⟨u, q₁, -, h₂⟩ := bind_ok h
  obtain ⟨shared, q₂, -, h₃⟩ := bind_ok h₂
  obtain ⟨colors, p₁, hcolors, h₄⟩ := bind_ok h₃
  obtain ⟨record, p₂, -, h₅⟩ := bind_ok h₄
  obtain ⟨rfl, rfl⟩ := pure_ok h₅
  exact Coloring.planFrom_lists hcolors

/-- The emitter was prepared for the program `p` as it was before it was finished. -/
structure Serves (e : Emitter) (p : Program) : Prop where
  reachable : p.Reachable
  ready : e.Ready p
  lists : List.Forall₂ e.coloring.Lists e.colors e.coloring.colors

theorem serves_of_prepare {options : SpanOptions} {c : Coloring} {p₀ p₁ p : Program} {e : Emitter}
    (hp : p₀.Reachable) (he : prepare options c p₀ = .ok e p₁) (h : p₁.Leads p) : e.Serves p := by
  obtain ⟨hready, -, -, -, hleads⟩ := prepare_ok hp.numbered he
  exact ⟨(hp.leads hleads).leads h, hready.mono h.extends, prepare_lists he⟩

namespace Serves

variable {e : Emitter} {p : Program}

theorem nonempty (h : e.Serves p) : ∀ members ∈ e.coloring.colors, members ≠ [] := by
  intro members hmem
  obtain ⟨i, hi⟩ := List.getElem?_of_mem hmem
  obtain ⟨hlt, rfl⟩ := List.getElem?_eq_some_iff.1 hi
  have hlt' : i < e.colors.length := by rw [h.lists.length_eq]; exact hlt
  exact (h.lists.get hlt' hlt).1

theorem mem_callbacks (h : e.Serves p) {s : SpanId} {span : SpanDecl} {color : Nat}
    {slots : ColorSlots} (hs : e.locate s = .ok (span, color, slots)) :
    span.callback ∈ slots.callbacks := by
  obtain ⟨hspan, hcolor, hslots⟩ := mem_colors_of_locate hs
  obtain ⟨hlt, rfl⟩ := List.getElem?_eq_some_iff.1 hslots
  obtain ⟨members, hmembers, hmem⟩ := e.coloring.sound s color hcolor
  obtain ⟨hlt', rfl⟩ := List.getElem?_eq_some_iff.1 hmembers
  exact (h.lists.get hlt hlt').2 s hmem span hspan

theorem slot_of_indirect (h : e.Serves p) {color : Nat} {slots : ColorSlots}
    (hs : e.colors[color]? = some slots) {slot : Field} {candidates : List FuncId}
    (hd : slots.dispatch = .indirect slot candidates) :
    slots.slot? = some slot ∧ slots.callbacks = candidates := by
  obtain ⟨members, hmembers, hplanned⟩ := h.ready.planned_of_slots hs
  exact hplanned.slot_of_indirect (h.nonempty members (List.mem_of_getElem? hmembers)) hd

theorem field_slot (h : e.Serves p) {color : Nat} {slots : ColorSlots}
    (hs : e.colors[color]? = some slots) {slot : Field} {candidates : List FuncId}
    (hd : slots.dispatch = .indirect slot candidates) : e.field? (.slot color) = some slot :=
  field_of_slot? hs (h.slot_of_indirect hs hd).1

theorem direct_callee (h : e.Serves p) {color : Nat} {slots : ColorSlots}
    (hs : e.colors[color]? = some slots) {callee : FuncId} (hd : slots.dispatch = .direct callee) :
    ∃ span ∈ e.coloring.spans, span.callback = callee := by
  obtain ⟨members, hmembers, hplanned⟩ := h.ready.planned_of_slots hs
  have hne := h.nonempty members (List.mem_of_getElem? hmembers)
  rcases members with _ | ⟨s, _ | ⟨r, rest⟩⟩
  · exact absurd rfl hne
  · obtain ⟨span, hspan, -, -, hd'⟩ := hplanned.sole s rfl
    exact ⟨span, List.mem_of_getElem? hspan, (Dispatch.direct.inj (hd.symm.trans hd')).symm⟩
  · obtain ⟨slot, -, hd', -⟩ := hplanned.shared s r rest rfl
    simp [hd] at hd'

theorem id_ne (h : e.Serves p) {x y : Place} {f g : Field} (hf : e.field? x = some f)
    (hg : e.field? y = some g) (hne : x ≠ y) : f.id ≠ g.id :=
  h.ready.id_ne h.nonempty hf hg hne

theorem get?_fresh (h : e.Serves p) {x : Place} {f : Field} (hf : e.field? x = some f) :
    ∃ ty, x.Fits ty ∧ (Memory.fresh p.layout).get? f.id = some (.zero ty) := by
  obtain ⟨ty, hholds, hfits⟩ := h.ready.field h.nonempty hf
  have hhas : p.layout.fields[f.id.index]? = some f := hholds.has
  refine ⟨ty, hfits, ?_⟩
  simp [Memory.get?, Memory.fresh, hhas, hholds.ty_eq]

theorem has_field_of_le (h : e.Serves p) {x : Place} {f : Field} (hf : e.field? x = some f)
    {m : Memory} (hm : p.layout.fields.length ≤ m.values.length) : m.Has f.id := by
  obtain ⟨ty, hholds, -⟩ := h.ready.field h.nonempty hf
  exact (List.getElem?_eq_some_iff.1 hholds.has).1.trans_le hm

theorem has_field (h : e.Serves p) {x : Place} {f : Field} (hf : e.field? x = some f)
    {m : Memory} (hm : m.values.length = p.layout.fields.length) : m.Has f.id :=
  h.has_field_of_le hf hm.ge

/-- The fields shared by all parser functions belong to no span. -/
theorem not_mem_spanFields (h : e.Serves p) {x : Place} {f : Field} (hf : e.field? x = some f)
    (hstart : ∀ color, x ≠ .start color) (hslot : ∀ color, x ≠ .slot color) :
    f.id ∉ e.spanFields := by
  intro hmem
  obtain ⟨slots, hslots, hmem⟩ := List.mem_flatMap.1 hmem
  obtain ⟨color, hcolor⟩ := List.getElem?_of_mem hslots
  rcases List.mem_cons.1 hmem with heq | hmem
  · exact h.id_ne hf (field_start hcolor) (hstart color) heq
  · obtain ⟨slot, hslot', heq⟩ := List.mem_map.1 hmem
    have hg : e.field? (.slot color) = some slot := by
      simpa [field?, hcolor] using hslot'
    exact h.id_ne hf hg (hslot color) heq.symm

theorem start_ty (h : e.Serves p) {slots : ColorSlots} (hs : slots ∈ e.colors) :
    slots.start.ty = .bytes := by
  obtain ⟨i, hi⟩ := List.getElem?_of_mem hs
  obtain ⟨members, -, hplanned⟩ := h.ready.planned_of_slots hi
  exact hplanned.start.ty_eq

end Serves

end Emitter

structure Program.Authored (p : Program) (e : Emitter) (book : FuncId → Draft) (f : FuncId) :
    Prop where
  body : p.body? f = some (book f).body
  made : (book f).Made e

namespace Build

variable {σ α : Type}

def after (step : Build σ α) (s : σ) : σ :=
  match step s with
  | .ok _ s' => s'
  | .error _ s' => s'

def succeeds (step : Build σ α) (s : σ) : Bool :=
  match step s with
  | .ok _ _ => true
  | .error _ _ => false

theorem eq_ok_of_succeeds {step : Build σ Unit} {s : σ} (h : succeeds step s) :
    step s = .ok () (after step s) := by
  unfold succeeds at h
  unfold after
  split at h <;> simp_all

theorem after_of_ok {step : Build σ α} {s s' : σ} {a : α} (h : step s = .ok a s') :
    after step s = s' := by
  rw [after, h]

/-- Whatever the step comes to, the state before it and the state after it are related. -/
def Keeps (R : σ → σ → Prop) (step : Build σ α) : Prop := ∀ s, R s (after step s)

theorem Keeps.bind {β : Type} {R : σ → σ → Prop} (htrans : ∀ {s t u}, R s t → R t u → R s u)
    {x : Build σ α} {f : α → Build σ β} (hx : Keeps R x) (hf : ∀ a, Keeps R (f a)) :
    Keeps R (x >>= f) := by
  intro s
  have hs := hx s
  unfold after at hs ⊢
  rw [bind_eq]
  cases h : x s with
  | ok a t =>
    simp only [h] at hs ⊢
    exact htrans hs (hf a t)
  | error err t => simpa only [h] using hs

end Build

namespace Draft

def written (e : Emitter) (f : FuncId) (name : String) (ops : List Operation) : Draft :=
  Build.after (performAll e ops) (start (.start f name parserSig parserParams))

theorem made_written {e : Emitter} {f : FuncId} {name : String} {ops : List Operation}
    (h : Build.succeeds (performAll e ops) (start (.start f name parserSig parserParams)))
    (hpaths : ∀ path p target, Operation.resumeAt path p target ∈ ops →
      path.current = e.current ∧ path.sentinel = e.options.errorSentinel) :
    (written e f name ops).Made e :=
  ⟨⟨f, name, parserSig, parserParams, ops, Build.eq_ok_of_succeeds h, hpaths⟩⟩

def book (drafts : List Draft) (f : FuncId) : Draft :=
  (drafts.find? fun d => d.body.id = f).getD (start (.start f "" parserSig parserParams))

theorem book_of_mem {drafts : List Draft} (hnodup : (drafts.map fun d => d.body.id).Nodup)
    {d : Draft} (hd : d ∈ drafts) : book drafts d.body.id = d := by
  induction drafts with
  | nil => simp at hd
  | cons d' rest ih =>
    rw [List.map_cons, List.nodup_cons] at hnodup
    rcases List.mem_cons.1 hd with rfl | hmem
    · simp [book]
    · have hne : d'.body.id ≠ d.body.id := fun heq =>
        hnodup.1 (heq ▸ List.mem_map_of_mem (f := fun d => d.body.id) hmem)
      have hrest := ih hnodup.2 hmem
      simpa [book, hne] using hrest

def defineAll : List Draft → Build Program Unit
  | [] => return ()
  | d :: rest => do
    Program.define d.body
    defineAll rest

theorem leads_of_defineAll {drafts : List Draft} {p p' : Program}
    (h : defineAll drafts p = .ok () p') : p.Leads p' := by
  induction drafts generalizing p with
  | nil =>
    obtain ⟨-, rfl⟩ := pure_ok h
    exact .refl
  | cons d rest ih =>
    obtain ⟨u, p₁, hdefine, hrest⟩ := bind_ok h
    exact .head (.define hdefine) (ih hrest)

theorem body?_of_defineAll {drafts : List Draft} {p p' : Program}
    (h : defineAll drafts p = .ok () p') {f : FuncId} {b : Body} (hb : p'.body? f = some b) :
    p.body? f = some b ∨ ∃ d ∈ drafts, d.body = b ∧ d.body.id = f := by
  induction drafts generalizing p with
  | nil =>
    obtain ⟨-, rfl⟩ := pure_ok h
    exact .inl hb
  | cons d rest ih =>
    obtain ⟨u, p₁, hdefine, hrest⟩ := bind_ok h
    rcases ih hrest with hold | ⟨d', hmem, hbody⟩
    · by_cases hf : d.body.id = f
      · subst hf
        rw [Program.define_body hdefine] at hold
        exact .inr ⟨d, List.mem_cons_self, Option.some.inj hold, rfl⟩
      · exact .inl ((Program.body?_of_define_ne hdefine hf).symm.trans hold)
    · exact .inr ⟨d', List.mem_cons_of_mem _ hmem, hbody⟩

/-- A program whose bodies are those of drafts is assembled by the book. -/
theorem authored_of_defineAll {e : Emitter} {drafts : List Draft} {p p' : Program}
    (h : defineAll drafts p = .ok () p') (hp : ∀ f, p.body? f = none)
    (hnodup : (drafts.map fun d => d.body.id).Nodup) (hmade : ∀ d ∈ drafts, d.Made e)
    {f : FuncId} {b : Body} (hb : p'.body? f = some b) :
    p'.Authored e (book drafts) f ∧ book drafts f ∈ drafts := by
  rcases body?_of_defineAll h hb with hold | ⟨d, hmem, rfl, rfl⟩
  · simp [hp] at hold
  · have hbook := book_of_mem hnodup hmem
    exact ⟨⟨by rw [hbook]; exact hb, by rw [hbook]; exact hmade d hmem⟩, by rw [hbook]; exact hmem⟩

end Draft

/-! ### The emitter of a shared pair -/

def pairDeclared : Program :=
  EventParser.sharedProgram [("on_a", parserSig), ("on_b", parserSig), ("parse", parserSig)]

theorem pairDeclared_reachable : pairDeclared.Reachable :=
  EventParser.sharedProgram_reachable (by decide)

def pairEmitter (options : SpanOptions) : Emitter where
  coloring := sharedPair
  colors := [
    ⟨[⟨0⟩, ⟨1⟩], [⟨0⟩, ⟨1⟩], parserSig, ⟨⟨4⟩, "_span_pos0", .bytes⟩,
      some ⟨⟨5⟩, "_span_cb0", parserSig.ptr⟩,
      .indirect ⟨⟨5⟩, "_span_cb0", parserSig.ptr⟩ [⟨0⟩, ⟨1⟩]⟩,
    ⟨[⟨2⟩], [⟨0⟩], parserSig, ⟨⟨6⟩, "_span_pos1", .bytes⟩, none, .direct ⟨0⟩⟩]
  record := {
    error := EventParser.sharedFields.error
    reason := EventParser.sharedFields.reason
    errorPos := EventParser.sharedFields.errorPos
    message := ⟨0⟩ }
  current := EventParser.sharedFields.current
  options

def pairPrepared : Program where
  layout := ⟨EventParser.sharedLayout.fields ++ [⟨⟨4⟩, "_span_pos0", .bytes⟩,
    ⟨⟨5⟩, "_span_cb0", parserSig.ptr⟩, ⟨⟨6⟩, "_span_pos1", .bytes⟩]⟩
  decls := pairDeclared.decls
  literals := ["Span callback error"]

theorem prepare_pair (hints checks : Bool) :
    Emitter.prepare { calleeHints := hints, debugChecks := checks } sharedPair pairDeclared =
      .ok (pairEmitter { calleeHints := hints, debugChecks := checks }) pairPrepared := by
  cases hints <;> cases checks <;> rfl

theorem pairPrepared_bodiless (f : FuncId) : pairPrepared.body? f = none := by
  obtain ⟨i⟩ := f
  rcases i with _ | _ | _ | i <;> rfl

end SpanTracking
