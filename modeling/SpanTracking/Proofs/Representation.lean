import SpanTracking.Proofs.Numerals
import SpanTracking.Proofs.Run
import SpanTracking.Proofs.Storage
import SpanTracking.Proofs.Tracker

set_option autoImplicit false

namespace SpanTracking

/-- A value as far as it can be told from outside. -/
inductive Seen (φ : Type) where
  | int (n : Int)
  | pos (p : Option Nat)
  | func (f : Option φ)
  | text (t : Option String)
  | state

def Value.seen {φ : Type} (label : FuncId → φ) (p : Program) : Value → Seen φ
  | .int n => .int n
  | .ptr pos => .pos pos
  | .func f => .func (f.map label)
  | .text t => .text (p.literal? t)
  | .state => .state

inductive Place where
  | current
  | error
  | reason
  | errorPos
  | start (color : Nat)
  | slot (color : Nat)
deriving DecidableEq

namespace Place

def name : Place → String
  | current => SharedFields.currentName
  | error => SharedFields.errorName
  | reason => SharedFields.reasonName
  | errorPos => SharedFields.errorPosName
  | start color => ColorSlots.startName color
  | slot color => ColorSlots.slotName color

def Fits : Place → Ty → Prop
  | current, ty => ty = parserSig.ptr
  | error, ty => ty = .i32
  | slot _, ty => ∃ sig : Signature, ty = sig.ptr
  | _, ty => ty = .bytes

theorem name_inj {x y : Place} : x.name = y.name ↔ x = y := by
  cases x <;> cases y <;>
    simp [name, ColorSlots.startName, ColorSlots.slotName, SharedFields.currentName,
      SharedFields.errorName, SharedFields.reasonName, SharedFields.errorPosName,
      ← String.toList_inj, digits_inj]

end Place

theorem Layout.Holds.place_eq {l : Layout} {f g : Field} {x y : Place} {ty ty' : Ty}
    (hf : l.Holds f x.name ty) (hg : l.Holds g y.name ty') (he : f.id = g.id) : x = y := by
  by_contra hne
  refine hf.has.id_ne hg.has (fun hn => hne (Place.name_inj.1 ?_)) he
  rw [← hf.name_eq, ← hg.name_eq, hn]

namespace Emitter

def field? (e : Emitter) : Place → Option Field
  | .current => some e.current
  | .error => some e.record.error
  | .reason => some e.record.reason
  | .errorPos => some e.record.errorPos
  | .start color => e.colors[color]?.map ColorSlots.start
  | .slot color => e.colors[color]?.bind ColorSlots.slot?

theorem Ready.planned_of_slots {e : Emitter} {p : Program} (h : e.Ready p) {i : Nat}
    {slots : ColorSlots} (hs : e.colors[i]? = some slots) :
    ∃ members, e.coloring.colors[i]? = some members ∧
      slots.Planned e.coloring p.layout i members := by
  have hlt : i < e.coloring.colors.length := by
    rw [← h.length]
    exact (List.getElem?_eq_some_iff.1 hs).1
  have hm := List.getElem?_eq_getElem hlt
  exact ⟨_, hm, h.planned i slots _ hs hm⟩

theorem Ready.field {e : Emitter} {p : Program} (h : e.Ready p)
    (hc : ∀ members ∈ e.coloring.colors, members ≠ []) {x : Place} {f : Field}
    (hf : e.field? x = some f) : ∃ ty, p.layout.Holds f x.name ty ∧ x.Fits ty := by
  cases x with
  | current => exact ⟨_, Option.some.inj hf ▸ h.current, rfl⟩
  | error => exact ⟨_, Option.some.inj hf ▸ h.error, rfl⟩
  | reason => exact ⟨_, Option.some.inj hf ▸ h.reason, rfl⟩
  | errorPos => exact ⟨_, Option.some.inj hf ▸ h.errorPos, rfl⟩
  | start color =>
    obtain ⟨slots, hs, rfl⟩ := Option.map_eq_some_iff.1 hf
    obtain ⟨members, -, hp⟩ := h.planned_of_slots hs
    exact ⟨_, hp.start, rfl⟩
  | slot color =>
    obtain ⟨slots, hs, hslot⟩ := Option.bind_eq_some_iff.1 hf
    obtain ⟨members, hm, hp⟩ := h.planned_of_slots hs
    match members, hc members (List.mem_of_getElem? hm) with
    | [s], _ =>
      obtain ⟨span, -, -, hnone, -⟩ := hp.sole s rfl
      simp [hnone] at hslot
    | s :: t :: rest, _ =>
      obtain ⟨slot, hsome, -, hholds⟩ := hp.shared s t rest rfl
      obtain rfl := Option.some.inj (hsome.symm.trans hslot)
      exact ⟨_, hholds, slots.sig, rfl⟩

theorem Ready.id_ne {e : Emitter} {p : Program} (h : e.Ready p)
    (hc : ∀ members ∈ e.coloring.colors, members ≠ []) {x y : Place} {f g : Field}
    (hf : e.field? x = some f) (hg : e.field? y = some g) (hne : x ≠ y) : f.id ≠ g.id := by
  obtain ⟨_, hx, -⟩ := h.field hc hf
  obtain ⟨_, hy, -⟩ := h.field hc hg
  exact fun he => hne (hx.place_eq hy he)

end Emitter

def Tracker.look {φ : Type} (t : Tracker φ) (reason : String) : Place → Seen φ
  | .current => .func t.current
  | .error => .int (t.failure.elim 0 fun failure => failure.1.toInt)
  | .reason => t.failure.elim (.pos none) fun _ => .text (some reason)
  | .errorPos => .pos (t.failure.map Prod.snd)
  | .start color => .pos (t.start color)
  | .slot color => .func (t.opener color)

def Memory.Shows {φ : Type} (m : Memory) (e : Emitter) (p : Program) (label : FuncId → φ)
    (look : Place → Seen φ) : Prop :=
  ∀ x f, e.field? x = some f → ∃ v, m.get? f.id = some v ∧ v.seen label p = look x

theorem Memory.Shows.set {φ : Type} {m : Memory} {e : Emitter} {p : Program} {label : FuncId → φ}
    {look : Place → Seen φ} (h : m.Shows e p label look) (he : e.Ready p)
    (hc : ∀ members ∈ e.coloring.colors, members ≠ []) {x : Place} {f : Field}
    (hf : e.field? x = some f) (v : Value) :
    (m.set f.id v).Shows e p label (Function.update look x (v.seen label p)) := by
  intro y g hg
  obtain ⟨u, hu, hlook⟩ := h y g hg
  by_cases hxy : y = x
  · subst hxy
    obtain rfl : f = g := Option.some.inj (hf.symm.trans hg)
    exact ⟨v, Memory.get?_set_self hu, by simp⟩
  · refine ⟨u, ?_, by simp [hxy, hlook]⟩
    rw [Memory.get?_set_ne (he.id_ne hc hf hg (Ne.symm hxy))]
    exact hu

theorem Memory.Shows.write {φ σ : Type} {w : World σ} {e : Emitter} {p : Program}
    {label : FuncId → φ} {look : Place → Seen φ} (h : w.memory.Shows e p label look) {x : Place}
    {f : Field} (hf : e.field? x = some f) (v : Value) :
    Machine.write f.id v w = .ok () (Machine.put w f.id v) := by
  obtain ⟨u, hu, -⟩ := h x f hf
  exact Machine.write_ok hu v

theorem Memory.Shows.read {φ σ : Type} {w : World σ} {e : Emitter} {p : Program}
    {label : FuncId → φ} {look : Place → Seen φ} (h : w.memory.Shows e p label look) {x : Place}
    {f : Field} (hf : e.field? x = some f) :
    ∃ v, w.memory.get? f.id = some v ∧ Machine.read f.id w = .ok v w ∧
      v.seen label p = look x := by
  obtain ⟨v, hv, hlook⟩ := h x f hf
  exact ⟨v, hv, by simp [Machine.read, hv], hlook⟩

section Looks

variable {φ : Type} (t : Tracker φ) (reason : String)

theorem Tracker.look_setStart (color : Nat) (start : Option Nat) :
    (t.setStart color start).look reason =
      Function.update (t.look reason) (.start color) (.pos start) := by
  funext x
  cases x with
  | start i =>
    by_cases hi : i = color
    · subst hi
      simp [look, setStart]
    · simp [look, setStart, hi]
  | _ => rfl

theorem Tracker.look_setOpener (color : Nat) (callback : φ) :
    (t.setOpener color callback).look reason =
      Function.update (t.look reason) (.slot color) (.func (some callback)) := by
  funext x
  cases x with
  | slot i =>
    by_cases hi : i = color
    · subst hi
      simp [look, setOpener]
    · simp [look, setOpener, hi]
  | _ => rfl

theorem Tracker.look_setCurrent (target : φ) :
    (t.setCurrent target).look reason =
      Function.update (t.look reason) .current (.func (some target)) := by
  funext x
  cases x <;> rfl

theorem Tracker.look_setFailure (code : Int32) (pos : Nat) :
    (t.setFailure code pos).look reason =
      Function.update (Function.update (Function.update (t.look reason) .error (.int code.toInt))
        .reason (.text (some reason))) .errorPos (.pos (some pos)) := by
  funext x
  cases x <;> rfl

end Looks

def Memory.Known (m : Memory) (e : Emitter) : Prop :=
  ∀ color f g, e.field? (.slot color) = some f → m.get? f.id = some (.func (some g)) →
    ∃ span ∈ e.coloring.spans, span.callback = g

theorem Memory.Known.set {m : Memory} {e : Emitter} {p : Program} (h : m.Known e) (he : e.Ready p)
    (hc : ∀ members ∈ e.coloring.colors, members ≠ []) {x : Place} {f : Field}
    (hf : e.field? x = some f) {v : Value}
    (hv : ∀ color, x = .slot color → ∀ g, v = .func (some g) →
      ∃ span ∈ e.coloring.spans, span.callback = g) : (m.set f.id v).Known e := by
  intro color f' g hf' hg
  by_cases hx : x = .slot color
  · obtain rfl : f = f' := by
      rw [hx] at hf
      exact Option.some.inj (hf.symm.trans hf')
    refine hv color hx g ?_
    cases hm : m.get? f.id with
    | some u =>
      rw [Memory.get?_set_self hm] at hg
      exact Option.some.inj hg
    | none =>
      rw [Memory.get?, Memory.set, List.getElem?_set] at hg
      simp_all [Memory.get?]
  · rw [Memory.get?_set_ne (he.id_ne hc hf hf' hx)] at hg
    exact h color f' g hf' hg

/-- The world `w` of a program represents the tracker in `t`. -/
structure Represents {φ σ : Type} (e : Emitter) (p : Program) (label : FuncId → φ) (w : World σ)
    (t : Tracked φ σ) : Prop where
  host : w.host = t.host
  calls : w.calls.toList.map (fun c => (label c.callee, c.start, c.stop)) = t.calls
  fields : w.memory.Shows e p label (t.tracker.look e.options.errorReason)
  known : w.memory.Known e
  /-- An open span of a shared color has stored its callback. -/
  opened : ∀ color, (e.field? (.slot color)).isSome → (t.tracker.start color).isSome →
    (t.tracker.opener color).isSome

namespace Represents

variable {φ σ : Type} {e : Emitter} {p : Program} {label : FuncId → φ} {w : World σ}
  {t : Tracked φ σ}

theorem setStart (h : Represents e p label w t) (he : e.Ready p)
    (hc : ∀ members ∈ e.coloring.colors, members ≠ []) {color : Nat} {f : Field}
    (hf : e.field? (.start color) = some f) (start : Option Nat)
    (ho : start.isSome → (e.field? (.slot color)).isSome → (t.tracker.opener color).isSome) :
    Represents e p label (Machine.put w f.id (.ptr start))
      { t with tracker := t.tracker.setStart color start } := by
  refine ⟨h.host, h.calls, ?_, h.known.set he hc hf (by simp), ?_⟩
  · rw [Tracker.look_setStart]
    exact h.fields.set he hc hf (.ptr start)
  · intro i hs hi
    by_cases hic : i = color
    · subst hic
      exact ho (by simpa [Tracker.setStart] using hi) hs
    · exact h.opened i hs (by simpa [Tracker.setStart, hic] using hi)

/-- Opening a span of a shared color writes both its fields. -/
theorem setBoth (h : Represents e p label w t) (he : e.Ready p)
    (hc : ∀ members ∈ e.coloring.colors, members ≠ []) {color : Nat} {f g : Field}
    (hf : e.field? (.start color) = some f) (hg : e.field? (.slot color) = some g) (start : Nat)
    {span : SpanDecl} (hs : span ∈ e.coloring.spans) :
    Represents e p label
      (Machine.put (Machine.put w f.id (.ptr (some start))) g.id (.func (some span.callback)))
      { t with tracker :=
        (t.tracker.setStart color (some start)).setOpener color (label span.callback) } := by
  refine ⟨h.host, h.calls, ?_, ?_, ?_⟩
  · rw [Tracker.look_setOpener, Tracker.look_setStart]
    exact (h.fields.set he hc hf (.ptr (some start))).set he hc hg (.func (some span.callback))
  · refine (h.known.set he hc hf (by simp)).set he hc hg ?_
    intro _ _ g' hg'
    obtain rfl : span.callback = g' := by simpa using hg'
    exact ⟨span, hs, rfl⟩
  · intro i hi hstart
    by_cases hic : i = color
    · subst hic
      simp [Tracker.setOpener, Tracker.setStart]
    · simp only [Tracker.setStart, Tracker.setOpener, ne_eq, hic, not_false_eq_true,
        Function.update_of_ne] at hstart ⊢
      exact h.opened i hi hstart

theorem setCurrent (h : Represents e p label w t) (he : e.Ready p)
    (hc : ∀ members ∈ e.coloring.colors, members ≠ []) (target : FuncId) :
    Represents e p label (Machine.put w e.current.id (.func (some target)))
      { t with tracker := t.tracker.setCurrent (label target) } := by
  refine ⟨h.host, h.calls, ?_, h.known.set he hc (x := .current) rfl (by simp), h.opened⟩
  rw [Tracker.look_setCurrent]
  exact h.fields.set he hc (x := .current) rfl (.func (some target))

theorem fresh (he : e.Ready p) (hc : ∀ members ∈ e.coloring.colors, members ≠ []) (host : σ) :
    Represents e p label ⟨Memory.fresh p.layout, host, #[]⟩ { host } := by
  have hzero : ∀ x f, e.field? x = some f → ∃ ty, x.Fits ty ∧
      (Memory.fresh p.layout).get? f.id = some (.zero ty) := by
    intro x f hx
    obtain ⟨ty, hholds, hfits⟩ := he.field hc hx
    have hhas : p.layout.fields[f.id.index]? = some f := hholds.has
    refine ⟨ty, hfits, ?_⟩
    simp [Memory.get?, Memory.fresh, hhas, hholds.ty_eq]
  refine ⟨rfl, rfl, ?_, ?_, by simp⟩
  · intro x f hx
    obtain ⟨ty, hfits, hv⟩ := hzero x f hx
    refine ⟨_, hv, ?_⟩
    cases x with
    | slot color =>
      obtain ⟨sig, rfl⟩ := hfits
      rfl
    | _ =>
      obtain rfl := hfits
      rfl
  · intro color f g hx hg
    obtain ⟨ty, ⟨sig, rfl⟩, hv⟩ := hzero _ f hx
    rw [hv] at hg
    simp [Value.zero, Signature.ptr, Ty.isFuncPtr] at hg

end Represents

end SpanTracking
