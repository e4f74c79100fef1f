import SpanTracking.Proofs.Generated
import SpanTracking.Proofs.Representation

set_option autoImplicit false

namespace SpanTracking

open Machine

/-- Two runs end alike: both with related results or both with the same fault, in related states. -/
inductive Agree {φ σ α β : Type} (R : World σ → Tracked φ σ → Prop) (Q : α → β → Prop) :
    EStateM.Result Fault (World σ) α → EStateM.Result Fault (Tracked φ σ) β → Prop
  | ok {a : α} {b : β} {w : World σ} {t : Tracked φ σ} (hq : Q a b) (hr : R w t) :
      Agree R Q (.ok a w) (.ok b t)
  | error {e : Fault} {w : World σ} {t : Tracked φ σ} (hr : R w t) :
      Agree R Q (.error e w) (.error e t)

theorem Agree.bind {φ σ α α' β β' : Type} {R : World σ → Tracked φ σ → Prop} {Q : α → β → Prop}
    {Q' : α' → β' → Prop} {x : Exec σ α} {y : Track φ σ β} {f : α → Exec σ α'}
    {g : β → Track φ σ β'} {w : World σ} {t : Tracked φ σ} (h : Agree R Q (x w) (y t))
    (hfg : ∀ a b w' t', Q a b → R w' t' → Agree R Q' (f a w') (g b t')) :
    Agree R Q' ((x >>= f) w) ((y >>= g) t) := by
  rw [bind_eq, bind_eq]
  generalize x w = first at h
  generalize y t = second at h
  cases h with
  | ok hq hr => exact hfg _ _ _ _ hq hr
  | error hr => exact .error hr

def Emitter.scheme {φ : Type} (e : Emitter) (label : FuncId → φ) (resume : FuncId)
    (title : φ → String) : Scheme φ where
  spans := e.coloring.spans.map fun span => (span.name, label span.callback)
  colors := e.coloring.colors
  options := e.options
  resume := label resume
  title

/-- Every callback has no body and is answered by the host, with the code that `reply` gives. -/
structure Emitter.Hosted {φ σ : Type} (e : Emitter) (p : Program) (label : FuncId → φ)
    (title : φ → String) (host : Host σ) (reply : Replies φ σ) : Prop where
  bodyless : ∀ span ∈ e.coloring.spans, ∃ d, p.decl? span.callback = some d ∧ d.body = none ∧
    title (label span.callback) = d.name
  answer : ∀ span ∈ e.coloring.spans,
    host.answer span.callback = some (reply (label span.callback))

section Steps

variable {φ σ : Type} {e : Emitter} {p : Program} {label : FuncId → φ} {resume : FuncId}
  {title : φ → String} {host : Host σ} {reply : Replies φ σ} {w : World σ} {t : Tracked φ σ}

theorem Emitter.Hosted.call (hh : e.Hosted p label title host reply) {span : SpanDecl}
    (hs : span ∈ e.coloring.spans) (limit depth : Nat) (args : List Value) :
    ∃ d, p.decl? span.callback = some d ∧ title (label span.callback) = d.name ∧
      Machine.call p host limit depth span.callback args =
        askHost host span.callback d.name args := by
  obtain ⟨d, hd, hb, ht⟩ := hh.bodyless span hs
  refine ⟨d, hd, ht, ?_⟩
  cases depth <;> simp [Machine.call, dispatch, hd, hb]

/-- A callback that gets a position answers as the tracker's host does. -/
theorem Emitter.Hosted.call_agrees (hh : e.Hosted p label title host reply) {span : SpanDecl}
    (hs : span ∈ e.coloring.spans) (limit depth start stop : Nat)
    (h : Represents e p label w t) :
    Agree (Represents e p label) (fun v (code : Int32) => v = .int code.toInt)
      (Machine.call p host limit depth span.callback
        [.state, .ptr (some start), .ptr (some stop)] w)
      (Tracker.ask reply (label span.callback) start stop t) := by
  obtain ⟨d, hd, -, hcall⟩ := hh.call hs limit depth [.state, .ptr (some start), .ptr (some stop)]
  rw [hcall]
  simp only [askHost, hh.answer span hs, positions, Tracker.ask, h.host]
  refine .ok rfl ⟨rfl, ?_, h.fields, h.known, h.opened⟩
  simp [h.calls]

theorem record_agrees (he : e.Ready p) (hc : ∀ members ∈ e.coloring.colors, members ≠ [])
    (h : Represents e p label w t) (code : Int32) (pos : Nat) :
    Agree (Represents e p label) (fun _ _ => True)
      (record e.record (.ptr (some pos)) (.int code.toInt) w)
      (Tracker.alter (Tracker.setFailure code pos) t) := by
  have h₁ := h.fields.set he hc (x := .error) rfl (.int code.toInt)
  have h₂ := h₁.set he hc (x := .reason) rfl (.text e.record.message)
  have h₃ := h₂.set he hc (x := .errorPos) rfl (.ptr (some pos))
  have hk := ((h.known.set he hc (x := .error) rfl (v := .int code.toInt) (by simp)).set he hc
    (x := .reason) rfl (v := .text e.record.message) (by simp)).set he hc (x := .errorPos) rfl
    (v := .ptr (some pos)) (by simp)
  have hw : record e.record (.ptr (some pos)) (.int code.toInt) w = .ok () _ :=
    andThen (h.fields.write (x := .error) rfl _) (andThen (h₁.write (x := .reason) rfl _)
      (h₂.write (x := .errorPos) rfl _))
  have hm : (Value.text e.record.message).seen label p = .text (some e.options.errorReason) := by
    simp [Value.seen, he.message]
  rw [hm] at h₃
  rw [hw]
  refine .ok trivial ⟨h.host, h.calls, ?_, hk, h.opened⟩
  rw [Tracker.look_setFailure]
  exact h₃

theorem Value.seen_pos {v : Value} {q : Option Nat} (h : v.seen label p = .pos q) :
    v = .ptr q := by
  cases v <;> simp_all [Value.seen]

theorem Value.seen_func {v : Value} {q : Option φ} (h : v.seen label p = .func q) :
    ∃ f, v = .func f ∧ f.map label = q := by
  cases v <;> simp_all [Value.seen]

theorem Tracker.setStart_self (t : Tracker φ) {color : Nat} {start : Option Nat}
    (h : t.start color = start) : t.setStart color start = t := by
  subst h
  simp [Tracker.setStart]

def Status (v : Value) (code : Int32) : Prop := v = .int code.toInt

section Close

variable {span : SpanDecl} {color : Nat} {slots : ColorSlots}

theorem handOver_agrees (he : e.Ready p) (hc : ∀ members ∈ e.coloring.colors, members ≠ [])
    (hh : e.Hosted p label title host reply) (hspan : span ∈ e.coloring.spans)
    (hslots : e.colors[color]? = some slots) (limit depth start pos : Nat)
    (h : Represents e p label w t) :
    Agree (Represents e p label) Status
      ((do
        let result ← handOver (Machine.call p host limit depth) e slots span.callback resume
          (.ptr (some start)) (.ptr (some pos))
        return result.getD (.int 0)) w)
      ((do
        Tracker.alter (Tracker.setStart color none)
        let code ← Tracker.ask reply (label span.callback) start pos
        if code = 0 then return 0
        else
          Tracker.alter (Tracker.setFailure code pos)
          Tracker.alter (Tracker.setCurrent (label resume))
          return e.options.errorSentinel) t) := by
  have hf : e.field? (.start color) = some slots.start := by simp [Emitter.field?, hslots]
  have h₁ := h.setStart he hc hf none (by simp)
  simp only [handOver, bind_assoc]
  refine Agree.bind (Q := fun _ _ => True) ?_ ?_
  · rw [h.fields.write hf]
    exact .ok trivial h₁
  intro _ _ w₁ t₁ _ h₁
  refine Agree.bind (hh.call_agrees hspan limit depth start pos h₁) ?_
  rintro v code w₂ t₂ rfl h₂
  by_cases hz : code = 0
  · simp only [toInt_eq_zero, hz, ↓reduceIte]
    exact .ok (by simp [Status]) h₂
  · simp only [toInt_eq_zero, hz, ↓reduceIte, bind_assoc]
    refine Agree.bind (record_agrees he hc h₂ code pos) ?_
    intro _ _ w₃ t₃ _ h₃
    refine Agree.bind (Q := fun _ _ => True) ?_ ?_
    · rw [h₃.fields.write (x := .current) rfl]
      exact .ok trivial (h₃.setCurrent he hc resume)
    · intro _ _ w₄ t₄ _ h₄
      exact .ok rfl h₄

theorem closes_agrees (he : e.Ready p) (hc : ∀ members ∈ e.coloring.colors, members ≠ [])
    (hh : e.Hosted p label title host reply) (hspan : span ∈ e.coloring.spans)
    (hslots : e.colors[color]? = some slots) (limit depth pos : Nat) (stop : Value)
    (h : Represents e p label w t) :
    Agree (Represents e p label) Status
      (Meaning.closes e slots span.callback resume ("end_" ++ span.name) σ
        (Machine.call p host limit depth) (.ptr (some pos)) stop w)
      ((e.scheme label resume title).closeSpan reply (span.name, label span.callback) color pos
        t) := by
  have hf : e.field? (.start color) = some slots.start := by simp [Emitter.field?, hslots]
  obtain ⟨v, -, hread, hseen⟩ := h.fields.read hf
  obtain rfl := Value.seen_pos hseen
  have hget : (get : Track φ σ (Tracked φ σ)) t = .ok t t := rfl
  rw [Scheme.closeSpan, bind_of_ok hget]
  simp only [Meaning.closes, Machine.closeSpan, bind_assoc]
  rw [bind_of_ok hread]
  cases hstart : t.tracker.start color with
  | some start =>
    simp only [Value.isNull, Bool.and_false, Bool.false_eq_true, ↓reduceIte]
    exact handOver_agrees he hc hh hspan hslots limit depth start pos h
  | none =>
    cases hd : e.options.debugChecks with
    | true =>
      simp only [Value.isNull, Bool.and_self, ↓reduceIte, Emitter.scheme, hd]
      exact .error h
    | false =>
      obtain ⟨d, -, htitle, hcall⟩ := hh.call hspan limit depth [.state, .ptr none, .ptr (some pos)]
      have h₁ := h.setStart he hc hf none (by simp)
      rw [Tracker.setStart_self t.tracker hstart] at h₁
      simp only [Value.isNull, Bool.false_and, Bool.false_eq_true, ↓reduceIte, Emitter.scheme, hd,
        handOver, bind_assoc]
      rw [bind_of_ok (h.fields.write hf _), hcall, htitle]
      have hask : askHost host span.callback d.name [.state, .ptr none, .ptr (some pos)]
          (put w slots.start.id (.ptr none)) =
            .error (.nullPosition d.name) (put w slots.start.id (.ptr none)) := by
        simp [askHost, hh.answer span hspan, positions]
      rw [bind_of_error hask]
      exact .error h₁

end Close

/-- The scheme knows a color with one member, and the emitter calls its callback directly. -/
theorem Emitter.Ready.sole_cases (label : FuncId → φ) (resume : FuncId) (title : φ → String)
    (he : e.Ready p)
    (hc : ∀ members ∈ e.coloring.colors, members ≠ []) {color : Nat} {slots : ColorSlots}
    (hslots : e.colors[color]? = some slots) :
    (∃ s span, (e.scheme label resume title).sole color = some s ∧
        e.coloring.spans[s.index]? = some span ∧ slots.slot? = none ∧
        slots.dispatch = .direct span.callback) ∨
      ((e.scheme label resume title).sole color = none ∧ ∃ slot, slots.slot? = some slot ∧
        slots.dispatch = .indirect slot slots.callbacks) := by
  obtain ⟨members, hm, hp⟩ := he.planned_of_slots hslots
  match members, hc members (List.mem_of_getElem? hm) with
  | [s], _ =>
    obtain ⟨span, hspan, -, hnone, hd⟩ := hp.sole s rfl
    exact .inl ⟨s, span, by simp [Scheme.sole, Emitter.scheme, hm], hspan, hnone, hd⟩
  | s :: r :: rest, _ =>
    obtain ⟨slot, hslot, hd, -⟩ := hp.shared s r rest rfl
    exact .inr ⟨by simp [Scheme.sole, Emitter.scheme, hm], slot, hslot, hd⟩

theorem opens_agrees (he : e.Ready p) (hc : ∀ members ∈ e.coloring.colors, members ≠ [])
    {span : SpanDecl} (hspan : span ∈ e.coloring.spans) {color : Nat} {slots : ColorSlots}
    (hslots : e.colors[color]? = some slots) (enter : FuncId → List Value → Exec σ Value)
    (pos : Nat) (stop : Value) (h : Represents e p label w t) :
    Agree (Represents e p label) Status
      (Meaning.opens slots span.callback σ enter (.ptr (some pos)) stop w)
      ((e.scheme label resume title).openSpan (label span.callback) color pos t) := by
  have hf : e.field? (.start color) = some slots.start := by simp [Emitter.field?, hslots]
  rcases he.sole_cases label resume title hc hslots with
    ⟨s, span', hsole, -, hslot, -⟩ | ⟨hsole, slot, hslot, -⟩
  · have hg : e.field? (.slot color) = none := by simp [Emitter.field?, hslots, hslot]
    have hopen : Machine.openSpan slots span.callback (.ptr (some pos)) w = .ok () _ :=
      andThen (h.fields.write hf _) (by rw [hslot]; rfl)
    rw [Meaning.opens, bind_of_ok hopen]
    simp only [Scheme.openSpan, hsole]
    exact .ok rfl (h.setStart he hc hf (some pos) (by simp [hg]))
  · have hg : e.field? (.slot color) = some slot := by simp [Emitter.field?, hslots, hslot]
    have hopen : Machine.openSpan slots span.callback (.ptr (some pos)) w = .ok () _ :=
      andThen (h.fields.write hf _) (by
        rw [hslot]
        exact (h.fields.set he hc hf _).write hg _)
    rw [Meaning.opens, bind_of_ok hopen]
    simp only [Scheme.openSpan, hsole]
    exact .ok rfl (h.setBoth he hc hf hg pos hspan)

/-- The callback of an open span is the one that the tracker names. -/
theorem callee_agrees (resume : FuncId) (title : φ → String) (he : e.Ready p)
    (hc : ∀ members ∈ e.coloring.colors, members ≠ []) {color : Nat} {slots : ColorSlots}
    (hslots : e.colors[color]? = some slots) (h : Represents e p label w t)
    (ho : (t.tracker.start color).isSome) :
    ∃ span ∈ e.coloring.spans, Machine.callee slots.dispatch w = .ok span.callback w ∧
      (e.scheme label resume title).callee t.tracker color = some (label span.callback) := by
  rcases he.sole_cases label resume title hc hslots with
    ⟨s, span, hsole, hspan, -, hd⟩ | ⟨hsole, slot, hslot, hd⟩
  · refine ⟨span, List.mem_of_getElem? hspan, by rw [hd]; rfl, ?_⟩
    rw [Scheme.callee, hsole]
    simp [Emitter.scheme, hspan]
  · have hg : e.field? (.slot color) = some slot := by
      simp [Emitter.field?, hslots, hslot]
    obtain ⟨v, hv, hread, hseen⟩ := h.fields.read hg
    obtain ⟨f, rfl, hf⟩ := Value.seen_func hseen
    have hsome := h.opened color (by simp [hg]) ho
    rw [← hf, Option.isSome_map] at hsome
    obtain ⟨g, rfl⟩ := Option.isSome_iff_exists.1 hsome
    obtain ⟨span, hspan, rfl⟩ := h.known color slot g hg hv
    refine ⟨span, hspan, ?_, ?_⟩
    · rw [hd]
      exact andThen hread rfl
    · simp [Scheme.callee, hsole, ← hf]

theorem flush_agrees (he : e.Ready p) (hc : ∀ members ∈ e.coloring.colors, members ≠ [])
    (hh : e.Hosted p label title host reply) {color : Nat} {slots : ColorSlots}
    (hslots : e.colors[color]? = some slots) (limit depth stop : Nat)
    (h : Represents e p label w t) :
    Agree (Represents e p label) (Option.Rel Status)
      (Machine.flush (Machine.call p host limit depth) e slots (.ptr (some stop)) w)
      ((e.scheme label resume title).flush reply stop color t) := by
  have hf : e.field? (.start color) = some slots.start := by simp [Emitter.field?, hslots]
  obtain ⟨v, -, hread, hseen⟩ := h.fields.read hf
  obtain rfl := Value.seen_pos hseen
  have hget : (get : Track φ σ (Tracked φ σ)) t = .ok t t := rfl
  rw [Machine.flush, bind_of_ok hread, Scheme.flush, bind_of_ok hget]
  cases hstart : t.tracker.start color with
  | none => exact .ok .none h
  | some start =>
    obtain ⟨span, hspan, hcallee, hname⟩ := callee_agrees resume title he hc hslots h
      (by simp [hstart])
    simp only [hname, Value.isNull, Bool.false_eq_true, ↓reduceIte]
    rw [bind_of_ok hcallee]
    refine Agree.bind (hh.call_agrees hspan limit depth start stop h) ?_
    rintro v code w₁ t₁ rfl h₁
    by_cases hz : code = 0
    · simp only [toInt_eq_zero, hz, ↓reduceIte]
      exact .ok .none h₁
    · simp only [toInt_eq_zero, hz, ↓reduceIte]
      refine Agree.bind (record_agrees he hc h₁ code stop) ?_
      intro _ _ w₂ t₂ _ h₂
      exact .ok (.some rfl) h₂

theorem flushAll_agrees (he : e.Ready p) (hc : ∀ members ∈ e.coloring.colors, members ≠ [])
    (hh : e.Hosted p label title host reply) (limit depth stop : Nat) {list : List ColorSlots}
    {color : Nat} (hlist : ∀ i slots, list[i]? = some slots → e.colors[color + i]? = some slots)
    (h : Represents e p label w t) :
    Agree (Represents e p label) Status
      ((do
        let result ← inTurn
          (fun slots => Machine.flush (Machine.call p host limit depth) e slots (.ptr (some stop)))
          list
        return result.getD (.int 0)) w)
      ((e.scheme label resume title).flushAll reply stop (List.range' color list.length) t) := by
  induction list generalizing color w t with
  | nil => exact .ok rfl h
  | cons slots rest ih =>
    simp only [inTurn, bind_assoc, List.length_cons, List.range'_succ, Scheme.flushAll]
    refine Agree.bind (flush_agrees he hc hh (hlist 0 slots rfl) limit depth stop h) ?_
    rintro result code w₁ t₁ hrel h₁
    cases hrel with
    | none =>
      refine ih (fun i slots' hi => ?_) h₁
      rw [Nat.add_assoc, Nat.add_comm 1]
      exact hlist (i + 1) slots' hi
    | some hstatus => exact .ok hstatus h₁

theorem rebase_agrees (he : e.Ready p) (hc : ∀ members ∈ e.coloring.colors, members ≠ [])
    (pos : Nat) {color : Nat} {slots : ColorSlots} (hslots : e.colors[color]? = some slots)
    (h : Represents e p label w t) :
    ∃ w', Machine.rebase slots (.ptr (some pos)) w = .ok none w' ∧
      Represents e p label w'
        { t with
          tracker := t.tracker.setStart color ((t.tracker.start color).map fun _ => pos) } := by
  have hf : e.field? (.start color) = some slots.start := by simp [Emitter.field?, hslots]
  obtain ⟨v, -, hread, hseen⟩ := h.fields.read hf
  obtain rfl := Value.seen_pos hseen
  rw [Machine.rebase, bind_of_ok hread]
  cases hstart : t.tracker.start color with
  | none =>
    refine ⟨w, rfl, ?_⟩
    rw [Option.map_none, Tracker.setStart_self t.tracker hstart]
    exact h
  | some start =>
    have ho : (e.field? (.slot color)).isSome → (t.tracker.opener color).isSome :=
      fun hs => h.opened color hs (by simp [hstart])
    exact ⟨_, bind_of_ok (h.fields.write hf _), h.setStart he hc hf (some pos) fun _ => ho⟩

/-- Rebasing all colors from number `color` on. -/
theorem rebaseAll_agrees (he : e.Ready p) (hc : ∀ members ∈ e.coloring.colors, members ≠ [])
    (pos color : Nat) {list : List ColorSlots}
    (hlist : ∀ i slots, list[i]? = some slots → e.colors[color + i]? = some slots)
    (hall : e.colors.length ≤ color + list.length) (h : Represents e p label w t) :
    ∃ w', inTurn (fun slots => Machine.rebase slots (.ptr (some pos))) list w = .ok none w' ∧
      Represents e p label w' { t with tracker := { t.tracker with
        start := fun i => if color ≤ i then (t.tracker.start i).map fun _ => pos
          else t.tracker.start i } } := by
  induction list generalizing color w t with
  | nil =>
    -- no color is left, and what a tracker holds beyond the colors is not represented
    have hlt : ∀ i slots, e.colors[i]? = some slots → ¬ color ≤ i := by
      intro i slots hi
      have := (List.getElem?_eq_some_iff.1 hi).1
      simp only [List.length_nil, Nat.add_zero] at hall
      omega
    refine ⟨w, rfl, h.host, h.calls, ?_, h.known, ?_⟩
    · intro x f hx
      obtain ⟨v, hv, hseen⟩ := h.fields x f hx
      refine ⟨v, hv, hseen.trans ?_⟩
      cases x with
      | start i =>
        obtain ⟨slots, hi, -⟩ := Option.map_eq_some_iff.1 hx
        simp [Tracker.look, hlt i slots hi]
      | _ => rfl
    · intro i hs hi
      obtain ⟨f, hx⟩ := Option.isSome_iff_exists.1 hs
      obtain ⟨slots, hslots, -⟩ := Option.bind_eq_some_iff.1 hx
      exact h.opened i hs (by simpa [hlt i slots hslots] using hi)
  | cons slots rest ih =>
    have hslots := hlist 0 slots rfl
    rw [Nat.add_zero] at hslots
    obtain ⟨w₁, hrebase, h₁⟩ := rebase_agrees he hc pos hslots h
    have hrest : ∀ i slots, rest[i]? = some slots → e.colors[color + 1 + i]? = some slots := by
      intro i slots' hi
      rw [Nat.add_assoc, Nat.add_comm 1]
      exact hlist (i + 1) slots' hi
    obtain ⟨w₂, hgo, h₂⟩ := ih (color + 1) hrest (by simp at hall ⊢; omega) h₁
    refine ⟨w₂, andThen hrebase hgo, ?_⟩
    have hstart : ∀ i, (if color + 1 ≤ i then
          ((t.tracker.setStart color ((t.tracker.start color).map fun _ => pos)).start i).map
            fun _ => pos
        else (t.tracker.setStart color ((t.tracker.start color).map fun _ => pos)).start i) =
          if color ≤ i then (t.tracker.start i).map fun _ => pos else t.tracker.start i := by
      intro i
      rcases Nat.lt_trichotomy i color with hi | hi | hi
      · have hne : i ≠ color := by omega
        simp [Tracker.setStart, hne, show ¬ color + 1 ≤ i by omega, show ¬ color ≤ i by omega]
      · subst hi
        simp [Tracker.setStart]
      · have hne : i ≠ color := by omega
        simp [Tracker.setStart, hne, show color + 1 ≤ i by omega, show color ≤ i by omega]
    simp only [hstart] at h₂
    exact h₂

end Steps

theorem asStatus_agrees {φ σ : Type} {R : World σ → Tracked φ σ → Prop} {x : Exec σ Value}
    {track : Track φ σ Int32} {w : World σ} {t : Tracked φ σ} (h : Agree R Status (x w) (track t)) :
    Agree R Eq ((x >>= fun v => settle (asStatus v)) w) (track t) := by
  rw [bind_eq]
  generalize x w = first at h
  generalize track t = second at h
  cases h with
  | error hr => exact .error hr
  | @ok v code w t hq hr =>
    obtain rfl := hq
    simp only [settle_run, asStatus_toInt]
    exact .ok rfl hr

namespace EventParser

variable {φ σ : Type} {parser : EventParser} {options : SpanOptions} {c : Coloring}
  {label : FuncId → φ} {title : φ → String} {host : Host σ} {reply : Replies φ σ}
  {w : World σ} {t : Tracked φ σ}

theorem invoke_agrees {f : FuncId} {name : String} {least limit depth : Nat} {m : Meaning}
    {track : Track φ σ Int32} {pos stop : Nat} (hg : parser.program.Gives f name least m)
    (hl : least ≤ limit)
    (h : Agree (Represents parser.emitter parser.program label) Status
      (m σ (Machine.call parser.program host limit depth) (.ptr (some pos)) (.ptr (some stop)) w)
      (track t)) :
    Agree (Represents parser.emitter parser.program label) Eq
      (invoke parser.program host limit (depth + 1) f pos stop w) (track t) := by
  rw [invoke, hg.call host hl]
  exact asStatus_agrees h

theorem span_cases (hc : parser.emitter.coloring.Valid)
    (he : parser.emitter.Ready parser.program)
    (hlen : parser.edges.length = parser.emitter.coloring.spans.length) (label : FuncId → φ)
    (title : φ → String) (s : SpanId) :
    (parser.edges[s.index]? = none ∧
        (parser.emitter.scheme label parser.resume title).locate s = none) ∨
      ∃ span edge color slots, parser.emitter.coloring.spans[s.index]? = some span ∧
        parser.edges[s.index]? = some edge ∧
        parser.emitter.locate ⟨s.index⟩ = .ok (span, color, slots) ∧
        parser.emitter.colors[color]? = some slots ∧
        (parser.emitter.scheme label parser.resume title).locate s =
          some ((span.name, label span.callback), color) := by
  cases hspan : parser.emitter.coloring.spans[s.index]? with
  | none =>
    refine .inl ⟨?_, by simp [Scheme.locate, Emitter.scheme, hspan]⟩
    rw [List.getElem?_eq_none_iff] at hspan ⊢
    omega
  | some span =>
    obtain ⟨color, slots, hloc, hcolor, hslots⟩ := Emitter.locate_ok hc he.length hspan
    have hi : s.index < parser.edges.length := by
      rw [hlen]
      exact (List.getElem?_eq_some_iff.1 hspan).1
    refine .inr ⟨span, parser.edges[s.index], color, slots, rfl, List.getElem?_eq_getElem hi, hloc,
      hslots, ?_⟩
    have hfind : parser.emitter.coloring.colors.findIdx? (fun members => decide (s ∈ members)) =
      some color := hc.colorOf_eq_findIdx?.symm.trans hcolor
    simp [Scheme.locate, Emitter.scheme, hspan, hfind]

/-- One event: the parser's function and the tracker's step end alike. -/
theorem Generated.step_agrees (hp : parser.Generated options c) (hc : c.Valid)
    (hh : parser.emitter.Hosted parser.program label title host reply) {limit : Nat}
    (hl : 1 + 2 * c.colors.length ≤ limit) (depth : Nat) (event : Event)
    (h : Represents parser.emitter parser.program label w t) :
    Option.Rel (fun run track =>
        Agree (Represents parser.emitter parser.program label) Eq (run w) (track t))
      (parser.step host limit (depth + 1) event)
      ((parser.emitter.scheme label parser.resume title).step reply event) := by
  obtain ⟨rfl, hset, hsent, he, hlen, hedge, hresume, hpre, hpost⟩ := hp
  have hne := hc.nonempty
  rw [← he.length] at hl
  cases event with
  | openSpan s pos stop =>
    simp only [step, call?, Scheme.step]
    rcases span_cases hc he hlen label title s with
      ⟨hnone, hnone'⟩ | ⟨span, edge, color, slots, hspan, hsome, hloc, hslots, hsome'⟩
    · rw [hnone, hnone']
      exact .none
    · rw [hsome, hsome']
      exact .some (invoke_agrees ((hedge _ _ _ hspan hsome).opens _ _ hloc) (by omega)
        (opens_agrees he hne (List.mem_of_getElem? hspan) hslots _ pos _ h))
  | closeSpan s pos stop =>
    simp only [step, call?, Scheme.step]
    rcases span_cases hc he hlen label title s with
      ⟨hnone, hnone'⟩ | ⟨span, edge, color, slots, hspan, hsome, hloc, hslots, hsome'⟩
    · rw [hnone, hnone']
      exact .none
    · have hcolors := (List.getElem?_eq_some_iff.1 hslots).1
      rw [hsome, hsome']
      exact .some (invoke_agrees ((hedge _ _ _ hspan hsome).closes _ _ hloc) (by omega)
        (closes_agrees he hne hh (List.mem_of_getElem? hspan) hslots limit depth pos _ h))
  | enter pos stop =>
    refine .some (invoke_agrees hpre hl ?_)
    obtain ⟨w', hrun, h'⟩ := rebaseAll_agrees he hne pos 0
      (fun i slots hi => by simpa using hi) (by simp) h
    simp only [Nat.zero_le, ↓reduceIte] at h'
    rw [Meaning.begins, bind_of_ok hrun]
    exact .ok rfl h'
  | leave pos stop =>
    refine .some (invoke_agrees hpost hl ?_)
    rw [show (parser.emitter.scheme label parser.resume title).colors.length =
      parser.emitter.colors.length from he.length.symm, List.range_eq_range']
    exact flushAll_agrees he hne hh limit depth stop (fun i slots hi => by simpa using hi) h

end EventParser

end SpanTracking
