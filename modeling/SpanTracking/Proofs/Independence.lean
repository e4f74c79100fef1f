import SpanTracking.Proofs.Delivery
import SpanTracking.Proofs.Sharing

set_option autoImplicit false

/-!
# Colors do not interfere

Delete from a run every event about the spans of other colors. What is left shows the same in the
fields of the remaining color, and makes the same calls for it, as long as no callback fails at the
end of a buffer: a failure there keeps the colors after it from being handed over.
-/

namespace SpanTracking

open Delivery (pick pick_filterMap)

/-- An event that concerns a color: it is about one of its members, or about all colors. -/
def Event.concerns (c : Coloring) (color : Nat) : Event → Bool
  | .openSpan s _ _ => c.colorOf s = some color
  | .closeSpan s _ _ => c.colorOf s = some color
  | .enter _ _ => true
  | .leave _ _ => true

/-! ## The tracker -/

/-- The second tracker knows of the first what concerns one color, and has no other color open. -/
structure Tracker.Alone {φ : Type} (color : Nat) (t t' : Tracker φ) : Prop where
  start : t'.start color = t.start color
  opener : t'.opener color = t.opener color
  others : ∀ other, other ≠ color → t'.start other = none

namespace Scheme

variable {φ σ : Type} {S : Scheme φ} {t : Tracked φ σ}

def piece (S : Scheme φ) (t : Tracker φ) (stop color : Nat) : Option (φ × Nat × Nat) :=
  match t.start color, S.callee t color with
  | some start, some callback => some (callback, start, stop)
  | _, _ => none

def owners (S : Scheme φ) (t : Tracker φ) : Event → List Nat
  | .openSpan _ _ _ => []
  | .closeSpan s _ _ => (S.locate s).toList.map Prod.snd
  | .enter _ _ => []
  | .leave _ _ => (List.range S.colors.length).filter fun color => (t.start color).isSome

def constant (codes : φ → Int32) : Replies φ σ := fun callback _ _ host => (codes callback, host)

/-- Handing over one color makes at most the call of its piece, and fails only with it. -/
theorem flush_constant (codes : φ → Int32) (stop color : Nat) (t : Tracked φ σ) :
    ∃ result t', S.flush (constant codes) stop color t = .ok result t' ∧
      t'.tracker.start = t.tracker.start ∧ t'.tracker.opener = t.tracker.opener ∧
      t'.calls = t.calls ++ (S.piece t.tracker stop color).toList ∧
      (result ≠ none → ∃ call ∈ S.piece t.tracker stop color, codes call.1 ≠ 0) := by
  have hget : (get : Track φ σ (Tracked φ σ)) t = .ok t t := rfl
  rw [Scheme.flush, bind_of_ok hget, piece]
  cases hstart : t.tracker.start color with
  | none => exact ⟨none, t, rfl, rfl, rfl, by simp, by simp⟩
  | some start =>
    cases hcallee : S.callee t.tracker color with
    | none => exact ⟨none, t, rfl, rfl, rfl, by simp, by simp⟩
    | some callback =>
      simp only
      rw [bind_of_ok (ask_eq ..)]
      by_cases hz : codes callback = 0
      · simp only [constant, hz, ↓reduceIte]
        exact ⟨none, _, rfl, rfl, rfl, rfl, by simp⟩
      · simp only [constant, hz, ↓reduceIte]
        exact ⟨some (codes callback), _, rfl, rfl, rfl, rfl, fun _ => ⟨_, rfl, hz⟩⟩

/-- If no call of a flush fails, then all open colors are handed over. -/
theorem flushAll_constant (codes : φ → Int32) (stop : Nat) (list : List Nat) (t : Tracked φ σ) :
    ∃ status t', S.flushAll (constant codes) stop list t = .ok status t' ∧
      t'.tracker.start = t.tracker.start ∧ t'.tracker.opener = t.tracker.opener ∧
      ∃ made, t'.calls = t.calls ++ made ∧ made <+: list.filterMap (S.piece t.tracker stop) ∧
        ((∀ call ∈ made, codes call.1 = 0) → made = list.filterMap (S.piece t.tracker stop)) := by
  induction list generalizing t with
  | nil => exact ⟨0, t, rfl, rfl, rfl, [], by simp, by simp, by simp⟩
  | cons color rest ih =>
    obtain ⟨result, t₁, hflush, hstart₁, hopener₁, hcalls₁, hfailed⟩ :=
      S.flush_constant codes stop color t
    have hsplit : (color :: rest).filterMap (S.piece t.tracker stop) =
        (S.piece t.tracker stop color).toList ++ rest.filterMap (S.piece t.tracker stop) := by
      cases hcolor : S.piece t.tracker stop color with
      | none => rw [List.filterMap_cons_none hcolor, Option.toList_none, List.nil_append]
      | some call => rw [List.filterMap_cons_some hcolor, Option.toList_some, List.singleton_append]
    rw [flushAll, bind_of_ok hflush, hsplit]
    cases result with
    | some code =>
      refine ⟨code, t₁, rfl, hstart₁, hopener₁, _, hcalls₁, List.prefix_append .., ?_⟩
      intro hzero
      obtain ⟨call, hcall, hcode⟩ := hfailed (by simp)
      exact absurd (hzero call (by simpa using hcall)) hcode
    | none =>
      obtain ⟨status, t₂, hrun, hstart₂, hopener₂, made, hcalls₂, hmade, hall⟩ := ih t₁
      have hpiece : S.piece t₁.tracker stop = S.piece t.tracker stop := by
        funext other
        simp only [piece, callee, hstart₁, hopener₁]
      rw [hpiece] at hmade hall
      refine ⟨status, t₂, hrun, hstart₂.trans hstart₁, hopener₂.trans hopener₁,
        (S.piece t.tracker stop color).toList ++ made, ?_, ?_, ?_⟩
      · rw [hcalls₂, hcalls₁, List.append_assoc]
      · exact (List.prefix_append_right_inj _).2 hmade
      · intro hzero
        rw [hall fun call hcall => hzero call (List.mem_append_right _ hcall)]

theorem openSpan_effect (callback : φ) (color pos : Nat) (t : Tracked φ σ) :
    ∃ t', S.openSpan callback color pos t = .ok 0 t' ∧ t'.calls = t.calls ∧
      t'.tracker.start = Function.update t.tracker.start color (some pos) ∧
      t'.tracker.opener = if (S.sole color).isNone
        then Function.update t.tracker.opener color (some callback) else t.tracker.opener := by
  cases hsole : S.sole color with
  | none =>
    simp only [openSpan, hsole]
    exact ⟨_, rfl, rfl, rfl, rfl⟩
  | some s =>
    simp only [openSpan, hsole]
    exact ⟨_, rfl, rfl, rfl, rfl⟩

theorem closeSpan_effect (reply : Replies φ σ) (span : String × φ) (color pos : Nat)
    (t : Tracked φ σ) :
    (outcome (S.closeSpan reply span color pos t)).2.tracker.start =
        Function.update t.tracker.start color none ∧
      (outcome (S.closeSpan reply span color pos t)).2.tracker.opener = t.tracker.opener ∧
      (outcome (S.closeSpan reply span color pos t)).2.calls =
        t.calls ++ (t.tracker.start color).toList.map fun start => (span.2, start, pos) := by
  have hget : (get : Track φ σ (Tracked φ σ)) t = .ok t t := rfl
  rw [closeSpan, bind_of_ok hget]
  cases hstart : t.tracker.start color with
  | none =>
    have hsame : t.tracker.start = Function.update t.tracker.start color none := by
      rw [← hstart, Function.update_eq_self]
    by_cases hchecks : S.options.debugChecks
    · simp only [hchecks]
      exact ⟨hsame, rfl, by simp [outcome, throw_run]⟩
    · simp only [hchecks]
      exact ⟨hsame, rfl, by simp [outcome, throw_run]⟩
  | some start =>
    have hset : Tracker.alter (Tracker.setStart color none) t =
        .ok () { t with tracker := t.tracker.setStart color none } := rfl
    simp only
    rw [bind_of_ok hset, bind_of_ok (ask_eq ..)]
    by_cases hz : (reply span.2 start pos t.host).1 = 0
    · simp only [hz, ↓reduceIte]
      exact ⟨rfl, rfl, rfl⟩
    · simp only [hz, ↓reduceIte]
      exact ⟨rfl, rfl, rfl⟩

def own (S : Scheme φ) (color : Nat) (t : Tracker φ) : Event → Option (φ × Nat × Nat)
  | .openSpan _ _ _ => none
  | .closeSpan s pos _ =>
    match S.locate s with
    | some (span, other) =>
      if other = color then (t.start color).map fun start => (span.2, start, pos) else none
    | none => none
  | .enter _ _ => none
  | .leave _ stop => S.piece t stop color

/-- No callback fails at the end of a buffer. -/
def Quiet (codes : φ → Int32) (event : Event) (calls : List (φ × Nat × Nat)) : Prop :=
  ∀ pos stop, event = .leave pos stop → ∀ call ∈ calls, codes call.1 = 0

/-- The calls of an event are those that it makes for each color, in the order of the colors. -/
theorem calls_eq_own {codes : φ → Int32} {event : Event} {act : Track φ σ Int32}
    (hact : S.step (constant codes) event = some act) (hcalls : t.calls = [])
    (hquiet : Quiet codes event (outcome (act t)).2.calls) :
    (outcome (act t)).2.calls =
      (List.range S.colors.length).filterMap fun color => S.own color t.tracker event := by
  cases event with
  | openSpan s pos stop =>
    obtain ⟨⟨span, other⟩, -, rfl⟩ := Option.map_eq_some_iff.1 hact
    obtain ⟨t', hrun, hcalls', -⟩ := S.openSpan_effect span.2 other pos t
    simp [hrun, outcome, hcalls', hcalls, own]
  | closeSpan s pos stop =>
    obtain ⟨⟨span, other⟩, hlocate, rfl⟩ := Option.map_eq_some_iff.1 hact
    have hother : other < S.colors.length := by
      unfold locate at hlocate
      split at hlocate
      next _ hfind =>
        obtain ⟨rfl, rfl⟩ := Prod.mk.inj (Option.some.inj hlocate)
        exact (List.findIdx?_eq_some_iff_findIdx_eq.1 hfind).1
      next => simp at hlocate
    simp only [(closeSpan_effect ..).2.2, hcalls, List.nil_append, own, hlocate]
    cases hstart : t.tracker.start other with
    | none =>
      symm
      rw [Option.toList_none, List.map_nil, List.filterMap_eq_nil_iff]
      intro color _
      by_cases hcolor : other = color <;> simp_all
    | some start =>
      symm
      refine filterMap_of_unique (List.nodup_range ..) (List.mem_range.2 hother)
        (by simp [hstart]) fun color _ hcolor => by simp [Ne.symm hcolor]
  | enter pos stop =>
    obtain rfl := Option.some.inj hact
    have hsame : (outcome (rebaseAll pos t)).2.calls = t.calls := rfl
    simpa [own, hsame] using hcalls
  | leave pos stop =>
    obtain rfl := Option.some.inj hact
    obtain ⟨status, t', hrun, -, -, made, hmade, -, hall⟩ :=
      S.flushAll_constant codes stop (List.range S.colors.length) t
    rw [hcalls, List.nil_append] at hmade
    rw [hrun] at hquiet ⊢
    simp only [outcome, hmade] at hquiet ⊢
    exact hall (hquiet pos stop rfl)

/-- Of the calls of an event, the one in the place of a color is the one made for it. -/
theorem pick_owners {codes : φ → Int32} {event : Event} {act : Track φ σ Int32}
    (hact : S.step (constant codes) event = some act) {color : Nat}
    (hcolor : color < S.colors.length) (hcalls : t.calls = [])
    (hcallee : ∀ other < S.colors.length, (t.tracker.start other).isSome →
      (S.callee t.tracker other).isSome)
    (hquiet : Quiet codes event (outcome (act t)).2.calls) :
    pick color (S.owners t.tracker event) (outcome (act t)).2.calls =
      (S.own color t.tracker event).toList := by
  cases event with
  | openSpan s pos stop => rfl
  | closeSpan s pos stop =>
    obtain ⟨⟨span, other⟩, hlocate, rfl⟩ := Option.map_eq_some_iff.1 hact
    simp only [(closeSpan_effect ..).2.2, hcalls, owners, own, hlocate, List.nil_append,
      Option.toList_some, List.map_cons, List.map_nil]
    cases hstart : t.tracker.start other with
    | none => by_cases hother : other = color <;> simp_all [pick]
    | some start => by_cases hother : other = color <;> simp_all [pick]
  | enter pos stop => rfl
  | leave pos stop =>
    rw [calls_eq_own hact hcalls hquiet]
    have hfilter : ((List.range S.colors.length).filter fun i => (t.tracker.start i).isSome) =
        (List.range S.colors.length).filterMap fun i =>
          (S.piece t.tracker stop i).map fun _ => i := by
      rw [← List.filterMap_eq_filter]
      refine List.filterMap_congr fun i hi => ?_
      have hi := hcallee i (List.mem_range.1 hi)
      cases hstart : t.tracker.start i with
      | none => simp [Option.guard, piece, hstart]
      | some start =>
        obtain ⟨callback, hcallback⟩ := Option.isSome_iff_exists.1 (hi (by simp [hstart]))
        simp [Option.guard, piece, hstart, hcallback]
    rw [owners, hfilter]
    simp only [own]
    rw [pick_filterMap color _ (by simp)]
    cases hpiece : S.piece t.tracker stop color with
    | none =>
      rw [Option.toList_none, List.filterMap_eq_nil_iff]
      intro i _
      by_cases hi : i = color
      · simp [hi, hpiece]
      · cases S.piece t.tracker stop i <;> simp [hi]
    | some call =>
      refine filterMap_of_unique (List.nodup_range ..) (List.mem_range.2 hcolor)
        (by simp [hpiece]) fun i _ hi => ?_
      cases S.piece t.tracker stop i <;> simp [hi]

end Scheme

namespace Tracker.Alone

variable {φ σ : Type} {S : Scheme φ} {t t' : Tracked φ σ} {color : Nat}

theorem fresh (color : Nat) : Alone color ({} : Tracker φ) {} := ⟨rfl, rfl, fun _ _ => rfl⟩

theorem piece_eq (h : Alone color t.tracker t'.tracker) (stop : Nat) :
    S.piece t'.tracker stop color = S.piece t.tracker stop color := by
  simp only [Scheme.piece, Scheme.callee, h.start, h.opener]

theorem own_eq (h : Alone color t.tracker t'.tracker) (event : Event) :
    S.own color t'.tracker event = S.own color t.tracker event := by
  cases event with
  | leave pos stop => simp only [Scheme.own, h.piece_eq]
  | _ => simp only [Scheme.own, h.start]

theorem drop (h : Alone color t.tracker t'.tracker) {codes : φ → Int32} {event : Event}
    {act : Track φ σ Int32} (hact : S.step (Scheme.constant codes) event = some act) {s : SpanId}
    (hevent : (∃ pos stop, event = .openSpan s pos stop) ∨
      ∃ pos stop, event = .closeSpan s pos stop)
    (hother : ∀ span, S.locate s ≠ some (span, color)) :
    Alone color (outcome (act t)).2.tracker t'.tracker := by
  rcases hevent with ⟨pos, stop, rfl⟩ | ⟨pos, stop, rfl⟩
  · obtain ⟨⟨span, other⟩, hlocate, rfl⟩ := Option.map_eq_some_iff.1 hact
    have hne : color ≠ other := by
      rintro rfl
      exact hother span hlocate
    obtain ⟨t₁, hrun, -, hstart, hopener⟩ := S.openSpan_effect span.2 other pos t
    simp only [hrun, outcome]
    refine ⟨?_, ?_, h.others⟩
    · rw [hstart, Function.update_of_ne hne, h.start]
    · rw [hopener, h.opener]
      split
      · rw [Function.update_of_ne hne]
      · rfl
  · obtain ⟨⟨span, other⟩, hlocate, rfl⟩ := Option.map_eq_some_iff.1 hact
    have hne : color ≠ other := by
      rintro rfl
      exact hother span hlocate
    obtain ⟨hstart, hopener, -⟩ := S.closeSpan_effect (Scheme.constant codes) span other pos t
    refine ⟨?_, ?_, h.others⟩
    · rw [hstart, Function.update_of_ne hne, h.start]
    · rw [hopener, h.opener]

theorem keep (h : Alone color t.tracker t'.tracker) {codes : φ → Int32} {event : Event}
    {act : Track φ σ Int32} (hact : S.step (Scheme.constant codes) event = some act)
    (hsame : ∀ s span other, (∃ pos stop, event = .openSpan s pos stop) ∨
      (∃ pos stop, event = .closeSpan s pos stop) → S.locate s = some (span, other) →
      other = color) :
    Alone color (outcome (act t)).2.tracker (outcome (act t')).2.tracker := by
  cases event with
  | openSpan s pos stop =>
    obtain ⟨⟨span, other⟩, hlocate, rfl⟩ := Option.map_eq_some_iff.1 hact
    obtain rfl := hsame s span other (.inl ⟨_, _, rfl⟩) hlocate
    obtain ⟨t₁, hrun, -, hstart, hopener⟩ := S.openSpan_effect span.2 other pos t
    obtain ⟨t₁', hrun', -, hstart', hopener'⟩ := S.openSpan_effect span.2 other pos t'
    simp only [hrun, hrun', outcome]
    refine ⟨?_, ?_, ?_⟩
    · rw [hstart, hstart', Function.update_self, Function.update_self]
    · rw [hopener, hopener']
      split
      · rw [Function.update_self, Function.update_self]
      · exact h.opener
    · intro i hi
      rw [hstart', Function.update_of_ne hi]
      exact h.others i hi
  | closeSpan s pos stop =>
    obtain ⟨⟨span, other⟩, hlocate, rfl⟩ := Option.map_eq_some_iff.1 hact
    obtain rfl := hsame s span other (.inr ⟨_, _, rfl⟩) hlocate
    obtain ⟨hstart, hopener, -⟩ := S.closeSpan_effect (Scheme.constant codes) span other pos t
    obtain ⟨hstart', hopener', -⟩ := S.closeSpan_effect (Scheme.constant codes) span other pos t'
    refine ⟨?_, ?_, ?_⟩
    · rw [hstart, hstart', Function.update_self, Function.update_self]
    · rw [hopener, hopener', h.opener]
    · intro i hi
      rw [hstart', Function.update_of_ne hi]
      exact h.others i hi
  | enter pos stop =>
    obtain rfl := Option.some.inj hact
    refine ⟨?_, h.opener, ?_⟩
    · exact congrArg (Option.map fun _ => pos) h.start
    · intro i hi
      exact congrArg (Option.map fun _ => pos) (h.others i hi)
  | leave pos stop =>
    obtain rfl := Option.some.inj hact
    obtain ⟨status, t₁, hrun, hstart, hopener, -⟩ :=
      S.flushAll_constant codes stop (List.range S.colors.length) t
    obtain ⟨status', t₁', hrun', hstart', hopener', -⟩ :=
      S.flushAll_constant codes stop (List.range S.colors.length) t'
    simp only [hrun, hrun', outcome]
    refine ⟨?_, ?_, ?_⟩
    · rw [hstart, hstart', h.start]
    · rw [hopener, hopener', h.opener]
    · intro i hi
      rw [hstart', h.others i hi]

theorem quiet (h : Alone color t.tracker t'.tracker) {codes : φ → Int32} {event : Event}
    {act : Track φ σ Int32} (hact : S.step (Scheme.constant codes) event = some act)
    (hcolor : color < S.colors.length) (hcalls : t.calls = []) (hcalls' : t'.calls = [])
    (hquiet : Scheme.Quiet codes event (outcome (act t)).2.calls) :
    Scheme.Quiet codes event (outcome (act t')).2.calls := by
  rintro pos stop rfl call hcall
  obtain rfl := Option.some.inj hact
  obtain ⟨status, t₁, hrun, -, -, made, hmade, -, hall⟩ :=
    S.flushAll_constant codes stop (List.range S.colors.length) t
  obtain ⟨status', t₁', hrun', -, -, made', hmade', hinit, -⟩ :=
    S.flushAll_constant codes stop (List.range S.colors.length) t'
  rw [hrun'] at hcall
  rw [hrun] at hquiet
  rw [hcalls, List.nil_append] at hmade
  rw [hcalls', List.nil_append] at hmade'
  simp only [outcome, hmade, hmade'] at hcall hquiet
  -- only the one color makes a call, and it makes it in the whole run too
  obtain ⟨i, -, hi⟩ := List.mem_filterMap.1 (hinit.subset hcall)
  have hic : i = color := by
    by_contra hic
    simp [Scheme.piece, h.others i hic] at hi
  subst hic
  rw [h.piece_eq] at hi
  have hzero := hquiet pos stop rfl
  rw [hall hzero] at hzero
  exact hzero call (List.mem_filterMap.2 ⟨i, List.mem_range.2 hcolor, hi⟩)

end Tracker.Alone

/-! ## The parser -/

structure ColorView where
  fields : List (Option Value)
  calls : List HostCall
deriving DecidableEq

namespace EventParser

variable {parser : EventParser} {options : SpanOptions} {c : Coloring}

def places (parser : EventParser) (color : Nat) : List Place :=
  if (parser.emitter.field? (.slot color)).isSome then [.start color, .slot color]
  else [.start color]

def isOpen (parser : EventParser) (m : Memory) (color : Nat) : Bool :=
  (m.byName? parser.program.layout (ColorSlots.startName color)).any fun v => !v.isNull

def owners (parser : EventParser) (m : Memory) : Event → List Nat
  | .openSpan _ _ _ => []
  | .closeSpan s _ _ => (parser.emitter.coloring.colorOf s).toList
  | .enter _ _ => []
  | .leave _ _ =>
    (List.range parser.emitter.coloring.colors.length).filter fun color => parser.isOpen m color

/-- A step of a run: the codes that callbacks return in it, the event, the record before it, and the
world after it, with the calls of this step only. -/
structure Passage where
  codes : FuncId → Int32
  event : Event
  before : Memory
  after : World Unit

def history (parser : EventParser) (limit depth : Nat) :
    List ((FuncId → Int32) × Event) → World Unit → List Passage
  | [], _ => []
  | (codes, event) :: rest, w =>
    let after := match parser.step (Host.ofCodes codes) limit depth event with
      | none => { w with calls := #[] }
      | some act => (outcome (act { w with calls := #[] })).2
    ⟨codes, event, w.memory, after⟩ :: history parser limit depth rest after

def view (parser : EventParser) (color : Nat) (x : Passage) : ColorView where
  fields := (parser.places color).map fun place =>
    x.after.memory.byName? parser.program.layout place.name
  calls := pick color (parser.owners x.before x.event) x.after.calls.toList

def views (parser : EventParser) (color limit depth : Nat)
    (steps : List ((FuncId → Int32) × Event)) (w : World Unit) : List (Event × ColorView) :=
  ((parser.history limit depth steps w).filter fun x =>
    x.event.concerns parser.emitter.coloring color).map fun x => (x.event, parser.view color x)

def Quiet (parser : EventParser) (limit depth : Nat) (steps : List ((FuncId → Int32) × Event))
    (w : World Unit) : Prop :=
  ∀ x ∈ parser.history limit depth steps w, (∃ pos stop, x.event = .leave pos stop) →
    ∀ call ∈ x.after.calls, x.codes call.callee = 0

def fresh (parser : EventParser) : World Unit := ⟨Memory.fresh parser.program.layout, (), #[]⟩

section Steps

variable {w : World Unit} {t : Tracked FuncId Unit}

theorem byName_start (hp : parser.Generated options c) (hc : c.Valid)
    (hdistinct : parser.program.layout.Distinct)
    (hw : Represents parser.emitter parser.program id w t) {color : Nat}
    (hcolor : color < c.colors.length) :
    w.memory.byName? parser.program.layout (ColorSlots.startName color) =
      some (.ptr (t.tracker.start color)) := by
  obtain rfl := hp.coloring
  have hlt : color < parser.emitter.colors.length := by rwa [hp.ready.length]
  have hf : parser.emitter.field? (.start color) = some parser.emitter.colors[color].start := by
    simp [Emitter.field?, hlt]
  obtain ⟨ty, hholds, -⟩ := hp.ready.field hc.nonempty hf
  obtain ⟨v, hv, hseen⟩ := hw.fields _ _ hf
  have hlookup := hdistinct.lookup hholds.has
  rw [hholds.name_eq] at hlookup
  rw [Memory.byName?, show ColorSlots.startName color = (Place.start color).name from rfl, hlookup,
    Option.bind_some, hv, Value.seen_pos hseen]

theorem byName_slot (hp : parser.Generated options c) (hc : c.Valid)
    (hdistinct : parser.program.layout.Distinct)
    (hw : Represents parser.emitter parser.program id w t) {color : Nat} {slot : Field}
    (hslot : parser.emitter.field? (.slot color) = some slot) :
    w.memory.byName? parser.program.layout (ColorSlots.slotName color) =
      some (.func (t.tracker.opener color)) := by
  obtain rfl := hp.coloring
  obtain ⟨ty, hholds, -⟩ := hp.ready.field hc.nonempty hslot
  obtain ⟨v, hv, hseen⟩ := hw.fields _ _ hslot
  obtain ⟨f, rfl, hf⟩ := Value.seen_func hseen
  have hlookup := hdistinct.lookup hholds.has
  rw [hholds.name_eq] at hlookup
  rw [Option.map_id, id] at hf
  rw [Memory.byName?, show ColorSlots.slotName color = (Place.slot color).name from rfl, hlookup,
    Option.bind_some, hv, hf]

theorem owners_eq (hp : parser.Generated options c) (hc : c.Valid)
    (hdistinct : parser.program.layout.Distinct)
    (hw : Represents parser.emitter parser.program id w t) (title : FuncId → String)
    (event : Event) :
    parser.owners w.memory event =
      (parser.emitter.scheme id parser.resume title).owners t.tracker event := by
  cases event with
  | openSpan s pos stop => rfl
  | closeSpan s pos stop =>
    rw [← hp.coloring] at hc
    rw [owners, Scheme.owners]
    by_cases hs : s.index < parser.emitter.coloring.spans.length
    · obtain ⟨span, color, members, -, hcolor, -, -, hlocate⟩ :=
        Emitter.scheme_locate id parser.resume title hc hs
      rw [hcolor, hlocate]
      rfl
    · have hnone : parser.emitter.coloring.colorOf s = none := by
        cases hcolor : parser.emitter.coloring.colorOf s with
        | none => rfl
        | some color =>
          obtain ⟨members, hmembers, hsm⟩ := hc.colorOf_eq_some.1 hcolor
          have hmem := List.mem_flatten.2 ⟨members, List.mem_of_getElem? hmembers, hsm⟩
          exact absurd (hc.known s hmem) hs
      have hspan : (parser.emitter.scheme id parser.resume title).spans[s.index]? = none := by
        simpa [Emitter.scheme] using hs
      rw [hnone, Scheme.locate, hspan]
      rfl
  | enter pos stop => rfl
  | leave pos stop =>
    rw [owners, Scheme.owners, show (parser.emitter.scheme id parser.resume title).colors =
      parser.emitter.coloring.colors from rfl, hp.coloring]
    refine List.filter_congr fun color hcolor => ?_
    rw [isOpen, byName_start hp hc hdistinct hw (List.mem_range.1 hcolor)]
    cases t.tracker.start color <;> rfl

def cell (t : Tracker FuncId) : Place → Option Value
  | .start color => some (.ptr (t.start color))
  | .slot color => some (.func (t.opener color))
  | _ => none

theorem view_fields (hp : parser.Generated options c) (hc : c.Valid)
    (hdistinct : parser.program.layout.Distinct)
    (hw : Represents parser.emitter parser.program id w t) {color : Nat}
    (hcolor : color < c.colors.length) :
    ((parser.places color).map fun x => w.memory.byName? parser.program.layout x.name) =
      (parser.places color).map (cell t.tracker) := by
  have hstart := byName_start hp hc hdistinct hw hcolor
  rw [places]
  cases hslot : parser.emitter.field? (.slot color) with
  | none => simpa [cell, Place.name] using hstart
  | some slot =>
    have hslot := byName_slot hp hc hdistinct hw hslot
    simpa [cell, Place.name] using And.intro hstart hslot

theorem pick_map {α β : Type} (k : Nat) (owners : List Nat) (f : α → β) (items : List α) :
    pick k owners (items.map f) = (pick k owners items).map f := by
  simp only [pick, List.zip_map_right, List.filterMap_map, List.map_filterMap]
  congr 1
  funext x
  simp only [Function.comp, Prod.map]
  split <;> simp_all

theorem view_calls (hp : parser.Generated options c) (hc : c.Valid)
    (hdistinct : parser.program.layout.Distinct)
    (hw : Represents parser.emitter parser.program id w t) {w₁ : World Unit}
    {t₁ : Tracked FuncId Unit} (hw₁ : Represents parser.emitter parser.program id w₁ t₁)
    (title : FuncId → String) (color : Nat) (event : Event) :
    pick color (parser.owners w.memory event) w₁.calls.toList =
      (pick color ((parser.emitter.scheme id parser.resume title).owners t.tracker event)
        t₁.calls).map fun x => ⟨x.1, x.2.1, x.2.2⟩ := by
  rw [owners_eq hp hc hdistinct hw title event, ← pick_map, ← hw₁.calls, List.map_map]
  congr 1
  exact (List.map_id _).symm

end Steps

section Runs

variable {color limit : Nat} {e : Emitter} {resume : FuncId} {title : FuncId → String}

theorem colorOf_of_locate (hc : e.coloring.Valid) {s : SpanId} {span : String × FuncId}
    {other : Nat} (h : (e.scheme id resume title).locate s = some (span, other)) :
    e.coloring.colorOf s = some other := by
  unfold Scheme.locate at h
  split at h
  next _ hfind =>
    obtain ⟨rfl, rfl⟩ := Prod.mk.inj (Option.some.inj h)
    exact hc.colorOf_eq_findIdx?.trans hfind
  next => simp at h

/-- An event that concerns a color and is about a span is about one of its members. -/
theorem locate_of_concerns (hc : e.coloring.Valid) {event : Event}
    (h : event.concerns e.coloring color = true)
    (s : SpanId) (span : String × FuncId) (other : Nat)
    (hevent : (∃ pos stop, event = .openSpan s pos stop) ∨
      ∃ pos stop, event = .closeSpan s pos stop)
    (hlocate : (e.scheme id resume title).locate s = some (span, other)) : other = color := by
  have hother := colorOf_of_locate hc hlocate
  rcases hevent with ⟨pos, stop, rfl⟩ | ⟨pos, stop, rfl⟩
  · simpa [Event.concerns, hother] using h
  · simpa [Event.concerns, hother] using h

/-- An event that does not concern a color is about a span of another one. -/
theorem span_of_not_concerns (hc : e.coloring.Valid) {event : Event}
    (h : event.concerns e.coloring color = false) :
    ∃ s, ((∃ pos stop, event = .openSpan s pos stop) ∨
        ∃ pos stop, event = .closeSpan s pos stop) ∧
      ∀ span, (e.scheme id resume title).locate s ≠ some (span, color) := by
  cases event with
  | openSpan s pos stop =>
    refine ⟨s, .inl ⟨pos, stop, rfl⟩, fun span hlocate => ?_⟩
    simp [Event.concerns, colorOf_of_locate hc hlocate] at h
  | closeSpan s pos stop =>
    refine ⟨s, .inr ⟨pos, stop, rfl⟩, fun span hlocate => ?_⟩
    simp [Event.concerns, colorOf_of_locate hc hlocate] at h
  | enter pos stop => simp [Event.concerns] at h
  | leave pos stop => simp [Event.concerns] at h

/-- An event about no span of the scheme concerns no color. -/
theorem not_concerns_of_none (hc : e.coloring.Valid) {reply : Replies FuncId Unit} {event : Event}
    (h : (e.scheme id resume title).step reply event = none) (color : Nat) :
    event.concerns e.coloring color = false := by
  have hnone : ∀ s, (e.scheme id resume title).locate s = none →
      e.coloring.colorOf s ≠ some color := by
    intro s hs hcolor
    obtain ⟨members, hmembers, hsm⟩ := hc.colorOf_eq_some.1 hcolor
    have hknown := hc.known s (List.mem_flatten.2 ⟨members, List.mem_of_getElem? hmembers, hsm⟩)
    obtain ⟨_, _, _, -, -, -, -, hlocate⟩ := Emitter.scheme_locate id resume title hc hknown
    simp [hs] at hlocate
  cases event with
  | openSpan s pos stop =>
    simpa [Event.concerns] using hnone s (by simpa [Scheme.step] using h)
  | closeSpan s pos stop =>
    simpa [Event.concerns] using hnone s (by simpa [Scheme.step] using h)
  | enter pos stop => simp [Scheme.step] at h
  | leave pos stop => simp [Scheme.step] at h

theorem callee_isSome (hp : parser.Generated options c) (hc : c.Valid) {w : World Unit}
    {t : Tracked FuncId Unit} (hw : Represents parser.emitter parser.program id w t) (other : Nat)
    (hother : other < (parser.emitter.scheme id parser.resume title).colors.length)
    (hopen : (t.tracker.start other).isSome) :
    ((parser.emitter.scheme id parser.resume title).callee t.tracker other).isSome := by
  have hlt : other < parser.emitter.colors.length := hp.ready.length.symm ▸ hother
  obtain ⟨span, -, -, hcallee⟩ := callee_agrees parser.resume title hp.ready
    (hp.coloring ▸ hc.nonempty) (List.getElem?_eq_getElem hlt) hw hopen
  rw [hcallee]
  rfl

/-- A step of the parser with the step of the tracker that it represents, if the event is about a
span. -/
theorem Generated.passage (hp : parser.Generated options c) (hc : c.Valid)
    (hhosted : ∀ span ∈ c.spans, ∃ d, parser.program.decl? span.callback = some d ∧ d.body = none)
    (hlimit : 1 + 2 * c.colors.length ≤ limit) (depth : Nat) (codes : FuncId → Int32)
    (event : Event) :
    (parser.step (Host.ofCodes codes) limit (depth + 1) event = none ∧
      (parser.emitter.scheme id parser.resume parser.program.nameOf).step
        (Scheme.constant codes : Replies FuncId Unit) event = none) ∨
    ∃ act track, parser.step (Host.ofCodes codes) limit (depth + 1) event = some act ∧
      (parser.emitter.scheme id parser.resume parser.program.nameOf).step
        (Scheme.constant codes) event = some track ∧
      ∀ w t, Represents parser.emitter parser.program id w t →
        Represents parser.emitter parser.program id (outcome (act { w with calls := #[] })).2
          (outcome (track { t with calls := [] })).2 := by
  have hanswers := ofCodes_answers c rfl hhosted codes
  rw [← hp.coloring] at hanswers
  have hstep : ∀ w t, Represents parser.emitter parser.program id w t →
      Option.Rel (fun run track => Agree (Represents parser.emitter parser.program id) Eq
          (run { w with calls := #[] }) (track { t with calls := [] }))
        (parser.step (Host.ofCodes codes) limit (depth + 1) event)
        ((parser.emitter.scheme id parser.resume parser.program.nameOf).step
          (Scheme.constant codes) event) :=
    fun _ _ hw => hp.step_agrees hc hanswers.hosted hlimit depth event hw.clear
  have hfresh : Represents parser.emitter parser.program id parser.fresh { host := () } :=
    Represents.fresh hp.ready (hp.coloring ▸ hc.nonempty) ()
  generalize parser.step (Host.ofCodes codes) limit (depth + 1) event = act at hstep ⊢
  generalize (parser.emitter.scheme id parser.resume parser.program.nameOf).step
    (Scheme.constant codes : Replies FuncId Unit) event = track at hstep ⊢
  cases hstep _ _ hfresh with
  | none => exact .inl ⟨rfl, rfl⟩
  | some _ =>
    refine .inr ⟨_, _, rfl, rfl, fun w t hw => ?_⟩
    cases hstep w t hw with
    | some hagree => exact hagree.outcome_eq.2

section Step

variable {codes : FuncId → Int32} {event : Event} {track : Track FuncId Unit Int32}
  {w w' w₁ w₁' : World Unit} {t t' : Tracked FuncId Unit}

theorem quiet_track (hw₁ : Represents parser.emitter parser.program id w₁ (outcome (track t)).2)
    (hquiet : (∃ pos stop, event = .leave pos stop) → ∀ call ∈ w₁.calls, codes call.callee = 0) :
    Scheme.Quiet codes event (outcome (track t)).2.calls := by
  rintro pos stop rfl call hcall
  rw [← hw₁.calls, List.mem_map] at hcall
  obtain ⟨call, hmem, rfl⟩ := hcall
  exact hquiet ⟨pos, stop, rfl⟩ call (by simpa using hmem)

theorem view_own (hp : parser.Generated options c) (hc : c.Valid)
    (hdistinct : parser.program.layout.Distinct) (hcolor : color < c.colors.length)
    (htrack : (parser.emitter.scheme id parser.resume title).step (Scheme.constant codes) event =
      some track)
    (hw : Represents parser.emitter parser.program id w t) (hcalls : t.calls = [])
    (hw₁ : Represents parser.emitter parser.program id w₁ (outcome (track t)).2)
    (hquiet : Scheme.Quiet codes event (outcome (track t)).2.calls) :
    pick color (parser.owners w.memory event) w₁.calls.toList =
      ((parser.emitter.scheme id parser.resume title).own color t.tracker event).toList.map
        fun x => ⟨x.1, x.2.1, x.2.2⟩ := by
  have hlt : color < (parser.emitter.scheme id parser.resume title).colors.length := by
    rw [Emitter.scheme, hp.coloring]
    exact hcolor
  rw [view_calls hp hc hdistinct hw hw₁ title,
    Scheme.pick_owners htrack hlt hcalls (callee_isSome hp hc hw) hquiet]

theorem flatMap_view (hp : parser.Generated options c) (hc : c.Valid)
    (hdistinct : parser.program.layout.Distinct)
    (htrack : (parser.emitter.scheme id parser.resume title).step (Scheme.constant codes) event =
      some track)
    (hw : Represents parser.emitter parser.program id w t) (hcalls : t.calls = [])
    (hw₁ : Represents parser.emitter parser.program id w₁ (outcome (track t)).2)
    (hquiet : Scheme.Quiet codes event (outcome (track t)).2.calls) :
    ((List.range c.colors.length).flatMap fun color =>
      pick color (parser.owners w.memory event) w₁.calls.toList) = w₁.calls.toList := by
  have hown : ∀ color ∈ List.range c.colors.length,
      pick color (parser.owners w.memory event) w₁.calls.toList =
        ((parser.emitter.scheme id parser.resume title).own color t.tracker event).toList.map
          fun x => ⟨x.1, x.2.1, x.2.2⟩ := fun color hcolor =>
    view_own hp hc hdistinct (List.mem_range.1 hcolor) htrack hw hcalls hw₁ hquiet
  have hall := Scheme.calls_eq_own htrack hcalls hquiet
  rw [← hw₁.calls, show (parser.emitter.scheme id parser.resume title).colors =
    parser.emitter.coloring.colors from rfl, hp.coloring, List.filterMap_eq_flatMap_toList] at hall
  have hmap := congrArg (List.map fun x : FuncId × Nat × Nat => HostCall.mk x.1 x.2.1 x.2.2) hall
  rw [List.map_flatMap, List.map_map] at hmap
  rw [List.flatMap_congr hown, ← hmap]
  exact List.map_id _

/-- A step that concerns a color shows the same of it, whether the others are there or not. -/
theorem view_alone (hp : parser.Generated options c) (hc : c.Valid)
    (hdistinct : parser.program.layout.Distinct) (hcolor : color < c.colors.length)
    (htrack : (parser.emitter.scheme id parser.resume title).step (Scheme.constant codes) event =
      some track)
    (hw : Represents parser.emitter parser.program id w t)
    (hw' : Represents parser.emitter parser.program id w' t') (hcalls : t.calls = [])
    (hcalls' : t'.calls = []) (halone : Tracker.Alone color t.tracker t'.tracker)
    (hw₁ : Represents parser.emitter parser.program id w₁ (outcome (track t)).2)
    (hw₁' : Represents parser.emitter parser.program id w₁' (outcome (track t')).2)
    (halone₁ : Tracker.Alone color (outcome (track t)).2.tracker (outcome (track t')).2.tracker)
    (hquiet : Scheme.Quiet codes event (outcome (track t)).2.calls) :
    parser.view color ⟨codes, event, w.memory, w₁⟩ =
      parser.view color ⟨codes, event, w'.memory, w₁'⟩ := by
  have hlt : color < (parser.emitter.scheme id parser.resume title).colors.length := by
    rw [Emitter.scheme, hp.coloring]
    exact hcolor
  have hquiet' := halone.quiet htrack hlt hcalls hcalls' hquiet
  have hfields : (parser.places color).map (cell (outcome (track t)).2.tracker) =
      (parser.places color).map (cell (outcome (track t')).2.tracker) := by
    refine List.map_congr_left fun x hx => ?_
    have hx : x = .start color ∨ x = .slot color := by
      rw [places] at hx
      split at hx
      · simpa using hx
      · exact .inl (by simpa using hx)
    rcases hx with rfl | rfl
    · rw [cell, cell, halone₁.start]
    · rw [cell, cell, halone₁.opener]
  rw [view, view, view_fields hp hc hdistinct hw₁ hcolor, view_fields hp hc hdistinct hw₁' hcolor,
    view_own hp hc hdistinct hcolor htrack hw hcalls hw₁ hquiet,
    view_own hp hc hdistinct hcolor htrack hw' hcalls' hw₁' hquiet', halone.own_eq, hfields]

end Step

theorem Generated.calls_by_color (hp : parser.Generated options c) (hc : c.Valid)
    (hdistinct : parser.program.layout.Distinct)
    (hhosted : ∀ span ∈ c.spans, ∃ d, parser.program.decl? span.callback = some d ∧ d.body = none)
    (hlimit : 1 + 2 * c.colors.length ≤ limit) (depth : Nat)
    {steps : List ((FuncId → Int32) × Event)} {w : World Unit} {t : Tracked FuncId Unit}
    (hw : Represents parser.emitter parser.program id w t)
    (hquiet : parser.Quiet limit (depth + 1) steps w) :
    ∀ x ∈ parser.history limit (depth + 1) steps w,
      ((List.range c.colors.length).flatMap fun color => (parser.view color x).calls) =
        x.after.calls.toList := by
  induction steps generalizing w t with
  | nil => simp [history]
  | cons step rest ih =>
    obtain ⟨codes, event⟩ := step
    simp only [Quiet, history, List.mem_cons, forall_eq_or_imp] at hquiet ⊢
    obtain ⟨hnow, hrest⟩ := hquiet
    rcases hp.passage hc hhosted hlimit depth codes event with
      ⟨hnone, -⟩ | ⟨act, track, hact, htrack, hagree⟩
    · simp only [hnone] at hrest ⊢
      refine ⟨?_, ih hw.clear hrest⟩
      simp [view, pick]
    · simp only [hact] at hnow hrest ⊢
      have hw₁ := hagree w t hw
      have hall := flatMap_view hp hc hdistinct htrack hw.clear rfl hw₁ (quiet_track hw₁ hnow)
      exact ⟨hall, ih hw₁ hrest⟩

/-- Deleting the events of other colors from the rest of a run. -/
theorem Generated.views_filter (hp : parser.Generated options c) (hc : c.Valid)
    (hdistinct : parser.program.layout.Distinct)
    (hhosted : ∀ span ∈ c.spans, ∃ d, parser.program.decl? span.callback = some d ∧ d.body = none)
    (hlimit : 1 + 2 * c.colors.length ≤ limit) (depth : Nat) (hcolor : color < c.colors.length)
    {steps : List ((FuncId → Int32) × Event)} {w w' : World Unit} {t t' : Tracked FuncId Unit}
    (hw : Represents parser.emitter parser.program id w t)
    (hw' : Represents parser.emitter parser.program id w' t')
    (halone : Tracker.Alone color t.tracker t'.tracker)
    (hquiet : parser.Quiet limit (depth + 1) steps w) :
    parser.views color limit (depth + 1) steps w =
      parser.views color limit (depth + 1) (steps.filter fun x => x.2.concerns c color) w' := by
  have hvalid : parser.emitter.coloring.Valid := hp.coloring.symm ▸ hc
  induction steps generalizing w w' t t' with
  | nil => rfl
  | cons step rest ih =>
    obtain ⟨codes, event⟩ := step
    simp only [Quiet, history, List.mem_cons, forall_eq_or_imp] at hquiet
    obtain ⟨hnow, hrest⟩ := hquiet
    cases hconcerns : event.concerns c color with
    | false =>
      rw [List.filter_cons_of_neg (by simp [hconcerns])]
      rw [← hp.coloring] at hconcerns
      rw [views, history, List.filter_cons_of_neg (by simp [hconcerns])]
      rcases hp.passage hc hhosted hlimit depth codes event with
        ⟨hnone, -⟩ | ⟨act, track, hact, htrack, hagree⟩
      · simp only [hnone] at hrest ⊢
        exact ih hw.clear hw' halone hrest
      · simp only [hact] at hrest ⊢
        obtain ⟨s, hevent, hother⟩ := span_of_not_concerns hvalid hconcerns
        have halone : Tracker.Alone color ({ t with calls := [] } : Tracked FuncId Unit).tracker
          t'.tracker := halone
        exact ih (hagree w t hw) hw' (halone.drop htrack hevent hother) hrest
    | true =>
      rw [List.filter_cons_of_pos (by simp [hconcerns])]
      rw [← hp.coloring] at hconcerns
      rw [views, history, List.filter_cons_of_pos (by simp [hconcerns]), views, history,
        List.filter_cons_of_pos (by simp [hconcerns])]
      rcases hp.passage hc hhosted hlimit depth codes event with
        ⟨-, hnone⟩ | ⟨act, track, hact, htrack, hagree⟩
      · rw [not_concerns_of_none hvalid hnone color] at hconcerns
        simp at hconcerns
      · simp only [hact] at hnow hrest ⊢
        have hw₁ := hagree w t hw
        have hw₁' := hagree w' t' hw'
        have halone : Tracker.Alone color ({ t with calls := [] } : Tracked FuncId Unit).tracker
          ({ t' with calls := [] } : Tracked FuncId Unit).tracker := halone
        have halone₁ := halone.keep htrack (locate_of_concerns hvalid hconcerns)
        have hview := view_alone hp hc hdistinct hcolor htrack hw.clear hw'.clear rfl rfl halone
          hw₁ hw₁' halone₁ (quiet_track hw₁ hnow)
        exact congrArg₂ (fun view rest => (event, view) :: rest) hview (ih hw₁ hw₁' halone₁ hrest)

/-- Take the parser of any valid coloring, with callbacks left to the host, and any run of it from a
fresh record in which no callback fails at the end of a buffer. Each of its calls is made for one of
the colors. A color shows the same after each of its steps, and the calls made for it are the same,
if the events of all other colors are deleted. So it is the same in all runs that only mix the
events of the colors differently. -/
theorem colors_independent {p p' : Program} (hp : p.Reachable) (hc : c.Valid)
    (hparser : generate options c p = .ok parser p')
    (hhosted : ∀ span ∈ c.spans, ∃ d, parser.program.decl? span.callback = some d ∧ d.body = none)
    (hlimit : 1 + 2 * c.colors.length ≤ limit) (depth : Nat)
    {steps : List ((FuncId → Int32) × Event)}
    (hquiet : parser.Quiet limit (depth + 1) steps parser.fresh) :
    (∀ x ∈ parser.history limit (depth + 1) steps parser.fresh,
      ((List.range c.colors.length).flatMap fun color => (parser.view color x).calls) =
        x.after.calls.toList) ∧
    ∀ color < c.colors.length,
      parser.views color limit (depth + 1) steps parser.fresh =
        parser.views color limit (depth + 1) (steps.filter fun x => x.2.concerns c color)
          parser.fresh ∧
      ∀ mixed : List ((FuncId → Int32) × Event),
        parser.Quiet limit (depth + 1) mixed parser.fresh →
        mixed.filter (fun x => x.2.concerns c color) =
          steps.filter (fun x => x.2.concerns c color) →
        parser.views color limit (depth + 1) mixed parser.fresh =
          parser.views color limit (depth + 1) steps parser.fresh := by
  obtain ⟨hgenerated, rfl, hleads⟩ := generate_ok hp.numbered hc hparser
  have hdistinct := (hp.leads hleads).distinct
  have hfresh : Represents parser.emitter parser.program id parser.fresh { host := () } :=
    Represents.fresh hgenerated.ready (hgenerated.coloring ▸ hc.nonempty) ()
  refine ⟨hgenerated.calls_by_color hc hdistinct hhosted hlimit depth hfresh hquiet, ?_⟩
  intro color hcolor
  have hfilter {list : List ((FuncId → Int32) × Event)}
      (hlist : parser.Quiet limit (depth + 1) list parser.fresh) :=
    hgenerated.views_filter hc hdistinct hhosted hlimit depth hcolor hfresh hfresh
      (Tracker.Alone.fresh color) hlist
  refine ⟨hfilter hquiet, fun mixed hmixed hsame => ?_⟩
  rw [hfilter hquiet, hfilter hmixed, hsame]

/-- A run is quiet if all codes at the end of a buffer are zero, called for or not. -/
theorem quiet_of_codes {limit depth : Nat} {steps : List ((FuncId → Int32) × Event)}
    (h : ∀ x ∈ steps, (∃ pos stop, x.2 = .leave pos stop) → ∀ f, x.1 f = 0) (w : World Unit) :
    parser.Quiet limit depth steps w := by
  induction steps generalizing w with
  | nil => simp [Quiet, history]
  | cons step rest ih =>
    simp only [List.mem_cons, forall_eq_or_imp] at h
    simp only [Quiet, history, List.mem_cons, forall_eq_or_imp]
    exact ⟨fun hleave call _ => h.1 hleave call.callee, ih h.2 _⟩

/-- Both colors are used without any order: a member of one is closed for another, and the only span
of the other fails when it is closed, and is closed once more. -/
def crossing : List ((FuncId → Int32) × Event) :=
  [(fun _ => 7, .openSpan ⟨0⟩ 2 9), (fun _ => 7, .openSpan ⟨2⟩ 3 9), (fun _ => 0, .leave 9 9),
    (fun _ => 7, .enter 40 60), (fun _ => 0, .closeSpan ⟨1⟩ 41 60),
    (fun _ => 5, .closeSpan ⟨2⟩ 42 60), (fun _ => 7, .openSpan ⟨1⟩ 44 60),
    (fun _ => 0, .closeSpan ⟨2⟩ 45 60), (fun _ => 0, .leave 60 60)]

theorem colors_independent_crossing :
    ∃ parser p', generate {} sharedPair (callbackProgram ["on_a", "on_b"]) = .ok parser p' ∧
      parser.Quiet 5 1 crossing parser.fresh ∧
      parser.views 0 5 1 crossing parser.fresh =
        parser.views 0 5 1 (crossing.filter fun x => x.2.concerns sharedPair 0) parser.fresh ∧
      (crossing.filter fun x => x.2.concerns sharedPair 0).length = 6 := by
  have hreach : (callbackProgram ["on_a", "on_b"]).Reachable :=
    callbackProgram_reachable (by decide)
  obtain ⟨parser, p', hparser, rfl, hhosted⟩ : ∃ parser p', generate {} sharedPair
      (callbackProgram ["on_a", "on_b"]) = .ok parser p' ∧ _ ∧ _ :=
    generate_callbackProgram sharedPair_valid (by decide) (by decide) (by decide) (by decide)
      (by decide)
  have hquiet : parser.Quiet 5 1 crossing parser.fresh := by
    refine quiet_of_codes ?_ _
    simp [crossing]
  refine ⟨parser, _, hparser, hquiet, ?_, by decide⟩
  exact ((colors_independent hreach sharedPair_valid hparser hhosted (by decide) 0 hquiet).2 0
    (by decide)).1

end Runs

end EventParser

end SpanTracking
