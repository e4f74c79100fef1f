import SpanTracking.Proofs.Construction
import SpanTracking.Proofs.Ledger

set_option autoImplicit false

namespace SpanTracking

namespace Coloring

theorem Valid.flatten_perm {c d : Coloring} (hc : c.Valid) (hd : d.Valid)
    (hspans : c.spans.length = d.spans.length) : c.colors.flatten.Perm d.colors.flatten := by
  rw [List.perm_ext_iff_of_nodup hc.nodup hd.nodup]
  intro s
  constructor
  · intro hs
    exact hd.covered s.index (hspans ▸ hc.known s hs)
  · intro hs
    exact hc.covered s.index (hspans ▸ hd.known s hs)

theorem Valid.colors_length {c : Coloring} (hc : c.Valid) : c.colors.length ≤ c.spans.length := by
  have hflatten : c.colors.flatten.length = c.spans.length := by
    have hperm := hc.flatten_perm (separate_valid c.spans) rfl
    rw [hperm.length_eq, separate_colors_flatten, List.length_map, List.length_range]
  have hle : ∀ list : List (List SpanId), (∀ members ∈ list, members ≠ []) →
      list.length ≤ list.flatten.length := by
    intro list
    induction list with
    | nil => simp
    | cons members rest ih =>
      intro hne
      simp only [List.mem_cons, forall_eq_or_imp] at hne
      have hpos := List.length_pos_iff.2 hne.1
      have hrest := ih hne.2
      simp only [List.length_cons, List.flatten_cons, List.length_append]
      omega
  have := hle c.colors hc.nonempty
  omega

theorem separate_color {spans : List SpanDecl} {s : SpanId} (hs : s.index < spans.length) :
    (separate spans).colors[s.index]? = some [s] := by
  simp [separate, hs]

/-- What is in order for a coloring is in order if no span shares its color. -/
theorem Orderly.separate {c : Coloring} {opened : List SpanId} {events : List Event}
    (h : c.Orderly opened events) : (separate c.spans).Orderly opened events := by
  induction events generalizing opened with
  | nil => trivial
  | cons event rest ih =>
    obtain ⟨hallows, hrest⟩ := h
    refine ⟨?_, ih hrest⟩
    cases event with
    | openSpan s pos stop =>
      refine ⟨hallows.1, fun r hr hcolor => ?_⟩
      have hvalid := separate_valid c.spans
      have hs : (Coloring.separate c.spans).colorOf s = some s.index :=
        hvalid.colorOf_eq_some.2 ⟨[s], separate_color hallows.1, by simp⟩
      rw [hs, hvalid.colorOf_eq_some] at hcolor
      obtain ⟨members, hmembers, hr'⟩ := hcolor
      obtain rfl : [s] = members :=
        Option.some.inj ((separate_color hallows.1).symm.trans hmembers)
      obtain rfl : r = s := by simpa using hr'
      exact hallows.2 r hr rfl
    | closeSpan s pos stop => exact hallows
    | enter pos stop => trivial
    | leave pos stop => trivial

end Coloring

namespace Ledger

/-- The order in which spans are handed over changes nothing else. -/
theorem step_order (sentinel : Int32) (order order' : List SpanId) (code : SpanId → Int32)
    (l : Ledger) (event : Event) :
    (l.step sentinel order code event).status = (l.step sentinel order' code event).status ∧
      (l.step sentinel order code event).ledger = (l.step sentinel order' code event).ledger := by
  cases event <;> exact ⟨rfl, rfl⟩

theorem step_handed_perm (sentinel : Int32) {order order' : List SpanId} (h : order.Perm order')
    (code : SpanId → Int32) (l : Ledger) (event : Event) :
    (l.step sentinel order code event).handed.Perm (l.step sentinel order' code event).handed := by
  cases event with
  | leave pos stop => exact h.filterMap _
  | _ => exact .rfl

theorem step_handed_eq (sentinel : Int32) (order order' : List SpanId) (code : SpanId → Int32)
    (l : Ledger) {event : Event} (h : ∀ pos stop, event ≠ .leave pos stop) :
    (l.step sentinel order code event).handed = (l.step sentinel order' code event).handed := by
  cases event with
  | leave pos stop => exact absurd rfl (h pos stop)
  | _ => rfl

def after (sentinel : Int32) (steps : List ((SpanId → Int32) × Event)) (l : Ledger) : Ledger :=
  steps.foldl (fun l x => (l.step sentinel [] x.1 x.2).ledger) l

theorem run_getElem? (sentinel : Int32) (order : List SpanId)
    (steps : List ((SpanId → Int32) × Event)) (l : Ledger) (k : Nat) :
    (run sentinel order steps l)[k]? =
      steps[k]?.map fun x => (after sentinel (steps.take k) l).step sentinel order x.1 x.2 := by
  induction steps generalizing l k with
  | nil => rfl
  | cons x rest ih =>
    cases k with
    | zero => rfl
    | succ k =>
      have hledger := (step_order sentinel order [] x.1 l x.2).2
      simp only [run, List.getElem?_cons_succ, ih, List.take_succ_cons, after, List.foldl_cons,
        hledger]

theorem Opens.after {l : Ledger} {opened : List SpanId} (h : l.Opens opened) (sentinel : Int32)
    (steps : List ((SpanId → Int32) × Event)) :
    (l.after sentinel steps).Opens (steps.foldl (fun opened x => x.2.opened opened) opened) := by
  induction steps generalizing l opened with
  | nil => exact h
  | cons x rest ih => exact ih (h.step sentinel [] x.1 x.2)

end Ledger

def Seen.map {φ ψ : Type} (f : φ → ψ) : Seen φ → Seen ψ
  | .int n => .int n
  | .pos p => .pos p
  | .func g => .func (g.map f)
  | .text t => .text t
  | .state => .state

theorem Value.seen_map {φ : Type} (label : FuncId → φ) (p : Program) (v : Value) :
    v.seen label p = (v.seen id p).map label := by
  cases v <;> simp [Value.seen, Seen.map]

def Host.ofCodes (codes : FuncId → Int32) : Host Unit where
  answer f := some fun _ _ state => (codes f, state)

namespace EventParser

variable {σ : Type} {parser : EventParser} {options : SpanOptions} {c : Coloring}

/-- What can be told of a field, by the name of the field and the names of functions. -/
def shown (parser : EventParser) (m : Memory) (name : String) : Option (Seen String) :=
  (m.byName? parser.program.layout name).map
    (Value.seen parser.program.nameOf parser.program)

theorem shown_eq (hp : parser.Generated options c) (hc : c.Valid)
    (hdistinct : parser.program.layout.Distinct) {w : World σ} {t : Tracked FuncId σ}
    (hw : Represents parser.emitter parser.program id w t) {x : Place} {f : Field}
    (hx : parser.emitter.field? x = some f) :
    parser.shown w.memory x.name =
      some ((t.tracker.look options.errorReason x).map parser.program.nameOf) := by
  obtain rfl := hp.coloring
  obtain ⟨ty, hholds, -⟩ := hp.ready.field hc.nonempty hx
  obtain ⟨v, hv, hseen⟩ := hw.fields x f hx
  have hlookup := hdistinct.lookup hholds.has
  rw [hholds.name_eq] at hlookup
  rw [shown, Memory.byName?, hlookup, Option.bind_some, hv, Option.map_some, Value.seen_map, hseen,
    hp.settings]

def record (options : SpanOptions) (l : Ledger) (x : Place) : Seen String :=
  ({ failure := l.failure, current := if l.resuming then some "resume" else none } :
    Tracker String).look options.errorReason x

theorem shown_record (hp : parser.Generated options c) (hc : c.Valid)
    (hdistinct : parser.program.layout.Distinct) {result : Option (Except Fault Int32)}
    {w : World σ} {entry : Ledger.Entry} (h : parser.Tells result w entry) {x : Place}
    (hx : x ∈ [Place.current, .error, .reason, .errorPos]) :
    parser.shown w.memory x.name = some (record options entry.ledger x) := by
  obtain ⟨t, hw, ht⟩ := h.tracks
  have hresume : parser.program.nameOf parser.resume = "resume" := hp.resume.nameOf
  have hfield : ∃ f, parser.emitter.field? x = some f := by
    simp only [List.mem_cons, List.not_mem_nil, or_false] at hx
    rcases hx with rfl | rfl | rfl | rfl <;> exact ⟨_, rfl⟩
  obtain ⟨f, hf⟩ := hfield
  rw [shown_eq hp hc hdistinct hw hf]
  simp only [List.mem_cons, List.not_mem_nil, or_false] at hx
  rcases hx with rfl | rfl | rfl | rfl
  · cases hr : entry.ledger.resuming <;>
      simp [record, Tracker.look, Seen.map, ht.current, hr, Emitter.scheme, hresume]
  · simp [record, Tracker.look, Seen.map, ht.failure]
  · cases hf : entry.ledger.failure <;> simp [record, Tracker.look, Seen.map, ht.failure, hf]
  · simp [record, Tracker.look, Seen.map, ht.failure]

/-- The start of a color is that of its open member. -/
theorem shown_start (hp : parser.Generated options c) (hc : c.Valid)
    (hdistinct : parser.program.layout.Distinct) {result : Option (Except Fault Int32)}
    {w : World σ} {entry : Ledger.Entry} (h : parser.Tells result w entry) {i : Nat}
    {members : List SpanId} (hi : c.colors[i]? = some members) :
    ∃ start, parser.shown w.memory (ColorSlots.startName i) = some (.pos start) ∧
      ∀ pos, start = some pos ↔ ∃ s ∈ members, entry.ledger.starts s = some pos := by
  obtain rfl := hp.coloring
  obtain ⟨t, hw, ht⟩ := h.tracks
  have hlt : i < parser.emitter.colors.length := by
    rw [hp.ready.length]
    exact (List.getElem?_eq_some_iff.1 hi).1
  have hf : parser.emitter.field? (.start i) = some parser.emitter.colors[i].start := by
    simp [Emitter.field?, hlt]
  exact ⟨t.tracker.start i, shown_eq hp hc hdistinct hw hf, ht.start i members hi⟩

/-- After a step, the parser of a coloring and the parser of separate spans cannot be told apart,
while the given spans are open. -/
structure Alike (c : Coloring) (parser parser' : EventParser) (event : Event)
    (opened : List SpanId) (x y : Option (Except Fault Int32) × World Unit) : Prop where
  status : ∃ status, x.1 = some (.ok status) ∧ y.1 = some (.ok status)
  calls : (∀ pos stop, event ≠ .leave pos stop) → x.2.calls = y.2.calls
  flushed : x.2.calls.toList.Perm y.2.calls.toList
  record : ∀ place ∈ [Place.current, .error, .reason, .errorPos], ∃ seen,
    parser.shown x.2.memory place.name = some seen ∧
      parser'.shown y.2.memory place.name = some seen
  /-- The start of a color is that of its one open member. -/
  start : ∀ i members, c.colors[i]? = some members → ∀ s ∈ members, s ∈ opened →
    (∀ r ∈ members, r ∈ opened → r = s) ∧
    ∃ pos, parser.shown x.2.memory (ColorSlots.startName i) = some (.pos (some pos)) ∧
      parser'.shown y.2.memory (ColorSlots.startName s.index) = some (.pos (some pos))
  /-- It is null if none of its members is open. -/
  free : ∀ i members, c.colors[i]? = some members → (∀ s ∈ members, s ∉ opened) →
    parser.shown x.2.memory (ColorSlots.startName i) = some (.pos none)
  closed : ∀ s : SpanId, s.index < c.spans.length → s ∉ opened →
    parser'.shown y.2.memory (ColorSlots.startName s.index) = some (.pos none)

section Compare

variable {parser' : EventParser}

/-- Steps that are told alike, up to the order of what is handed over at the end of a buffer. -/
theorem alike_of_tells (hc : c.Valid) (hp : parser.Generated options c)
    (hp' : parser'.Generated options (Coloring.separate c.spans))
    (hdistinct : parser.program.layout.Distinct) (hdistinct' : parser'.program.layout.Distinct)
    {entry entry' : Ledger.Entry} (hstatus : entry.status = entry'.status)
    (hledger : entry.ledger = entry'.ledger) {event : Event}
    (hhanded : (∀ pos stop, event ≠ .leave pos stop) → entry.handed = entry'.handed)
    (hperm : entry.handed.Perm entry'.handed) {opened : List SpanId}
    (hopened : entry.ledger.Opens opened) {x y : Option (Except Fault Int32) × World Unit}
    (hx : parser.Tells x.1 x.2 entry) (hy : parser'.Tells y.1 y.2 entry') :
    Alike c parser parser' event opened x y := by
  have hc' := Coloring.separate_valid c.spans
  have hcalls := hx.calls
  have hcalls' := hy.calls
  rw [hp.coloring] at hcalls
  rw [hp'.coloring] at hcalls'
  -- what a span stores alone
  have hown : ∀ s : SpanId, s.index < c.spans.length →
      parser'.shown y.2.memory (ColorSlots.startName s.index) =
        some (.pos (entry.ledger.starts s)) := by
    intro s hs
    obtain ⟨start, hshown, hstart⟩ :=
      shown_start hp' hc' hdistinct' hy (Coloring.separate_color hs)
    rw [hshown, hledger]
    congr 2
    ext pos
    simp [hstart pos]
  refine ⟨⟨_, hx.status, hstatus ▸ hy.status⟩, ?_, ?_, ?_, ?_, ?_, ?_⟩
  · intro hevent
    apply Array.toList_inj.1
    rw [hcalls, hcalls', hhanded hevent]
    rfl
  · rw [hcalls, hcalls']
    exact hperm.filterMap _
  · intro place hplace
    refine ⟨_, shown_record hp hc hdistinct hx hplace, ?_⟩
    rw [shown_record hp' hc' hdistinct' hy hplace, hledger]
  · intro i members hi s hs hso
    have hsome := (hopened s).1 hso
    obtain ⟨pos, hpos⟩ := Option.isSome_iff_exists.1 hsome
    obtain ⟨start, hshown, hstart⟩ := shown_start hp hc hdistinct hx hi
    obtain rfl := (hstart pos).2 ⟨s, hs, hpos⟩
    have hknown : s.index < c.spans.length :=
      hc.known s (List.mem_flatten.2 ⟨members, List.mem_of_getElem? hi, hs⟩)
    refine ⟨?_, pos, hshown, by rw [hown s hknown, hpos]⟩
    intro r hr hro
    obtain ⟨t, -, ht⟩ := hx.tracks
    have hmembers : members ∈ parser.emitter.coloring.colors :=
      hp.coloring ▸ List.mem_of_getElem? hi
    exact ht.one members hmembers r hr s hs ((hopened r).1 hro) hsome
  · intro i members hi hfree
    obtain ⟨start, hshown, hstart⟩ := shown_start hp hc hdistinct hx hi
    rw [hshown]
    congr 2
    cases start with
    | none => rfl
    | some pos =>
      obtain ⟨s, hs, hpos⟩ := (hstart pos).1 rfl
      exact absurd ((hopened s).2 (by simp [hpos])) (hfree s hs)
  · intro s hs hso
    have hnone : entry.ledger.starts s = none := by
      rw [← Option.not_isSome_iff_eq_none]
      exact fun hsome => hso ((hopened s).2 hsome)
    rw [hown s hs, hnone]

def codeOf (c : Coloring) (codes : FuncId → Int32) (s : SpanId) : Int32 :=
  (c.span? s).elim 0 fun span => codes span.callback

theorem ofCodes_answers {p : Program} (d : Coloring) (hspans : d.spans = c.spans)
    (hhosted : ∀ span ∈ c.spans, ∃ d, p.decl? span.callback = some d ∧ d.body = none)
    (codes : FuncId → Int32) : (Host.ofCodes codes).Answers p d (codeOf c codes) := by
  intro s span hs
  have hs' : c.span? s = some span := by
    rw [Coloring.span?, ← hspans]
    exact hs
  exact ⟨hhosted span (List.mem_of_getElem? hs'), _, rfl, fun _ _ _ => by simp [codeOf, hs']⟩

/-- A run in order from a fresh instance, step by step. -/
theorem Generated.tells_getElem {d : Coloring} (hp : parser.Generated options d) (hd : d.Valid)
    (hspans : d.spans = c.spans)
    (hhosted : ∀ span ∈ c.spans, ∃ d, parser.program.decl? span.callback = some d ∧ d.body = none)
    {limit : Nat} (hlimit : 1 + 2 * d.colors.length ≤ limit) (depth : Nat)
    {steps : List ((FuncId → Int32) × Event)} (horder : d.Orderly [] (steps.map Prod.snd))
    (hleave : ∀ x ∈ steps, ∀ pos stop, x.2 = .leave pos stop →
      ∀ span ∈ c.spans, x.1 span.callback = 0)
    {k : Nat} {codes : FuncId → Int32} {event : Event} (hk : steps[k]? = some (codes, event)) :
    ∃ x, (parser.run limit (depth + 1) (steps.map fun x => (Host.ofCodes x.1, x.2))
        ⟨Memory.fresh parser.program.layout, (), #[]⟩)[k]? = some x ∧
      parser.Tells x.1 x.2 ((Ledger.after options.errorSentinel
        ((steps.map fun x => (codeOf c x.1, x.2)).take k) {}).step options.errorSentinel
          d.colors.flatten (codeOf c codes) event) := by
  have hsteps : ∀ x ∈ steps.map fun x => (codeOf c x.1, Host.ofCodes x.1, x.2),
      x.2.1.Answers parser.program d x.1 ∧
        ∀ pos stop, x.2.2 = .leave pos stop → ∀ s, x.1 s = 0 := by
    intro x hx
    obtain ⟨y, hy, rfl⟩ := List.mem_map.1 hx
    refine ⟨ofCodes_answers d hspans hhosted y.1, fun pos stop hevent s => ?_⟩
    cases hs : c.span? s with
    | none => simp [codeOf, hs]
    | some span =>
      simpa [codeOf, hs] using hleave y hy pos stop hevent span (List.mem_of_getElem? hs)
  have hopens : ({} : Ledger).Opens [] := by simp [Ledger.Opens]
  have htells := hp.run_ledger hd hlimit depth (fun x hx => (hsteps x hx).1)
    (fun x hx => (hsteps x hx).2) hopens (by simpa [Function.comp_def] using horder)
    (Represents.fresh hp.ready (hp.coloring ▸ hd.nonempty) ()) (Scheme.Follows.fresh _)
  simp only [List.map_map, Function.comp_def] at htells
  obtain ⟨hlength, hget⟩ := List.forall₂_iff_get.1 htells
  have hentry : (Ledger.run options.errorSentinel d.colors.flatten
      (steps.map fun x => (codeOf c x.1, x.2)) {})[k]? = some ((Ledger.after options.errorSentinel
        ((steps.map fun x => (codeOf c x.1, x.2)).take k) {}).step options.errorSentinel
          d.colors.flatten (codeOf c codes) event) := by
    rw [Ledger.run_getElem?, List.getElem?_map, hk]
    rfl
  obtain ⟨hlt, hentry⟩ := List.getElem?_eq_some_iff.1 hentry
  have hlt' := hlength.symm ▸ hlt
  refine ⟨_, List.getElem?_eq_getElem hlt', ?_⟩
  rw [← hentry]
  exact hget k hlt' hlt

/-- Take the parser of any valid coloring and the parser that gives each of the same spans a color
of its own, with callbacks left to the host. In every run that is in order for the coloring, with
any codes from the callbacks except at the end of a buffer, where they are zero, the parsers are
alike after every step. -/
theorem sharing_unobservable {p p' q q' : Program} (hp : p.Reachable) (hq : q.Reachable)
    (hc : c.Valid) (hparser : generate options c p = .ok parser p')
    (hparser' : generate options (Coloring.separate c.spans) q = .ok parser' q')
    (hhosted : ∀ span ∈ c.spans, ∃ d, parser.program.decl? span.callback = some d ∧ d.body = none)
    (hhosted' : ∀ span ∈ c.spans, ∃ d, parser'.program.decl? span.callback = some d ∧ d.body = none)
    {limit : Nat} (hlimit : 1 + 2 * c.spans.length ≤ limit) (depth : Nat)
    {steps : List ((FuncId → Int32) × Event)} (horder : c.Orderly [] (steps.map Prod.snd))
    (hleave : ∀ x ∈ steps, ∀ pos stop, x.2 = .leave pos stop →
      ∀ span ∈ c.spans, x.1 span.callback = 0)
    {k : Nat} {codes : FuncId → Int32} {event : Event} (hk : steps[k]? = some (codes, event)) :
    ∃ x y,
      (parser.run limit (depth + 1) (steps.map fun x => (Host.ofCodes x.1, x.2))
        ⟨Memory.fresh parser.program.layout, (), #[]⟩)[k]? = some x ∧
      (parser'.run limit (depth + 1) (steps.map fun x => (Host.ofCodes x.1, x.2))
        ⟨Memory.fresh parser'.program.layout, (), #[]⟩)[k]? = some y ∧
      Alike c parser parser' event
        ((steps.take (k + 1)).foldl (fun opened x => x.2.opened opened) []) x y := by
  obtain ⟨hgenerated, rfl, hleads⟩ := generate_ok hp.numbered hc hparser
  have hc' := Coloring.separate_valid c.spans
  obtain ⟨hgenerated', rfl, hleads'⟩ := generate_ok hq.numbered hc' hparser'
  have hfits : 1 + 2 * c.colors.length ≤ limit := by
    have := hc.colors_length
    omega
  have hfits' : 1 + 2 * (Coloring.separate c.spans).colors.length ≤ limit := by
    have := hc'.colors_length
    simp only [Coloring.separate] at this ⊢
    omega
  obtain ⟨x, hx, htells⟩ := hgenerated.tells_getElem hc rfl hhosted hfits depth horder hleave hk
  obtain ⟨y, hy, htells'⟩ := hgenerated'.tells_getElem hc' rfl hhosted' hfits' depth
    horder.separate hleave hk
  refine ⟨x, y, hx, hy, ?_⟩
  obtain ⟨hstatus, hledger⟩ := Ledger.step_order options.errorSentinel c.colors.flatten
    (Coloring.separate c.spans).colors.flatten (codeOf c codes) _ event
  have hopened : ((Ledger.after options.errorSentinel
      ((steps.map fun x => (codeOf c x.1, x.2)).take k) {}).step options.errorSentinel
        c.colors.flatten (codeOf c codes) event).ledger.Opens
          ((steps.take (k + 1)).foldl (fun opened x => x.2.opened opened) []) := by
    have hopens : ({} : Ledger).Opens [] := by simp [Ledger.Opens]
    have hbefore := hopens.after options.errorSentinel
      ((steps.map fun x => (codeOf c x.1, x.2)).take k)
    rw [← List.map_take, List.foldl_map] at hbefore
    rw [List.take_add_one, hk, Option.toList_some, List.foldl_append, ← List.map_take]
    exact hbefore.step options.errorSentinel c.colors.flatten (codeOf c codes) event
  exact alike_of_tells hc hgenerated hgenerated' (hp.leads hleads).distinct
    (hq.leads hleads').distinct hstatus hledger
    (fun hevent => Ledger.step_handed_eq _ _ _ _ _ hevent)
    (Ledger.step_handed_perm _ (hc.flatten_perm hc' rfl) _ _ _) hopened htells htells'

/-- The two spans of one color take turns across the end of a buffer. A callback fails when the
first of them closes; what it leaves behind is still stored when the second one opens. -/
def turns : List ((FuncId → Int32) × Event) :=
  [(fun _ => 7, .openSpan ⟨0⟩ 2 9), (fun _ => 7, .openSpan ⟨2⟩ 3 9), (fun _ => 0, .leave 9 9),
    (fun _ => 7, .enter 40 60), (fun f => if f = ⟨0⟩ then 5 else 0, .closeSpan ⟨0⟩ 41 60),
    (fun _ => 7, .openSpan ⟨1⟩ 44 60), (fun _ => 0, .leave 60 60)]

theorem sharing_unobservable_turns :
    ∃ parser p' parser' q',
      generate {} sharedPair (callbackProgram ["on_a", "on_b"]) = .ok parser p' ∧
      generate {} (Coloring.separate sharedPair.spans) (callbackProgram ["on_a", "on_b"]) =
        .ok parser' q' ∧
      ∃ x y,
        (parser.run 7 1 (turns.map fun x => (Host.ofCodes x.1, x.2))
          ⟨Memory.fresh parser.program.layout, (), #[]⟩)[6]? = some x ∧
        (parser'.run 7 1 (turns.map fun x => (Host.ofCodes x.1, x.2))
          ⟨Memory.fresh parser'.program.layout, (), #[]⟩)[6]? = some y ∧
        Alike sharedPair parser parser' (.leave 60 60) [⟨1⟩, ⟨2⟩] x y := by
  have hreach : (callbackProgram ["on_a", "on_b"]).Reachable :=
    callbackProgram_reachable (by decide)
  obtain ⟨parser, p', hparser, rfl, hhosted⟩ : ∃ parser p', generate {} sharedPair
      (callbackProgram ["on_a", "on_b"]) = .ok parser p' ∧ _ ∧ _ :=
    generate_callbackProgram sharedPair_valid (by decide) (by decide) (by decide) (by decide)
      (by decide)
  obtain ⟨parser', q', hparser', rfl, hhosted'⟩ : ∃ parser p',
      generate {} (Coloring.separate sharedPair.spans) (callbackProgram ["on_a", "on_b"]) =
        .ok parser p' ∧ _ ∧ _ :=
    generate_callbackProgram (Coloring.separate_valid _) (by decide) (by decide) (by decide)
      (by decide) (by decide)
  have hlimit : 1 + 2 * sharedPair.spans.length ≤ 7 := by decide
  have horder : sharedPair.Orderly [] (turns.map Prod.snd) := by decide
  have hleave : ∀ x ∈ turns, ∀ pos stop, x.2 = .leave pos stop →
      ∀ span ∈ sharedPair.spans, x.1 span.callback = 0 := by
    simp [turns]
  exact ⟨parser, _, parser', _, hparser, hparser',
    sharing_unobservable hreach hreach sharedPair_valid hparser hparser' hhosted hhosted' hlimit 0
      horder hleave rfl⟩

end Compare

end EventParser

end SpanTracking
