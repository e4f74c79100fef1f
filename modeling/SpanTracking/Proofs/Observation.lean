import SpanTracking.Proofs.Simulation

set_option autoImplicit false

namespace SpanTracking

def outcome {ε σ α : Type} : EStateM.Result ε σ α → Except ε α × σ
  | .ok a s => (.ok a, s)
  | .error e s => (.error e, s)

/-- What can be told after a step; there is no result if the event is about no span. -/
structure Observation (φ : Type) where
  result : Option (Except Fault Int32)
  calls : List (φ × Nat × Nat)
  fields : List (String × Option (Seen φ))

namespace EventParser

variable {φ σ : Type}

/-- Runs events one after another, each with a host of its own. After each of them there are its
result and the world it left, with the calls of this step only. -/
def run (parser : EventParser) (limit depth : Nat) :
    List (Host σ × Event) → World σ → List (Option (Except Fault Int32) × World σ)
  | [], _ => []
  | (host, event) :: rest, w =>
    match parser.step host limit depth event with
    | none => (none, { w with calls := #[] }) :: run parser limit depth rest w
    | some act =>
      let (result, w') := outcome (act { w with calls := #[] })
      (some result, w') :: run parser limit depth rest w'

def fields (parser : EventParser) (label : FuncId → φ) (m : Memory) :
    List (String × Option (Seen φ)) :=
  parser.program.layout.fields.map fun f =>
    (f.name, (m.get? f.id).map (Value.seen label parser.program))

def trace (parser : EventParser) (label : FuncId → φ) (limit depth : Nat)
    (steps : List (Host σ × Event)) (w : World σ) : List (Observation φ) :=
  (parser.run limit depth steps w).map fun (result, w) =>
    ⟨result, w.calls.toList.map fun c => (label c.callee, c.start, c.stop),
      parser.fields label w.memory⟩

end EventParser

namespace Scheme

variable {φ σ : Type}

def run (S : Scheme φ) :
    List (Replies φ σ × Event) → Tracked φ σ → List (Option (Except Fault Int32) × Tracked φ σ)
  | [], _ => []
  | (reply, event) :: rest, t =>
    match S.step reply event with
    | none => (none, { t with calls := [] }) :: run S rest t
    | some act =>
      let (result, t') := outcome (act { t with calls := [] })
      (some result, t') :: run S rest t'

def places (S : Scheme φ) : List Place :=
  [.current, .error, .reason, .errorPos] ++ (List.range S.colors.length).flatMap fun color =>
    if (S.sole color).isNone then [.start color, .slot color] else [.start color]

def fields (S : Scheme φ) (t : Tracker φ) : List (String × Option (Seen φ)) :=
  S.places.map fun x => (x.name, some (t.look S.options.errorReason x))

def trace (S : Scheme φ) (steps : List (Replies φ σ × Event)) (t : Tracked φ σ) :
    List (Observation φ) :=
  (S.run steps t).map fun (result, t) => ⟨result, t.calls, S.fields t.tracker⟩

end Scheme

theorem Agree.outcome_eq {φ σ α : Type} {R : World σ → Tracked φ σ → Prop}
    {r : EStateM.Result Fault (World σ) α} {r' : EStateM.Result Fault (Tracked φ σ) α}
    (h : Agree R Eq r r') : (outcome r).1 = (outcome r').1 ∧ R (outcome r).2 (outcome r').2 := by
  cases h with
  | ok hq hr => exact ⟨congrArg Except.ok hq, hr⟩
  | error hr => exact ⟨rfl, hr⟩

theorem Represents.clear {φ σ : Type} {e : Emitter} {p : Program} {label : FuncId → φ} {w : World σ}
    {t : Tracked φ σ} (h : Represents e p label w t) :
    Represents e p label { w with calls := #[] } { t with calls := [] } :=
  ⟨h.host, rfl, h.fields, h.known, h.opened⟩

namespace EventParser

variable {φ σ : Type} {parser : EventParser} {options : SpanOptions} {c : Coloring}
  {label : FuncId → φ} {title : φ → String}

/-- A generated parser and its tracker take every step alike. -/
theorem Generated.run_agrees (hp : parser.Generated options c) (hc : c.Valid) {limit : Nat}
    (hlimit : 1 + 2 * c.colors.length ≤ limit) (depth : Nat)
    {steps : List (Host σ × Replies φ σ × Event)}
    (hh : ∀ x ∈ steps, parser.emitter.Hosted parser.program label title x.1 x.2.1) {w : World σ}
    {t : Tracked φ σ} (h : Represents parser.emitter parser.program label w t) :
    List.Forall₂
      (fun x y => x.1 = y.1 ∧ Represents parser.emitter parser.program label x.2 y.2)
      (parser.run limit (depth + 1) (steps.map fun x => (x.1, x.2.2)) w)
      ((parser.emitter.scheme label parser.resume title).run (steps.map fun x => (x.2.1, x.2.2))
        t) := by
  induction steps generalizing w t with
  | nil => exact .nil
  | cons x rest ih =>
    obtain ⟨host, reply, event⟩ := x
    simp only [List.mem_cons, forall_eq_or_imp] at hh
    simp only [List.map_cons, run, Scheme.run]
    have hstep := hp.step_agrees hc hh.1 hlimit depth event h.clear
    generalize parser.step host limit (depth + 1) event = act at hstep
    generalize (parser.emitter.scheme label parser.resume title).step reply event = track at hstep
    cases hstep with
    | none => exact .cons ⟨rfl, h.clear⟩ (ih hh.2 h)
    | some hagree =>
      obtain ⟨hresult, h'⟩ := hagree.outcome_eq
      exact .cons ⟨congrArg some hresult, h'⟩ (ih hh.2 h')

/-- A record that represents a tracker shows the tracker's fields, if the layout has no others. -/
theorem fields_eq {w : World σ} {t : Tracked φ σ} (he : parser.emitter.Ready parser.program)
    (hc : parser.emitter.coloring.Valid)
    (hl : parser.program.layout.fields.map some =
      (parser.emitter.scheme label parser.resume title).places.map parser.emitter.field?)
    (h : Represents parser.emitter parser.program label w t) :
    parser.fields label w.memory =
      (parser.emitter.scheme label parser.resume title).fields t.tracker := by
  apply List.ext_getElem?
  intro i
  have hi := congrArg (fun list => list[i]?) hl
  simp only [List.getElem?_map] at hi
  simp only [fields, Scheme.fields, List.getElem?_map]
  cases hx : (parser.emitter.scheme label parser.resume title).places[i]? with
  | none =>
    rw [hx] at hi
    rw [Option.map_eq_none_iff.1 hi]
    rfl
  | some x =>
    rw [hx] at hi
    obtain ⟨f, hf, hfx⟩ := Option.map_eq_some_iff.1 hi
    obtain ⟨_, hholds, -⟩ := he.field hc.nonempty hfx.symm
    obtain ⟨v, hv, hseen⟩ := h.fields x f hfx.symm
    simp [hf, hv, hseen, hholds.name_eq, Emitter.scheme]

/-- A generated parser and its tracker cannot be told apart. -/
theorem Generated.trace_agrees (hp : parser.Generated options c) (hc : c.Valid)
    (hl : parser.program.layout.fields.map some =
      (parser.emitter.scheme label parser.resume title).places.map parser.emitter.field?)
    {limit : Nat} (hlimit : 1 + 2 * c.colors.length ≤ limit) (depth : Nat)
    {steps : List (Host σ × Replies φ σ × Event)}
    (hh : ∀ x ∈ steps, parser.emitter.Hosted parser.program label title x.1 x.2.1) {w : World σ}
    {t : Tracked φ σ} (h : Represents parser.emitter parser.program label w t) :
    parser.trace label limit (depth + 1) (steps.map fun x => (x.1, x.2.2)) w =
      (parser.emitter.scheme label parser.resume title).trace (steps.map fun x => (x.2.1, x.2.2))
        t := by
  have hrun := hp.run_agrees hc hlimit depth hh h
  unfold trace Scheme.trace
  generalize parser.run limit (depth + 1) (steps.map fun x => (x.1, x.2.2)) w = xs at hrun
  generalize (parser.emitter.scheme label parser.resume title).run
    (steps.map fun x => (x.2.1, x.2.2)) t = ys at hrun
  induction hrun with
  | nil => rfl
  | cons hxy _ ih =>
    obtain ⟨hresult, hrep⟩ := hxy
    simp only [List.map_cons, hresult, hrep.calls, ih]
    rw [fields_eq hp.ready (hp.coloring ▸ hc) hl hrep]

end EventParser

end SpanTracking
