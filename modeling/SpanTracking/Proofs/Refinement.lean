import SpanTracking.Proofs.Construction
import SpanTracking.Proofs.Observation

set_option autoImplicit false

namespace SpanTracking

def Scheme.ofColors (options : SpanOptions) (colors : List (List String)) : Scheme String where
  spans := EventParser.namedSpans 0 colors
  colors := EventParser.number 0 colors
  options
  resume := "resume"
  title := id

def Program.hostOf {σ : Type} (p : Program) (reply : Replies String σ) : Host σ where
  answer f := some (reply (p.nameOf f))

namespace EventParser

/-- The fields of the colors from number `color` on, by their places. -/
theorem fields_of_colors {φ : Type} {e : Emitter} {p : Program} (label : FuncId → φ)
    (resume : FuncId) (title : φ → String) (he : e.Ready p)
    (hc : ∀ members ∈ e.coloring.colors, members ≠ []) {list : List ColorSlots} {color : Nat}
    (hlist : ∀ i slots, list[i]? = some slots → e.colors[color + i]? = some slots) :
    (list.flatMap ColorSlots.fields).map some =
      ((List.range' color list.length).flatMap fun i =>
        if ((e.scheme label resume title).sole i).isNone then [Place.start i, .slot i]
        else [.start i]).map e.field? := by
  induction list generalizing color with
  | nil => rfl
  | cons slots rest ih =>
    have hslots := hlist 0 slots rfl
    rw [Nat.add_zero] at hslots
    have hrest : ∀ i slots, rest[i]? = some slots → e.colors[color + 1 + i]? = some slots := by
      intro i slots' hi
      rw [Nat.add_assoc, Nat.add_comm 1]
      exact hlist (i + 1) slots' hi
    simp only [List.length_cons, List.range'_succ, List.flatMap_cons, List.map_append]
    rw [ih hrest]
    congr 1
    rcases he.sole_cases label resume title hc hslots with
      ⟨s, span, hsole, -, hslot, -⟩ | ⟨hsole, slot, hslot, -⟩
    · simp [hsole, ColorSlots.fields, hslot, Emitter.field?, hslots]
    · simp [hsole, ColorSlots.fields, hslot, Emitter.field?, hslots]

namespace Built

variable {parser : EventParser} {options : SpanOptions} {colors : List (List String)}

theorem scheme_eq (h : parser.Built options colors) :
    parser.emitter.scheme parser.program.nameOf parser.resume id =
      Scheme.ofColors options colors := by
  simp only [Emitter.scheme, Scheme.ofColors, Scheme.mk.injEq]
  exact ⟨h.spans, h.colors_eq, h.generated.settings, h.generated.resume.nameOf, trivial⟩

theorem fields_eq_places (h : parser.Built options colors) :
    parser.program.layout.fields.map some =
      (parser.emitter.scheme parser.program.nameOf parser.resume id).places.map
        parser.emitter.field? := by
  have hlen : (parser.emitter.scheme parser.program.nameOf parser.resume id).colors.length =
    parser.emitter.colors.length := h.generated.ready.length.symm
  have hlist : ∀ (i : Nat) (slots : ColorSlots), parser.emitter.colors[i]? = some slots →
      parser.emitter.colors[0 + i]? = some slots := by
    intro i slots hi
    rwa [Nat.zero_add]
  rw [h.fields, Scheme.places, hlen, List.map_append, List.map_append, List.range_eq_range',
    fields_of_colors parser.program.nameOf parser.resume id h.generated.ready h.valid.nonempty
      hlist]
  rfl

theorem hosted (h : parser.Built options colors) {σ : Type} (reply : Replies String σ) :
    parser.emitter.Hosted parser.program parser.program.nameOf id (parser.program.hostOf reply)
      reply := by
  refine ⟨fun span hs => ?_, fun span _ => rfl⟩
  obtain ⟨d, hd, hb⟩ := h.bodyless span hs
  exact ⟨d, hd, hb, by simp [Program.nameOf, hd]⟩

end Built

/-- Colors with members, callbacks that are not named like a function of the parser, a sentinel
other than zero and a reason without NUL make a parser, whose functions are told apart by their
names. After every step of every run on a fresh instance, the status or the fault, the calls of the
step and the fields of the record are those of the tracker. -/
theorem trace_ofColors {options : SpanOptions} {colors : List (List String)}
    (hsentinel : options.errorSentinel ≠ 0) (hreason : '\x00' ∉ options.errorReason.toList)
    (hne : ∀ names ∈ colors, names ≠ [])
    (hnames : ∀ name ∈ colors.flatten,
      name ∉ functionNames ((namedSpans 0 colors).map Prod.fst)) :
    ∃ parser, ofColors options colors = .ok parser ∧
      (parser.program.decls.map Decl.name).Nodup ∧
      ∀ (σ : Type) (host : σ) (steps : List (Replies String σ × Event)) (limit depth : Nat),
        1 + 2 * colors.length ≤ limit →
        parser.trace parser.program.nameOf limit (depth + 1)
            (steps.map fun step => (parser.program.hostOf step.1, step.2))
            ⟨Memory.fresh parser.program.layout, host, #[]⟩ =
          (Scheme.ofColors options colors).trace steps { host } := by
  obtain ⟨parser, hparser, hbuilt⟩ := ofColors_succeeds hsentinel hreason hne hnames
  refine ⟨parser, hparser, hbuilt.names, fun σ host steps limit depth hlimit => ?_⟩
  have hcolors : 1 + 2 * parser.emitter.coloring.colors.length ≤ limit := by
    rwa [hbuilt.colors_eq, number_length]
  have hhosted : ∀ x ∈ steps.map fun step => (parser.program.hostOf step.1, step.1, step.2),
      parser.emitter.Hosted parser.program parser.program.nameOf id x.1 x.2.1 := by
    intro x hx
    obtain ⟨step, -, rfl⟩ := List.mem_map.1 hx
    exact hbuilt.hosted step.1
  have hrun := hbuilt.generated.trace_agrees hbuilt.valid hbuilt.fields_eq_places hcolors depth
    hhosted (Represents.fresh hbuilt.generated.ready hbuilt.valid.nonempty host)
  rw [hbuilt.scheme_eq] at hrun
  simpa [List.map_map, Function.comp_def] using hrun

/-- A run out of order: a callback that fails at the end of a buffer, one that fails when its span
is closed, and a span closed twice. -/
def disorderly : List (Replies String Unit × Event) :=
  [(fun _ _ _ _ => (0, ()), .openSpan ⟨1⟩ 3 9), (fun _ _ _ _ => (5, ()), .leave 0 7),
    (fun _ _ _ _ => (0, ()), .openSpan ⟨0⟩ 4 9), (fun _ _ _ _ => (6, ()), .closeSpan ⟨1⟩ 8 9),
    (fun _ _ _ _ => (0, ()), .closeSpan ⟨0⟩ 8 9)]

theorem trace_ofColors_disorderly :
    ∃ parser, ofColors {} [["on_a", "on_b"], ["on_a"]] = .ok parser ∧
      (parser.trace parser.program.nameOf 5 1
        (disorderly.map fun step => (parser.program.hostOf step.1, step.2))
        ⟨Memory.fresh parser.program.layout, (), #[]⟩).map
          (fun seen => (seen.result, seen.calls)) =
        [(some (.ok 0), []), (some (.ok 5), [("on_b", 3, 7)]), (some (.ok 0), []),
          (some (.ok (-1)), [("on_b", 4, 8)]), (some (.error (.nullPosition "on_a")), [])] := by
  obtain ⟨parser, hparser, -, hrun⟩ : ∃ parser,
      ofColors {} [["on_a", "on_b"], ["on_a"]] = .ok parser ∧ _ ∧ _ :=
    trace_ofColors (by decide) (by decide) (by decide) (by decide)
  refine ⟨parser, hparser, ?_⟩
  rw [hrun Unit () disorderly 5 0 (by decide)]
  rfl

end EventParser

end SpanTracking
