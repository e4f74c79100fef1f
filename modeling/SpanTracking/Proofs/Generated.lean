import SpanTracking.Proofs.Coloring
import SpanTracking.Proofs.Functions
import SpanTracking.Proofs.Storage

set_option autoImplicit false

namespace SpanTracking

open Machine

namespace Program

def Gives (p : Program) (f : FuncId) (name : String) (least : Nat) (m : Meaning) : Prop :=
  ∃ d body, p.decl? f = some d ∧ d.name = name ∧ d.sig = parserSig ∧ d.body = some body ∧
    ∀ (σ : Type) (enter : FuncId → List Value → Exec σ Value) (limit : Nat) (pos stop : Value),
      least ≤ limit → runBody enter limit body [.state, pos, stop] = m σ enter pos stop

theorem Gives.mono {p p' : Program} {f : FuncId} {name : String} {least : Nat} {m : Meaning}
    (h : p.Gives f name least m) (hp : p.Extends p') : p'.Gives f name least m := by
  obtain ⟨d, body, hd, hn, hs, hb, hm⟩ := h
  obtain ⟨d', hd', hn', hs', hb'⟩ := hp.decls f d hd
  exact ⟨d', body, hd', hn'.trans hn, hs'.trans hs, hb' body hb, hm⟩

theorem Gives.call {p : Program} {f : FuncId} {name : String} {least : Nat} {m : Meaning}
    (h : p.Gives f name least m) {σ : Type} (host : Host σ) {limit : Nat} (hl : least ≤ limit)
    (depth : Nat) (pos stop : Value) :
    Machine.call p host limit (depth + 1) f [.state, pos, stop] =
      m σ (Machine.call p host limit depth) pos stop := by
  obtain ⟨d, body, hd, -, -, hb, hm⟩ := h
  simp only [Machine.call, dispatch, hd, hb]
  exact hm σ _ limit pos stop hl

theorem Gives.nameOf {p : Program} {f : FuncId} {name : String} {least : Nat} {m : Meaning}
    (h : p.Gives f name least m) : p.nameOf f = name := by
  obtain ⟨d, body, hd, hn, -, -, -⟩ := h
  simp [Program.nameOf, hd, hn]

theorem Gives.checkTarget {p : Program} {f : FuncId} {name : String} {least : Nat} {m : Meaning}
    (h : p.Gives f name least m) : Resumption.checkTarget p f = .ok () := by
  obtain ⟨d, body, hd, -, hs, -, -⟩ := h
  simp [Resumption.checkTarget, hd, hs]

end Program

theorem Emitter.locate_of_color {e : Emitter} (hl : e.colors.length = e.coloring.colors.length)
    {s : SpanId} {span : SpanDecl} {color : Nat} (hspan : e.coloring.span? s = some span)
    (hcolor : e.coloring.colorOf s = some color) :
    ∃ slots, e.locate s = .ok (span, color, slots) ∧ e.colors[color]? = some slots := by
  obtain ⟨members, hmembers, -⟩ := e.coloring.sound s color hcolor
  have hlt : color < e.colors.length := by
    rw [hl]
    exact (List.getElem?_eq_some_iff.1 hmembers).1
  refine ⟨e.colors[color], ?_, List.getElem?_eq_getElem hlt⟩
  simp [locate, hspan, hcolor, hlt]

theorem Emitter.locate_ok {e : Emitter} (hc : e.coloring.Valid)
    (hl : e.colors.length = e.coloring.colors.length) {i : Nat} {span : SpanDecl}
    (hs : e.coloring.spans[i]? = some span) :
    ∃ color slots, e.locate ⟨i⟩ = .ok (span, color, slots) ∧
      e.coloring.colorOf ⟨i⟩ = some color ∧ e.colors[color]? = some slots := by
  have hi : i < e.coloring.spans.length := (List.getElem?_eq_some_iff.1 hs).1
  obtain ⟨color, hcolor⟩ := hc.exists_color (s := ⟨i⟩) hi
  obtain ⟨slots, hlocate, hslots⟩ := locate_of_color hl hs hcolor
  exact ⟨color, slots, hlocate, hcolor, hslots⟩

theorem Emitter.Ready.start_ty {e : Emitter} {p : Program} (h : e.Ready p) {slots : ColorSlots}
    (hs : slots ∈ e.colors) : slots.start.ty = .bytes := by
  obtain ⟨i, hi⟩ := List.getElem?_of_mem hs
  have hlt : i < e.coloring.colors.length := by
    rw [← h.length]
    exact (List.getElem?_eq_some_iff.1 hi).1
  exact (h.planned i slots _ hi (List.getElem?_eq_getElem hlt)).start.ty_eq

namespace EventParser

/-- A function is declared, its code is emitted, and what comes of this is its body. -/
theorem defineParser_cases {name : String} {code : Program → BlockId → Build Body Unit}
    {p p' : Program} {f : FuncId} (h : defineParser name code p = .ok f p') :
    ∃ q d body, p.Leads q ∧ q.decl? f = some d ∧ d.name = name ∧ d.sig = parserSig ∧
      code q ⟨f, 0⟩ (Body.start f name parserSig parserParams) = .ok () body ∧
      Program.define body q = .ok () p' := by
  unfold defineParser at h
  obtain ⟨g, p₁, hg, h₁⟩ := bind_ok h
  obtain ⟨q, p₂, hq, h₂⟩ := bind_ok h₁
  obtain ⟨rfl, rfl⟩ : q = p₁ ∧ p₂ = p₁ := by
    simpa [get, getThe, MonadStateOf.get, EStateM.get, eq_comm] using hq
  obtain ⟨d, hd, hn, hsig⟩ := Program.declare_decl hg
  obtain ⟨b, p₃, hb, h₃⟩ := bind_ok h₂
  obtain ⟨hbody, rfl⟩ := Build.check_ok hb
  obtain rfl : Body.start g name parserSig parserParams = b := by
    simpa [Program.parserBody, hd, hsig, hn] using hbody
  have hentry : (Body.start g name parserSig parserParams).entry = ⟨g, 0⟩ := rfl
  rw [hentry] at h₃
  cases hrun : code p₃ ⟨g, 0⟩ (Body.start g name parserSig parserParams) with
  | error e b =>
    rw [hrun] at h₃
    simp [throw, throwThe, MonadExceptOf.throw, EStateM.throw] at h₃
  | ok u body =>
    rw [hrun] at h₃
    obtain ⟨v, p₄, hdef, h₄⟩ := bind_ok h₃
    obtain ⟨rfl, rfl⟩ := pure_ok h₄
    exact ⟨p₃, d, body, .single (.declare hg), hd, hn, hsig, hrun, hdef⟩

theorem defineParser_gives {name : String} {code : Program → BlockId → Build Body Unit}
    {p p' : Program} {f : FuncId} (h : defineParser name code p = .ok f p') {least : Nat}
    {m : Meaning} (hcode : ∀ q f, p.Extends q → ∃ body,
      code q ⟨f, 0⟩ (Body.start f name parserSig parserParams) = .ok () body ∧
        (Body.start f name parserSig parserParams).Complete body least m) :
    p'.Gives f name least m ∧ p.Leads p' := by
  obtain ⟨q, d, body, hlead₁, hd, hn, hsig, hrun, hdef⟩ := defineParser_cases h
  obtain ⟨body', hrun', hc⟩ := hcode q f hlead₁.extends
  obtain rfl : body = body' := by simpa [hrun] using hrun'
  have hlead₂ : q.Leads p' := .single (.define hdef)
  have hid : body.id = f := hc.head.id
  have hbody' := Program.define_body hdef
  rw [hid, Program.body?] at hbody'
  obtain ⟨d', hd', hb'⟩ := Option.bind_eq_some_iff.1 hbody'
  obtain ⟨d'', hd'', hn'', hs'', -⟩ := hlead₂.extends.decls f d hd
  obtain rfl : d' = d'' := Option.some.inj (hd'.symm.trans hd'')
  exact ⟨⟨d', body, hd', hn''.trans hn, hs''.trans hsig, hb', hc.computes⟩, hlead₁.trans hlead₂⟩

structure Edge (p : Program) (e : Emitter) (resume : FuncId) (i : Nat) (span : SpanDecl)
    (edge : FuncId × FuncId) : Prop where
  opens : ∀ color slots, e.locate ⟨i⟩ = .ok (span, color, slots) →
    p.Gives edge.1 ("start_" ++ span.name) 1 (Meaning.opens slots span.callback)
  closes : ∀ color slots, e.locate ⟨i⟩ = .ok (span, color, slots) →
    p.Gives edge.2 ("end_" ++ span.name) 3
      (Meaning.closes e slots span.callback resume ("end_" ++ span.name))

theorem Edge.mono {p p' : Program} {e : Emitter} {resume : FuncId} {i : Nat} {span : SpanDecl}
    {edge : FuncId × FuncId} (h : Edge p e resume i span edge) (hp : p.Extends p') :
    Edge p' e resume i span edge :=
  ⟨fun color slots hs => (h.opens color slots hs).mono hp,
    fun color slots hs => (h.closes color slots hs).mono hp⟩

theorem defineEdges_ok {e : Emitter} {resume : FuncId} {i : Nat} {span : SpanDecl}
    {p p' : Program} {edge : FuncId × FuncId} (he : e.Ready p) (hc : e.coloring.Valid)
    (hs : e.coloring.spans[i]? = some span)
    (ht : ∀ q, p.Extends q → Resumption.checkTarget q resume = .ok ())
    (h : defineEdges e resume ⟨i⟩ span p = .ok edge p') :
    Edge p' e resume i span edge ∧ p.Leads p' := by
  obtain ⟨color, slots, hloc, -, hslots⟩ := Emitter.locate_ok hc he.length hs
  have hty := he.start_ty (List.mem_of_getElem? hslots)
  obtain ⟨opens, p₁, hopens, h₁⟩ := bind_ok h
  obtain ⟨closes, p₂, hcloses, h₂⟩ := bind_ok h₁
  obtain ⟨rfl, rfl⟩ := pure_ok h₂
  obtain ⟨hg₁, hl₁⟩ := defineParser_gives hopens
    fun q f _ => opens_complete hloc f ("start_" ++ span.name)
  obtain ⟨hg₂, hl₂⟩ := defineParser_gives hcloses
    fun q f hq => closes_complete hloc hty (ht q (hl₁.extends.trans hq)) f ("end_" ++ span.name)
  refine ⟨⟨?_, ?_⟩, hl₁.trans hl₂⟩
  · intro color' slots' hloc'
    obtain ⟨-, rfl⟩ : color = color' ∧ slots = slots' := by simpa [hloc] using hloc'
    exact hg₁.mono hl₂.extends
  · intro color' slots' hloc'
    obtain ⟨-, rfl⟩ : color = color' ∧ slots = slots' := by simpa [hloc] using hloc'
    exact hg₂

theorem defineAllEdges_ok {e : Emitter} {resume : FuncId} {index : Nat} {spans : List SpanDecl}
    {p p' : Program} {edges : List (FuncId × FuncId)} (he : e.Ready p) (hc : e.coloring.Valid)
    (hs : ∀ i span, spans[i]? = some span → e.coloring.spans[index + i]? = some span)
    (ht : ∀ q, p.Extends q → Resumption.checkTarget q resume = .ok ())
    (h : defineAllEdges e resume index spans p = .ok edges p') :
    p.Leads p' ∧ edges.length = spans.length ∧ ∀ i span edge, spans[i]? = some span →
      edges[i]? = some edge → Edge p' e resume (index + i) span edge := by
  induction spans generalizing index p edges with
  | nil =>
    obtain ⟨rfl, rfl⟩ := pure_ok h
    exact ⟨.refl, rfl, by simp⟩
  | cons span rest ih =>
    rw [defineAllEdges] at h
    obtain ⟨edge, p₁, hedge, h₁⟩ := bind_ok h
    obtain ⟨edges', p₂, hedges, h₂⟩ := bind_ok h₁
    obtain ⟨rfl, rfl⟩ := pure_ok h₂
    obtain ⟨hfirst, hl₁⟩ := defineEdges_ok he hc (hs 0 span rfl) ht hedge
    have hs' : ∀ i span, rest[i]? = some span → e.coloring.spans[index + 1 + i]? = some span := by
      intro i span' hi
      rw [Nat.add_assoc, Nat.add_comm 1]
      exact hs (i + 1) span' hi
    obtain ⟨hl₂, hlen, hrest⟩ := ih (he.mono hl₁.extends) hs'
      (fun q hq => ht q (hl₁.extends.trans hq)) hedges
    refine ⟨hl₁.trans hl₂, by simp [hlen], ?_⟩
    intro i span' edge' hi hedge'
    cases i with
    | zero =>
      simp only [List.getElem?_cons_zero, Option.some.injEq] at hi hedge'
      subst hi hedge'
      exact hfirst.mono hl₂.extends
    | succ i =>
      have := hrest i span' edge' (by simpa using hi) (by simpa using hedge')
      rwa [Nat.add_assoc, Nat.add_comm 1] at this

structure Generated (parser : EventParser) (options : SpanOptions) (c : Coloring) : Prop where
  coloring : parser.emitter.coloring = c
  settings : parser.emitter.options = options
  sentinel : options.errorSentinel ≠ 0
  ready : parser.emitter.Ready parser.program
  edges_length : parser.edges.length = c.spans.length
  edge : ∀ i span edge, c.spans[i]? = some span → parser.edges[i]? = some edge →
    Edge parser.program parser.emitter parser.resume i span edge
  resume : parser.program.Gives parser.resume "resume" 1 Meaning.resumes
  pre : parser.program.Gives parser.pre "pre" (1 + 2 * parser.emitter.colors.length)
    (Meaning.begins parser.emitter)
  post : parser.program.Gives parser.post "post" (1 + 2 * parser.emitter.colors.length)
    (Meaning.ends parser.emitter)

/-- The functions of a generated parser are defined one after another. -/
theorem generate_cases {options : SpanOptions} {c : Coloring} {p p' : Program}
    {parser : EventParser} (h : generate options c p = .ok parser p') :
    parser.program = p' ∧ ∃ p₁ p₂ p₃ p₄, Emitter.prepare options c p = .ok parser.emitter p₁ ∧
      defineParser "resume" (fun _ => idle) p₁ = .ok parser.resume p₂ ∧
      defineAllEdges parser.emitter parser.resume 0 c.spans p₂ = .ok parser.edges p₃ ∧
      defineParser "pre" (fun _ => beginning parser.emitter) p₃ = .ok parser.pre p₄ ∧
      defineParser "post" (fun _ => ending parser.emitter) p₄ = .ok parser.post p' := by
  unfold generate at h
  obtain ⟨e, p₁, he, h₁⟩ := bind_ok h
  obtain ⟨resume, p₂, hresume, h₂⟩ := bind_ok h₁
  obtain ⟨edges, p₃, hedges, h₃⟩ := bind_ok h₂
  obtain ⟨pre, p₄, hpre, h₄⟩ := bind_ok h₃
  obtain ⟨post, p₅, hpost, h₅⟩ := bind_ok h₄
  obtain ⟨q, p₆, hq, h₆⟩ := bind_ok h₅
  obtain ⟨rfl, rfl⟩ := pure_ok h₆
  obtain ⟨rfl, rfl⟩ : p₅ = q ∧ p₅ = p₆ := by
    simpa [get, getThe, MonadStateOf.get, EStateM.get] using hq
  exact ⟨rfl, p₁, p₂, p₃, p₄, he, hresume, hedges, hpre, hpost⟩

theorem generate_ok {options : SpanOptions} {c : Coloring} {p p' : Program} {parser : EventParser}
    (hp : p.layout.Numbered) (hc : c.Valid) (h : generate options c p = .ok parser p') :
    parser.Generated options c ∧ parser.program = p' ∧ p.Leads p' := by
  obtain ⟨rfl, p₁, p₂, p₃, p₄, he, hresume, hedges, hpre, hpost⟩ := generate_cases h
  obtain ⟨hready, rfl, rfl, hsentinel, hl₁⟩ := Emitter.prepare_ok hp he
  have hty : ∀ slots ∈ parser.emitter.colors, slots.start.ty = .bytes :=
    fun slots hs => hready.start_ty hs
  obtain ⟨hg₂, hl₂⟩ := defineParser_gives hresume fun q f _ => resume_complete f "resume"
  obtain ⟨hl₃, hlen, hedge⟩ := defineAllEdges_ok (hready.mono hl₂.extends) hc
    (fun i span hi => by simpa using hi) (fun q hq => (hg₂.mono hq).checkTarget) hedges
  obtain ⟨hg₄, hl₄⟩ := defineParser_gives hpre fun q f _ => begins_complete hty f "pre"
  obtain ⟨hg₅, hl₅⟩ := defineParser_gives hpost fun q f _ => ends_complete hty f "post"
  have hl : p₂.Leads parser.program := (hl₃.trans hl₄).trans hl₅
  refine ⟨⟨rfl, rfl, hsentinel, hready.mono (hl₂.trans hl).extends, hlen, ?_,
    hg₂.mono hl.extends, hg₄.mono hl₅.extends, hg₅⟩, rfl, hl₁.trans (hl₂.trans hl)⟩
  intro i span edge hi hedge'
  have h := hedge i span edge hi hedge'
  rw [Nat.zero_add] at h
  exact h.mono (hl₄.trans hl₅).extends

end EventParser

end SpanTracking
