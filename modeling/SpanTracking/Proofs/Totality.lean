import SpanTracking.Proofs.Authors
import SpanTracking.Proofs.Partitions

set_option autoImplicit false

namespace SpanTracking

theorem EventParser.number_append {α : Type} (next : Nat) (xs ys : List (List α)) :
    number next (xs ++ ys) = number next xs ++ number (next + xs.flatten.length) ys := by
  induction xs generalizing next with
  | nil => rfl
  | cons members rest ih => simp [number, ih, Nat.add_assoc]

/-- An empty color is found by its number, the lowest one first. -/
theorem Coloring.ofColors_number {spans : List (List SpanDecl)} {k : Nat}
    (hk : spans.findIdx? List.isEmpty = some k) :
    ofColors spans.flatten (EventParser.number 0 spans) = .error (.emptyColor k) := by
  obtain ⟨hlt, hempty, hbefore⟩ := List.findIdx?_eq_some_iff_getElem.1 hk
  have hsplit : spans = spans.take k ++ [] :: spans.drop (k + 1) := by
    rw [← List.isEmpty_iff.1 hempty, ← List.drop_eq_getElem_cons hlt, List.take_append_drop]
  have hcolors : EventParser.number 0 spans = EventParser.number 0 (spans.take k) ++
      [] :: EventParser.number (0 + (spans.take k).flatten.length) (spans.drop (k + 1)) := by
    conv_lhs => rw [hsplit, EventParser.number_append]
    rfl
  have hlength : (EventParser.number 0 (spans.take k)).length = k := by
    simp [EventParser.number_length, hlt.le]
  -- The colors before the first empty one are numbered without a flaw.
  have hclean : Clean spans.flatten (EventParser.number 0 (spans.take k)) := by
    have hne : ∀ members ∈ spans.take k, members ≠ [] := by
      intro members hmembers
      obtain ⟨i, hi, rfl⟩ := List.getElem_of_mem hmembers
      rw [List.getElem_take]
      simpa using hbefore i (by simp at hi; omega)
    obtain ⟨hnonempty, hknown, hnodup⟩ := (EventParser.number_isPartition hne).toClean
    refine ⟨hnonempty, fun s hs => (hknown s hs).trans_le ?_, hnodup⟩
    conv_rhs => rw [← List.take_append_drop k spans, List.flatten_append, List.length_append]
    exact Nat.le_add_right _ _
  rw [hcolors]
  refine ofColors_eq_error.2 (.inl ⟨k, 0, .empty ?_, fun i j err hflaw => ?_⟩)
  · rw [List.getElem?_append_right hlength.le, hlength, Nat.sub_self]
    rfl
  · by_contra hearlier
    exact hclean.not_flaw (hflaw.of_append (by omega))

/-- A reason with a NUL in it is refused after everything else has been checked. -/
theorem Emitter.prepare_refuses_reason {options : SpanOptions} {c : Coloring} {p : Program}
    {shared : SharedFields} (hc : c.Valid) (hsentinel : options.errorSentinel ≠ 0)
    (hreason : '\x00' ∈ options.errorReason.toList)
    (hcallbacks : ∀ span ∈ c.spans, ∃ d, p.decl? span.callback = some d ∧
      d.sig = callbackSig .external)
    (hshared : SharedFields.resolve p.layout = .ok shared) (hfree : p.layout.Free 0) :
    ∃ p', prepare options c p = .error .interiorNul p' := by
  obtain ⟨plan, hplan⟩ := prepare_planned hc hsentinel hcallbacks hshared hfree
  have hintern : ∀ q, Program.intern options.errorReason q = .error .interiorNul q := by
    intro q
    rw [Program.intern, if_pos (by simpa using hreason)]
  exact ⟨_, hplan.trans (bind_of_error (bind_of_error (hintern _)))⟩

namespace EventParser

def Reserved (colors : List (List String)) (name : String) : Prop :=
  name = "resume" ∨ name = "pre" ∨ name = "post" ∨
    ∃ color names member, colors[color]? = some names ∧ member < names.length ∧
      (name = "start_" ++ spanName color member ∨ name = "end_" ++ spanName color member)

theorem reserved_iff {colors : List (List String)} {name : String} :
    Reserved colors name ↔ name ∈ functionNames ((namedSpans 0 colors).map Prod.fst) := by
  simp only [functionNames, List.mem_cons, List.mem_append, List.mem_flatMap, mem_edgeNames,
    mem_namedSpans, Nat.zero_add, List.not_mem_nil, or_false, Reserved]
  constructor
  · rintro (h | h | h | ⟨color, names, member, hcolor, hmember, h⟩)
    · exact .inl h
    · exact .inr (.inr (.inl h))
    · exact .inr (.inr (.inr h))
    · exact .inr (.inl ⟨_, ⟨color, names, member, hcolor, hmember, rfl⟩, h⟩)
  · rintro (h | ⟨_, ⟨color, names, member, hcolor, hmember, rfl⟩, h⟩ | h | h)
    · exact .inl h
    · exact .inr (.inr (.inr ⟨color, names, member, hcolor, hmember, h⟩))
    · exact .inr (.inl h)
    · exact .inr (.inr (.inl h))

structure Buildable (options : SpanOptions) (colors : List (List String)) : Prop where
  members : ∀ names ∈ colors, names ≠ []
  sentinel : options.errorSentinel ≠ 0
  reason : '\x00' ∉ options.errorReason.toList
  names : ∀ name ∈ colors.flatten, ¬ Reserved colors name

def complaint (options : SpanOptions) (colors : List (List String)) : Option BuildError :=
  match colors.findIdx? List.isEmpty with
  | some color => some (.emptyColor color)
  | none =>
    if options.errorSentinel = 0 then some .zeroSentinel
    else if '\x00' ∈ options.errorReason.toList then some .interiorNul
    else ((functionNames ((namedSpans 0 colors).map Prod.fst)).find? (· ∈ colors.flatten)).map
      .functionRedeclared

theorem namedMembers_snd (color member : Nat) (names : List String) :
    (namedMembers color member names).map Prod.snd = names := by
  induction names generalizing member with
  | nil => rfl
  | cons name rest ih => rw [namedMembers, List.map_cons, ih]

theorem namedSpans_snd (color : Nat) (colors : List (List String)) :
    (namedSpans color colors).map Prod.snd = colors.flatten := by
  induction colors generalizing color with
  | nil => rfl
  | cons names rest ih =>
    rw [namedSpans, List.map_append, namedMembers_snd, ih, List.flatten_cons]

section Announced

variable {options : SpanOptions} {colors : List (List String)} {spans : List (List SpanDecl)}
  {p : Program}

/-- The callbacks are all there is, and none of them is a parser function. -/
theorem Announced.taken (h : Announced colors spans p) (names : List String) :
    p.Taken colors.flatten names := by
  refine ⟨?_, fun d hd _ => ⟨(h.callbacks d hd).2.2, ?_⟩⟩
  · intro name hname
    rw [← namedSpans_snd 0 colors, ← h.declared.named_eq, List.map_map] at hname
    obtain ⟨span, hspan, rfl⟩ := List.mem_map.1 hname
    obtain ⟨d, hd⟩ := h.declared.declared span hspan
    exact ⟨d, List.mem_of_getElem? hd, by simp [Program.nameOf, hd]⟩
  · rw [(h.callbacks d hd).1]
    decide

theorem Announced.findIdx? (h : Announced colors spans p) :
    spans.findIdx? List.isEmpty = colors.findIdx? List.isEmpty := by
  have hempty : ∀ {α : Type} (lists : List (List α)),
      lists.findIdx? List.isEmpty = (lists.map List.length).findIdx? (· == 0) := by
    intro α lists
    rw [List.findIdx?_map]
    congr 1
    funext members
    cases members <;> rfl
  rw [hempty spans, hempty colors, h.lengths]

/-- A coloring is made of colors with members, and then the options and the names are checked. -/
theorem Announced.generate_error (h : Announced colors spans p) {err : BuildError} {c : Coloring}
    (hcoloring : Coloring.ofColors spans.flatten (number 0 spans) = .ok c)
    (hne : colors.findIdx? List.isEmpty = none) (hc : complaint options colors = some err) :
    ∃ p', generate options c p = .error err p' := by
  obtain ⟨hspans, -, hvalid⟩ := Coloring.ofColors_eq_ok.1 hcoloring
  have hexternal := hspans ▸ h.external
  have hresolve : SharedFields.resolve p.layout = .ok sharedFields := h.layout ▸ resolve_shared
  have hfree : p.layout.Free 0 := h.layout ▸ sharedLayout_free
  rw [generate_eq]
  simp only [complaint, hne] at hc
  by_cases hsentinel : options.errorSentinel = 0
  · rw [if_pos hsentinel] at hc
    obtain rfl := Option.some.inj hc
    refine ⟨p, bind_of_error ?_⟩
    simp [Emitter.prepare, hsentinel, bind_eq]
  rw [if_neg hsentinel] at hc
  by_cases hreason : '\x00' ∈ options.errorReason.toList
  · rw [if_pos hreason] at hc
    obtain rfl := Option.some.inj hc
    obtain ⟨p', hprepare⟩ :=
      Emitter.prepare_refuses_reason hvalid hsentinel hreason hexternal hresolve hfree
    exact ⟨p', bind_of_error hprepare⟩
  rw [if_neg hreason] at hc
  obtain ⟨name, hname, rfl⟩ := Option.map_eq_some_iff.1 hc
  obtain ⟨e, p₁, hprepare, hdecls, -⟩ :=
    Emitter.prepare_succeeds hvalid hsentinel hreason hexternal hresolve hfree
  obtain ⟨hready, rfl, -, -, -⟩ := Emitter.prepare_ok h.numbered hprepare
  have htaken := h.taken (functionNames (e.coloring.spans.map SpanDecl.name))
  have htaken₁ : p₁.Taken colors.flatten (functionNames (e.coloring.spans.map SpanDecl.name)) :=
    ⟨hdecls ▸ htaken.declared, hdecls ▸ htaken.foreign⟩
  have hdefines := defineFunctions_defines hready hvalid htaken₁
    (hspans ▸ h.names_nodup)
  rw [Program.Defines, hspans, h.names, hname] at hdefines
  obtain ⟨p', hfunctions⟩ := hdefines
  exact ⟨p', andThen hprepare (hspans ▸ hfunctions)⟩

end Announced

/-- What is declared in a parser is a callback or has been verified. -/
theorem Built.verified {parser : EventParser} {options : SpanOptions} {colors : List (List String)}
    (h : parser.Built options colors) {d : Decl} (hd : d ∈ parser.program.decls)
    (hname : d.name ∉ colors.flatten) : ∃ b, d.body = some b ∧ b.verify = .ok () := by
  have hreachable : parser.program.Reachable := sharedProgram_nil_reachable.leads h.leads
  obtain ⟨b, hb⟩ := Option.isSome_iff_exists.1 ((h.written d hd).resolve_left hname)
  obtain ⟨i, hi⟩ := List.getElem?_of_mem hd
  have hbody : parser.program.body? ⟨i⟩ = some b := Option.bind_eq_some_iff.2 ⟨d, hi, hb⟩
  exact ⟨b, hb, (hreachable.bodies ⟨i⟩ b hbody).2⟩

def functions (parser : EventParser) : List FuncId :=
  parser.resume :: parser.edges.flatMap (fun edge => [edge.1, edge.2]) ++ [parser.pre, parser.post]

def IsVerified (p : Program) (f : FuncId) (name : String) : Prop :=
  ∃ d b, p.decl? f = some d ∧ d.name = name ∧ d.sig = parserSig ∧ d.body = some b ∧
    b.verify = .ok ()

theorem isVerified_of_gives {p : Program} (hp : p.Reachable) {f : FuncId} {name : String}
    {least : Nat} {m : Meaning} (h : p.Gives f name least m) : IsVerified p f name := by
  obtain ⟨d, b, hd, hname, hsig, hb, -⟩ := h
  have hbody : p.body? f = some b := Option.bind_eq_some_iff.2 ⟨d, hd, hb⟩
  exact ⟨d, b, hd, hname, hsig, hb, (hp.bodies f b hbody).2⟩

theorem Built.functions_verified {parser : EventParser} {options : SpanOptions}
    {colors : List (List String)} (h : parser.Built options colors) :
    List.Forall₂ (IsVerified parser.program) parser.functions
      (functionNames ((namedSpans 0 colors).map Prod.fst)) := by
  have hreachable : parser.program.Reachable := sharedProgram_nil_reachable.leads h.leads
  have hg := h.generated
  have hnames : (namedSpans 0 colors).map Prod.fst =
      parser.emitter.coloring.spans.map SpanDecl.name := by
    rw [← h.spans, List.map_map]
    rfl
  have hedges : List.Forall₂ (fun edge name => List.Forall₂ (IsVerified parser.program)
      [edge.1, edge.2] (edgeNames name)) parser.edges
      (parser.emitter.coloring.spans.map SpanDecl.name) := by
    rw [List.forall₂_map_right_iff, List.forall₂_iff_get]
    refine ⟨hg.edges_length, fun i hi hi' => ?_⟩
    have hspan := List.getElem?_eq_getElem hi'
    obtain ⟨color, slots, hlocate, -⟩ := Emitter.locate_ok h.valid hg.ready.length hspan
    have hedge := hg.edge i _ _ hspan (List.getElem?_eq_getElem hi)
    exact .cons (isVerified_of_gives hreachable (hedge.opens color slots hlocate))
      (.cons (isVerified_of_gives hreachable (hedge.closes color slots hlocate)) .nil)
  rw [hnames]
  refine .cons (isVerified_of_gives hreachable hg.resume) (List.rel_append ?_ ?_)
  · exact List.rel_flatMap hedges fun _ _ hverified => hverified
  · exact .cons (isVerified_of_gives hreachable hg.pre)
      (.cons (isVerified_of_gives hreachable hg.post) .nil)

theorem ofColors_error {options : SpanOptions} {colors : List (List String)} {err : BuildError}
    (h : complaint options colors = some err) : ofColors options colors = .error err := by
  obtain ⟨spans, p, hspans, hassemble⟩ := assemble_announced options colors
  have hrun : ∃ p', assemble options colors {} = .error err p' := by
    rw [hassemble]
    cases hempty : colors.findIdx? List.isEmpty with
    | some color =>
      simp only [complaint, hempty] at h
      obtain rfl := Option.some.inj h
      have hcoloring := Coloring.ofColors_number (hspans.findIdx?.trans hempty)
      exact ⟨p, bind_of_error (by simp [Build.settle, hcoloring])⟩
    | none =>
      have hmembers : ∀ names ∈ colors, names ≠ [] := by simpa using hempty
      obtain ⟨c, hcoloring⟩ := hspans.exists_coloring hmembers
      obtain ⟨p', hgenerate⟩ := hspans.generate_error hcoloring hempty h
      exact ⟨p', andThen (Build.check_of_ok hcoloring) hgenerate⟩
  obtain ⟨p', hrun⟩ := hrun
  simp [ofColors, hrun]

theorem buildable_of_complaint {options : SpanOptions} {colors : List (List String)}
    (h : complaint options colors = none) : Buildable options colors := by
  unfold complaint at h
  split at h
  · simp at h
  rename_i hempty
  split at h
  · simp at h
  rename_i hsentinel
  split at h
  · simp at h
  rename_i hreason
  refine ⟨by simpa using hempty, hsentinel, hreason, ?_⟩
  intro name hname hreserved
  rw [Option.map_eq_none_iff, List.find?_eq_none] at h
  exact h name (reserved_iff.1 hreserved) (by simpa using hname)

theorem complaint_of_buildable {options : SpanOptions} {colors : List (List String)}
    (h : Buildable options colors) : complaint options colors = none := by
  have hempty : colors.findIdx? List.isEmpty = none := by simpa using h.members
  simp only [complaint, hempty, h.sentinel, h.reason, ↓reduceIte, Option.map_eq_none_iff,
    List.find?_eq_none]
  intro name hname htaken
  exact h.names name (by simpa using htaken) (reserved_iff.2 hname)

/-- A parser is built exactly from colors with members, a sentinel, a reason without NUL and names
that are not its own. It then has all its functions, and everything but the callbacks has been
verified; if something is wrong, it is known what is reported. -/
theorem build_total (options : SpanOptions) (colors : List (List String)) :
    ((∃ parser, ofColors options colors = .ok parser) ↔ Buildable options colors) ∧
      (∀ parser, ofColors options colors = .ok parser →
        List.Forall₂ (IsVerified parser.program) parser.functions
          (functionNames ((namedSpans 0 colors).map Prod.fst)) ∧
        ∀ d ∈ parser.program.decls, d.name ∉ colors.flatten →
          ∃ b, d.body = some b ∧ b.verify = .ok ()) ∧
      ∀ err, ofColors options colors = .error err ↔ complaint options colors = some err := by
  cases hc : complaint options colors with
  | none =>
    have hb := buildable_of_complaint hc
    obtain ⟨parser, hparser, hbuilt⟩ := ofColors_succeeds hb.sentinel hb.reason hb.members
      fun name hname hreserved => hb.names name hname (reserved_iff.2 hreserved)
    refine ⟨⟨fun _ => hb, fun _ => ⟨parser, hparser⟩⟩, ?_, by simp [hparser]⟩
    intro parser' hparser'
    obtain rfl := Except.ok.inj (hparser.symm.trans hparser')
    exact ⟨hbuilt.functions_verified, fun d hd hname => hbuilt.verified hd hname⟩
  | some err =>
    have herror := ofColors_error hc
    refine ⟨⟨?_, ?_⟩, by simp [herror], by simp [herror]⟩
    · rintro ⟨parser, hparser⟩
      simp [herror] at hparser
    · intro hb
      rw [complaint_of_buildable hb] at hc
      simp at hc

end EventParser

end SpanTracking
