import SpanTracking.Proofs.Generated
import SpanTracking.Proofs.Representation

set_option autoImplicit false

namespace SpanTracking

namespace EventParser

theorem spanName_inj {i j i' j' : Nat} (h : spanName i j = spanName i' j') : i = i' ∧ j = j' := by
  have hchars := congrArg String.toList h
  simp only [spanName, Nat.toString_eq_repr, String.toList_append, Nat.toList_repr,
    List.append_assoc, List.append_cancel_left_eq] at hchars
  obtain ⟨hcolor, hmember⟩ := digits_cons_inj (by decide) hchars
  exact ⟨hcolor, digits_inj.1 hmember⟩

def namedMembers (color member : Nat) : List String → List (String × String)
  | [] => []
  | name :: rest => (spanName color member, name) :: namedMembers color (member + 1) rest

def namedSpans (color : Nat) : List (List String) → List (String × String)
  | [] => []
  | names :: rest => namedMembers color 0 names ++ namedSpans (color + 1) rest

def edgeNames (span : String) : List String := ["start_" ++ span, "end_" ++ span]

def functionNames (spans : List String) : List String :=
  "resume" :: (spans.flatMap edgeNames ++ ["pre", "post"])

theorem mem_namedMembers {color member : Nat} {names : List String} {span : String} :
    span ∈ (namedMembers color member names).map Prod.fst ↔
      ∃ m < names.length, span = spanName color (member + m) := by
  induction names generalizing member with
  | nil => simp [namedMembers]
  | cons name rest ih =>
    simp only [namedMembers, List.map_cons, List.mem_cons, ih, List.length_cons]
    constructor
    · rintro (rfl | ⟨m, hm, rfl⟩)
      · exact ⟨0, by omega, rfl⟩
      · exact ⟨m + 1, by omega, by rw [Nat.add_assoc, Nat.add_comm 1]⟩
    · rintro ⟨m, hm, rfl⟩
      cases m with
      | zero => exact .inl rfl
      | succ m => exact .inr ⟨m, by omega, by rw [Nat.add_assoc, Nat.add_comm 1]⟩

theorem mem_namedSpans {color : Nat} {colors : List (List String)} {span : String} :
    span ∈ (namedSpans color colors).map Prod.fst ↔
      ∃ c names m, colors[c]? = some names ∧ m < names.length ∧ span = spanName (color + c) m := by
  induction colors generalizing color with
  | nil => simp [namedSpans]
  | cons names rest ih =>
    rw [namedSpans, List.map_append, List.mem_append, mem_namedMembers, ih]
    constructor
    · rintro (⟨m, hm, rfl⟩ | ⟨c, names', m, hc, hm, rfl⟩)
      · exact ⟨0, names, m, rfl, hm, by rw [Nat.zero_add]; rfl⟩
      · exact ⟨c + 1, names', m, hc, hm, by rw [Nat.add_assoc, Nat.add_comm 1]⟩
    · rintro ⟨c, names', m, hc, hm, rfl⟩
      cases c with
      | zero =>
        obtain rfl := Option.some.inj hc
        exact .inl ⟨m, hm, by rw [Nat.zero_add]; rfl⟩
      | succ c => exact .inr ⟨c, names', m, hc, hm, by rw [Nat.add_assoc, Nat.add_comm 1]⟩

theorem namedMembers_nodup (color member : Nat) (names : List String) :
    ((namedMembers color member names).map Prod.fst).Nodup := by
  induction names generalizing member with
  | nil => simp [namedMembers]
  | cons name rest ih =>
    rw [namedMembers, List.map_cons, List.nodup_cons]
    refine ⟨?_, ih (member + 1)⟩
    intro h
    obtain ⟨m, hm, hs⟩ := mem_namedMembers.1 h
    have := (spanName_inj hs).2
    omega

theorem namedSpans_nodup (color : Nat) (colors : List (List String)) :
    ((namedSpans color colors).map Prod.fst).Nodup := by
  induction colors generalizing color with
  | nil => simp [namedSpans]
  | cons names rest ih =>
    rw [namedSpans, List.map_append, List.nodup_append]
    refine ⟨namedMembers_nodup color 0 names, ih (color + 1), ?_⟩
    intro a ha b hb hab
    obtain ⟨m, -, hs⟩ := mem_namedMembers.1 ha
    obtain ⟨c, names', m', -, -, hs'⟩ := mem_namedSpans.1 hb
    have := (spanName_inj (hs.symm.trans (hab.trans hs'))).1
    omega

theorem mem_edgeNames {span name : String} :
    name ∈ edgeNames span ↔ name = "start_" ++ span ∨ name = "end_" ++ span := by
  simp [edgeNames]

theorem functionNames_nodup {spans : List String} (h : spans.Nodup) :
    (functionNames spans).Nodup := by
  have hstart : ∀ a b : String, "start_" ++ a ≠ "end_" ++ b := by
    intro a b hab
    simp [← String.toList_inj] at hab
  have hedges : (spans.flatMap edgeNames).Nodup := by
    rw [List.nodup_flatMap]
    refine ⟨fun span _ => by simp [edgeNames, hstart], ?_⟩
    refine h.imp ?_
    intro a b hab name ha hb
    rw [mem_edgeNames] at ha hb
    rcases ha with rfl | rfl <;> rcases hb with hb | hb
    · exact hab (by simpa using hb)
    · exact hstart _ _ hb
    · exact hstart _ _ hb.symm
    · exact hab (by simpa using hb)
  have hother : ∀ name ∈ ["resume", "pre", "post"], name ∉ spans.flatMap edgeNames := by
    intro name hname hm
    obtain ⟨span, -, hs⟩ := List.mem_flatMap.1 hm
    rw [mem_edgeNames] at hs
    simp only [List.mem_cons, List.not_mem_nil, or_false] at hname
    rcases hname with rfl | rfl | rfl <;> rcases hs with hs | hs <;>
      simpa using congrArg String.toList hs
  rw [functionNames, List.nodup_cons, List.nodup_append]
  refine ⟨?_, hedges, by simp, ?_⟩
  · rw [List.mem_append, not_or]
    exact ⟨hother _ (by simp), by simp⟩
  · intro a ha b hb hab
    subst hab
    exact hother a (List.mem_cons_of_mem _ hb) ha

end EventParser

/-- The program `p'` is `p` with functions called `names` behind the others, each with its body. -/
structure Program.Appended (p p' : Program) (names : List String) : Prop where
  layout : p'.layout = p.layout
  literals : p'.literals = p.literals
  decls : ∃ more, p'.decls = p.decls ++ more ∧ more.map Decl.name = names ∧
    ∀ d ∈ more, d.body.isSome

theorem Program.Appended.refl (p : Program) : p.Appended p [] :=
  ⟨rfl, rfl, [], by simp, rfl, by simp⟩

theorem Program.Appended.trans {p q r : Program} {xs ys : List String} (h : p.Appended q xs)
    (h' : q.Appended r ys) : p.Appended r (xs ++ ys) := by
  obtain ⟨more, hq, rfl, hbodies⟩ := h.decls
  obtain ⟨more', hr, rfl, hbodies'⟩ := h'.decls
  refine ⟨h'.layout.trans h.layout, h'.literals.trans h.literals, more ++ more',
    by rw [hr, hq, List.append_assoc], List.map_append, ?_⟩
  intro d hd
  rcases List.mem_append.1 hd with hd | hd
  · exact hbodies d hd
  · exact hbodies' d hd

structure Program.Taken (p : Program) (callbacks names : List String) : Prop where
  declared : ∀ name ∈ callbacks, ∃ d ∈ p.decls, d.name = name
  foreign : ∀ d ∈ p.decls, d.name ∈ names → d.name ∈ callbacks ∧ d.sig ≠ parserSig

theorem Program.Taken.append {p p' : Program} {callbacks xs ys : List String}
    (h : p.Taken callbacks (xs ++ ys)) (happ : p.Appended p' xs) (hn : (xs ++ ys).Nodup) :
    p'.Taken callbacks ys := by
  obtain ⟨more, hp', rfl, -⟩ := happ.decls
  refine ⟨?_, ?_⟩
  · intro name hname
    obtain ⟨d, hd, hdn⟩ := h.declared name hname
    exact ⟨d, by rw [hp']; exact List.mem_append_left _ hd, hdn⟩
  · intro d hd hy
    rw [hp'] at hd
    rcases List.mem_append.1 hd with hd | hd
    · exact h.foreign d hd (List.mem_append_right _ hy)
    · exact absurd rfl
        ((List.nodup_append.1 hn).2.2 d.name (List.mem_map_of_mem hd) d.name hy)

theorem Program.Taken.left {p : Program} {callbacks xs ys : List String}
    (h : p.Taken callbacks (xs ++ ys)) : p.Taken callbacks xs :=
  ⟨h.declared, fun d hd hx => h.foreign d hd (List.mem_append_left _ hx)⟩

/-- The step defines functions called `names`, with a proper result, or is refused at the first of
them that is the name of a callback. -/
def Program.Defines {α : Type} (callbacks : List String) (step : Build Program α)
    (names : List String) (proper : α → Prop) (p : Program) : Prop :=
  match names.find? (· ∈ callbacks) with
  | none => ∃ a p', step p = .ok a p' ∧ p.Appended p' names ∧ proper a
  | some name => ∃ p', step p = .error (.functionRedeclared name) p'

section Defines

variable {α β : Type} {callbacks : List String} {p : Program}

theorem Program.defines_pure {proper : α → Prop} {a : α} (h : proper a) :
    Program.Defines callbacks (pure a) [] proper p :=
  ⟨a, p, rfl, .refl p, h⟩

theorem Program.Defines.bind {x : Build Program α} {f : α → Build Program β} {xs ys : List String}
    {proper : α → Prop} {proper' : β → Prop} (hx : Program.Defines callbacks x xs proper p)
    (htaken : p.Taken callbacks (xs ++ ys)) (hn : (xs ++ ys).Nodup)
    (hf : ∀ a p', x p = .ok a p' → p'.Taken callbacks ys → proper a →
      Program.Defines callbacks (f a) ys proper' p') :
    Program.Defines callbacks (x >>= f) (xs ++ ys) proper' p := by
  unfold Program.Defines at hx ⊢
  rw [List.find?_append]
  cases hxs : xs.find? (· ∈ callbacks) with
  | some name =>
    simp only [hxs] at hx
    obtain ⟨p', hx⟩ := hx
    exact ⟨p', bind_of_error hx⟩
  | none =>
    simp only [hxs] at hx
    obtain ⟨a, p₁, hx, happ, ha⟩ := hx
    have h := hf a p₁ hx (htaken.append happ hn) ha
    unfold Program.Defines at h
    rw [Option.none_or]
    cases hys : ys.find? (· ∈ callbacks) with
    | some name =>
      simp only [hys] at h
      obtain ⟨p', h⟩ := h
      exact ⟨p', andThen hx h⟩
    | none =>
      simp only [hys] at h
      obtain ⟨b, p', h, happ', hb⟩ := h
      exact ⟨b, p', andThen hx h, happ.trans happ', hb⟩

theorem Program.Defines.finish {x : Build Program α} {f : α → Build Program β}
    {names : List String} {proper : α → Prop} {proper' : β → Prop}
    (hx : Program.Defines callbacks x names proper p)
    (hf : ∀ a q, proper a → ∃ b, f a q = .ok b q ∧ proper' b) :
    Program.Defines callbacks (x >>= f) names proper' p := by
  unfold Program.Defines at hx ⊢
  cases hnames : names.find? (· ∈ callbacks) with
  | some name =>
    simp only [hnames] at hx
    obtain ⟨p', hx⟩ := hx
    exact ⟨p', bind_of_error hx⟩
  | none =>
    simp only [hnames] at hx
    obtain ⟨a, p', hx, happ, ha⟩ := hx
    obtain ⟨b, hb, hproper⟩ := hf a p' ha
    exact ⟨b, p', andThen hx hb, happ, hproper⟩

end Defines

theorem Program.decl?_of_prefix {p p' : Program} (h : p.decls <+: p'.decls) {f : FuncId} {d : Decl}
    (hd : p.decl? f = some d) : p'.decl? f = some d := by
  obtain ⟨more, hmore⟩ := h
  have hlt := (List.getElem?_eq_some_iff.1 hd).1
  rw [Program.decl?, ← hmore, List.getElem?_append_left hlt]
  exact hd

namespace EventParser

theorem defineParser_succeeds (name : String) (code : Program → BlockId → Build Body Unit)
    {p : Program} (hn : ∀ d ∈ p.decls, d.name ≠ name) {least : Nat} {m : Meaning}
    (hcode : ∀ q f, p.Extends q → ∃ body,
      code q ⟨f, 0⟩ (Body.start f name parserSig parserParams) = .ok () body ∧
        (Body.start f name parserSig parserParams).Complete body least m) :
    ∃ f p', defineParser name code p = .ok f p' ∧ p.Appended p' [name] := by
  let q : Program := { p with decls := p.decls ++ [{ name, sig := parserSig }] }
  have hdeclare : Program.declareParser name p = .ok ⟨p.decls.length⟩ q := by
    have hfind : p.decls.findIdx? (fun d => decide (d.name = name)) = none := by
      simpa using hn
    simp [Program.declareParser, Program.declare, hfind, q]
  have hdecl : q.decl? ⟨p.decls.length⟩ = some { name, sig := parserSig } := by
    simp [Program.decl?, q]
  have hextends : p.Extends q := (Program.Step.declare hdeclare).extends
  have hcheck : Build.check (fun r => r.parserBody ⟨p.decls.length⟩) q =
      .ok (Body.start ⟨p.decls.length⟩ name parserSig parserParams) q := by
    simp [Program.parserBody, hdecl]
  obtain ⟨body, hrun, hc⟩ := hcode q ⟨p.decls.length⟩ hextends
  have hid : body.id = ⟨p.decls.length⟩ := hc.head.id
  have hsig : body.sig = parserSig := hc.head.sig
  have hname : body.name = name := hc.head.name
  have hdefine : Program.define body q =
      .ok () { p with decls := p.decls ++ [{ name, sig := parserSig, body := some body }] } := by
    simp [Program.define, hc.verified, hid, hdecl, hsig, hname, q]
  have hget : (get : Build Program Program) q = .ok q q := rfl
  refine ⟨⟨p.decls.length⟩,
    { p with decls := p.decls ++ [{ name, sig := parserSig, body := some body }] }, ?_, rfl, rfl, _,
    rfl, rfl, by simp⟩
  refine andThen hdeclare (andThen hget (andThen hcheck ?_))
  have hentry : (Body.start ⟨p.decls.length⟩ name parserSig parserParams).entry =
    ⟨⟨p.decls.length⟩, 0⟩ := rfl
  rw [hentry, hrun]
  exact bind_of_ok hdefine

theorem defineParser_refused {name : String} {code : Program → BlockId → Build Body Unit}
    {p : Program} (hd : ∃ d ∈ p.decls, d.name = name)
    (hsig : ∀ d ∈ p.decls, d.name = name → d.sig ≠ parserSig) :
    defineParser name code p = .error (.functionRedeclared name) p := by
  have hdeclare : Program.declareParser name p = .error (.functionRedeclared name) p := by
    unfold Program.declareParser Program.declare
    cases hi : p.decls.findIdx? (fun d => d.name = name) with
    | none =>
      obtain ⟨d, hmem, hname⟩ := hd
      exact absurd hname (by simpa using List.findIdx?_eq_none_iff.1 hi d hmem)
    | some i =>
      obtain ⟨hlt, hname, -⟩ := List.findIdx?_eq_some_iff_getElem.1 hi
      have hne := hsig p.decls[i] (List.getElem_mem hlt) (by simpa using hname)
      simp [List.getElem?_eq_getElem hlt, hne]
  exact bind_of_error hdeclare

theorem defineParser_defines {callbacks : List String} (name : String)
    (code : Program → BlockId → Build Body Unit) {p : Program} (htaken : p.Taken callbacks [name])
    {least : Nat} {m : Meaning} (hcode : ∀ q f, p.Extends q → ∃ body,
      code q ⟨f, 0⟩ (Body.start f name parserSig parserParams) = .ok () body ∧
        (Body.start f name parserSig parserParams).Complete body least m) :
    Program.Defines callbacks (defineParser name code) [name] (fun _ => True) p := by
  by_cases hname : name ∈ callbacks
  · have hfind : [name].find? (· ∈ callbacks) = some name := by simp [hname]
    rw [Program.Defines, hfind]
    refine ⟨p, defineParser_refused (htaken.declared name hname) ?_⟩
    rintro d hd rfl
    exact (htaken.foreign d hd (List.mem_singleton_self _)).2
  · have hfind : [name].find? (· ∈ callbacks) = none := by simp [hname]
    rw [Program.Defines, hfind]
    have hfree : ∀ d ∈ p.decls, d.name ≠ name := by
      rintro d hd rfl
      exact hname (htaken.foreign d hd (List.mem_singleton_self _)).1
    obtain ⟨f, p', hdefine, happ⟩ := defineParser_succeeds name code hfree hcode
    exact ⟨f, p', hdefine, happ, trivial⟩

theorem defineEdges_defines {callbacks : List String} {e : Emitter} {resume : FuncId} {i : Nat}
    {span : SpanDecl} {p : Program} (he : e.Ready p) (hc : e.coloring.Valid)
    (hs : e.coloring.spans[i]? = some span)
    (ht : ∀ q, p.Extends q → Resumption.checkTarget q resume = .ok ())
    (htaken : p.Taken callbacks (edgeNames span.name)) (hn : (edgeNames span.name).Nodup) :
    Program.Defines callbacks (defineEdges e resume ⟨i⟩ span) (edgeNames span.name)
      (fun _ => True) p := by
  obtain ⟨color, slots, hloc, -, hslots⟩ := Emitter.locate_ok hc he.length hs
  have hty := he.start_ty (List.mem_of_getElem? hslots)
  change p.Taken callbacks (["start_" ++ span.name] ++ ["end_" ++ span.name]) at htaken
  have hopens := defineParser_defines ("start_" ++ span.name) (fun _ => opening e ⟨i⟩) htaken.left
    fun _ f _ => opens_complete hloc f ("start_" ++ span.name)
  refine hopens.bind htaken hn fun opens p₁ h₁ htaken₁ _ => ?_
  have hl₁ := (defineParser_gives h₁ fun _ f _ =>
    opens_complete hloc f ("start_" ++ span.name)).2
  have hcloses := defineParser_defines ("end_" ++ span.name) (closing e resume ⟨i⟩) htaken₁
    fun q f hq => closes_complete hloc hty (ht q (hl₁.extends.trans hq)) f ("end_" ++ span.name)
  exact hcloses.finish fun _ _ _ => ⟨_, rfl, trivial⟩

theorem defineAllEdges_defines {callbacks : List String} {e : Emitter} {resume : FuncId}
    (index : Nat) {spans : List SpanDecl} {p : Program} (he : e.Ready p) (hc : e.coloring.Valid)
    (hs : ∀ i span, spans[i]? = some span → e.coloring.spans[index + i]? = some span)
    (ht : ∀ q, p.Extends q → Resumption.checkTarget q resume = .ok ())
    (htaken : p.Taken callbacks ((spans.map SpanDecl.name).flatMap edgeNames))
    (hn : ((spans.map SpanDecl.name).flatMap edgeNames).Nodup) :
    Program.Defines callbacks (defineAllEdges e resume index spans)
      ((spans.map SpanDecl.name).flatMap edgeNames) (fun _ => True) p := by
  induction spans generalizing index p with
  | nil => exact Program.defines_pure trivial
  | cons span rest ih =>
    simp only [List.map_cons, List.flatMap_cons] at htaken hn ⊢
    have hedge := defineEdges_defines he hc (hs 0 span rfl) ht htaken.left
      (List.nodup_append.1 hn).1
    refine hedge.bind htaken hn fun edge p₁ h₁ htaken₁ _ => ?_
    have hl₁ := (defineEdges_ok he hc (hs 0 span rfl) ht h₁).2
    have hs' : ∀ i span, rest[i]? = some span → e.coloring.spans[index + 1 + i]? = some span := by
      intro i span' hi
      rw [Nat.add_assoc, Nat.add_comm 1]
      exact hs (i + 1) span' hi
    have hrest := ih (index + 1) (he.mono hl₁.extends) hs'
      (fun q hq => ht q (hl₁.extends.trans hq)) htaken₁ (List.nodup_append.1 hn).2.1
    exact hrest.finish fun _ _ _ => ⟨_, rfl, trivial⟩

end EventParser

/-- The names of fields of colors from number `color` on are not taken. -/
def Layout.Free (l : Layout) (color : Nat) : Prop :=
  ∀ f ∈ l.fields, ∀ i, color ≤ i → f.name ≠ ColorSlots.startName i ∧
    f.name ≠ ColorSlots.slotName i

theorem Layout.declare_fresh {l : Layout} {name : String} (h : ∀ f ∈ l.fields, f.name ≠ name)
    (ty : Ty) : Layout.declare name ty l =
      .ok ⟨⟨l.fields.length⟩, name, ty⟩ ⟨l.fields ++ [⟨⟨l.fields.length⟩, name, ty⟩]⟩ := by
  have hfind : l.lookup name = none := by
    simpa [Layout.lookup, List.find?_eq_none] using h
  simp [Layout.declare, hfind]

theorem Program.onLayout_of_ok {α : Type} {step : Build Layout α} {p : Program} {a : α} {l : Layout}
    (h : step p.layout = .ok a l) : onLayout step p = .ok a { p with layout := l } := by
  simp [onLayout, h]

theorem Layout.Free.append {l : Layout} {color : Nat} (h : l.Free color) {fields : List Field}
    (hf : ∀ f ∈ fields, f.name = ColorSlots.startName color ∨
      f.name = ColorSlots.slotName color) :
    Layout.Free ⟨l.fields ++ fields⟩ (color + 1) := by
  have hne : ∀ {x y : Place}, x ≠ y → x.name ≠ y.name := fun hxy hn => hxy (Place.name_inj.1 hn)
  intro f hmem i hi
  rcases List.mem_append.1 hmem with hmem | hmem
  · exact h f hmem i (by omega)
  · have hci : color ≠ i := by omega
    rcases hf f hmem with hn | hn
    · rw [hn]
      exact ⟨hne (x := .start color) (y := .start i) (by simpa using hci),
        hne (x := .start color) (y := .slot i) (by simp)⟩
    · rw [hn]
      exact ⟨hne (x := .slot color) (y := .start i) (by simp),
        hne (x := .slot color) (y := .slot i) (by simpa using hci)⟩

def ColorSlots.fields (slots : ColorSlots) : List Field := slots.start :: slots.slot?.toList

namespace Coloring

variable {c : Coloring} {p : Program} {sig : Signature}

theorem callee_succeeds
    (hsig : ∀ span ∈ c.spans, ∃ d, p.decl? span.callback = some d ∧ d.sig = sig) {s : SpanId}
    (hs : s.index < c.spans.length) :
    ∃ span d, c.callee p s = .ok (span, d) ∧ d.sig = sig := by
  obtain ⟨d, hd, hds⟩ := hsig _ (List.getElem_mem hs)
  have hspan : c.span? s = some c.spans[s.index] := List.getElem?_eq_getElem hs
  exact ⟨c.spans[s.index], d, by simp [callee, hspan, hd], hds⟩

theorem sharedCallbacks_succeeds
    (hsig : ∀ span ∈ c.spans, ∃ d, p.decl? span.callback = some d ∧ d.sig = sig) (color : Nat)
    (first : String) {members : List SpanId} (hm : ∀ s ∈ members, s.index < c.spans.length) :
    ∃ others, c.sharedCallbacks p color first sig members = .ok others := by
  induction members with
  | nil => exact ⟨[], rfl⟩
  | cons s rest ih =>
    simp only [List.mem_cons, forall_eq_or_imp] at hm
    obtain ⟨span, d, hcallee, hds⟩ := callee_succeeds hsig hm.1
    obtain ⟨others, hothers⟩ := ih hm.2
    exact ⟨span.callback :: others, by
      simp [sharedCallbacks, hcallee, hds, hothers, bind, Except.bind, pure, Except.pure]⟩

theorem planColor_succeeds
    (hsig : ∀ span ∈ c.spans, ∃ d, p.decl? span.callback = some d ∧ d.sig = sig) {color : Nat}
    (hfree : p.layout.Free color) {members : List SpanId} (hne : members ≠ [])
    (hm : ∀ s ∈ members, s.index < c.spans.length) :
    ∃ slots, c.planColor color members p =
      .ok slots { p with layout := ⟨p.layout.fields ++ slots.fields⟩ } ∧
      ∀ f ∈ slots.fields, f.name = ColorSlots.startName color ∨
        f.name = ColorSlots.slotName color := by
  match members, hne with
  | s :: rest, _ =>
    simp only [List.mem_cons, forall_eq_or_imp] at hm
    obtain ⟨span, d, hcallee, rfl⟩ := callee_succeeds hsig hm.1
    obtain ⟨others, hothers⟩ := sharedCallbacks_succeeds hsig color span.name hm.2
    let start : Field := ⟨⟨p.layout.fields.length⟩, ColorSlots.startName color, .bytes⟩
    have hstart : Program.onLayout (Layout.declare (ColorSlots.startName color) .bytes) p =
        .ok start { p with layout := ⟨p.layout.fields ++ [start]⟩ } :=
      Program.onLayout_of_ok
        (Layout.declare_fresh (fun f hf => (hfree f hf color (Nat.le_refl _)).1) .bytes)
    cases rest with
    | nil =>
      refine ⟨⟨[s], (span.callback :: others).eraseDups, d.sig, start, none,
        .direct span.callback⟩, ?_, ?_⟩
      · exact andThen (Build.check_of_ok hcallee) (andThen (Build.check_of_ok hothers)
          (andThen hstart rfl))
      · simp [ColorSlots.fields, start]
    | cons r rest =>
      let slot : Field :=
        ⟨⟨(p.layout.fields ++ [start]).length⟩, ColorSlots.slotName color, d.sig.ptr⟩
      have hslot : Program.onLayout (Layout.declare (ColorSlots.slotName color) d.sig.ptr)
          { p with layout := ⟨p.layout.fields ++ [start]⟩ } =
            .ok slot { p with layout := ⟨p.layout.fields ++ [start] ++ [slot]⟩ } := by
        refine Program.onLayout_of_ok (Layout.declare_fresh ?_ d.sig.ptr)
        intro f hf
        rcases List.mem_append.1 hf with hf | hf
        · exact (hfree f hf color (Nat.le_refl _)).2
        · rw [List.mem_singleton.1 hf]
          intro hn
          simpa using (Place.name_inj (x := .start color) (y := .slot color)).1 hn
      refine ⟨⟨s :: r :: rest, (span.callback :: others).eraseDups, d.sig, start, some slot,
        .indirect slot (span.callback :: others).eraseDups⟩, ?_, ?_⟩
      · refine andThen (Build.check_of_ok hcallee) (andThen (Build.check_of_ok hothers)
          (andThen hstart (andThen hslot ?_)))
        simp [ColorSlots.fields]
      · simp [ColorSlots.fields, start, slot]

theorem planFrom_succeeds
    (hsig : ∀ span ∈ c.spans, ∃ d, p.decl? span.callback = some d ∧ d.sig = sig) {color : Nat}
    (hfree : p.layout.Free color) {colors : List (List SpanId)}
    (hne : ∀ members ∈ colors, members ≠ [])
    (hm : ∀ members ∈ colors, ∀ s ∈ members, s.index < c.spans.length) :
    ∃ plan, c.planFrom color colors p =
      .ok plan { p with layout := ⟨p.layout.fields ++ plan.flatMap ColorSlots.fields⟩ } := by
  induction colors generalizing color p with
  | nil => exact ⟨[], by simp [planFrom]⟩
  | cons members rest ih =>
    simp only [List.mem_cons, forall_eq_or_imp] at hne hm
    obtain ⟨slots, hslots, hnames⟩ := planColor_succeeds hsig hfree hne.1 hm.1
    obtain ⟨plan, hplan⟩ := ih (p := { p with layout := ⟨p.layout.fields ++ slots.fields⟩ }) hsig
      (hfree.append hnames) hne.2 hm.2
    refine ⟨slots :: plan, andThen hslots (andThen hplan ?_)⟩
    simp [List.append_assoc]

end Coloring

theorem Program.intern_succeeds {text : String} (h : '\x00' ∉ text.toList) (p : Program) :
    ∃ t p', intern text p = .ok t p' ∧ p'.layout = p.layout ∧ p'.decls = p.decls := by
  obtain ⟨t, p', hintern⟩ := intern_ok_iff.2 h
  obtain ⟨-, rfl | rfl⟩ := intern_cases hintern
  · exact ⟨t, _, hintern, rfl, rfl⟩
  · exact ⟨t, _, hintern, rfl, rfl⟩

theorem Emitter.prepare_planned {options : SpanOptions} {c : Coloring} {p : Program}
    {shared : SharedFields} (hc : c.Valid) (hsentinel : options.errorSentinel ≠ 0)
    (hcallbacks : ∀ span ∈ c.spans, ∃ d, p.decl? span.callback = some d ∧
      d.sig = callbackSig .external)
    (hshared : SharedFields.resolve p.layout = .ok shared) (hfree : p.layout.Free 0) :
    ∃ plan, prepare options c p = (ErrorRecord.prepare shared options.errorReason >>= fun record =>
      pure ⟨c, plan, record, shared.current, options⟩)
        { p with layout := ⟨p.layout.fields ++ plan.flatMap ColorSlots.fields⟩ } := by
  have hcheck : c.spans.forM (checkCallback p) = .ok () := by
    rw [forM_eq_ok]
    intro span hspan
    obtain ⟨d, hd, hs⟩ := hcallbacks span hspan
    simp [checkCallback, hd, hs, parserSig, callbackSig]
  obtain ⟨plan, hplan⟩ := Coloring.planFrom_succeeds hcallbacks hfree hc.nonempty
    fun members hm s hs => hc.known s (List.mem_flatten.2 ⟨members, hm, hs⟩)
  refine ⟨plan, ?_⟩
  simp only [prepare, hsentinel, ↓reduceIte]
  exact andThen (Build.check_of_ok hcheck) (andThen (Build.check_of_ok hshared) (bind_of_ok hplan))

/-- Preparing an emitter adds the fields of its colors behind the others. -/
theorem Emitter.prepare_succeeds {options : SpanOptions} {c : Coloring} {p : Program}
    {shared : SharedFields} (hc : c.Valid) (hsentinel : options.errorSentinel ≠ 0)
    (hreason : '\x00' ∉ options.errorReason.toList)
    (hcallbacks : ∀ span ∈ c.spans, ∃ d, p.decl? span.callback = some d ∧
      d.sig = callbackSig .external)
    (hshared : SharedFields.resolve p.layout = .ok shared) (hfree : p.layout.Free 0) :
    ∃ e p', prepare options c p = .ok e p' ∧ p'.decls = p.decls ∧
      p'.layout.fields = p.layout.fields ++ e.colors.flatMap ColorSlots.fields ∧
      e.current = shared.current ∧ e.record.error = shared.error ∧
      e.record.reason = shared.reason ∧ e.record.errorPos = shared.errorPos := by
  obtain ⟨plan, hplan⟩ := prepare_planned hc hsentinel hcallbacks hshared hfree
  obtain ⟨message, p', hmessage, hlayout, hdecls⟩ := Program.intern_succeeds hreason
    { p with layout := ⟨p.layout.fields ++ plan.flatMap ColorSlots.fields⟩ }
  refine ⟨⟨c, plan, ⟨shared.error, shared.reason, shared.errorPos, message⟩, shared.current,
    options⟩, p', ?_, hdecls, by rw [hlayout], rfl, rfl, rfl, rfl⟩
  exact hplan.trans (andThen (bind_of_ok hmessage) rfl)

namespace EventParser

def defineFunctions (e : Emitter) (spans : List SpanDecl) : Build Program EventParser := do
  let resume ← defineParser "resume" fun _ => idle
  let edges ← defineAllEdges e resume 0 spans
  let pre ← defineParser "pre" fun _ => beginning e
  let post ← defineParser "post" fun _ => ending e
  return ⟨← get, e, resume, edges, pre, post⟩

theorem generate_eq (options : SpanOptions) (c : Coloring) :
    generate options c = Emitter.prepare options c >>= fun e => defineFunctions e c.spans := rfl

theorem defineFunctions_defines {callbacks : List String} {e : Emitter} {p : Program}
    (he : e.Ready p) (hc : e.coloring.Valid)
    (htaken : p.Taken callbacks (functionNames (e.coloring.spans.map SpanDecl.name)))
    (hn : (functionNames (e.coloring.spans.map SpanDecl.name)).Nodup) :
    Program.Defines callbacks (defineFunctions e e.coloring.spans)
      (functionNames (e.coloring.spans.map SpanDecl.name))
      (fun parser => parser.emitter = e) p := by
  have hty : ∀ slots ∈ e.colors, slots.start.ty = .bytes := fun slots hs => he.start_ty hs
  change p.Taken callbacks (["resume"] ++ ((e.coloring.spans.map SpanDecl.name).flatMap edgeNames ++
    (["pre"] ++ ["post"]))) at htaken
  change (["resume"] ++ ((e.coloring.spans.map SpanDecl.name).flatMap edgeNames ++
    (["pre"] ++ ["post"]))).Nodup at hn
  have hn₁ := (List.nodup_append.1 hn).2.1
  have hresume := defineParser_defines "resume" (fun _ => idle) htaken.left
    fun _ f _ => resume_complete f "resume"
  refine hresume.bind htaken hn fun resume p₁ h₁ htaken₁ _ => ?_
  obtain ⟨hgives, hl₁⟩ := defineParser_gives h₁ fun _ f _ => resume_complete f "resume"
  have hedges := defineAllEdges_defines 0 (he.mono hl₁.extends) hc
    (fun i span hi => by rwa [Nat.zero_add]) (fun q hq => (hgives.mono hq).checkTarget)
    htaken₁.left (List.nodup_append.1 hn₁).1
  refine hedges.bind htaken₁ hn₁ fun edges p₂ _ htaken₂ _ => ?_
  have hpre := defineParser_defines "pre" (fun _ => beginning e) htaken₂.left
    fun _ f _ => begins_complete hty f "pre"
  refine hpre.bind htaken₂ (List.nodup_append.1 hn₁).2.1 fun pre p₃ _ htaken₃ _ => ?_
  have hpost := defineParser_defines "post" (fun _ => ending e) htaken₃
    fun _ f _ => ends_complete hty f "post"
  exact hpost.finish fun _ q _ => ⟨_, rfl, rfl⟩

/-- A parser can be generated wherever its callbacks are declared and its names are not taken. -/
theorem generate_succeeds {options : SpanOptions} {c : Coloring} {p : Program}
    {shared : SharedFields} (hnum : p.layout.Numbered) (hc : c.Valid)
    (hsentinel : options.errorSentinel ≠ 0) (hreason : '\x00' ∉ options.errorReason.toList)
    (hcallbacks : ∀ span ∈ c.spans, ∃ d, p.decl? span.callback = some d ∧
      d.sig = callbackSig .external)
    (hshared : SharedFields.resolve p.layout = .ok shared) (hfree : p.layout.Free 0)
    (hp : ∀ d ∈ p.decls, d.name ∉ functionNames (c.spans.map SpanDecl.name))
    (hn : (functionNames (c.spans.map SpanDecl.name)).Nodup) :
    ∃ parser p' more, generate options c p = .ok parser p' ∧ p'.decls = p.decls ++ more ∧
      (∀ d ∈ more, d.body.isSome) ∧
      p'.layout.fields =
        p.layout.fields ++ parser.emitter.colors.flatMap ColorSlots.fields ∧
      parser.emitter.current = shared.current ∧ parser.emitter.record.error = shared.error ∧
      parser.emitter.record.reason = shared.reason ∧
      parser.emitter.record.errorPos = shared.errorPos := by
  obtain ⟨e, p₁, hprepare, hdecls, hfields, hcurrent, herror, hreasonField, hpos⟩ :=
    Emitter.prepare_succeeds hc hsentinel hreason hcallbacks hshared hfree
  obtain ⟨hready, rfl, -, -, -⟩ := Emitter.prepare_ok hnum hprepare
  have htaken : p₁.Taken [] (functionNames (e.coloring.spans.map SpanDecl.name)) :=
    ⟨by simp, fun d hd hname => absurd hname (hp d (hdecls ▸ hd))⟩
  have hdefines := defineFunctions_defines hready hc htaken hn
  have hfind : (functionNames (e.coloring.spans.map SpanDecl.name)).find?
      (· ∈ ([] : List String)) = none := by simp
  rw [Program.Defines, hfind] at hdefines
  obtain ⟨parser, p', hfunctions, happ, rfl⟩ := hdefines
  obtain ⟨more, hmore, -, hbodies⟩ := happ.decls
  refine ⟨parser, p', more, ?_, by rw [hmore, hdecls], hbodies, by rw [happ.layout, hfields],
    hcurrent, herror, hreasonField, hpos⟩
  rw [generate_eq]
  exact andThen hprepare hfunctions

def OnlyCallbacks (p : Program) (allowed : List String) : Prop :=
  ∀ d ∈ p.decls, d.sig = callbackSig .external ∧ d.body = none ∧ d.name ∈ allowed

theorem declareCallback_succeeds {p : Program} {allowed : List String}
    (hp : OnlyCallbacks p allowed) {name : String} (hname : name ∈ allowed) :
    ∃ f p', Program.declareCallback name .external p = .ok f p' ∧ OnlyCallbacks p' allowed ∧
      p'.layout = p.layout := by
  unfold Program.declareCallback Program.declare
  cases hi : p.decls.findIdx? (fun d => d.name = name) with
  | none =>
    refine ⟨_, _, rfl, ?_, rfl⟩
    intro d hd
    rcases List.mem_append.1 hd with hd | hd
    · exact hp d hd
    · rw [List.mem_singleton.1 hd]
      exact ⟨rfl, rfl, hname⟩
  | some i =>
    obtain ⟨hlt, -, -⟩ := List.findIdx?_eq_some_iff_getElem.1 hi
    have hsig : p.decls[i]?.map Decl.sig = some (callbackSig .external) := by
      rw [List.getElem?_eq_getElem hlt]
      exact congrArg some (hp _ (List.getElem_mem hlt)).1
    simp only [hsig, ↓reduceIte]
    exact ⟨_, _, rfl, hp, rfl⟩

theorem nameOf_mono {p p' : Program} (h : p.Extends p') {f : FuncId} {d : Decl}
    (hd : p.decl? f = some d) : p'.nameOf f = p.nameOf f := by
  obtain ⟨d', hd', hn, -, -⟩ := h.decls f d hd
  simp [Program.nameOf, hd, hd', hn]

structure Declared (p : Program) (spans : List SpanDecl) (named : List (String × String)) :
    Prop where
  named_eq : spans.map (fun s => (s.name, p.nameOf s.callback)) = named
  declared : ∀ s ∈ spans, ∃ d, p.decl? s.callback = some d

theorem Declared.mono {p p' : Program} {spans : List SpanDecl} {named : List (String × String)}
    (h : Declared p spans named) (hp : p.Extends p') : Declared p' spans named := by
  refine ⟨?_, ?_⟩
  · rw [← h.named_eq]
    refine List.map_congr_left fun s hs => ?_
    obtain ⟨d, hd⟩ := h.declared s hs
    rw [nameOf_mono hp hd]
  · intro s hs
    obtain ⟨d, hd⟩ := h.declared s hs
    obtain ⟨d', hd', -⟩ := hp.decls _ d hd
    exact ⟨d', hd'⟩

theorem Declared.append {p : Program} {xs ys : List SpanDecl} {as bs : List (String × String)}
    (h : Declared p xs as) (h' : Declared p ys bs) : Declared p (xs ++ ys) (as ++ bs) := by
  refine ⟨by rw [List.map_append, h.named_eq, h'.named_eq], ?_⟩
  intro s hs
  rcases List.mem_append.1 hs with hs | hs
  · exact h.declared s hs
  · exact h'.declared s hs

theorem declareMembers_succeeds {p : Program} {allowed : List String}
    (hp : OnlyCallbacks p allowed) (color member : Nat) {names : List String}
    (hnames : ∀ name ∈ names, name ∈ allowed) :
    ∃ spans p', declareMembers color member names p = .ok spans p' ∧ OnlyCallbacks p' allowed ∧
      p'.layout = p.layout ∧ p.Leads p' ∧ spans.length = names.length ∧
      Declared p' spans (namedMembers color member names) := by
  induction names generalizing p member with
  | nil => exact ⟨[], p, rfl, hp, rfl, .refl, rfl, rfl, by simp⟩
  | cons name rest ih =>
    simp only [List.mem_cons, forall_eq_or_imp] at hnames
    obtain ⟨f, p₁, hf, hp₁, hlayout₁⟩ := declareCallback_succeeds hp hnames.1
    obtain ⟨d, hd, hdn, -⟩ := Program.declare_decl hf
    obtain ⟨spans, p₂, hspans, hp₂, hlayout₂, hl₂, hlen, hdeclared⟩ := ih hp₁ (member + 1) hnames.2
    have hl₁ : p.Leads p₁ := .single (.declare hf)
    have hfirst : Declared p₁ [⟨spanName color member, f⟩] [(spanName color member, name)] := by
      refine ⟨by simp [Program.nameOf, hd, hdn], ?_⟩
      simpa using ⟨d, hd⟩
    exact ⟨⟨spanName color member, f⟩ :: spans, p₂, andThen hf (bind_of_ok hspans), hp₂,
      hlayout₂.trans hlayout₁, hl₁.trans hl₂, by simp [hlen],
      (hfirst.mono hl₂.extends).append hdeclared⟩

theorem declareColors_succeeds {p : Program} {allowed : List String}
    (hp : OnlyCallbacks p allowed) (color : Nat) {colors : List (List String)}
    (hnames : ∀ name ∈ colors.flatten, name ∈ allowed) :
    ∃ spans p', declareColors color colors p = .ok spans p' ∧ OnlyCallbacks p' allowed ∧
      p'.layout = p.layout ∧ p.Leads p' ∧ spans.map List.length = colors.map List.length ∧
      Declared p' spans.flatten (namedSpans color colors) := by
  induction colors generalizing p color with
  | nil => exact ⟨[], p, rfl, hp, rfl, .refl, rfl, rfl, by simp⟩
  | cons names rest ih =>
    simp only [List.flatten_cons, List.mem_append] at hnames
    obtain ⟨members, p₁, hmembers, hp₁, hlayout₁, hl₁, hlen₁, hdeclared₁⟩ :=
      declareMembers_succeeds hp color 0 fun name hn => hnames name (.inl hn)
    obtain ⟨others, p₂, hothers, hp₂, hlayout₂, hl₂, hlen₂, hdeclared₂⟩ :=
      ih hp₁ (color + 1) fun name hn => hnames name (.inr hn)
    exact ⟨members :: others, p₂, andThen hmembers (bind_of_ok hothers), hp₂,
      hlayout₂.trans hlayout₁, hl₁.trans hl₂, by simp [hlen₁, hlen₂],
      (hdeclared₁.mono hl₂.extends).append hdeclared₂⟩

theorem number_flatten {α : Type} (next : Nat) (lists : List (List α)) :
    (number next lists).flatten = (List.range' next lists.flatten.length).map SpanId.mk := by
  induction lists generalizing next with
  | nil => rfl
  | cons members rest ih =>
    rw [number, List.flatten_cons, ih, ← List.map_append, List.flatten_cons, List.length_append,
      List.range'_append_1]

theorem number_congr {α β : Type} {next : Nat} {lists : List (List α)} {lists' : List (List β)}
    (h : lists.map List.length = lists'.map List.length) :
    number next lists = number next lists' := by
  induction lists generalizing next lists' with
  | nil => cases lists' <;> simp_all [number]
  | cons members rest ih =>
    cases lists' with
    | nil => simp at h
    | cons members' rest' =>
      simp only [List.map_cons, List.cons.injEq] at h
      rw [number, number, h.1, ih h.2]

theorem number_nonempty {α : Type} {next : Nat} {lists : List (List α)}
    (h : ∀ members ∈ lists, members ≠ []) : ∀ members ∈ number next lists, members ≠ [] := by
  induction lists generalizing next with
  | nil => simp [number]
  | cons members rest ih =>
    simp only [List.mem_cons, forall_eq_or_imp] at h
    simp only [number, List.mem_cons, forall_eq_or_imp]
    exact ⟨by simpa using h.1, ih h.2⟩

theorem number_length {α : Type} (next : Nat) (lists : List (List α)) :
    (number next lists).length = lists.length := by
  induction lists generalizing next with
  | nil => rfl
  | cons members rest ih => simp [number, ih]

/-- Numbering spans through their colors is a coloring. -/
theorem number_isPartition {spans : List (List SpanDecl)} (h : ∀ members ∈ spans, members ≠ []) :
    Coloring.IsPartition spans.flatten (number 0 spans) := by
  have hf := number_flatten 0 spans
  refine ⟨⟨number_nonempty h, ?_, ?_⟩, ?_⟩
  · intro s hs
    rw [hf] at hs
    obtain ⟨i, hi, rfl⟩ := List.mem_map.1 hs
    simpa using List.mem_range'_1.1 hi
  · rw [hf]
    exact List.Nodup.map (fun i j hij => by simpa using hij) List.nodup_range'
  · intro i hi
    rw [hf]
    exact List.mem_map_of_mem (List.mem_range'_1.2 (by simpa using hi))

def sharedFields : SharedFields where
  current := ⟨⟨0⟩, SharedFields.currentName, parserSig.ptr⟩
  error := ⟨⟨1⟩, SharedFields.errorName, .i32⟩
  reason := ⟨⟨2⟩, SharedFields.reasonName, .bytes⟩
  errorPos := ⟨⟨3⟩, SharedFields.errorPosName, .bytes⟩

def sharedLayout : Layout :=
  ⟨[sharedFields.current, sharedFields.error, sharedFields.reason, sharedFields.errorPos]⟩

theorem declareShared_empty :
    Program.declareShared {} = .ok sharedFields { layout := sharedLayout } := by
  rfl

theorem resolve_shared : SharedFields.resolve sharedLayout = .ok sharedFields := by
  rfl

theorem sharedLayout_numbered : sharedLayout.Numbered := by
  intro i f hf
  rcases i with _ | _ | _ | _ | i
  · exact (congrArg Field.id (Option.some.inj hf)).symm
  · exact (congrArg Field.id (Option.some.inj hf)).symm
  · exact (congrArg Field.id (Option.some.inj hf)).symm
  · exact (congrArg Field.id (Option.some.inj hf)).symm
  · simp [sharedLayout] at hf

theorem sharedLayout_free : sharedLayout.Free 0 := by
  have hne : ∀ {x y : Place}, x ≠ y → x.name ≠ y.name := fun hxy hn => hxy (Place.name_inj.1 hn)
  intro f hf i _
  have hx : ∃ x : Place, f.name = x.name ∧ x ≠ .start i ∧ x ≠ .slot i := by
    simp only [sharedLayout, List.mem_cons, List.not_mem_nil, or_false] at hf
    rcases hf with rfl | rfl | rfl | rfl
    · exact ⟨.current, rfl, by simp, by simp⟩
    · exact ⟨.error, rfl, by simp, by simp⟩
    · exact ⟨.reason, rfl, by simp, by simp⟩
    · exact ⟨.errorPos, rfl, by simp, by simp⟩
  obtain ⟨x, hname, hstart, hslot⟩ := hx
  rw [hname]
  exact ⟨hne hstart, hne hslot⟩

structure Built (parser : EventParser) (options : SpanOptions) (colors : List (List String)) :
    Prop where
  leads : Program.Leads { layout := sharedLayout } parser.program
  names : (parser.program.decls.map Decl.name).Nodup
  valid : parser.emitter.coloring.Valid
  generated : parser.Generated options parser.emitter.coloring
  colors_eq : parser.emitter.coloring.colors = number 0 colors
  spans : parser.emitter.coloring.spans.map
    (fun s => (s.name, parser.program.nameOf s.callback)) = namedSpans 0 colors
  bodyless : ∀ span ∈ parser.emitter.coloring.spans, ∃ d,
    parser.program.decl? span.callback = some d ∧ d.body = none
  written : ∀ d ∈ parser.program.decls, d.name ∈ colors.flatten ∨ d.body.isSome
  fields : parser.program.layout.fields =
    [parser.emitter.current, parser.emitter.record.error, parser.emitter.record.reason,
      parser.emitter.record.errorPos] ++ parser.emitter.colors.flatMap ColorSlots.fields

structure Announced (colors : List (List String)) (spans : List (List SpanDecl)) (p : Program) :
    Prop where
  callbacks : OnlyCallbacks p colors.flatten
  layout : p.layout = sharedLayout
  leads : Program.Leads { layout := sharedLayout } p
  lengths : spans.map List.length = colors.map List.length
  declared : Declared p spans.flatten (namedSpans 0 colors)

namespace Announced

variable {colors : List (List String)} {spans : List (List SpanDecl)} {p : Program}

theorem numbered (h : Announced colors spans p) : p.layout.Numbered :=
  h.leads.numbered sharedLayout_numbered

theorem names (h : Announced colors spans p) :
    spans.flatten.map SpanDecl.name = (namedSpans 0 colors).map Prod.fst := by
  rw [← h.declared.named_eq, List.map_map]
  rfl

theorem names_nodup (h : Announced colors spans p) :
    (functionNames (spans.flatten.map SpanDecl.name)).Nodup :=
  h.names ▸ functionNames_nodup (namedSpans_nodup 0 colors)

theorem exists_coloring (h : Announced colors spans p) (hne : ∀ names ∈ colors, names ≠ []) :
    ∃ c, Coloring.ofColors spans.flatten (number 0 spans) = .ok c := by
  refine (number_isPartition fun members hm => ?_).exists_ofColors
  have hlen : members.length ∈ colors.map List.length := h.lengths ▸ List.mem_map_of_mem hm
  obtain ⟨names, hn, hnl⟩ := List.mem_map.1 hlen
  have := List.length_pos_iff.2 (hne names hn)
  exact List.length_pos_iff.1 (by omega)

theorem external (h : Announced colors spans p) : ∀ span ∈ spans.flatten,
    ∃ d, p.decl? span.callback = some d ∧ d.sig = callbackSig .external := by
  intro span hs
  obtain ⟨d, hd⟩ := h.declared.declared span hs
  exact ⟨d, hd, (h.callbacks d (List.mem_of_getElem? hd)).1⟩

end Announced

/-- Callbacks can always be declared, so that the colors are checked next. -/
theorem assemble_announced (options : SpanOptions) (colors : List (List String)) :
    ∃ spans p, Announced colors spans p ∧ assemble options colors {} =
      (Build.settle (Coloring.ofColors spans.flatten (number 0 spans)) >>= generate options) p := by
  have hempty : OnlyCallbacks { layout := sharedLayout } colors.flatten := by simp [OnlyCallbacks]
  obtain ⟨spans, p, hspans, hp, hlayout, hl, hlen, hdeclared⟩ :=
    declareColors_succeeds hempty 0 fun name hn => hn
  exact ⟨spans, p, ⟨hp, hlayout, hl, hlen, hdeclared⟩,
    andThen declareShared_empty (bind_of_ok hspans)⟩

/-- Colors with members, names that are not taken, a sentinel and a reason make a parser. -/
theorem ofColors_succeeds {options : SpanOptions} {colors : List (List String)}
    (hsentinel : options.errorSentinel ≠ 0) (hreason : '\x00' ∉ options.errorReason.toList)
    (hne : ∀ names ∈ colors, names ≠ [])
    (hnames : ∀ name ∈ colors.flatten,
      name ∉ functionNames ((namedSpans 0 colors).map Prod.fst)) :
    ∃ parser, ofColors options colors = .ok parser ∧ parser.Built options colors := by
  obtain ⟨spans, p₁, hspans, hassemble⟩ := assemble_announced options colors
  obtain ⟨c, hc⟩ := hspans.exists_coloring hne
  obtain ⟨hspans_eq, hcolors_eq, hvalid⟩ := Coloring.ofColors_eq_ok.1 hc
  have hlayout := hspans.layout
  obtain ⟨parser, p', more, hgen, hmore, hbodies, hfields, hcurrent, herror, hreasonField, hpos⟩ :=
    generate_succeeds hspans.numbered hvalid hsentinel hreason (hspans_eq ▸ hspans.external)
      (hlayout ▸ resolve_shared) (hlayout ▸ sharedLayout_free)
      (fun d hd => hspans_eq ▸ hspans.names ▸ hnames d.name (hspans.callbacks d hd).2.2)
      (hspans_eq ▸ hspans.names_nodup)
  obtain ⟨hgenerated, rfl, hl₂⟩ := generate_ok hspans.numbered hvalid hgen
  have hrun : assemble options colors {} = .ok parser parser.program :=
    hassemble.trans (andThen (Build.check_of_ok hc) hgen)
  have hcoloring := hgenerated.coloring
  refine ⟨parser, by simp [ofColors, hrun], ?_⟩
  have hleads := hspans.leads.trans hl₂
  refine ⟨hleads, hleads.names_nodup (by simp), by rwa [hcoloring], by rwa [hcoloring],
    ?_, ?_, ?_, ?_, ?_⟩
  · rw [hcoloring, hcolors_eq]
    exact number_congr hspans.lengths
  · rw [hcoloring, hspans_eq]
    exact (hspans.declared.mono hl₂.extends).named_eq
  · rw [hcoloring, hspans_eq]
    intro span hs
    obtain ⟨d, hd⟩ := hspans.declared.declared span hs
    exact ⟨d, Program.decl?_of_prefix ⟨more, hmore.symm⟩ hd,
      (hspans.callbacks d (List.mem_of_getElem? hd)).2.1⟩
  · intro d hd
    rw [hmore] at hd
    rcases List.mem_append.1 hd with hd | hd
    · exact .inl (hspans.callbacks d hd).2.2
    · exact .inr (hbodies d hd)
  · rw [hfields, hlayout, hcurrent, herror, hreasonField, hpos]
    rfl

def sharedProgram (functions : List (String × Signature)) : Program where
  layout := sharedLayout
  decls := functions.map fun f => { name := f.1, sig := f.2 }

theorem sharedProgram_nil_reachable : (sharedProgram []).Reachable := by
  have hcurrent : Program.onLayout (Layout.declare SharedFields.currentName parserSig.ptr) {} =
      .ok sharedFields.current { layout := ⟨[sharedFields.current]⟩ } := rfl
  have herror : Program.onLayout (Layout.declare SharedFields.errorName .i32)
      { layout := ⟨[sharedFields.current]⟩ } =
        .ok sharedFields.error { layout := ⟨[sharedFields.current, sharedFields.error]⟩ } := rfl
  have hreason : Program.onLayout (Layout.declare SharedFields.reasonName .bytes)
      { layout := ⟨[sharedFields.current, sharedFields.error]⟩ } = .ok sharedFields.reason
        { layout := ⟨[sharedFields.current, sharedFields.error, sharedFields.reason]⟩ } := rfl
  have hpos : Program.onLayout (Layout.declare SharedFields.errorPosName .bytes)
      { layout := ⟨[sharedFields.current, sharedFields.error, sharedFields.reason]⟩ } =
        .ok sharedFields.errorPos (sharedProgram []) := rfl
  exact .head (.field hcurrent) (.head (.field herror) (.head (.field hreason)
    (.single (.field hpos))))

theorem sharedProgram_reachable {functions : List (String × Signature)}
    (hnames : (functions.map Prod.fst).Nodup) : (sharedProgram functions).Reachable := by
  induction functions using List.reverseRecOn with
  | nil => exact sharedProgram_nil_reachable
  | append_singleton functions f ih =>
    rw [List.map_append] at hnames
    obtain ⟨hnames', -, hfresh⟩ := List.nodup_append.1 hnames
    have hnone : (sharedProgram functions).decls.findIdx? (fun d => d.name = f.1) = none := by
      simp only [sharedProgram, List.findIdx?_eq_none_iff, List.mem_map]
      rintro d ⟨other, hother, rfl⟩
      simpa using hfresh other.1 (List.mem_map_of_mem hother) f.1 (by simp)
    have hdeclare : Program.declare f.1 f.2 (sharedProgram functions) =
        .ok ⟨functions.length⟩ (sharedProgram (functions ++ [f])) := by
      simp only [Program.declare, hnone]
      simp [sharedProgram]
    exact (ih hnames').leads (.single (.declare hdeclare))

def callbackProgram (names : List String) : Program where
  layout := sharedLayout
  decls := names.map fun name => { name, sig := callbackSig .external }

theorem callbackProgram_reachable {names : List String} (hnames : names.Nodup) :
    (callbackProgram names).Reachable := by
  have heq : callbackProgram names =
      sharedProgram (names.map fun name => (name, callbackSig .external)) := by
    simp [callbackProgram, sharedProgram]
  rw [heq]
  refine sharedProgram_reachable ?_
  simpa [Function.comp_def] using hnames

/-- Every coloring of spans with such callbacks makes a parser, and the callbacks are left to the
host. -/
theorem generate_callbackProgram {options : SpanOptions} {names : List String} {c : Coloring}
    (hc : c.Valid) (hsentinel : options.errorSentinel ≠ 0)
    (hreason : '\x00' ∉ options.errorReason.toList)
    (hcallbacks : ∀ span ∈ c.spans, span.callback.index < names.length)
    (hspans : (c.spans.map SpanDecl.name).Nodup)
    (hnames : ∀ name ∈ names, name ∉ functionNames (c.spans.map SpanDecl.name)) :
    ∃ parser p', generate options c (callbackProgram names) = .ok parser p' ∧
      parser.program = p' ∧
      ∀ span ∈ c.spans, ∃ d, p'.decl? span.callback = some d ∧ d.body = none := by
  have hdecl : ∀ span ∈ c.spans, ∃ d, (callbackProgram names).decl? span.callback = some d ∧
      d.sig = callbackSig .external ∧ d.body = none := by
    intro span hs
    simp [callbackProgram, Program.decl?, hcallbacks span hs]
  obtain ⟨parser, p', more, hgen, hmore, -⟩ := generate_succeeds (p := callbackProgram names)
    sharedLayout_numbered hc hsentinel hreason
    (fun span hs => by
      obtain ⟨d, hd, hsig, -⟩ := hdecl span hs
      exact ⟨d, hd, hsig⟩)
    resolve_shared sharedLayout_free (by simpa [callbackProgram] using hnames)
    (functionNames_nodup hspans)
  refine ⟨parser, p', hgen, (generate_ok sharedLayout_numbered hc hgen).2.1, ?_⟩
  intro span hs
  obtain ⟨d, hd, -, hb⟩ := hdecl span hs
  exact ⟨d, Program.decl?_of_prefix ⟨more, hmore.symm⟩ hd, hb⟩

end EventParser

/-- Two spans that share a color, and a third one with the callback of the first. -/
def sharedPair : Coloring where
  spans := [⟨"a", ⟨0⟩⟩, ⟨"b", ⟨1⟩⟩, ⟨"c", ⟨0⟩⟩]
  colors := [[⟨0⟩, ⟨1⟩], [⟨2⟩]]
  table := [0, 0, 1]
  sound := Coloring.tabulate_sound
    (rfl : Coloring.tabulate [⟨"a", ⟨0⟩⟩, ⟨"b", ⟨1⟩⟩, ⟨"c", ⟨0⟩⟩] _ = .ok _)

theorem sharedPair_valid : sharedPair.Valid :=
  Coloring.ofColors_valid
    (rfl : Coloring.ofColors sharedPair.spans sharedPair.colors = .ok sharedPair)

end SpanTracking
