import SpanTracking.Proofs.Editing

set_option autoImplicit false

namespace SpanTracking

theorem Layout.lookup_of_prefix {l l' : Layout} (h : l.fields <+: l'.fields) {name : String}
    {f : Field} (hf : l.lookup name = some f) : l'.lookup name = some f := by
  obtain ⟨rest, hrest⟩ := h
  unfold lookup at hf ⊢
  rw [← hrest, List.find?_append, hf]
  rfl

namespace Program

/-- The program `p'` is `p` with those of the named fields and of the texts that it lacked, in their
order and behind what was there. -/
structure Supplied (p p' : Program) (names texts : List String) : Prop where
  decls : p'.decls = p.decls
  fields : ∃ added, p'.layout.fields = p.layout.fields ++ added ∧
    added.map Field.name = names.filter fun name => (p.layout.lookup name).isNone
  literals : p'.literals = p.literals ++ texts.filter fun text => text ∉ p.literals

namespace Supplied

variable {p q r : Program} {xs ys texts : List String}

theorem refl (p : Program) : p.Supplied p [] [] :=
  ⟨rfl, ⟨[], by simp⟩, by simp⟩

theorem lookup_eq (h : p.Supplied q xs texts) {name : String} (hname : name ∉ xs) :
    q.layout.lookup name = p.layout.lookup name := by
  obtain ⟨added, hfields, hadded⟩ := h.fields
  have hnone : added.find? (fun f => f.name = name) = none := by
    refine List.find?_eq_none.2 fun f hf => ?_
    have hmem : f.name ∈ xs := List.mem_of_mem_filter (hadded ▸ List.mem_map_of_mem hf)
    simpa using fun heq : f.name = name => hname (heq ▸ hmem)
  rw [Layout.lookup, hfields, List.find?_append, hnone, Option.or_none]
  rfl

theorem decl?_eq (h : p.Supplied q xs texts) (f : FuncId) : q.decl? f = p.decl? f := by
  rw [decl?, h.decls]
  rfl

theorem trans (h : p.Supplied q xs []) (h' : q.Supplied r ys texts) (hdis : ∀ y ∈ ys, y ∉ xs) :
    p.Supplied r (xs ++ ys) texts := by
  obtain ⟨added, hfields, hadded⟩ := h.fields
  obtain ⟨added', hfields', hadded'⟩ := h'.fields
  have hsame : q.literals = p.literals := by simpa using h.literals
  refine ⟨h'.decls.trans h.decls, ⟨added ++ added', ?_, ?_⟩, ?_⟩
  · rw [hfields', hfields, List.append_assoc]
  · rw [List.map_append, List.filter_append, hadded, hadded']
    refine congrArg _ (List.filter_congr fun y hy => ?_)
    rw [h.lookup_eq (hdis y hy)]
  · rw [h'.literals, hsame]

end Supplied

section Steps

variable {α β : Type}

/-- If the step succeeds, it has supplied the names and the texts. If it fails, it has supplied an
initial part of the names. -/
def Supplies (step : Build Program α) (names texts : List String) : Prop :=
  ∀ p, match step p with
    | .ok _ p' => p.Supplied p' names texts
    | .error _ p' => ∃ declared, declared <+: names ∧ p.Supplied p' declared []

theorem supplies_pure (a : α) : Supplies (pure a) [] [] := Supplied.refl

theorem supplies_throw (err : BuildError) (names texts : List String) :
    Supplies (throw err : Build Program α) names texts :=
  fun p => ⟨[], List.nil_prefix, .refl p⟩

theorem supplies_check (test : Program → Except BuildError α) :
    Supplies (Build.check test) [] [] := by
  intro p
  rw [Build.check_run]
  cases test p with
  | ok a => exact .refl p
  | error err => exact ⟨[], List.nil_prefix, .refl p⟩

theorem Supplies.bind {x : Build Program α} {f : α → Build Program β} {xs ys texts : List String}
    (hx : Supplies x xs []) (hf : ∀ a, Supplies (f a) ys texts) (hdis : ∀ y ∈ ys, y ∉ xs) :
    Supplies (x >>= f) (xs ++ ys) texts := by
  intro p
  have hp := hx p
  rw [bind_eq]
  cases hrun : x p with
  | error err q =>
    obtain ⟨declared, hpre, hsupplied⟩ : ∃ declared, declared <+: xs ∧ _ := by simpa [hrun] using hp
    exact ⟨declared, hpre.trans (List.prefix_append _ _), hsupplied⟩
  | ok a q =>
    rw [hrun] at hp
    have hq := hf a q
    dsimp only
    cases hrun' : f a q with
    | ok b r =>
      rw [hrun'] at hq
      exact hp.trans hq hdis
    | error err r =>
      obtain ⟨declared, hpre, hsupplied⟩ : ∃ declared, declared <+: ys ∧ _ := by
        simpa [hrun'] using hq
      exact ⟨xs ++ declared, (List.prefix_append_right_inj xs).2 hpre,
        hp.trans hsupplied fun y hy => hdis y (hpre.subset hy)⟩

theorem Supplies.check_bind {test : Program → Except BuildError α} {f : α → Build Program β}
    {names texts : List String} (hf : ∀ a, Supplies (f a) names texts) :
    Supplies (Build.check test >>= f) names texts := by
  simpa using (supplies_check test).bind hf (by simp)

theorem Supplies.bind_pure {x : Build Program α} {names texts : List String}
    (hx : Supplies x names texts) (g : α → β) :
    Supplies (x >>= fun a => pure (g a)) names texts := by
  intro p
  have hp := hx p
  rw [bind_eq]
  cases hrun : x p with
  | ok a q => simpa [hrun] using hp
  | error err q => simpa [hrun] using hp

theorem supplies_declare (name : String) (ty : Ty) :
    Supplies (onLayout (Layout.declare name ty)) [name] [] := by
  intro p
  cases hrun : onLayout (Layout.declare name ty) p with
  | error err p' =>
    rw [onLayout_declare_error hrun]
    exact ⟨[], List.nil_prefix, .refl p⟩
  | ok f p' =>
    obtain ⟨l, hl, rfl⟩ := onLayout_ok hrun
    obtain ⟨hfound, -, rfl⟩ | ⟨hnone, rfl, rfl⟩ := Layout.declare_cases hl
    · exact ⟨rfl, ⟨[], by simp [hfound]⟩, by simp⟩
    · exact ⟨rfl, ⟨_, rfl, by simp [hnone]⟩, by simp⟩

theorem supplies_intern (text : String) : Supplies (intern text) [] [text] := by
  intro p
  cases hrun : intern text p with
  | error err p' =>
    rw [intern_error hrun]
    exact ⟨[], List.nil_prefix, .refl p⟩
  | ok t p' =>
    unfold intern at hrun
    split at hrun
    · simp at hrun
    · cases hfind : p.literals.findIdx? fun t => t = text with
      | some i =>
        simp only [hfind, EStateM.Result.ok.injEq] at hrun
        obtain ⟨-, rfl⟩ := hrun
        obtain ⟨hlt, hi, -⟩ := List.findIdx?_eq_some_iff_getElem.1 hfind
        have hmem : text ∈ p.literals := by
          have hi' : p.literals[i] = text := by simpa using hi
          exact hi' ▸ List.getElem_mem hlt
        exact ⟨rfl, ⟨[], by simp⟩, by simp [hmem]⟩
      | none =>
        simp only [hfind, EStateM.Result.ok.injEq] at hrun
        obtain ⟨-, rfl⟩ := hrun
        have hnew : text ∉ p.literals := by
          intro hmem
          have hne : ∀ t ∈ p.literals, t ≠ text := by simpa using hfind
          exact hne text hmem rfl
        exact ⟨rfl, ⟨[], by simp⟩, by simp [hnew]⟩

/-- A step that has succeeded succeeds again in every later program, with the same result, and
leaves that program as it is. -/
def Repeats (step : Build Program α) : Prop :=
  ∀ p p' a, step p = .ok a p' → p.Extends p' ∧ ∀ q, p'.Extends q → step q = .ok a q

theorem repeats_pure (a : α) : Repeats (pure a) := by
  intro p p' a' h
  obtain ⟨rfl, rfl⟩ := pure_ok h
  exact ⟨.refl p, fun q _ => rfl⟩

theorem repeats_throw (err : BuildError) : Repeats (throw err : Build Program α) := by
  intro p p' a h
  simp at h

theorem repeats_check {test : Program → Except BuildError α}
    (htest : ∀ p q a, p.Extends q → test p = .ok a → test q = .ok a) :
    Repeats (Build.check test) := by
  intro p p' a h
  obtain ⟨ha, rfl⟩ := Build.check_ok h
  exact ⟨.refl _, fun q hq => Build.check_of_ok (htest _ q a hq ha)⟩

theorem Repeats.bind {x : Build Program α} {f : α → Build Program β} (hx : Repeats x)
    (hf : ∀ a, Repeats (f a)) : Repeats (x >>= f) := by
  intro p p' b h
  obtain ⟨a, q, ha, hb⟩ := bind_ok h
  obtain ⟨hext, hagain⟩ := hx p q a ha
  obtain ⟨hext', hagain'⟩ := hf a q p' b hb
  exact ⟨hext.trans hext', fun r hr => andThen (hagain r (hext'.trans hr)) (hagain' r hr)⟩

theorem repeats_declare (name : String) (ty : Ty) :
    Repeats (onLayout (Layout.declare name ty)) := by
  intro p p' f h
  refine ⟨(Step.field h).extends, fun q hq => ?_⟩
  obtain ⟨l, hl, rfl⟩ := onLayout_ok h
  -- Declared now or before, the field is found by its name.
  have hfound : l.lookup name = some f ∧ f.ty = ty := by
    obtain ⟨hfound, hty, rfl⟩ | ⟨hnone, rfl, rfl⟩ := Layout.declare_cases hl
    · exact ⟨hfound, hty⟩
    · unfold Layout.lookup at hnone ⊢
      exact ⟨by rw [List.find?_append, hnone]; simp, rfl⟩
  have hlater := Layout.lookup_of_prefix hq.fields hfound.1
  simp [onLayout, Layout.declare, hlater, hfound.2]

theorem repeats_intern (text : String) : Repeats (intern text) := by
  intro p p' t h
  refine ⟨(Step.intern h).extends, fun q hq => ?_⟩
  -- Interned now or before, the text is first met where the literal is.
  have hfound : '\x00' ∉ text.toList ∧
      (p'.literals.findIdx? fun t => t = text) = some t.index := by
    unfold intern at h
    split at h
    · simp at h
    · rename_i hnul
      cases hfind : p.literals.findIdx? fun t => t = text with
      | some i =>
        simp only [hfind, EStateM.Result.ok.injEq] at h
        obtain ⟨rfl, rfl⟩ := h
        exact ⟨by simpa using hnul, hfind⟩
      | none =>
        simp only [hfind, EStateM.Result.ok.injEq] at h
        obtain ⟨rfl, rfl⟩ := h
        exact ⟨by simpa using hnul, by simp [List.findIdx?_append, hfind]⟩
  obtain ⟨rest, hrest⟩ := hq.literals
  have hlater : (q.literals.findIdx? fun t => t = text) = some t.index := by
    rw [← hrest, List.findIdx?_append, hfound.2]
    rfl
  simp [intern, hfound.1, hlater]

end Steps

end Program

namespace ColorSlots

def fieldNames (color : Nat) (members : List SpanId) : List String :=
  startName color :: if 1 < members.length then [slotName color] else []

def NamesFrom (color : Nat) (name : String) : Prop :=
  ∃ i, color ≤ i ∧ (name = startName i ∨ name = slotName i)

theorem namesFrom_of_mem {color : Nat} {members : List SpanId} {name : String}
    (h : name ∈ fieldNames color members) : name = startName color ∨ name = slotName color := by
  rcases List.mem_cons.1 h with rfl | hslot
  · exact .inl rfl
  · split at hslot
    · exact .inr (List.mem_singleton.1 hslot)
    · simp at hslot

theorem startName_ne_slotName (i j : Nat) : startName i ≠ slotName j :=
  fun h => by simpa using (Place.name_inj (x := .start i) (y := .slot j)).1 h

theorem startName_inj {i j : Nat} : startName i = startName j ↔ i = j :=
  (Place.name_inj (x := .start i) (y := .start j)).trans (by simp)

theorem slotName_inj {i j : Nat} : slotName i = slotName j ↔ i = j :=
  (Place.name_inj (x := .slot i) (y := .slot j)).trans (by simp)

theorem NamesFrom.not_mem {color : Nat} {members : List SpanId} {name : String}
    (h : NamesFrom (color + 1) name) : name ∉ fieldNames color members := by
  intro hmem
  obtain ⟨i, hi, rfl | rfl⟩ := h <;> rcases namesFrom_of_mem hmem with heq | heq
  · have := startName_inj.1 heq
    omega
  · exact startName_ne_slotName _ _ heq
  · exact startName_ne_slotName _ _ heq.symm
  · have := slotName_inj.1 heq
    omega

end ColorSlots

namespace Coloring

open Program

def fieldNamesFrom (color : Nat) : List (List SpanId) → List String
  | [] => []
  | members :: rest => ColorSlots.fieldNames color members ++ fieldNamesFrom (color + 1) rest

def fieldNames (c : Coloring) : List String := fieldNamesFrom 0 c.colors

theorem namesFrom_of_mem {color : Nat} {colors : List (List SpanId)} {name : String}
    (h : name ∈ fieldNamesFrom color colors) : ColorSlots.NamesFrom color name := by
  induction colors generalizing color with
  | nil => simp [fieldNamesFrom] at h
  | cons members rest ih =>
    rcases List.mem_append.1 h with hmem | hmem
    · exact ⟨color, le_rfl, ColorSlots.namesFrom_of_mem hmem⟩
    · obtain ⟨i, hi, hname⟩ := ih hmem
      exact ⟨i, by omega, hname⟩

section Plan

variable (c : Coloring)

theorem supplies_planColor (color : Nat) (members : List SpanId) :
    Supplies (c.planColor color members) (ColorSlots.fieldNames color members) [] := by
  cases members with
  | nil => exact supplies_throw _ _ _
  | cons s rest =>
    refine .check_bind fun found => .check_bind fun others => ?_
    cases rest with
    | nil => exact (supplies_declare _ _).bind_pure _
    | cons t rest =>
      have hnames : ColorSlots.fieldNames color (s :: t :: rest) =
          [ColorSlots.startName color] ++ [ColorSlots.slotName color] := by
        simp [ColorSlots.fieldNames]
      rw [hnames]
      refine (supplies_declare _ _).bind (fun start => (supplies_declare _ _).bind_pure _) ?_
      simpa using (ColorSlots.startName_ne_slotName color color).symm

theorem supplies_planFrom (color : Nat) (colors : List (List SpanId)) :
    Supplies (c.planFrom color colors) (fieldNamesFrom color colors) [] := by
  induction colors generalizing color with
  | nil => exact supplies_pure _
  | cons members rest ih =>
    exact (c.supplies_planColor color members).bind (fun slots => (ih (color + 1)).bind_pure _)
      fun name hname => (namesFrom_of_mem hname).not_mem

/-- A callback keeps its signature, though it may have been given a body. -/
theorem callee_sig_of_extends {p q : Program} (h : p.Extends q) {s : SpanId} {span : SpanDecl}
    {d : Decl} (hcallee : c.callee p s = .ok (span, d)) :
    ∃ d', c.callee q s = .ok (span, d') ∧ d'.sig = d.sig := by
  obtain ⟨hspan, hd⟩ := callee_ok hcallee
  obtain ⟨d', hd', -, hsig, -⟩ := h.decls _ d hd
  exact ⟨d', by simp [callee, hspan, hd'], hsig⟩

theorem sharedCallbacks_of_extends {p q : Program} (h : p.Extends q) {color : Nat} {first : String}
    {sig : Signature} {members : List SpanId} {callbacks : List FuncId}
    (hshared : c.sharedCallbacks p color first sig members = .ok callbacks) :
    c.sharedCallbacks q color first sig members = .ok callbacks := by
  induction members generalizing callbacks with
  | nil => exact hshared
  | cons s rest ih =>
    obtain ⟨⟨span, d⟩, hcallee, hnext⟩ := except_ok hshared
    obtain ⟨d', hcallee', hsig⟩ := c.callee_sig_of_extends h hcallee
    dsimp only at hnext
    split at hnext
    · rename_i hd
      obtain ⟨others, hothers, hrest⟩ := except_ok hnext
      simp [sharedCallbacks, hcallee', hsig, hd, ih hothers, bind, Except.bind, ← hrest]
    · simp [throw, throwThe, MonadExceptOf.throw] at hnext

/-- Only the signature of the first callback matters. -/
theorem planColor_cons (color : Nat) (s : SpanId) (rest : List SpanId) :
    c.planColor color (s :: rest) =
      (Build.check fun p => (c.callee p s).map fun found => (found.1, found.2.sig)) >>=
        fun found => do
        let others ← Build.check (c.sharedCallbacks · color found.1.name found.2 rest)
        let start ← Program.onLayout (Layout.declare (ColorSlots.startName color) .bytes)
        let callbacks := (found.1.callback :: others).eraseDups
        let slot? ←
          if rest.isEmpty then pure none
          else do
            let slot ← Program.onLayout (Layout.declare (ColorSlots.slotName color) found.2.ptr)
            pure (some slot)
        let dispatch := match slot? with
          | some slot => .indirect slot callbacks
          | none => .direct found.1.callback
        return ⟨s :: rest, callbacks, found.2, start, slot?, dispatch⟩ := by
  funext p
  rw [planColor, bind_eq, bind_eq, Build.check_run, Build.check_run]
  cases c.callee p s <;> rfl

theorem repeats_planColor (color : Nat) (members : List SpanId) :
    Repeats (c.planColor color members) := by
  cases members with
  | nil => exact repeats_throw _
  | cons s rest =>
    rw [planColor_cons]
    refine (repeats_check ?_).bind fun found =>
      (repeats_check fun p q a hq ha => c.sharedCallbacks_of_extends hq ha).bind fun others =>
        (repeats_declare _ _).bind fun start => ?_
    · intro p q found hq hfound
      cases hcallee : c.callee p s with
      | error err => simp [hcallee, Except.map] at hfound
      | ok pair =>
        obtain ⟨d', hcallee', hsig⟩ := c.callee_sig_of_extends hq hcallee
        simpa [hcallee, hcallee', Except.map, hsig] using hfound
    · cases rest with
      | nil => exact repeats_pure _
      | cons t rest => exact (repeats_declare _ _).bind fun _ => repeats_pure _

theorem repeats_planFrom (color : Nat) (colors : List (List SpanId)) :
    Repeats (c.planFrom color colors) := by
  induction colors generalizing color with
  | nil => exact repeats_pure _
  | cons members rest ih =>
    exact (c.repeats_planColor color members).bind fun _ =>
      (ih (color + 1)).bind fun _ => repeats_pure _

end Plan

end Coloring

theorem SharedFields.find_of_prefix {l l' : Layout} (h : l.fields <+: l'.fields) {name : String}
    {ty : Ty} {f : Field} (hf : find l name ty = .ok f) : find l' name ty = .ok f := by
  unfold find at hf
  split at hf
  · simp at hf
  · rename_i g hg
    simpa [find, Layout.lookup_of_prefix h hg] using hf

theorem SharedFields.resolve_of_prefix {l l' : Layout} (h : l.fields <+: l'.fields)
    {s : SharedFields} (hs : resolve l = .ok s) : resolve l' = .ok s := by
  rw [resolve_eq_collect, collect_eq_ok] at hs ⊢
  obtain ⟨hc, he, hr, hp⟩ := hs
  have hkept : ∀ {name ty f}, find l name ty = .ok f → find l' name ty = .ok f := find_of_prefix h
  exact ⟨hkept hc, hkept he, hkept hr, hkept hp⟩

namespace Emitter

open Program

theorem checkCallback_of_extends {p q : Program} (h : p.Extends q) {span : SpanDecl}
    (hspan : checkCallback p span = .ok ()) : checkCallback q span = .ok () := by
  obtain ⟨d, hd⟩ := checkCallback_ok hspan
  obtain ⟨d', hd', -, hsig, -⟩ := h.decls _ d hd
  by_cases hret : d.sig.ret = parserSig.ret <;>
    by_cases hparams : d.sig.params = parserSig.params <;> simp_all [checkCallback]

section Prepare

variable (options : SpanOptions) (c : Coloring)

theorem supplies_prepare :
    Supplies (prepare options c) c.fieldNames [options.errorReason] := by
  unfold prepare
  by_cases hsentinel : options.errorSentinel = 0
  · simp only [hsentinel, ↓reduceIte]
    exact supplies_throw _ _ _
  · simp only [hsentinel, ↓reduceIte]
    refine .check_bind fun _ => .check_bind fun shared => ?_
    rw [← List.append_nil c.fieldNames]
    exact (c.supplies_planFrom 0 c.colors).bind
      (fun colors => ((supplies_intern options.errorReason).bind_pure _).bind_pure _) (by simp)

theorem repeats_prepare : Repeats (prepare options c) := by
  unfold prepare
  by_cases hsentinel : options.errorSentinel = 0
  · simp only [hsentinel, ↓reduceIte]
    exact repeats_throw _
  · simp only [hsentinel, ↓reduceIte]
    refine (repeats_check ?_).bind fun _ => (repeats_check ?_).bind fun shared =>
      (c.repeats_planFrom 0 c.colors).bind fun colors =>
        ((repeats_intern _).bind fun _ => repeats_pure _).bind fun _ => repeats_pure _
    · intro p q _ hq h
      rw [forM_eq_ok] at h ⊢
      exact fun span hspan => checkCallback_of_extends hq (h span hspan)
    · intro p q shared hq h
      exact SharedFields.resolve_of_prefix hq.fields h

end Prepare

/-- Planning the storage of a coloring, and preparing an emitter for it, leaves functions and bodies
alone and adds to the fields and texts only what is missing. If it succeeds, these are the fields of
the colors in their order and, for an emitter, the reason; if it fails, the fields of an initial
part of them. What has succeeded succeeds again in every later program, with the same result, and
adds nothing. -/
theorem preparation_repeatable (options : SpanOptions) (c : Coloring) (p : Program) :
    (∀ plan p', c.plan p = .ok plan p' →
      p.Supplied p' c.fieldNames [] ∧ ∀ q, p'.Leads q → c.plan q = .ok plan q) ∧
    (∀ err p', c.plan p = .error err p' →
      ∃ declared, declared <+: c.fieldNames ∧ p.Supplied p' declared []) ∧
    (∀ e p', prepare options c p = .ok e p' →
      p.Supplied p' c.fieldNames [options.errorReason] ∧
        ∀ q, p'.Leads q → prepare options c q = .ok e q) ∧
    ∀ err p', prepare options c p = .error err p' →
      ∃ declared, declared <+: c.fieldNames ∧ p.Supplied p' declared [] := by
  have hplan := c.supplies_planFrom 0 c.colors p
  have hprepare := supplies_prepare options c p
  refine ⟨?_, ?_, ?_, ?_⟩
  · intro plan p' h
    rw [show c.planFrom 0 c.colors p = _ from h] at hplan
    exact ⟨hplan, fun q hq => (c.repeats_planFrom 0 c.colors p p' plan h).2 q hq.extends⟩
  · intro err p' h
    rw [show c.planFrom 0 c.colors p = _ from h] at hplan
    exact hplan
  · intro e p' h
    rw [h] at hprepare
    exact ⟨hprepare, fun q hq => (repeats_prepare options c p p' e h).2 q hq.extends⟩
  · intro err p' h
    rw [h] at hprepare
    exact hprepare

def pairClashing : Program :=
  { pairDeclared with
    layout := ⟨EventParser.sharedLayout.fields ++ [⟨⟨4⟩, ColorSlots.slotName 0, .i32⟩]⟩ }

/-- The emitter of a pair is prepared, and prepared again for nothing. In a program that has a field
in the way, preparing it fails behind the first start. -/
theorem preparation_repeatable_pair :
    prepare {} sharedPair pairPrepared = .ok (pairEmitter {}) pairPrepared ∧
    ∃ err p', prepare {} sharedPair pairClashing = .error err p' ∧
      p'.layout.lookup (ColorSlots.startName 0) = some ⟨⟨5⟩, ColorSlots.startName 0, .bytes⟩ ∧
      ∃ declared, declared <+: sharedPair.fieldNames ∧ pairClashing.Supplied p' declared [] := by
  obtain ⟨-, -, hagain, -⟩ := preparation_repeatable {} sharedPair pairDeclared
  obtain ⟨-, -, -, hfailed⟩ := preparation_repeatable {} sharedPair pairClashing
  exact ⟨(hagain _ _ (prepare_pair true false)).2 _ .refl,
    _, _, rfl, rfl, hfailed _ _ rfl⟩

end Emitter

end SpanTracking
