import SpanTracking.Proofs.Repetition

set_option autoImplicit false

/-!
# What an emitter is refused for

Preparing an emitter goes through a list of checks: the sentinel, the callback of every span, the
shared fields, for every color its members and its fields, and the reason. Fields are declared on
the way, but no check sees the fields that were declared for another one. So all checks are about
the program as it was, an emitter is prepared exactly if none of them objects, and the first one
that does is the one reported.
-/

namespace SpanTracking

def objectionOf {α : Type} : Except BuildError α → Option BuildError
  | .ok _ => none
  | .error err => some err

theorem objectionOf_bind {α β : Type} {outcome : Except BuildError α}
    {next : α → Except BuildError β} {rest : Option BuildError}
    (h : ∀ a, outcome = .ok a → objectionOf (next a) = rest) :
    objectionOf (outcome >>= next) = (objectionOf outcome).or rest := by
  cases outcome with
  | ok a => exact h a rfl
  | error err => rfl

theorem findSome?_cons_or {α β : Type} (f : α → Option β) (a : α) (rest : List α) :
    (a :: rest).findSome? f = (f a).or (rest.findSome? f) := by
  rw [List.findSome?_cons]
  cases f a <;> rfl

theorem findSome?_congr {α β : Type} {f g : α → Option β} {items : List α}
    (h : ∀ a ∈ items, f a = g a) : items.findSome? f = items.findSome? g := by
  induction items with
  | nil => rfl
  | cons a rest ih =>
    obtain ⟨ha, hrest⟩ := List.forall_mem_cons.1 h
    rw [findSome?_cons_or, findSome?_cons_or, ha, ih hrest]

theorem objectionOf_forM {α : Type} (check : α → Except BuildError Unit) (items : List α) :
    objectionOf (items.forM check) = items.findSome? fun a => objectionOf (check a) := by
  induction items with
  | nil => rfl
  | cons a rest ih =>
    change objectionOf (check a >>= fun _ => rest.forM check) = _
    rw [findSome?_cons_or]
    exact objectionOf_bind fun _ _ => ih

namespace Build

variable {σ α β : Type}

def objection (step : Build σ α) (s : σ) : Option BuildError :=
  match step s with
  | .ok _ _ => none
  | .error err _ => some err

theorem objection_eq_none {step : Build σ α} {s : σ} :
    objection step s = none ↔ ∃ a s', step s = .ok a s' := by
  unfold objection
  cases step s <;> simp

theorem objection_eq_some {step : Build σ α} {s : σ} {err : BuildError} :
    objection step s = some err ↔ ∃ s', step s = .error err s' := by
  unfold objection
  cases step s <;> simp

theorem objection_bind_pure (x : Build σ α) (g : α → β) (s : σ) :
    objection (x >>= fun a => pure (g a)) s = objection x s := by
  unfold objection
  rw [bind_eq]
  cases x s <;> rfl

theorem objection_bind_of_ok {x : Build σ α} {f : α → Build σ β} {s t : σ} {a : α}
    (h : x s = .ok a t) : objection (x >>= f) s = objection (f a) t := by
  rw [objection, bind_of_ok h]
  rfl

theorem objection_bind {x : Build σ α} {f : α → Build σ β} {s : σ} {rest : Option BuildError}
    (hf : ∀ a t, x s = .ok a t → objection (f a) t = rest) :
    objection (x >>= f) s = (objection x s).or rest := by
  cases hx : x s with
  | ok a t =>
    have hnone : objection x s = none := objection_eq_none.2 ⟨a, t, hx⟩
    rw [hnone, Option.none_or, ← hf a t hx, objection_bind_of_ok hx]
  | error err t =>
    have hsome : objection x s = some err := objection_eq_some.2 ⟨t, hx⟩
    rw [hsome, Option.some_or]
    exact objection_eq_some.2 ⟨t, bind_of_error hx⟩

theorem objection_check_bind {test : σ → Except BuildError α} {f : α → Build σ β} {s : σ}
    {rest : Option BuildError} (hf : ∀ a, test s = .ok a → objection (f a) s = rest) :
    objection (check test >>= f) s = (objectionOf (test s)).or rest := by
  cases htest : test s with
  | ok a => exact (objection_bind_of_ok (check_of_ok htest)).trans (hf a htest)
  | error err => exact objection_eq_some.2 ⟨s, bind_of_error (by rw [check_run, htest])⟩

end Build

/-- What speaks against a field of the name and the type: there is one of another type. -/
def Layout.conflict (l : Layout) (name : String) (ty : Ty) : Option BuildError :=
  (l.lookup name).bind fun f =>
    if f.ty = ty then none else some (.fieldTypeConflict name f.ty ty)

theorem Layout.conflict_eq_none {l : Layout} {name : String} {ty : Ty} :
    l.conflict name ty = none ↔ ∀ f, l.lookup name = some f → f.ty = ty := by
  unfold conflict
  cases l.lookup name <;> simp

theorem Layout.conflict_congr {l l' : Layout} {name : String} (h : l'.lookup name = l.lookup name)
    (ty : Ty) : l'.conflict name ty = l.conflict name ty := by
  rw [conflict, conflict, h]

theorem Layout.objection_declare (name : String) (ty : Ty) (l : Layout) :
    Build.objection (declare name ty) l = l.conflict name ty := by
  unfold Build.objection declare conflict
  cases l.lookup name with
  | none => rfl
  | some f => by_cases hty : f.ty = ty <;> simp [hty]

theorem Program.objection_declare (name : String) (ty : Ty) (p : Program) :
    Build.objection (onLayout (Layout.declare name ty)) p = p.layout.conflict name ty := by
  rw [← Layout.objection_declare]
  unfold Build.objection onLayout
  cases Layout.declare name ty p.layout <;> rfl

theorem Program.objection_intern (text : String) (p : Program) :
    Build.objection (intern text) p =
      if '\x00' ∈ text.toList then some .interiorNul else none := by
  unfold Build.objection intern
  by_cases hnul : '\x00' ∈ text.toList
  · simp [hnul]
  · cases p.literals.findIdx? (fun t => t = text) <;> simp [hnul]

def Program.conv? (p : Program) (f : FuncId) : Option CallConv :=
  (p.decl? f).map fun d => d.sig.conv

/-- The first of the shared fields that is not found is reported. -/
theorem SharedFields.objectionOf_collect (found : String × Ty → Except BuildError Field) :
    objectionOf (collect found) = expected.findSome? fun ask => objectionOf (found ask) := by
  simp only [expected, findSome?_cons_or, List.findSome?_nil]
  exact objectionOf_bind fun _ _ => objectionOf_bind fun _ _ => objectionOf_bind fun _ _ =>
    objectionOf_bind fun _ _ => rfl

namespace Emitter

/-- What is looked at before an emitter is prepared. -/
inductive Check where
  | sentinel
  | callback (span : SpanDecl)
  | shared (name : String) (ty : Ty)
  /-- The span `s` of a color against the first one. -/
  | member (color : Nat) (first s : SpanId)
  | start (color : Nat)
  | slot (color : Nat) (first : SpanId)
  | reason
deriving DecidableEq

namespace Check

def objection (options : SpanOptions) (c : Coloring) (p : Program) : Check → Option BuildError
  | sentinel => if options.errorSentinel = 0 then some .zeroSentinel else none
  | callback span =>
    match p.decl? span.callback with
    | none => some (.undeclaredCallback span.name)
    | some d =>
      if d.sig.ret ≠ .i32 then some (.returnType d.name .i32 d.sig.ret)
      else if d.sig.params ≠ [.ptr .state, .bytes, .bytes] then some (.callbackParams d.name)
      else none
  | shared name ty =>
    match p.layout.lookup name with
    | none => some (.missingField name)
    | some f => if f.ty = ty then none else some (.fieldType name ty f.ty)
  | member color first s =>
    (c.span? first).bind fun a => (c.span? s).bind fun b =>
      if p.conv? b.callback = p.conv? a.callback then none
      else some (.mixedSignatures color a.name b.name)
  | start color => p.layout.conflict (ColorSlots.startName color) .bytes
  | slot color first =>
    (c.span? first).bind fun a => (p.conv? a.callback).bind fun conv =>
      p.layout.conflict (ColorSlots.slotName color) (callbackSig conv).ptr
  | reason => if '\x00' ∈ options.errorReason.toList then some .interiorNul else none

def ofColor (color : Nat) : List SpanId → List Check
  | [] => []
  | first :: rest =>
    rest.map (member color first) ++ start color :: if rest.isEmpty then [] else [slot color first]

def ofColors (color : Nat) : List (List SpanId) → List Check
  | [] => []
  | members :: rest => ofColor color members ++ ofColors (color + 1) rest

end Check

def checks (c : Coloring) : List Check :=
  .sentinel :: c.spans.map .callback ++
    SharedFields.expected.map (fun (name, ty) => .shared name ty) ++ Check.ofColors 0 c.colors ++
    [.reason]

/-- What is asked of the options, of the coloring and of the program. -/
structure Acceptable (options : SpanOptions) (c : Coloring) (p : Program) : Prop where
  sentinel : options.errorSentinel ≠ 0
  callbacks : ∀ span ∈ c.spans, ∃ d, p.decl? span.callback = some d ∧ d.sig.ret = .i32 ∧
    d.sig.params = [.ptr .state, .bytes, .bytes]
  shared : ∀ name ty, (name, ty) ∈ SharedFields.expected →
    ∃ f, p.layout.lookup name = some f ∧ f.ty = ty
  conventions : ∀ members ∈ c.colors, ∀ s ∈ members, ∀ t ∈ members, ∀ a b,
    c.span? s = some a → c.span? t = some b → p.conv? a.callback = p.conv? b.callback
  starts : ∀ i < c.colors.length, ∀ f,
    p.layout.lookup (ColorSlots.startName i) = some f → f.ty = .bytes
  slots : ∀ i members, c.colors[i]? = some members → 1 < members.length →
    ∀ s ∈ members, ∀ a conv, c.span? s = some a → p.conv? a.callback = some conv →
      ∀ f, p.layout.lookup (ColorSlots.slotName i) = some f → f.ty = (callbackSig conv).ptr
  reason : '\x00' ∉ options.errorReason.toList

section Objections

variable (options : SpanOptions) (c : Coloring) (p : Program)

theorem objectionOf_checkCallback (span : SpanDecl) :
    objectionOf (checkCallback p span) = Check.objection options c p (.callback span) := by
  cases hd : p.decl? span.callback with
  | none => simp [checkCallback, Check.objection, hd, objectionOf]
  | some d =>
    by_cases hret : d.sig.ret = .i32 <;>
      by_cases hparams : d.sig.params = [.ptr .state, .bytes, .bytes] <;>
        simp [checkCallback, Check.objection, hd, hret, hparams, parserSig, callbackSig,
          objectionOf]

theorem objectionOf_find (name : String) (ty : Ty) :
    objectionOf (SharedFields.find p.layout name ty) =
      Check.objection options c p (.shared name ty) := by
  cases hf : p.layout.lookup name with
  | none => simp [SharedFields.find, Check.objection, hf, objectionOf]
  | some f =>
    by_cases hty : f.ty = ty <;> simp [SharedFields.find, Check.objection, hf, hty, objectionOf]

theorem objectionOf_resolve : objectionOf (SharedFields.resolve p.layout) =
    (SharedFields.expected.map fun (name, ty) => Check.shared name ty).findSome?
      (Check.objection options c p) := by
  rw [SharedFields.resolve_eq_collect, SharedFields.objectionOf_collect, List.findSome?_map]
  exact findSome?_congr fun ask _ => objectionOf_find options c p ask.1 ask.2

variable {options c p}

def Typed (c : Coloring) (p : Program) (members : List SpanId) : Prop :=
  ∀ s ∈ members, ∃ span d, c.span? s = some span ∧ p.decl? span.callback = some d ∧
    d.sig = callbackSig d.sig.conv

theorem objectionOf_sharedCallbacks {color : Nat} {first : SpanId} {a : SpanDecl} {d : Decl}
    {rest : List SpanId} (ha : c.span? first = some a) (hd : p.decl? a.callback = some d)
    (hsig : d.sig = callbackSig d.sig.conv) (hrest : Typed c p rest) :
    objectionOf (c.sharedCallbacks p color a.name d.sig rest) =
      (rest.map (Check.member color first)).findSome? (Check.objection options c p) := by
  induction rest with
  | nil => rfl
  | cons s rest ih =>
    obtain ⟨⟨b, e, hb, he, hsig'⟩, hrest⟩ := List.forall_mem_cons.1 hrest
    have hcallee : c.callee p s = .ok (b, e) := by simp [Coloring.callee, hb, he]
    -- Two callbacks differ at most in their convention.
    have hconv : e.sig = d.sig ↔ p.conv? b.callback = p.conv? a.callback := by
      simp only [Program.conv?, hd, he, Option.map_some, Option.some.injEq]
      exact ⟨congrArg Signature.conv, fun h => by rw [hsig', hsig, h]⟩
    have hcheck : Check.objection options c p (.member color first s) =
        if e.sig = d.sig then none else some (.mixedSignatures color a.name b.name) := by
      simp [Check.objection, ha, hb, hconv]
    rw [List.map_cons, findSome?_cons_or, hcheck, ← ih hrest, Coloring.sharedCallbacks, hcallee]
    by_cases heq : e.sig = d.sig
    · simp only [heq, ↓reduceIte, bind, Except.bind]
      cases c.sharedCallbacks p color a.name d.sig rest <;> rfl
    · simp [heq, bind, Except.bind, throw, throwThe, MonadExceptOf.throw, objectionOf]

theorem objection_planColor {color : Nat} {members : List SpanId} (hne : members ≠ [])
    (htyped : Typed c p members) : Build.objection (c.planColor color members) p =
      (Check.ofColor color members).findSome? (Check.objection options c p) := by
  match members, hne with
  | first :: rest, _ =>
    obtain ⟨⟨a, d, ha, hd, hsig⟩, hrest⟩ := List.forall_mem_cons.1 htyped
    have hcallee : Build.check (c.callee · first) p = .ok (a, d) p :=
      Build.check_of_ok (by simp [Coloring.callee, ha, hd])
    have hslot : Check.objection options c p (.slot color first) =
        p.layout.conflict (ColorSlots.slotName color) d.sig.ptr := by
      simp only [Check.objection, ha, Program.conv?, hd, Option.map_some, Option.bind_some]
      rw [← hsig]
    rw [Check.ofColor, List.findSome?_append, findSome?_cons_or,
      ← objectionOf_sharedCallbacks ha hd hsig hrest, Coloring.planColor]
    refine (Build.objection_bind_of_ok hcallee).trans ?_
    refine Build.objection_check_bind fun others _ => ?_
    rw [Check.objection, ← Program.objection_declare]
    refine Build.objection_bind fun start q hq => ?_
    cases rest with
    | nil => rfl
    | cons t rest =>
      -- The start that was just declared has another name.
      have hlookup : q.layout.lookup (ColorSlots.slotName color) =
          p.layout.lookup (ColorSlots.slotName color) := by
        have hsupplied := Program.supplies_declare (ColorSlots.startName color) .bytes p
        rw [hq] at hsupplied
        exact hsupplied.lookup_eq (by simpa using (ColorSlots.startName_ne_slotName _ _).symm)
      calc
        _ = Build.objection (Program.onLayout
            (Layout.declare (ColorSlots.slotName color) d.sig.ptr)) q :=
          Build.objection_bind_pure _ _ q
        _ = Check.objection options c p (.slot color first) := by
          rw [Program.objection_declare, Layout.conflict_congr hlookup, hslot]
        _ = _ := by simp

/-- A check of a color looks at the callbacks and at the fields of that color. -/
theorem objection_congr {q : Program} {color : Nat} {colors : List (List SpanId)}
    (hdecls : q.decls = p.decls) (hlookup : ∀ name, ColorSlots.NamesFrom color name →
      q.layout.lookup name = p.layout.lookup name) :
    ∀ k ∈ Check.ofColors color colors, Check.objection options c q k =
      Check.objection options c p k := by
  have hconv : ∀ f, q.conv? f = p.conv? f := by
    intro f
    rw [Program.conv?, Program.conv?, Program.decl?, Program.decl?, hdecls]
  induction colors generalizing color with
  | nil => simp [Check.ofColors]
  | cons members rest ih =>
    intro k hk
    rcases List.mem_append.1 hk with hmem | hmem
    · rcases members with _ | ⟨first, others⟩
      · simp [Check.ofColor] at hmem
      · rcases List.mem_append.1 hmem with hmember | hfield
        · obtain ⟨s, -, rfl⟩ := List.mem_map.1 hmember
          simp only [Check.objection, hconv]
        · rcases List.mem_cons.1 hfield with rfl | hslot
          · exact Layout.conflict_congr (hlookup _ ⟨color, le_rfl, .inl rfl⟩) _
          · obtain rfl : k = .slot color first := by
              split at hslot
              · simp at hslot
              · exact List.mem_singleton.1 hslot
            simp only [Check.objection, hconv,
              Layout.conflict_congr (hlookup _ ⟨color, le_rfl, .inr rfl⟩)]
    · refine ih (fun name hname => hlookup name ?_) k hmem
      obtain ⟨i, hi, hname⟩ := hname
      exact ⟨i, by omega, hname⟩

theorem objection_planFrom {color : Nat} {colors : List (List SpanId)}
    (hne : ∀ members ∈ colors, members ≠ []) (htyped : ∀ members ∈ colors, Typed c p members) :
    Build.objection (c.planFrom color colors) p =
      (Check.ofColors color colors).findSome? (Check.objection options c p) := by
  induction colors generalizing color p with
  | nil => rfl
  | cons members rest ih =>
    rw [Check.ofColors, List.findSome?_append, Coloring.planFrom,
      ← objection_planColor (hne members List.mem_cons_self) (htyped members List.mem_cons_self)]
    refine Build.objection_bind fun slots q hq => ?_
    have hsupplied := c.supplies_planColor color members p
    rw [hq] at hsupplied
    have htyped' : ∀ members ∈ rest, Typed c q members := by
      intro m hm s hs
      obtain ⟨span, d, hspan, hd, hsig⟩ := htyped m (List.mem_cons_of_mem _ hm) s hs
      exact ⟨span, d, hspan, (hsupplied.decl?_eq _).trans hd, hsig⟩
    rw [Build.objection_bind_pure, ih (fun m hm => hne m (List.mem_cons_of_mem _ hm)) htyped']
    exact findSome?_congr (objection_congr hsupplied.decls fun name hname =>
      hsupplied.lookup_eq hname.not_mem)

theorem checkCallback_eq_ok {span : SpanDecl} : checkCallback p span = .ok () ↔
    ∃ d, p.decl? span.callback = some d ∧ d.sig.ret = .i32 ∧
      d.sig.params = [.ptr .state, .bytes, .bytes] := by
  unfold checkCallback
  cases p.decl? span.callback with
  | none => simp
  | some d =>
    by_cases hret : d.sig.ret = .i32 <;>
      by_cases hparams : d.sig.params = [.ptr .state, .bytes, .bytes] <;>
        simp [hret, hparams, parserSig, callbackSig]

theorem typed_of_forM (hc : c.Valid) (h : c.spans.forM (checkCallback p) = .ok ()) :
    ∀ members ∈ c.colors, Typed c p members := by
  intro members hm s hs
  have hlt := hc.known s (List.mem_flatten.2 ⟨members, hm, hs⟩)
  have hspan : c.span? s = some c.spans[s.index] := List.getElem?_eq_getElem hlt
  obtain ⟨d, hd, hret, hparams⟩ :=
    checkCallback_eq_ok.1 (forM_eq_ok.1 h _ (List.getElem_mem hlt))
  refine ⟨_, d, hspan, hd, ?_⟩
  rw [callbackSig, ← hret, ← hparams]

/-- Preparing an emitter objects to what the first check objects to that objects at all. -/
theorem objection_prepare (hc : c.Valid) : Build.objection (prepare options c) p =
    (checks c).findSome? (Check.objection options c p) := by
  have hchecks : (checks c).findSome? (Check.objection options c p) =
      (Check.objection options c p .sentinel).or
        ((objectionOf (c.spans.forM (checkCallback p))).or
          ((objectionOf (SharedFields.resolve p.layout)).or
            (((Check.ofColors 0 c.colors).findSome? (Check.objection options c p)).or
              (Check.objection options c p .reason)))) := by
    rw [objectionOf_forM, objectionOf_resolve options c p, checks]
    simp only [List.cons_append, List.append_assoc, findSome?_cons_or, List.findSome?_append,
      List.findSome?_map, List.findSome?_nil, Option.or_none, objectionOf_checkCallback options c p]
    rfl
  rw [hchecks]
  by_cases hsentinel : options.errorSentinel = 0
  · have hfail : prepare options c p = .error .zeroSentinel p := by
      simp [prepare, hsentinel, bind_eq]
    rw [Build.objection_eq_some.2 ⟨p, hfail⟩]
    simp [Check.objection, hsentinel]
  · have hpass : Check.objection options c p .sentinel = none := by
      simp [Check.objection, hsentinel]
    rw [hpass, Option.none_or]
    simp only [prepare, hsentinel, ↓reduceIte]
    refine Build.objection_check_bind fun _ hcallbacks => ?_
    refine Build.objection_check_bind fun shared _ => ?_
    rw [← objection_planFrom hc.nonempty (typed_of_forM hc hcallbacks)]
    refine Build.objection_bind fun colors q _ => ?_
    rw [Build.objection_bind_pure, ErrorRecord.prepare, Build.objection_bind_pure,
      Program.objection_intern]
    rfl

end Objections

section Requirements

variable {options : SpanOptions} {c : Coloring} {p : Program}

theorem forall_mem_ofColors {P : Check → Prop} {color : Nat} {colors : List (List SpanId)} :
    (∀ k ∈ Check.ofColors color colors, P k) ↔ ∀ (i : Nat) (members : List SpanId),
      colors[i]? = some members → ∀ k ∈ Check.ofColor (color + i) members, P k := by
  induction colors generalizing color with
  | nil => simp [Check.ofColors]
  | cons members rest ih =>
    rw [Check.ofColors, List.forall_mem_append, ih]
    constructor
    · rintro ⟨hfirst, hrest⟩ i m hm
      cases i with
      | zero =>
        obtain rfl : members = m := by simpa using hm
        exact hfirst
      | succ i =>
        have hi := hrest i m (by simpa using hm)
        rwa [Nat.add_assoc, Nat.add_comm 1] at hi
    · intro h
      refine ⟨h 0 members rfl, fun i m hm => ?_⟩
      have hi := h (i + 1) m (by simpa using hm)
      rwa [Nat.add_comm i, ← Nat.add_assoc] at hi

theorem forall_mem_checks {P : Check → Prop} : (∀ k ∈ checks c, P k) ↔
    P .sentinel ∧ (∀ span ∈ c.spans, P (.callback span)) ∧
      (∀ name ty, (name, ty) ∈ SharedFields.expected → P (.shared name ty)) ∧
      (∀ (i : Nat) (members : List SpanId), c.colors[i]? = some members →
        ∀ k ∈ Check.ofColor i members, P k) ∧ P .reason := by
  have hcolors : (∀ k ∈ Check.ofColors 0 c.colors, P k) ↔ _ := forall_mem_ofColors
  simp only [Nat.zero_add] at hcolors
  rw [← hcolors]
  simp only [checks, List.cons_append, List.append_assoc, List.forall_mem_cons,
    List.forall_mem_append, List.forall_mem_map, Prod.forall, List.not_mem_nil, IsEmpty.forall_iff,
    implies_true, and_true]

/-- A color meets no objection if its members have one convention and its fields are free or of the
right type. -/
theorem ofColor_accepts {i : Nat} {members : List SpanId} (hne : members ≠ [])
    (hknown : ∀ s ∈ members, ∃ a, c.span? s = some a) :
    (∀ k ∈ Check.ofColor i members, Check.objection options c p k = none) ↔
      (∀ s ∈ members, ∀ t ∈ members, ∀ a b, c.span? s = some a → c.span? t = some b →
        p.conv? a.callback = p.conv? b.callback) ∧
      (∀ f, p.layout.lookup (ColorSlots.startName i) = some f → f.ty = .bytes) ∧
      (1 < members.length → ∀ s ∈ members, ∀ a conv, c.span? s = some a →
        p.conv? a.callback = some conv → ∀ f, p.layout.lookup (ColorSlots.slotName i) = some f →
          f.ty = (callbackSig conv).ptr) := by
  match members, hne with
  | first :: rest, _ =>
    obtain ⟨⟨a₀, ha₀⟩, hrest⟩ := List.forall_mem_cons.1 hknown
    rw [Check.ofColor, List.forall_mem_append, List.forall_mem_map, List.forall_mem_cons]
    constructor
    · rintro ⟨hmembers, hstart, hslot⟩
      -- Every member has the convention of the first one.
      have hsame : ∀ s ∈ first :: rest, ∀ b, c.span? s = some b →
          p.conv? b.callback = p.conv? a₀.callback := by
        intro s hs b hb
        rcases List.mem_cons.1 hs with rfl | hs
        · rw [Option.some.inj (ha₀.symm.trans hb)]
        · simpa [Check.objection, ha₀, hb] using hmembers s hs
      refine ⟨fun s hs t ht a b ha hb => (hsame s hs a ha).trans (hsame t ht b hb).symm,
        Layout.conflict_eq_none.1 hstart, ?_⟩
      intro hlen s hs a conv ha hconv
      have hfirst : p.conv? a₀.callback = some conv := (hsame s hs a ha).symm.trans hconv
      have hmany : ¬ rest.isEmpty := by
        intro hempty
        simp [List.isEmpty_iff.1 hempty] at hlen
      have hnone := hslot (.slot i first) (by simp [hmany])
      exact Layout.conflict_eq_none.1 (by simpa [Check.objection, ha₀, hfirst] using hnone)
    · rintro ⟨hconv, hstart, hslot⟩
      refine ⟨fun s hs => ?_, Layout.conflict_eq_none.2 hstart, fun k hk => ?_⟩
      · obtain ⟨b, hb⟩ := hrest s hs
        have heq := hconv s (List.mem_cons_of_mem _ hs) first List.mem_cons_self b a₀ hb ha₀
        simp [Check.objection, ha₀, hb, heq]
      · split at hk
        · simp at hk
        · rename_i hmany
          obtain rfl := List.mem_singleton.1 hk
          have hlen : 1 < (first :: rest).length := by
            have hpos := List.length_pos_iff.2 fun hnil => hmany (List.isEmpty_iff.2 hnil)
            simpa using hpos
          simp only [Check.objection, ha₀, Option.bind_some]
          cases hfirst : p.conv? a₀.callback with
          | none => rfl
          | some conv =>
            exact Layout.conflict_eq_none.2 (hslot hlen first List.mem_cons_self a₀ conv ha₀ hfirst)

theorem objection_callback_eq_none {span : SpanDecl} :
    Check.objection options c p (.callback span) = none ↔ ∃ d, p.decl? span.callback = some d ∧
      d.sig.ret = .i32 ∧ d.sig.params = [.ptr .state, .bytes, .bytes] := by
  rw [← objectionOf_checkCallback, ← checkCallback_eq_ok]
  cases checkCallback p span <;> simp [objectionOf]

theorem objection_shared_eq_none {name : String} {ty : Ty} :
    Check.objection options c p (.shared name ty) = none ↔
      ∃ f, p.layout.lookup name = some f ∧ f.ty = ty := by
  unfold Check.objection
  dsimp only
  cases p.layout.lookup name <;> simp

/-- No check objects exactly if everything is as asked. -/
theorem checks_pass (hc : c.Valid) :
    (∀ k ∈ checks c, Check.objection options c p k = none) ↔ Acceptable options c p := by
  have hne : ∀ {i : Nat} {members : List SpanId}, c.colors[i]? = some members → members ≠ [] :=
    fun hm => hc.nonempty _ (List.mem_of_getElem? hm)
  have hknown : ∀ {i : Nat} {members : List SpanId}, c.colors[i]? = some members →
      ∀ s ∈ members, ∃ a, c.span? s = some a := by
    intro i members hm s hs
    have hmem := List.mem_flatten.2 ⟨members, List.mem_of_getElem? hm, hs⟩
    exact ⟨_, List.getElem?_eq_getElem (hc.known s hmem)⟩
  rw [forall_mem_checks]
  constructor
  · rintro ⟨hsentinel, hcallbacks, hshared, hcolors, hreason⟩
    refine ⟨by simpa [Check.objection] using hsentinel,
      fun span hspan => objection_callback_eq_none.1 (hcallbacks span hspan),
      fun name ty h => objection_shared_eq_none.1 (hshared name ty h), ?_, ?_, ?_,
      by simpa [Check.objection] using hreason⟩
    · intro members hmem
      obtain ⟨i, hi⟩ := List.getElem?_of_mem hmem
      exact ((ofColor_accepts (hne hi) (hknown hi)).1 (hcolors i members hi)).1
    · intro i hi
      have hm := List.getElem?_eq_getElem hi
      exact ((ofColor_accepts (hne hm) (hknown hm)).1 (hcolors i _ hm)).2.1
    · intro i members hm
      exact ((ofColor_accepts (hne hm) (hknown hm)).1 (hcolors i members hm)).2.2
  · intro h
    refine ⟨by simpa [Check.objection] using h.sentinel,
      fun span hspan => objection_callback_eq_none.2 (h.callbacks span hspan),
      fun name ty hty => objection_shared_eq_none.2 (h.shared name ty hty), fun i members hm => ?_,
      by simpa [Check.objection] using h.reason⟩
    exact (ofColor_accepts (hne hm) (hknown hm)).2
      ⟨h.conventions members (List.mem_of_getElem? hm),
        h.starts i (List.getElem?_eq_some_iff.1 hm).1, h.slots i members hm⟩

end Requirements

/-- An emitter is prepared exactly if everything is as asked of the options, the coloring and the
program. Otherwise the first check that objects to the program as it was is reported. -/
theorem acceptance_exact {c : Coloring} (hc : c.Valid) (options : SpanOptions) (p : Program) :
    ((∃ e p', prepare options c p = .ok e p') ↔ Acceptable options c p) ∧
    ∀ err, (∃ p', prepare options c p = .error err p') ↔
      ∃ passed k later, checks c = passed ++ k :: later ∧
        Check.objection options c p k = some err ∧
        ∀ k' ∈ passed, Check.objection options c p k' = none := by
  constructor
  · rw [← Build.objection_eq_none, objection_prepare hc, List.findSome?_eq_none_iff]
    exact checks_pass hc
  · intro err
    rw [← Build.objection_eq_some, objection_prepare hc]
    exact List.findSome?_eq_some_iff

/-- With a field in the way and a reason that cannot be written, the field is reported. -/
theorem acceptance_exact_twoFaults : sharedPair.Valid ∧
    ∃ p', prepare { errorReason := "\x00" } sharedPair pairClashing =
      .error (.fieldTypeConflict (ColorSlots.slotName 0) .i32 parserSig.ptr) p' := by
  refine ⟨sharedPair_valid, ((acceptance_exact sharedPair_valid _ _).2 _).2 ?_⟩
  exact List.findSome?_eq_some_iff.1 rfl

end Emitter

end SpanTracking
