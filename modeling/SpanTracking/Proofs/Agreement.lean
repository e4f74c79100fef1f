import SpanTracking.Proofs.Checks
import SpanTracking.Proofs.Errors

set_option autoImplicit false

/-!
# Options that leave behaviour alone

The same pages assembled with and without checks, and with and without lists of callees, give
programs that cannot be told apart from outside until a span is ended that is not open. Then the one
with checks traps, and the one without calls the callback with a null position, which the host
refuses.
-/

namespace SpanTracking

variable {σ : Type}

def Page.plans (colors : Nat) (pages : List Page) (f : FuncId) : Option Plan :=
  (pages.find? fun page => page.id = f).bind (Page.plan? colors)

namespace Page

/-- What has become of a function when pages have been assembled and defined. -/
theorem defineAll?_cases {e : Emitter} {pages : List Page} {p q : Program}
    {assemblies : List Assembly} (h : defineAll? e pages p = some (q, assemblies)) (f : FuncId) :
    (q.decl? f = p.decl? f ∧ plans e.colors.length pages f = none) ∨
    ∃ a k sites d, p.decl? f = some d ∧ d.body = none ∧ d.name = a.draft.body.name ∧
      q.decl? f = some { d with body := some a.draft.body } ∧ a.draft.body.id = f ∧
      a.draft.body.verify = .ok () ∧ Assembly.find? assemblies f = some a ∧
      plans e.colors.length pages f = some k ∧ Drawing.Follows e a k sites := by
  induction pages generalizing p assemblies with
  | nil =>
    obtain ⟨rfl, rfl⟩ := Prod.mk.inj (Option.some.inj h)
    exact .inl ⟨rfl, rfl⟩
  | cons page rest ih =>
    obtain ⟨a, hwrite, h⟩ := Option.bind_eq_some_iff.1 h
    obtain ⟨hid, k, sites, hk, hfollows⟩ := page.follows hwrite
    split at h
    · rename_i u p' hdefine
      obtain ⟨⟨q', others⟩, hrest, h⟩ := Option.bind_eq_some_iff.1 h
      obtain ⟨rfl, rfl⟩ := Prod.mk.inj (Option.some.inj h)
      obtain ⟨hverify, d, hd, -, hname, hnone, hp'⟩ := Program.define_cases hdefine
      by_cases hf : page.id = f
      · have hself : p'.decl? f = some { d with body := some a.draft.body } := by
          rw [← hf, ← hid, hp']
          have hlt : a.draft.body.id.index < p.decls.length := (List.getElem?_eq_some_iff.1 hd).1
          simp [Program.decl?, hlt]
        -- No later page is that of the same function, which has a body now.
        rcases ih hrest with ⟨hq, -⟩ | ⟨_, _, _, d', hd', hnone', -⟩
        · refine .inr ⟨a, k, sites, d, ?_, hnone, hname, hq.trans hself, hid.trans hf, hverify, ?_,
            ?_, hfollows⟩
          · rw [← hf, ← hid]
            exact hd
          · simp [Assembly.find?, hid, hf]
          · simp [plans, hf, hk]
        · rw [hself] at hd'
          obtain rfl := Option.some.inj hd'
          simp at hnone'
      · have hne : a.draft.body.id ≠ f := by rwa [hid]
        have hother := Program.decl?_of_define_ne hdefine hne
        rcases ih hrest with ⟨hq, hplan⟩ |
          ⟨a', k', sites', d', hd', hnone', hname', hq, hid', hverify', hfind, hplan, hfollows'⟩
        · refine .inl ⟨hq.trans hother, ?_⟩
          simpa [plans, hf] using hplan
        · refine .inr ⟨a', k', sites', d', hother.symm.trans hd', hnone', hname', hq, hid',
            hverify', ?_, ?_, hfollows'⟩
          · simpa [Assembly.find?, hne] using hfind
          · simpa [plans, hf] using hplan
    · simp at h

theorem layout_of_defineAll? {e : Emitter} {pages : List Page} {p q : Program}
    {assemblies : List Assembly} (h : defineAll? e pages p = some (q, assemblies)) :
    q.layout = p.layout := by
  induction pages generalizing p assemblies with
  | nil =>
    obtain ⟨rfl, -⟩ := Prod.mk.inj (Option.some.inj h)
    rfl
  | cons page rest ih =>
    obtain ⟨a, -, h⟩ := Option.bind_eq_some_iff.1 h
    split at h
    · rename_i u p' hdefine
      obtain ⟨⟨q', others⟩, hrest, h⟩ := Option.bind_eq_some_iff.1 h
      obtain ⟨rfl, -⟩ := Prod.mk.inj (Option.some.inj h)
      obtain ⟨-, d, -, -, -, -, hp'⟩ := Program.define_cases hdefine
      rw [ih hrest, hp']
    · simp at h

end Page

def Machine.invoked (q : Program) (invocations : List (Invocation σ)) (host : σ) :
    List (Moment σ) :=
  session q (invocations.map Invocation.request) { memory := .fresh q.layout, host }

namespace Checks

open Machine

/-- How a call ends in which a span end finds no start: with checks it traps, and without them the
host refuses the null position. Nothing is changed. -/
def Stops (e : Emitter) (q : Program) (host : Host σ) : Stop σ := fun f s w r =>
  (e.options.debugChecks = true → ∃ d, q.decl? f = some d ∧ r = .error (.trap d.name) w) ∧
  (e.options.debugChecks = false → ∀ span color slots d, e.locate s = .ok (span, color, slots) →
    q.decl? span.callback = some d → d.body = none → (host.answer span.callback).isSome →
    r = .error (.nullPosition d.name) w)

section Program

variable {e : Emitter} {p q : Program} {pages : List Page} {assemblies : List Assembly}
  {host : Host σ} {limit : Nat}

def ask (p : Program) (host : Host σ) (limit : Nat) (f : FuncId) (args : List Value)
    (w : World σ) : Ending σ :=
  .ofResult (Machine.call p host limit 0 f args w)

theorem ask_leaves (hbodiless : ∀ f, p.body? f = none) (f : FuncId) (args : List Value)
    {w : World σ} (hw : Tidy e p w) : (ask p host limit f args w).Leaves (Tidy e p) := by
  rw [ask]
  rcases call_of_body_none host limit 0 args w (hbodiless f) with ⟨fault, h⟩ | ⟨_, _, -, h⟩
  · rw [h]
    exact hw
  · rw [h]
    exact ⟨hw.fits, hw.starts⟩

theorem ask_defined (hbodiless : ∀ f, p.body? f = none) (f : FuncId) (args : List Value)
    (w : World σ) : (ask p host limit f args w).Defined := by
  have hb : ∀ d, p.decl? f = some d → d.body = none := by
    intro d hd
    simpa [Program.body?, hd] using hbodiless f
  cases hd : p.decl? f with
  | none => simp [ask, call, dispatch, hd, Ending.ofResult, Ending.Defined]
  | some d =>
    rw [ask, call_of_ask hd (hb d hd), askHost]
    split
    · rintro r ⟨⟩
    · split
      · rintro r ⟨⟩
      · trivial

theorem carries_ask {stops : Stop σ} (hbodiless : ∀ f, p.body? f = none) {f : FuncId}
    (hdecl : q.decl? f = p.decl? f) (depth : Nat) (args : List Value) (w : World σ) :
    Carries assemblies stops (ask p host limit f args w) (trace q host limit depth f args w)
      (call q host limit depth f args w) := by
  have hbody : q.body? f = none := by
    rw [Program.body?, hdecl]
    exact hbodiless f
  rw [trace_of_body_none hbody, ask, call_of_decl_eq hdecl (hbodiless f) depth 0]
  cases call p host limit 0 f args w with
  | ok v w' => exact ⟨rfl, rfl⟩
  | error fault w' => exact .inr ⟨rfl, fault, rfl, rfl⟩

theorem Stops.free {f : FuncId} {s : SpanId} {w w' : World σ} {v : Value}
    (h : Stops e q host f s w (.ok v w')) (r : EStateM.Result Fault (World σ) Value) :
    Stops e q host f s w r := by
  refine ⟨fun hchecks => ?_, fun hchecks span color slots d hs hd hb hhost => ?_⟩
  · obtain ⟨d, -, hr⟩ := h.1 hchecks
    simp at hr
  · have hr := h.2 hchecks span color slots d hs hd hb hhost
    simp at hr

theorem Stops.null (hchecks : e.options.debugChecks = false) {s : SpanId} {span : SpanDecl}
    {color : Nat} {slots : ColorSlots} (hs : e.locate s = .ok (span, color, slots)) (f : FuncId)
    (depth : Nat) (base stop : Value) (w : World σ) :
    (∀ r, Stops e q host f s w r) ∨
      ∃ fault, trace q host limit depth span.callback [base, .ptr none, stop] w = [] ∧
        call q host limit depth span.callback [base, .ptr none, stop] w = .error fault w ∧
        Stops e q host f s w (.error fault w) := by
  have hcases : ∀ r, (∀ d, q.decl? span.callback = some d → d.body = none →
      (host.answer span.callback).isSome → r = .error (.nullPosition d.name) w) →
      Stops e q host f s w r := by
    refine fun r hr => ⟨by simp [hchecks], fun _ span' color' slots' d hs' => ?_⟩
    obtain ⟨rfl, -⟩ := Prod.mk.inj (Except.ok.inj (hs.symm.trans hs'))
    exact hr d
  cases hd : q.decl? span.callback with
  | none => exact .inl fun r => hcases r (by simp [hd])
  | some d =>
    cases hb : d.body with
    | some b => exact .inl fun r => hcases r (by simp [hd, hb])
    | none =>
      cases hhost : host.answer span.callback with
      | none => exact .inl fun r => hcases r (by simp [hhost])
      | some reply =>
        refine .inr ⟨.nullPosition d.name, trace_of_body_none (by simp [Program.body?, hd, hb]) _,
          ?_, hcases _ ?_⟩
        · rw [call_of_ask hd hb, askHost, hhost]
          rfl
        · intro d' hd' _ _
          obtain rfl := Option.some.inj (hd.symm.trans hd')
          rfl

theorem carries_call (he : e.Serves p) (hbodiless : ∀ f, p.body? f = none)
    (h : Page.defineAll? e pages p = some (q, assemblies)) (depth : Nat) (f : FuncId)
    (base : Value) {pos : Value} (stop : Value) {w : World σ} (hpos : pos.isNull = false)
    (hw : Tidy e p w) :
    Carries assemblies (Stops e q host)
      (Plan.call e (Page.plans e.colors.length pages) (ask p host limit) limit depth f
        [base, pos, stop] w)
      (trace q host limit depth f [base, pos, stop] w)
      (call q host limit depth f [base, pos, stop] w) := by
  -- By induction on the depth, since the functions that are called are one level further down.
  induction depth generalizing f base pos stop w with
  | zero =>
    rcases Page.defineAll?_cases h f with ⟨hdecl, hplan⟩ |
      ⟨a, k, sites, d, hd, -, hname, hq, hid, hverify, hfind, hplan, hfollows⟩
    · rw [Plan.call, hplan]
      exact carries_ask hbodiless hdecl _ _ w
    · have hbody : q.body? f = some a.draft.body := by simp [Program.body?, hq]
      rw [Plan.call, hplan, call_of_body_zero hbody]
      exact .inr ⟨rfl, _, rfl, rfl⟩
  | succ depth ih =>
    rcases Page.defineAll?_cases h f with ⟨hdecl, hplan⟩ |
      ⟨a, k, sites, d, hd, -, hname, hq, hid, hverify, hfind, hplan, hfollows⟩
    · rw [Plan.call, hplan]
      exact carries_ask hbodiless hdecl _ _ w
    · have hbody : q.body? f = some a.draft.body := by simp [Program.body?, hq]
      rw [Plan.call, hplan, call_of_body hbody, trace_of_body hbody]
      have S : Setting e p assemblies (Stops e q host)
          (Plan.call e (Page.plans e.colors.length pages) (ask p host limit) limit depth) a k sites
          ⟨call q host limit depth, trace q host limit depth, limit, a.draft.body,
            [base, pos, stop]⟩ ⟨base, pos, stop⟩ := by
        refine ⟨he, hfollows.draws, hverify, by rwa [hid], rfl, rfl, hpos, ?_, ?_, ?_, ?_⟩
        · intro f base pos stop w hpos hw
          exact ⟨ih f base stop hpos hw, Plan.call_leaves he (fun f args w hw =>
            ask_leaves hbodiless f args hw) limit depth f base stop hpos hw⟩
        · exact fun f s w v w' hstop => hstop.free
        · intro hchecks s w
          refine ⟨fun _ => ⟨_, by rw [hid]; exact hq, by rw [hname]⟩, by simp [hchecks]⟩
        · intro hchecks s span color slots hs f base stop w
          exact Stops.null hchecks hs f depth base stop w
      obtain ⟨site, hsite, hentry⟩ := hfollows.draws.entry
      have hruns := S.runs limit limit (Nat.le_refl _) 0 site (fun _ => none)
        (List.replicate a.draft.body.regs.length none) w hsite ?_ (by simp) hw
      · rw [hentry, hid] at hruns
        exact hruns
      · intro i site r hsite hr
        rw [List.getElem?_replicate,
          if_pos (hfollows.draws.answers site (List.mem_of_getElem? hsite) r hr)]

theorem tidy_fresh (he : e.Serves p) (host : σ) :
    Tidy e p { memory := .fresh p.layout, host } := by
  refine ⟨by simp [Memory.fresh], fun slots hslots v hv _ => ?_⟩
  obtain ⟨color, hcolor⟩ := List.getElem?_of_mem hslots
  obtain ⟨_, rfl, hget⟩ := he.get?_fresh (Emitter.field_start hcolor)
  exact Option.some.inj (hv.symm.trans hget)

end Program

section Session

variable {assemblies : List Assembly} {ms : List (Moment σ)}

def endings (ms : List (Moment σ)) : List (Except Fault Value × World σ) :=
  ms.filterMap Moment.ending?

/-- What comes before the first span end that finds no start. -/
def upTo (assemblies : List Assembly) (ms : List (Moment σ)) : List (Moment σ) :=
  ms.takeWhile fun m => (m.missing? assemblies).isNone

def since (assemblies : List Assembly) (ms : List (Moment σ)) : List (Moment σ) :=
  ms.dropWhile fun m => (m.missing? assemblies).isNone

def blurred (x : Except Fault Value × World σ) : Except Fault Value × World σ :=
  (x.1.mapError Fault.blurred, x.2)

/-- The call in which a span end first finds no start ends there, in the world that the span end has
found. -/
def StopsThere (e : Emitter) (q : Program) (invocations : List (Invocation σ))
    (assemblies : List Assembly) (ms : List (Moment σ)) : Prop :=
  ∀ f s w, ms.findSome? (found? assemblies) = some (f, s, w) → ∃ v r,
    invocations[(endings (upTo assemblies ms)).length]? = some v ∧
    (endings (since assemblies ms)).head? = (Moment.ofResult r).ending? ∧
    Stops e q v.host f s w r

/-- How calls end that go by plans, until a span end finds no start. -/
def planned (run : Invocation σ → World σ → Ending σ) :
    List (Invocation σ) → World σ → List (Except Fault Value × World σ) × Find σ
  | [], _ => ([], none)
  | v :: rest, w =>
    match run v w with
    | .done code w => ((.ok code, w) :: (planned run rest w).1, (planned run rest w).2)
    | .fails fault w => ((.error fault, w) :: (planned run rest w).1, (planned run rest w).2)
    | .missing f s w => ([], some (f, s, w))
    | .spent => ([], none)

structure Accords (e : Emitter) (q : Program) (invocations : List (Invocation σ))
    (assemblies : List Assembly) (plan : List (Except Fault Value × World σ) × Find σ)
    (ms : List (Moment σ)) : Prop where
  ends : (endings (upTo assemblies ms)).map blurred = plan.1.map blurred
  found : ms.findSome? (found? assemblies) = plan.2
  stops : StopsThere e q invocations assemblies ms

variable {e : Emitter} {q : Program} {v : Invocation σ} {rest : List (Invocation σ)}
  {plan : List (Except Fault Value × World σ) × Find σ} {calm : List (Moment σ)} {w : World σ}

theorem Accords.cons (hending : ∀ m ∈ calm, m.ending? = none)
    (hfound : calm.findSome? (found? assemblies) = none) {x y : Except Fault Value}
    (hxy : x.mapError Fault.blurred = y.mapError Fault.blurred)
    (h : Accords e q rest assemblies plan ms) :
    Accords e q (v :: rest) assemblies ((y, w) :: plan.1, plan.2) (calm ++ .ended x w :: ms) := by
  have hnone : ∀ m ∈ calm ++ [.ended x w], (m.missing? assemblies).isNone := by
    intro m hm
    rcases List.mem_append.1 hm with hm | hm
    · simpa [found?] using List.findSome?_eq_none_iff.1 hfound m hm
    · rw [List.mem_singleton.1 hm]
      rfl
  have hendings : endings (calm ++ [.ended x w]) = [(x, w)] := by
    rw [endings, List.filterMap_append, List.filterMap_eq_nil_iff.2 hending]
    rfl
  have hup : endings (upTo assemblies (calm ++ .ended x w :: ms)) =
      (x, w) :: endings (upTo assemblies ms) := by
    rw [List.append_cons, upTo, List.takeWhile_append_of_pos hnone, endings,
      List.filterMap_append]
    exact congrArg (· ++ endings (upTo assemblies ms)) hendings
  have hsince : since assemblies (calm ++ .ended x w :: ms) = since assemblies ms := by
    rw [List.append_cons, since, List.dropWhile_append_of_pos hnone, since]
  have hfirst : (calm ++ .ended x w :: ms).findSome? (found? assemblies) =
      ms.findSome? (found? assemblies) := by
    rw [List.findSome?_append, hfound]
    rfl
  refine ⟨?_, hfirst.trans h.found, fun f s w' hf => ?_⟩
  · rw [hup, List.map_cons, List.map_cons, h.ends, blurred, blurred, hxy]
  · rw [hfirst] at hf
    rw [hup, hsince]
    exact h.stops f s w' hf

theorem Accords.stop (hending : ∀ m ∈ calm, m.ending? = none) {f : FuncId} {s : SpanId}
    (hfound : calm.findSome? (found? assemblies) = some (f, s, w))
    {r : EStateM.Result Fault (World σ) Value} (hstops : Stops e q v.host f s w r) :
    Accords e q (v :: rest) assemblies ([], some (f, s, w))
      (calm ++ Moment.ofResult r :: ms) := by
  obtain ⟨before, m, after, rfl, hm, hbefore⟩ := List.findSome?_eq_some_iff.1 hfound
  have hnone : ∀ x ∈ before, (x.missing? assemblies).isNone := by
    intro x hx
    simpa [found?] using hbefore x hx
  have hsome : (m.missing? assemblies).isNone = false := by
    rw [found?] at hm
    cases hmissing : m.missing? assemblies with
    | none => simp [hmissing] at hm
    | some x => rfl
  have hquiet : ∀ {l : List (Moment σ)}, (∀ x ∈ l, x ∈ before ++ m :: after) → endings l = [] :=
    fun hl => List.filterMap_eq_nil_iff.2 fun x hx => hending x (hl x hx)
  have hup : upTo assemblies (before ++ m :: (after ++ Moment.ofResult r :: ms)) = before := by
    rw [upTo, List.takeWhile_append_of_pos hnone, List.takeWhile_cons, hsome]
    simp
  have hsince : since assemblies (before ++ m :: (after ++ Moment.ofResult r :: ms)) =
      (m :: after) ++ Moment.ofResult r :: ms := by
    rw [since, List.dropWhile_append_of_pos hnone, List.dropWhile_cons, hsome]
    simp
  have hempty : endings before = [] := hquiet fun x hx => List.mem_append_left _ hx
  have hfirst : (before ++ m :: (after ++ Moment.ofResult r :: ms)).findSome?
      (found? assemblies) = some (f, s, w) := by
    rw [List.findSome?_eq_some_iff]
    exact ⟨before, m, _, rfl, hm, hbefore⟩
  have hend : (endings (m :: after ++ Moment.ofResult r :: ms)).head? =
      (Moment.ofResult r).ending? := by
    rw [endings, List.filterMap_append]
    have htail : (m :: after).filterMap Moment.ending? = [] :=
      hquiet fun x hx => List.mem_append_right _ hx
    rw [htail]
    cases r <;> rfl
  rw [List.append_assoc, List.cons_append]
  refine ⟨?_, hfirst, fun f' s' w' hf => ?_⟩
  · rw [hup, hempty]
  · obtain ⟨rfl, rfl, rfl⟩ : f = f' ∧ s = s' ∧ w = w' := by simpa [hfirst] using hf
    rw [hup, hsince, hempty]
    exact ⟨v, r, rfl, hend, hstops⟩

variable {p : Program} {pages : List Page} {invocations : List (Invocation σ)}

def scheduled (e : Emitter) (p : Program) (pages : List Page) (v : Invocation σ) (w : World σ) :
    Ending σ :=
  Plan.call e (Page.plans e.colors.length pages) (ask p v.host v.limit) v.limit v.depth v.callee
    v.request.args w

theorem accords_session (he : e.Serves p) (hbodiless : ∀ f, p.body? f = none)
    (h : Page.defineAll? e pages p = some (q, assemblies)) (hw : Tidy e p w)
    (hcut : ∀ m ∈ session q (invocations.map Invocation.request) w, m.isCut = false) :
    Accords e q invocations assemblies (planned (scheduled e p pages) invocations w)
      (session q (invocations.map Invocation.request) w) := by
  induction invocations generalizing w with
  | nil => exact ⟨rfl, rfl, fun f s w hf => by simp [session] at hf⟩
  | cons v rest ih =>
    have hcarries : Carries assemblies (Stops e q v.host) (scheduled e p pages v w)
        (trace q v.host v.limit v.depth v.callee v.request.args w)
        (call q v.host v.limit v.depth v.callee v.request.args w) :=
      carries_call he hbodiless h v.depth v.callee .state (.ptr (some v.stop)) rfl hw
    have hleaves : (scheduled e p pages v w).Leaves (Tidy e p) :=
      Plan.call_leaves he (fun f args w hw => ask_leaves hbodiless f args hw) v.limit v.depth
        v.callee .state (.ptr (some v.stop)) rfl hw
    have hending : ∀ m ∈ trace q v.host v.limit v.depth v.callee v.request.args w,
        m.ending? = none := fun m hm => ending?_of_mem_trace hm
    have hsession : session q ((v :: rest).map Invocation.request) w =
        trace q v.host v.limit v.depth v.callee v.request.args w ++
          Moment.ofResult (call q v.host v.limit v.depth v.callee v.request.args w) ::
          session q (rest.map Invocation.request)
            (Moment.ofResult (call q v.host v.limit v.depth v.callee v.request.args w)).world := rfl
    rw [hsession] at hcut ⊢
    rw [List.forall_mem_append, List.forall_mem_cons] at hcut
    obtain ⟨-, hlast, hcut⟩ := hcut
    rcases hcarries.fits with ⟨n, w', hr⟩ | hfits
    · simp [hr, Moment.ofResult, Moment.isCut] at hlast
    rw [planned]
    cases hplan : scheduled e p pages v w with
    | done code w' =>
      rw [hplan] at hfits hleaves
      obtain ⟨hfound, hr⟩ := hfits
      rw [hr] at hcut ⊢
      exact .cons hending hfound rfl (ih hleaves hcut)
    | fails fault w' =>
      rw [hplan] at hfits hleaves
      obtain ⟨hfound, fault', hr, hblurred⟩ := hfits
      rw [hr] at hcut ⊢
      exact .cons hending hfound (congrArg Except.error hblurred) (ih hleaves hcut)
    | missing f s w' =>
      rw [hplan] at hfits
      exact .stop hending hfits.1 hfits.2
    | spent =>
      rw [hplan] at hfits
      exact hfits.elim

theorem accords_invoked (he : e.Serves p) (hbodiless : ∀ f, p.body? f = none)
    (h : Page.defineAll? e pages p = some (q, assemblies)) {host : σ}
    (hcut : ∀ m ∈ invoked q invocations host, m.isCut = false) :
    Accords e q invocations assemblies
      (planned (scheduled e p pages) invocations { memory := .fresh p.layout, host })
      (invoked q invocations host) := by
  rw [invoked, Page.layout_of_defineAll? h] at hcut ⊢
  exact accords_session he hbodiless h (tidy_fresh he host) hcut

/-- Failure paths that are entered only from their span ends read no register before it is set. -/
theorem planned_defined (hbodiless : ∀ f, p.body? f = none)
    (hpages : ∀ page ∈ pages, (page.plan? e.colors.length).all Plan.straight) (w : World σ) :
    ∀ x ∈ (planned (scheduled e p pages) invocations w).1, ∀ r, x.1 ≠ .error (.undefinedReg r) := by
  have hplans : ∀ f k, Page.plans e.colors.length pages f = some k → k.straight := by
    intro f k hk
    obtain ⟨page, hfind, hk⟩ := Option.bind_eq_some_iff.1 hk
    simpa [hk] using hpages page (List.mem_of_find?_eq_some hfind)
  induction invocations generalizing w with
  | nil => simp [planned]
  | cons v rest ih =>
    have hdefined : (scheduled e p pages v w).Defined :=
      Plan.call_defined hplans (ask_defined hbodiless) v.limit v.depth v.callee _ w
    rw [planned]
    cases hplan : scheduled e p pages v w with
    | done code w' => exact List.forall_mem_cons.2 ⟨by simp, ih w'⟩
    | fails fault w' =>
      rw [hplan] at hdefined
      refine List.forall_mem_cons.2 ⟨fun r hr => hdefined r (Except.error.inj hr), ih w'⟩
    | missing f s w' => simp
    | spent => simp

theorem eq_of_blurred {x y : Except Fault Value × World σ} (h : blurred x = blurred y)
    (hy : ∀ r, y.1 ≠ .error (.undefinedReg r)) : x = y := by
  obtain ⟨x, w⟩ := x
  obtain ⟨y, w'⟩ := y
  obtain ⟨hxy, rfl⟩ := Prod.mk.inj h
  refine Prod.ext ?_ rfl
  cases x with
  | ok a =>
    cases y with
    | ok b => exact congrArg Except.ok (Except.ok.inj hxy)
    | error fault => cases hxy
  | error fault =>
    cases y with
    | ok b => cases hxy
    | error fault' =>
      have hfault : fault.blurred = fault'.blurred := Except.error.inj hxy
      cases fault' <;> cases fault <;> simp_all [Fault.blurred]

theorem Accords.ends_eq (h : Accords e q invocations assemblies plan ms)
    (hplan : ∀ x ∈ plan.1, ∀ r, x.1 ≠ .error (.undefinedReg r)) :
    endings (upTo assemblies ms) = plan.1 := by
  have hends := h.ends
  generalize endings (upTo assemblies ms) = xs at hends ⊢
  generalize plan.1 = ys at hends hplan ⊢
  induction ys generalizing xs with
  | nil => simpa using hends
  | cons y ys ih =>
    cases xs with
    | nil => simp at hends
    | cons x xs =>
      obtain ⟨hhead, htail⟩ := List.cons.inj hends
      obtain ⟨hy, hys⟩ := List.forall_mem_cons.1 hplan
      rw [eq_of_blurred hhead hy, ih xs htail hys]

end Session

end Checks

section Options

variable {e : Emitter} {options options' : SpanOptions}

theorem Plan.through_options (hs : options.errorSentinel = e.options.errorSentinel)
    (enter : FuncId → List Value → World σ → Ending σ) (f : FuncId) (x : Window)
    (goto : Nat → Answers → World σ → Ending σ) (answers : Answers) (w : World σ) (exit : Exit) :
    through { e with options } enter f x goto answers w exit =
      through e enter f x goto answers w exit := by
  cases exit with
  | resumes target => rw [through, through, hs]
  | _ => rfl

theorem Plan.run_options (hs : options.errorSentinel = e.options.errorSentinel)
    (enter : FuncId → List Value → World σ → Ending σ) (f : FuncId) (stages : List Stage)
    (x : Window) (fuel : Nat) :
    run { e with options } enter f stages x fuel = run e enter f stages x fuel := by
  induction fuel with
  | zero => rfl
  | succ fuel ih =>
    funext i answers w
    simp only [run, ih, through_options hs]
    rfl

/-- A plan is carried out in the same way whatever the checks and the hints. -/
theorem Plan.call_options (hs : options.errorSentinel = e.options.errorSentinel)
    (plan? : FuncId → Option Plan) (ask : FuncId → List Value → World σ → Ending σ)
    (limit depth : Nat) :
    call { e with options } plan? ask limit depth = call e plan? ask limit depth := by
  induction depth with
  | zero => rfl
  | succ depth ih =>
    funext f args w
    simp only [call, ih, run_options hs]

theorem SpanOptions.eq_of_plain (h : options.plain = options'.plain) :
    options'.errorSentinel = options.errorSentinel ∧
      options'.errorReason = options.errorReason := by
  obtain ⟨hsentinel, hreason, -, -⟩ := SpanOptions.mk.inj h
  exact ⟨hsentinel.symm, hreason.symm⟩

theorem Emitter.prepare_of_plain {c : Coloring} {p p' : Program}
    (hplain : options.plain = options'.plain) (h : prepare options c p = .ok e p') :
    prepare options' c p = .ok { e with options := options' } p' := by
  obtain ⟨hs, hreason⟩ := SpanOptions.eq_of_plain hplain
  by_cases hsentinel : options.errorSentinel = 0
  · simp [prepare, hsentinel, bind_eq] at h
  simp only [prepare, hs, hreason, hsentinel, ↓reduceIte] at h ⊢
  obtain ⟨u, q₁, hq₁, h₂⟩ := bind_ok h
  obtain ⟨shared, q₂, hq₂, h₃⟩ := bind_ok h₂
  obtain ⟨colors, q₃, hcolors, h₄⟩ := bind_ok h₃
  obtain ⟨record, q₄, hrecord, h₅⟩ := bind_ok h₄
  obtain ⟨rfl, rfl⟩ := pure_ok h₅
  simp only [bind_eq, hq₁, hq₂, hcolors, hrecord]
  rfl

end Options

open Checks Machine in
/-- Until a span end finds no start, calls end in the same way, with the same fields and after the
same calls of the host, whatever the checks and the hints. Only a register that is read before it
is set may have another number, and none is if failure paths are entered only from their span
ends. The first span end that finds no start is the same one, and nothing happens after it. -/
theorem options_agree {options options' : SpanOptions} {c : Coloring} {p₀ p₁ p₁' p q q' : Program}
    {e e' : Emitter} (hplain : options.plain = options'.plain) (hp : p₀.Reachable)
    (he : Emitter.prepare options c p₀ = .ok e p₁)
    (he' : Emitter.prepare options' c p₀ = .ok e' p₁') (hleads : p₁.Leads p)
    (hbodiless : ∀ f, p.body? f = none) {pages : List Page} {assemblies assemblies' : List Assembly}
    (h : Page.defineAll? e pages p = some (q, assemblies))
    (h' : Page.defineAll? e' pages p = some (q', assemblies'))
    {invocations : List (Invocation σ)} {host : σ}
    (hcut : ∀ m ∈ invoked q invocations host, m.isCut = false)
    (hcut' : ∀ m ∈ invoked q' invocations host, m.isCut = false) :
    (endings (upTo assemblies (invoked q invocations host))).map blurred =
        (endings (upTo assemblies' (invoked q' invocations host))).map blurred ∧
      ((∀ page ∈ pages, (page.plan? e.colors.length).all Plan.straight) →
        endings (upTo assemblies (invoked q invocations host)) =
          endings (upTo assemblies' (invoked q' invocations host))) ∧
      (invoked q invocations host).findSome? (found? assemblies) =
        (invoked q' invocations host).findSome? (found? assemblies') ∧
      StopsThere e q invocations assemblies (invoked q invocations host) ∧
      StopsThere e' q' invocations assemblies' (invoked q' invocations host) := by
  have hserves := Emitter.serves_of_prepare hp he hleads
  obtain ⟨-, -, hoptions, -⟩ := Emitter.prepare_ok hp.numbered he
  -- The emitters differ in their options only, so both programs go by the same plans.
  obtain ⟨rfl, rfl⟩ : { e with options := options' } = e' ∧ p₁ = p₁' := by
    simpa [Emitter.prepare_of_plain hplain he] using he'
  have hserves' := Emitter.serves_of_prepare hp he' hleads
  have hsentinel : options'.errorSentinel = e.options.errorSentinel := by
    rw [hoptions, (SpanOptions.eq_of_plain hplain).1]
  have hsame : scheduled { e with options := options' } p pages =
      (scheduled e p pages : Invocation σ → World σ → Ending σ) := by
    funext v w
    rw [scheduled, Plan.call_options hsentinel, scheduled]
  have hms := accords_invoked hserves hbodiless h hcut
  have hms' := accords_invoked hserves' hbodiless h' hcut'
  rw [hsame] at hms'
  refine ⟨hms.ends.trans hms'.ends.symm, fun hstraight => ?_, hms.found.trans hms'.found.symm,
    hms.stops, hms'.stops⟩
  exact (hms.ends_eq (planned_defined hbodiless hstraight _)).trans
    (hms'.ends_eq (planned_defined hbodiless hstraight _)).symm

def pairOptions (checks : Bool) : SpanOptions := { calleeHints := !checks, debugChecks := checks }

theorem plain_pairOptions : (pairOptions false).plain = (pairOptions true).plain := rfl

theorem prepare_pairOptions (checks : Bool) :
    Emitter.prepare (pairOptions checks) sharedPair pairDeclared =
      .ok (pairEmitter (pairOptions checks)) pairPrepared :=
  prepare_pair (!checks) checks

def writePair? (checks : Bool) (page : Page) : Option (Program × List Assembly) :=
  Page.defineAll? (pairEmitter (pairOptions checks)) [page] pairPrepared

@[irreducible] def writePair (checks : Bool) (page : Page) : Program × List Assembly :=
  (writePair? checks page).getD (pairPrepared, [])

theorem writePair_eq {checks : Bool} {page : Page} (h : (writePair? checks page).isSome) :
    Page.defineAll? (pairEmitter (pairOptions checks)) [page] pairPrepared =
      some ((writePair checks page).1, (writePair checks page).2) := by
  obtain ⟨x, hx⟩ := Option.isSome_iff_exists.1 h
  have hwrite : writePair checks page = x := by
    unfold writePair
    rw [hx]
    rfl
  rw [hwrite]
  exact hx

def twiceEnded : Page where
  id := ⟨2⟩
  name := "parse"
  moves := [
    .spanStart (.point 0) ⟨1⟩,
    .spanEnd (.point 1) ⟨1⟩,
    .spanEnd (.point 2) ⟨1⟩,
    .ret (.point 3) (.status 0),
    .resumeAt 0 ⟨2⟩,
    .resumeAt 1 ⟨2⟩]

def parseOnce (code : Int32) : Invocation Unit where
  host := ⟨fun _ => some fun _ _ _ => (code, ())⟩
  limit := 20
  depth := 1
  callee := ⟨2⟩
  pos := 3
  stop := 9

/-- The first call fails at the first span end, and the second comes to the other one. -/
def attempts : List (Invocation Unit) := [parseOnce 7, parseOnce 0]

open Checks Machine in
theorem options_agree_twiceEnded :
    (endings (upTo (writePair false twiceEnded).2
      (invoked (writePair false twiceEnded).1 attempts ()))).map Prod.fst = [.ok (.int (-1))] ∧
    (endings (since (writePair false twiceEnded).2
      (invoked (writePair false twiceEnded).1 attempts ()))).map Prod.fst =
        [.error (.nullPosition "on_b")] ∧
    (endings (since (writePair true twiceEnded).2
      (invoked (writePair true twiceEnded).1 attempts ()))).map Prod.fst =
        [.error (.trap "parse")] ∧
    endings (upTo (writePair false twiceEnded).2
        (invoked (writePair false twiceEnded).1 attempts ())) =
      endings (upTo (writePair true twiceEnded).2
        (invoked (writePair true twiceEnded).1 attempts ())) ∧
    (invoked (writePair false twiceEnded).1 attempts ()).findSome?
        (found? (writePair false twiceEnded).2) =
      (invoked (writePair true twiceEnded).1 attempts ()).findSome?
        (found? (writePair true twiceEnded).2) ∧
    StopsThere (pairEmitter (pairOptions false)) (writePair false twiceEnded).1 attempts
      (writePair false twiceEnded).2 (invoked (writePair false twiceEnded).1 attempts ()) ∧
    StopsThere (pairEmitter (pairOptions true)) (writePair true twiceEnded).1 attempts
      (writePair true twiceEnded).2 (invoked (writePair true twiceEnded).1 attempts ()) := by
  refine ⟨by decide +kernel, by decide +kernel, by decide +kernel, ?_⟩
  have hagree := options_agree plain_pairOptions pairDeclared_reachable (prepare_pairOptions false)
    (prepare_pairOptions true) .refl pairPrepared_bodiless
    (writePair_eq (by decide +kernel : (writePair? false twiceEnded).isSome))
    (writePair_eq (by decide +kernel : (writePair? true twiceEnded).isSome))
    (by decide +kernel : ∀ m ∈ invoked (writePair false twiceEnded).1 attempts (),
      m.isCut = false)
    (by decide +kernel : ∀ m ∈ invoked (writePair true twiceEnded).1 attempts (),
      m.isCut = false)
  exact ⟨hagree.2.1 (by decide +kernel), hagree.2.2⟩

/-- Goes to the failure path of a span end that is never reached. -/
def strayed : Page where
  id := ⟨2⟩
  name := "parse"
  moves := [
    .newBlock "close",
    .spanEnd (.point 1) ⟨2⟩,
    .br (.point 0) (.path 0),
    .ret (.point 2) (.status 0),
    .resumeAt 0 ⟨2⟩]

open Checks Machine in
/-- With checks there is one register more, so a fault may name another one. -/
theorem undefined_register_moved :
    (pairOptions false).plain = (pairOptions true).plain ∧
    (∀ checks, Emitter.prepare (pairOptions checks) sharedPair pairDeclared =
      .ok (pairEmitter (pairOptions checks)) pairPrepared) ∧
    (∀ checks, Page.defineAll? (pairEmitter (pairOptions checks)) [strayed] pairPrepared =
      some ((writePair checks strayed).1, (writePair checks strayed).2)) ∧
    (∀ checks, ∀ m ∈ invoked (writePair checks strayed).1 [parseOnce 0] (),
      m.isCut = false ∧ m.missing? (writePair checks strayed).2 = none) ∧
    (endings (invoked (writePair false strayed).1 [parseOnce 0] ())).map Prod.fst =
      [.error (.undefinedReg ⟨1⟩)] ∧
    (endings (invoked (writePair true strayed).1 [parseOnce 0] ())).map Prod.fst =
      [.error (.undefinedReg ⟨2⟩)] := by
  refine ⟨plain_pairOptions, prepare_pairOptions, fun checks => writePair_eq ?_,
    by decide +kernel, by decide +kernel, by decide +kernel⟩
  revert checks
  decide +kernel

end SpanTracking
