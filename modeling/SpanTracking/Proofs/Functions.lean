import SpanTracking.EventParser
import SpanTracking.Proofs.Buffers

set_option autoImplicit false

namespace SpanTracking

open Machine

/-- What a parser function does with the position and the end of a buffer, given what calls do. -/
abbrev Meaning :=
  ∀ σ : Type, (FuncId → List Value → Exec σ Value) → Value → Value → Exec σ Value

namespace Meaning

def resumes : Meaning := fun _ _ _ _ => return .int 0

def opens (slots : ColorSlots) (callback : FuncId) : Meaning := fun _ _ pos _ => do
  openSpan slots callback pos
  return .int 0

def closes (e : Emitter) (slots : ColorSlots) (callback target : FuncId) (name : String) :
    Meaning := fun _ enter pos _ => do
  let result ← closeSpan enter e slots callback target name pos
  return result.getD (.int 0)

def begins (e : Emitter) : Meaning := fun _ _ pos _ => do
  let result ← inTurn (fun slots => Machine.rebase slots pos) e.colors
  return result.getD (.int 0)

def ends (e : Emitter) : Meaning := fun _ enter _ stop => do
  let result ← inTurn (fun slots => Machine.flush enter e slots stop) e.colors
  return result.getD (.int 0)

end Meaning

/-- The body `body`, made from `b`, is accepted, and has the meaning `m` if a run of it may enter
`least` blocks. -/
structure Body.Complete (b body : Body) (least : Nat) (m : Meaning) : Prop where
  head : b.SameHead body
  verified : body.verify = .ok ()
  computes : ∀ (σ : Type) (enter : FuncId → List Value → Exec σ Value) (limit : Nat)
    (pos stop : Value), least ≤ limit →
      runBody enter limit body [.state, pos, stop] = m σ enter pos stop

section Ending

variable {σ : Type} {enter : FuncId → List Value → Exec σ Value} {limit : Nat} {whole : Body}
  {args : List Value} {w : World σ}

theorem runBody_of_comes {kept used : Nat} {next : BlockId} {rest : List Instr}
    {x : Exec σ (Option Value)} (hu : used + 1 ≤ limit)
    (hn : whole.code? next = some (rest, some (.ret (.status 0))))
    (hc : Comes enter limit whole args kept ⟨whole.entry, 0⟩ ⟨next, rest.length⟩ used
      (List.replicate whole.regs.length none) w (x w)) :
    runBody enter limit whole args w = (x >>= fun result => pure (result.getD (.int 0))) w := by
  obtain ⟨steps, hsteps⟩ := Nat.exists_eq_add_of_le hu
  have hlimit : limit = (steps + used) + 1 := by omega
  have hrun : runBody enter limit whole args w = runAt enter limit whole args (steps + used)
      whole.entry 0 (List.replicate whole.regs.length none) w := by
    rw [runBody]
    nth_rewrite 2 [hlimit]
    rw [runFrom_succ]
  rw [hrun]
  match hx : x w with
  | .error e w' =>
    rw [hx] at hc
    rw [hc steps, bind_of_error hx]
  | .ok (some v) w' =>
    rw [hx] at hc
    rw [hc steps, bind_of_ok hx]
    rfl
  | .ok none w' =>
    rw [hx] at hc
    obtain ⟨regs', -, hgo⟩ := hc
    have hn' : whole.code? next = some (rest ++ [], some (.ret (.status 0))) := by simpa using hn
    rw [hgo steps, bind_of_ok hx, runAt_of_code hn']
    exact finish_ret rfl

end Ending

/-- Closing a span leaves two open blocks, one to go on in and one for the failure path. -/
theorem Emitter.spanEnd_splits {e : Emitter} {b : Body} {here : BlockId} {old : List Instr}
    (h : b.Open here old) (hb : b.sig = parserSig) {s : SpanId} {span : SpanDecl} {color : Nat}
    {slots : ColorSlots} (hs : e.locate s = .ok (span, color, slots)) :
    ∃ next path b' is, e.spanEnd here s b = .ok (next, path) b' ∧ b'.Open next [] ∧
      b'.Open path.block is ∧ next ≠ path.block ∧ path.current = e.current ∧
      path.sentinel = e.options.errorSentinel ∧ b.Within b' ∧ b.SameHead b' ∧
      (b.Settled [here.index] → b'.Settled [next.index, path.block.index]) := by
  cases hd : e.options.debugChecks with
  | false =>
    obtain ⟨b', he, g⟩ := spanEnd_grown_plain h hb hs hd
    refine ⟨_, _, b', _, he, g.code_tail 0, g.code_tail 1, by simp, rfl, rfl, g.within, g.head_eq,
      fun hset => g.settled hset (by simp) ?_ ?_⟩
    · simp [Terminator.targets, g.length_eq]
    · intro k code hk
      rcases k with _ | _ | k
      · simp
      · simp
      · simp at hk
  | true =>
    obtain ⟨b', he, g⟩ := spanEnd_grown_checked h hb hs hd
    refine ⟨_, _, b', _, he, g.code_tail 2, g.code_tail 3, by simp, rfl, rfl, g.within, g.head_eq,
      fun hset => g.settled hset (by simp) ?_ ?_⟩
    · simp [Terminator.targets, g.length_eq]
    · intro k code hk
      rcases k with _ | _ | _ | _ | k
      · obtain rfl := Option.some.inj hk
        simp [Terminator.targets]
      · obtain rfl := Option.some.inj hk
        simp [Terminator.targets, g.length_eq]
      · simp
      · simp
      · simp at hk

namespace EventParser

theorem open_start (f : FuncId) (name : String) :
    (Body.start f name parserSig parserParams).Open ⟨f, 0⟩ [] := by
  simp [Body.Open, Body.code?, Body.block?, Body.start, Block.code]

theorem resume_complete (f : FuncId) (name : String) :
    ∃ body, idle ⟨f, 0⟩ (Body.start f name parserSig parserParams) = .ok () body ∧
      (Body.start f name parserSig parserParams).Complete body 1 Meaning.resumes := by
  obtain ⟨b₁, h₁, g₁⟩ := (Body.grown_self (open_start f name)).terminate (.ret (.status 0))
  refine ⟨b₁, h₁, g₁.head_eq, ?_, ?_⟩
  · refine Body.Settled.verify (g₁.settled (Body.settled_start f name _ _) (by simp) ?_ (by simp))
    simp [Terminator.targets]
  · intro σ enter limit pos stop hl
    obtain ⟨steps, rfl⟩ := Nat.exists_eq_add_of_le' hl
    have he : b₁.entry = ⟨f, 0⟩ := by rw [Body.entry, g₁.head_eq.id]; rfl
    rw [runBody, he, runFrom_of_code g₁.code_here]
    funext w
    exact finish_ret rfl

theorem opens_complete {e : Emitter} {s : SpanId} {span : SpanDecl} {color : Nat}
    {slots : ColorSlots} (hs : e.locate s = .ok (span, color, slots)) (f : FuncId) (name : String) :
    ∃ body, opening e s ⟨f, 0⟩ (Body.start f name parserSig parserParams) = .ok () body ∧
      (Body.start f name parserSig parserParams).Complete body 1
        (Meaning.opens slots span.callback) := by
  obtain ⟨b₁, h₁, g₁⟩ := Emitter.spanStart_grown (open_start f name) rfl hs
  obtain ⟨b₂, h₂, g₂⟩ := g₁.terminate (.ret (.status 0))
  refine ⟨b₂, andThen h₁ h₂, g₂.head_eq, ?_, ?_⟩
  · refine Body.Settled.verify (g₂.settled (Body.settled_start f name _ _) (by simp) ?_ (by simp))
    simp [Terminator.targets]
  · intro σ enter limit pos stop hl
    obtain ⟨steps, rfl⟩ := Nat.exists_eq_add_of_le' hl
    have he : b₂.entry = ⟨f, 0⟩ := by rw [Body.entry, g₂.head_eq.id]; rfl
    rw [runBody, he, runFrom_of_code g₂.code_here]
    funext w
    rw [List.nil_append, ← List.append_nil (slots.opening span.callback), finish_opening]
    rfl

theorem closes_complete {e : Emitter} {s : SpanId} {span : SpanDecl} {color : Nat}
    {slots : ColorSlots} (hs : e.locate s = .ok (span, color, slots))
    (hty : slots.start.ty = .bytes) {p : Program} {target : FuncId}
    (ht : Resumption.checkTarget p target = .ok ()) (f : FuncId) (name : String) :
    ∃ body, closing e target s p ⟨f, 0⟩ (Body.start f name parserSig parserParams) = .ok () body ∧
      (Body.start f name parserSig parserParams).Complete body 3
        (Meaning.closes e slots span.callback target name) := by
  obtain ⟨next, path, b₁, is, h₁, hnext, hpath, hne, hcur, hsent, hw₁, hh₁, hset₁⟩ :=
    e.spanEnd_splits (open_start f name) rfl hs
  obtain ⟨b₂, h₂, g₂⟩ := (Body.grown_self hnext).terminate (.ret (.status 0))
  have hpath₂ : b₂.Open path.block is := g₂.code_of_ne hpath hne.symm
  obtain ⟨b₃, h₃, g₃⟩ := path.resumeAt_grown hpath₂ ht
  have hhead := (hh₁.trans g₂.head_eq).trans g₃.head_eq
  refine ⟨b₃, andThen h₁ (andThen h₂ h₃), hhead, ?_, ?_⟩
  · have hset₂ : b₂.Settled [path.block.index] := by
      refine g₂.settled (hset₁ (Body.settled_start f name _ _)) ?_ ?_ (by simp)
      · intro i hi hn
        simpa [hn] using hi
      · simp [Terminator.targets]
    refine Body.Settled.verify (g₃.settled hset₂ (by simp) ?_ (by simp))
    simp [Terminator.targets]
  · intro σ enter limit pos stop hl
    funext w
    have he : b₃.entry = ⟨f, 0⟩ := by rw [Body.entry, hhead.id]; rfl
    have hcode : b₃.code? next = some ([], some (.ret (.status 0))) :=
      g₃.code_of_ne g₂.code_here hne
    have hfailed : ∀ is', b₁.Open path.block is' → b₃.code? path.block =
        some (is' ++ [.store e.current.id (.func target)],
          some (.ret (.status e.options.errorSentinel))) := by
      intro is' his
      obtain rfl : is' = is := (Prod.mk.inj (Option.some.inj (his.symm.trans hpath))).1
      have hcode := g₃.code_here
      rwa [hcur, hsent] at hcode
    have hcomes : Comes enter limit b₃ [.state, pos, stop] _ ⟨⟨f, 0⟩, 0⟩ _ _
        (List.replicate b₃.regs.length none) w _ :=
      close_comes (open_start f name) rfl hs h₁ (g₂.within.trans g₃.within) hfailed (by simp) hty
    rw [← he] at hcomes
    exact runBody_of_comes (by split <;> omega) hcode hcomes

section Sweep

variable {emit : BlockId → Nat → ColorSlots → Build Body BlockId} {list : List ColorSlots}

/-- A function that deals with all colors in turn. -/
theorem sweep_complete (ha : Emitter.Appends emit) (hty : ∀ slots ∈ list, slots.start.ty = .bytes)
    {deal : ∀ σ : Type, (FuncId → List Value → Exec σ Value) → Value → Value → ColorSlots →
      Exec σ (Option Value)}
    (hd : ∀ (σ : Type) (enter : FuncId → List Value → Exec σ Value) (limit : Nat)
      (pos stop : Value), Emitter.Does emit (deal σ enter pos stop) enter limit pos stop)
    (f : FuncId) (name : String) :
    ∃ body, (do
        Build.check (Emitter.checkTarget ⟨f, 0⟩)
        let next ← Emitter.chain emit ⟨f, 0⟩ 0 list
        Body.ret next (.status 0)) (Body.start f name parserSig parserParams) = .ok () body ∧
      (Body.start f name parserSig parserParams).Complete body (1 + 2 * list.length)
        fun σ enter pos stop => do
          let result ← inTurn (deal σ enter pos stop) list
          return result.getD (.int 0) := by
  obtain ⟨next, b₁, rest, h₁, hnext, hw₁, hh₁, hset₁⟩ :=
    Emitter.chain_appends ha list (open_start f name) 0
  obtain ⟨b₂, h₂, g₂⟩ := (Body.grown_self hnext).terminate (.ret (.status 0))
  have hhead := hh₁.trans g₂.head_eq
  refine ⟨b₂, andThen (Emitter.checkTarget_ok (open_start f name) rfl) (andThen h₁ h₂), hhead,
    ?_, ?_⟩
  · refine Body.Settled.verify
      (g₂.settled (hset₁ (Body.settled_start f name _ _)) (by simp) ?_ (by simp))
    simp [Terminator.targets]
  · intro σ enter limit pos stop hl
    funext w
    have he : b₂.entry = ⟨f, 0⟩ := by rw [Body.entry, hhead.id]; rfl
    have hcode : b₂.code? next = some (rest, some (.ret (.status 0))) := by
      simpa using g₂.code_here
    obtain ⟨used, hused, hcomes⟩ : ∃ used ≤ 2 * list.length, Comes enter limit b₂ _ _ ⟨⟨f, 0⟩, 0⟩
        _ used (List.replicate b₂.regs.length none) w (inTurn (deal σ enter pos stop) list w) :=
      Emitter.chain_comes ha (hd σ enter limit pos stop) hty (open_start f name) h₁ hnext g₂.within
        (by simp)
    have hlimit : used + 1 ≤ limit := by omega
    rw [← he] at hcomes
    exact runBody_of_comes hlimit hcode hcomes

end Sweep

theorem begins_complete {e : Emitter} (hty : ∀ slots ∈ e.colors, slots.start.ty = .bytes)
    (f : FuncId) (name : String) :
    ∃ body, beginning e ⟨f, 0⟩ (Body.start f name parserSig parserParams) = .ok () body ∧
      (Body.start f name parserSig parserParams).Complete body (1 + 2 * e.colors.length)
        (Meaning.begins e) := by
  have h := sweep_complete Emitter.rebase_appends hty
    (fun σ enter limit pos stop => Emitter.rebase_does enter limit pos stop) f name
  simp only [beginning, Emitter.prologue, Emitter.rebaseFrom_eq, bind_assoc]
  exact h

theorem ends_complete {e : Emitter} (hty : ∀ slots ∈ e.colors, slots.start.ty = .bytes)
    (f : FuncId) (name : String) :
    ∃ body, ending e ⟨f, 0⟩ (Body.start f name parserSig parserParams) = .ok () body ∧
      (Body.start f name parserSig parserParams).Complete body (1 + 2 * e.colors.length)
        (Meaning.ends e) := by
  have h := sweep_complete e.flush_appends hty
    (fun σ enter limit pos stop => e.flush_does enter limit pos stop) f name
  simp only [ending, Emitter.epilogue, Emitter.flushFrom_eq, bind_assoc]
  exact h

end EventParser

end SpanTracking
