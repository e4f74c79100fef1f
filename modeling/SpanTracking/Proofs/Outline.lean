import SpanTracking.Proofs.Buffers
import SpanTracking.Proofs.Drafts
import SpanTracking.Proofs.Moments

set_option autoImplicit false

/-!
# The outline of a draft

However the operations of an author are mixed, each block of a draft has one of a few forms. Open
blocks hold the author's instructions and openings of spans, and end as the last operation on them
left them. All other blocks are as the emitter wrote them, and only emitted branches lead there. The
outline gives every block its role; each operation extends it.
-/

namespace SpanTracking

/-- What a block is there for. The numbers are registers: of the start of a span, or of the answer
of a callback. -/
inductive Role where
  /-- The author may go on here, or has gone on here. -/
  | plain
  /-- The failure path of a span end. -/
  | failed (answer : Nat)
  /-- A span end has found no open span. -/
  | trap
  /-- A span end has found an open span. -/
  | opened (slots : ColorSlots) (start : Nat)
  /-- The prologue has found an open span. -/
  | restart (slots : ColorSlots)
  /-- The epilogue has found an open span. -/
  | present (slots : ColorSlots) (start : Nat)
  /-- The failure path of the epilogue. -/
  | flushFailed (answer : Nat)
deriving DecidableEq

def Instr.dst? : Instr → Option Reg
  | load dst _ _ => some dst
  | store _ _ => none
  | icmp dst _ _ _ => some dst
  | call dst _ _ _ _ => some dst

def Instr.deedOfCall (deed : Deed) : Instr → Option Deed
  | call .. => some deed
  | _ => none

namespace Body

variable {b b' : Body} {here : BlockId}

theorem instr?_of_code {code : Code} (h : b.code? here = some code) (k : Nat) :
    b.instr? ⟨here, k⟩ = code.1[k]? := by
  simp [instr?, h]

theorem Within.instr?_mono (h : b.Within b') {point : Point} {i : Instr}
    (hi : b.instr? point = some i) : b'.instr? point = some i := by
  obtain ⟨⟨is, t⟩, hcode, hget⟩ := Option.bind_eq_some_iff.1 hi
  cases t with
  | some t => rw [instr?, h.finished _ _ _ hcode, Option.bind_some, hget]
  | none =>
    obtain ⟨more, term, hcode'⟩ := h.unfinished _ _ hcode
    have hlt : point.done < is.length := (List.getElem?_eq_some_iff.1 hget).1
    rw [instr?, hcode', Option.bind_some, List.getElem?_append_left hlt]
    exact hget

section Grown

variable {old head : List Instr} {term : Option Terminator} {tail : List Code} {tys : List Ty}

theorem Grown.instr?_head (g : b.Grown here old head term tail tys b') (j : Nat) :
    b.instr? ⟨here, old.length + j⟩ = none ∧ b'.instr? ⟨here, old.length + j⟩ = head[j]? := by
  rw [instr?_of_code g.base, instr?_of_code g.code_here, List.getElem?_append_right (by omega)]
  simp

theorem Grown.instr?_tail (g : b.Grown here old head term tail tys b') {k : Nat} {code : Code}
    (hk : tail[k]? = some code) (j : Nat) :
    b.instr? ⟨⟨b.id, b.codes.length + k⟩, j⟩ = none ∧
      b'.instr? ⟨⟨b.id, b.codes.length + k⟩, j⟩ = code.1[j]? := by
  refine ⟨?_, instr?_of_code ((g.code_tail k).trans hk) j⟩
  rw [instr?, code?_at]
  simp

theorem Grown.instr?_new (g : b.Grown here old head term tail tys b') {point : Point} {i : Instr}
    (h : b.instr? point = none) (h' : b'.instr? point = some i) :
    i ∈ head ∨ ∃ code ∈ tail, i ∈ code.1 := by
  obtain ⟨code, hcode, hi⟩ := Option.bind_eq_some_iff.1 h'
  by_cases hpoint : point.block = here
  · rw [hpoint, g.code_here] at hcode
    obtain rfl := Option.some.inj hcode
    rw [instr?, hpoint, show b.code? here = _ from g.base, Option.bind_some,
      List.getElem?_eq_none_iff] at h
    rw [List.getElem?_append_right h] at hi
    exact .inl (List.mem_of_getElem? hi)
  · obtain ⟨howner, hindex⟩ := code?_some.1 hcode
    rcases Nat.lt_or_ge point.block.index b.codes.length with hlt | hge
    · rw [g.code_other hlt] at hindex
      · have hsame : b.code? point.block = some code :=
          code?_some.2 ⟨howner.trans g.head_eq.id, hindex⟩
        simp [instr?, hsame, hi] at h
      · intro heq
        have hbase := (code?_some.1 g.base).1
        refine hpoint ?_
        cases hp : point.block
        cases here
        simp_all [g.head_eq.id]
    · rw [g.codes, List.getElem?_append_right (by simpa using hge)] at hindex
      exact .inr ⟨code, List.mem_of_getElem? hindex, List.mem_of_getElem? hi⟩

end Grown

theorem edit_open {change : Block → Block} (h : edit here change b = .ok () b') :
    ∃ old, b.Open here old := by
  unfold edit at h
  split at h
  · rename_i howner
    split at h
    · simp at h
    · rename_i block hblock
      split at h
      · simp at h
      · rename_i hterm
        refine ⟨block.instrs, code?_some.2 ⟨howner, ?_⟩⟩
        rw [codes, List.getElem?_map, hblock]
        simpa [Block.code] using hterm
  · simp at h

theorem push_grown {i : Instr} (h : push here i b = .ok () b') :
    ∃ old, b.Grown here old [i] none [] [] b' := by
  obtain ⟨old, hopen⟩ := edit_open h
  obtain ⟨b'', h', g⟩ := (grown_self hopen).push i
  rw [h] at h'
  exact ⟨old, (EStateM.Result.ok.inj h').2 ▸ g⟩

theorem terminate_grown {t : Terminator} (h : terminate here t b = .ok () b') :
    ∃ old, b.Grown here old [] (some t) [] [] b' := by
  obtain ⟨old, hopen⟩ := edit_open h
  obtain ⟨b'', h', g⟩ := (grown_self hopen).terminate t
  rw [h] at h'
  exact ⟨old, (EStateM.Result.ok.inj h').2 ▸ g⟩

theorem pushNew_grown {ty : Ty} {make : Reg → Instr} {v : Operand}
    (h : pushNew ty here make b = .ok v b') :
    ∃ old, b.Grown here old [make ⟨b.regs.length⟩] none [] [ty] b' := by
  obtain ⟨dst, b₁, hreg, h₁⟩ := bind_ok h
  obtain ⟨u, b₂, hpush, h₂⟩ := bind_ok h₁
  obtain ⟨-, rfl⟩ := pure_ok h₂
  obtain ⟨rfl, rfl⟩ := EStateM.Result.ok.inj hreg
  obtain ⟨old, hopen⟩ := edit_open hpush
  have hopen' : b.Open here old := hopen
  obtain ⟨b₁', hreg', g₁⟩ := (grown_self hopen').newReg ty
  obtain ⟨-, rfl⟩ := EStateM.Result.ok.inj hreg'
  obtain ⟨b₂', hpush', g₂⟩ := g₁.push (make ⟨b.regs.length⟩)
  rw [hpush] at hpush'
  exact ⟨old, (EStateM.Result.ok.inj hpush').2 ▸ g₂⟩

end Body

theorem Emitter.checkTarget_inv {b b' : Body} {here : BlockId}
    (h : Build.check (Emitter.checkTarget here) b = .ok () b') :
    b' = b ∧ b.sig = parserSig ∧ ∃ old, b.Open here old := by
  obtain ⟨hcheck, rfl⟩ := Build.check_ok h
  unfold Emitter.checkTarget at hcheck
  split at hcheck
  · rename_i hsig
    exact ⟨rfl, hsig, Body.checkOpen_ok.1 hcheck⟩
  · simp at hcheck

theorem Emitter.mem_colors_of_locate {e : Emitter} {s : SpanId} {span : SpanDecl} {color : Nat}
    {slots : ColorSlots} (h : e.locate s = .ok (span, color, slots)) :
    e.coloring.span? s = some span ∧ e.coloring.colorOf s = some color ∧
      e.colors[color]? = some slots := by
  unfold Emitter.locate at h
  split at h
  · rename_i hspan hcolor
    split at h
    · rename_i hslots
      obtain ⟨rfl, hrest⟩ := Prod.mk.inj (Except.ok.inj h)
      obtain ⟨rfl, rfl⟩ := Prod.mk.inj hrest
      exact ⟨hspan, hcolor, hslots⟩
    · simp at h
  · simp at h

theorem Emitter.spanStart_inv {e : Emitter} {b b' : Body} {here next : BlockId} {s : SpanId}
    (h : e.spanStart here s b = .ok next b') :
    next = here ∧ ∃ span color slots old, e.locate s = .ok (span, color, slots) ∧
      b.Grown here old (slots.opening span.callback) none [] [] b' := by
  obtain ⟨u, b₁, hcheck, hrest⟩ := bind_ok h
  obtain ⟨rfl, hsig, old, hopen⟩ := Emitter.checkTarget_inv hcheck
  obtain ⟨⟨span, color, slots⟩, b₂, hlocate, -⟩ := bind_ok hrest
  have hs := (Build.settle_ok hlocate).1
  obtain ⟨b'', h', g⟩ := Emitter.spanStart_grown hopen hsig hs
  rw [h] at h'
  obtain ⟨rfl, rfl⟩ := EStateM.Result.ok.inj h'
  exact ⟨rfl, span, color, slots, old, hs, g⟩

theorem Emitter.spanEnd_inv {e : Emitter} {b b' : Body} {here : BlockId} {s : SpanId}
    {next : BlockId × Resumption} (h : e.spanEnd here s b = .ok next b') :
    b.sig = parserSig ∧ ∃ span color slots old, e.locate s = .ok (span, color, slots) ∧
      b.Open here old := by
  obtain ⟨u, b₁, hcheck, hrest⟩ := bind_ok h
  obtain ⟨rfl, hsig, old, hopen⟩ := Emitter.checkTarget_inv hcheck
  obtain ⟨⟨span, color, slots⟩, b₂, hlocate, -⟩ := bind_ok hrest
  exact ⟨hsig, span, color, slots, old, (Build.settle_ok hlocate).1, hopen⟩

theorem Resumption.resumeAt_inv {path : Resumption} {p : Program} {target : FuncId} {b b' : Body}
    (h : path.resumeAt p target b = .ok () b') :
    checkTarget p target = .ok () ∧ ∃ old, b.Grown path.block old
      [.store path.current.id (.func target)] (some (.ret (.status path.sentinel))) [] [] b' := by
  obtain ⟨u, b₁, hchecked, hrest⟩ := bind_ok h
  obtain ⟨hcheck, rfl⟩ := Build.check_ok hchecked
  obtain ⟨_, b₂, hstore, -⟩ := bind_ok hrest
  obtain ⟨old, hopen⟩ := Body.edit_open hstore
  have htarget : checkTarget p target = .ok () := by
    rw [check] at hcheck
    split at hcheck
    · obtain ⟨_, -, hcheck⟩ := except_ok hcheck
      exact hcheck
    · obtain ⟨_, hthrow, -⟩ := except_ok hcheck
      simp [throw, throwThe, MonadExceptOf.throw] at hthrow
  obtain ⟨b'', h', g⟩ := path.resumeAt_grown hopen htarget
  rw [h] at h'
  obtain ⟨-, rfl⟩ := EStateM.Result.ok.inj h'
  exact ⟨htarget, old, g⟩

namespace Draft

def Plays (d : Draft) (roles : List Role) (here : BlockId) (role : Role) : Prop :=
  here.owner = d.body.id ∧ roles[here.index]? = some role

/-- The deeds of the instructions of the block `here` from number `k` on. -/
def Marked (d : Draft) (here : BlockId) (k : Nat) (deeds : List (Option Deed)) : Prop :=
  ∀ (j : Nat) (deed : Option Deed), deeds[j]? = some deed → d.deed ⟨here, k + j⟩ = deed

theorem Marked.tail {d : Draft} {here : BlockId} {k : Nat} {deed : Option Deed}
    {deeds : List (Option Deed)} (h : d.Marked here k (deed :: deeds)) :
    d.Marked here (k + 1) deeds := by
  intro j deed hj
  rw [Nat.add_assoc, Nat.add_comm 1]
  exact h (j + 1) deed hj

section Opening

variable {d : Draft} {here : BlockId} {k : Nat} {slots : ColorSlots} {s : SpanId}

theorem Marked.before_opens
    (h : d.Marked here k (slots.slot?.toList.map (fun _ => none) ++ [some (.opens s)])) {j : Nat}
    (hj : j < slots.slot?.toList.length) : d.deed ⟨here, k + j⟩ = none := by
  refine h j none ?_
  rw [List.getElem?_append_left (by simpa using hj), List.getElem?_map,
    List.getElem?_eq_getElem hj]
  rfl

theorem Marked.opens
    (h : d.Marked here k (slots.slot?.toList.map (fun _ => none) ++ [some (.opens s)])) :
    d.deed ⟨here, k + slots.slot?.toList.length⟩ = some (.opens s) :=
  h _ _ (by simp)

end Opening

structure Closing (e : Emitter) (d : Draft) (roles : List Role) (here : BlockId) (k : Nat)
    (slots : ColorSlots) (start answer : Nat) (is : List Instr) (t : Option Terminator) : Prop where
  code : ∃ s span color, e.locate s = .ok (span, color, slots) ∧
    is = slots.close span.callback start answer ∧
    d.Marked here k (is.map (Instr.deedOfCall (.closes s)))
  term : ∃ next failed, t = some (.condBr (.reg ⟨answer + 1⟩) next failed .likelyTrue) ∧
    d.Plays roles next .plain ∧ d.Plays roles failed (.failed answer)
  regs : start < answer ∧ answer + 1 < d.body.regs.length

/-- What a block of the author holds from instruction `k` on, and how it ends. -/
inductive Tail (e : Emitter) (d : Draft) (roles : List Role) (here : BlockId) :
    Nat → List Instr → Option Terminator → Prop
  | unfinished {k : Nat} : Tail e d roles here k [] none
  | own {k : Nat} {i : Instr} {is : List Instr} {t : Option Terminator}
      (hown : (here, i) ∈ d.own) (hdst : ∀ r, i.dst? = some r → r.index < d.body.regs.length)
      (hm : d.Marked here k [none]) (h : Tail e d roles here (k + 1) is t) :
      Tail e d roles here k (i :: is) t
  | opening {k : Nat} {s : SpanId} {span : SpanDecl} {color : Nat} {slots : ColorSlots}
      {is : List Instr} {t : Option Terminator} (hs : e.locate s = .ok (span, color, slots))
      (hm : d.Marked here k (slots.slot?.toList.map (fun _ => none) ++ [some (.opens s)]))
      (h : Tail e d roles here (k + (slots.opening span.callback).length) is t) :
      Tail e d roles here k (slots.opening span.callback ++ is) t
  | exit {k : Nat} {t : Terminator} (h : (here, t) ∈ d.exits) : Tail e d roles here k [] (some t)
  | rebase {k : Nat} {slots : ColorSlots} {r : Nat} {restart next : BlockId}
      (hslots : slots ∈ e.colors) (hr : r + 1 < d.body.regs.length)
      (hm : d.Marked here k [none, none]) (hrestart : d.Plays roles restart (.restart slots))
      (hnext : d.Plays roles next .plain) :
      Tail e d roles here k (slots.test .ne r) (some (.condBr (.reg ⟨r + 1⟩) restart next .none))
  | flush {k : Nat} {slots : ColorSlots} {r : Nat} {present next : BlockId}
      (hslots : slots ∈ e.colors) (hr : r + 1 < d.body.regs.length)
      (hm : d.Marked here k [none, none]) (hpresent : d.Plays roles present (.present slots r))
      (hnext : d.Plays roles next .plain) :
      Tail e d roles here k (slots.test .ne r) (some (.condBr (.reg ⟨r + 1⟩) present next .none))
  | close {k : Nat} {slots : ColorSlots} {r : Nat} {is : List Instr} {t : Option Terminator}
      (hdebug : e.options.debugChecks = false) (hm : d.Marked here k [none])
      (h : Closing e d roles here (k + 1) slots r (r + 1) is t) :
      Tail e d roles here k (.load ⟨r⟩ slots.start.id slots.start.ty :: is) t
  | check {k : Nat} {slots : ColorSlots} {r : Nat} {trap opened : BlockId}
      (hslots : slots ∈ e.colors) (hr : r + 1 < d.body.regs.length)
      (hm : d.Marked here k [none, none]) (htrap : d.Plays roles trap .trap)
      (hopened : d.Plays roles opened (.opened slots r)) :
      Tail e d roles here k (slots.test .eq r)
        (some (.condBr (.reg ⟨r + 1⟩) trap opened .likelyFalse))
  | resume {k : Nat} {p : Program} {target : FuncId} (h : (p, target) ∈ d.resumed)
      (htarget : Resumption.checkTarget p target = .ok ()) (hm : d.Marked here k [none]) :
      Tail e d roles here k [.store e.current.id (.func target)]
        (some (.ret (.status e.options.errorSentinel)))

def Formed (e : Emitter) (d : Draft) (roles : List Role) (here : BlockId) : Role → Code → Prop
  | .plain, code => Tail e d roles here 0 code.1 code.2
  | .failed answer, code => ∃ is, code.1 = e.record.stores posArg (.reg ⟨answer⟩) ++ is ∧
      d.Marked here 0 [none, none, none] ∧ Tail e d roles here 3 is code.2
  | .trap, code => e.options.debugChecks = true ∧ code = ([], some .unreachable)
  | .opened slots start, code => Closing e d roles here 0 slots start (start + 2) code.1 code.2
  | .restart slots, code => slots ∈ e.colors ∧ d.Marked here 0 [none] ∧
      ∃ next, d.Plays roles next .plain ∧
        code = ([.store slots.start.id posArg], some (.br next))
  | .present slots start, code => slots ∈ e.colors ∧
      slots.dispatch.answer (start + 2) + 1 < d.body.regs.length ∧
      d.Marked here 0 (code.1.map (Instr.deedOfCall .flushes)) ∧
      ∃ next failed, d.Plays roles next .plain ∧
        d.Plays roles failed (.flushFailed (slots.dispatch.answer (start + 2))) ∧
        code = (slots.dispatch.calling slots.sig [stateArg, .reg ⟨start⟩, endArg]
            e.options.calleeHints (start + 2) ++
            [.icmp ⟨slots.dispatch.answer (start + 2) + 1⟩ .eq
              (.reg ⟨slots.dispatch.answer (start + 2)⟩) (.status 0)],
          some (.condBr (.reg ⟨slots.dispatch.answer (start + 2) + 1⟩) next failed .likelyTrue))
  | .flushFailed answer, code => d.Marked here 0 [none, none, none] ∧
      code = (e.record.stores endArg (.reg ⟨answer⟩), some (.ret (.reg ⟨answer⟩)))

structure Outlined (e : Emitter) (d : Draft) (roles : List Role) : Prop where
  length : roles.length = d.body.codes.length
  formed : ∀ i role code, roles[i]? = some role → d.body.codes[i]? = some code →
    Formed e d roles ⟨d.body.id, i⟩ role code
  points : ∀ here ∈ d.points, d.Plays roles here .plain ∨
    ∃ answer, d.Plays roles here (.failed answer)
  paths : ∀ path ∈ d.paths, ∃ answer, d.Plays roles path.block (.failed answer)
  failures : ∀ i answer, roles[i]? = some (.failed answer) →
    ∃ path ∈ d.paths, path.block = ⟨d.body.id, i⟩
  owned : ∀ here i, (here, i) ∈ d.own → ∃ code, d.body.code? here = some code ∧ i ∈ code.1
  fresh : ∀ here, d.body.instr? here = none → d.deed here = none

theorem Outlined.formed_of_plays {e : Emitter} {d : Draft} {roles : List Role}
    (h : Outlined e d roles) {here : BlockId} {role : Role} (hplays : d.Plays roles here role) :
    ∃ code, d.body.code? here = some code ∧ Formed e d roles here role code := by
  obtain ⟨howner, hrole⟩ := hplays
  have hlt : here.index < d.body.codes.length := by
    rw [← h.length]
    exact (List.getElem?_eq_some_iff.1 hrole).1
  have hcode := List.getElem?_eq_getElem hlt
  have hhere : (⟨d.body.id, here.index⟩ : BlockId) = here := by rw [← howner]
  have hformed := h.formed here.index role _ hrole hcode
  rw [hhere] at hformed
  exact ⟨_, Body.code?_some.2 ⟨howner, hcode⟩, hformed⟩

theorem Outlined.plays_of_code {e : Emitter} {d : Draft} {roles : List Role}
    (h : Outlined e d roles) {here : BlockId} {code : Code}
    (hcode : d.body.code? here = some code) :
    ∃ role, d.Plays roles here role ∧ Formed e d roles here role code := by
  obtain ⟨howner, hget⟩ := Body.code?_some.1 hcode
  have hlt : here.index < roles.length := by
    rw [h.length]
    exact (List.getElem?_eq_some_iff.1 hget).1
  have hplays : d.Plays roles here roles[here.index] := ⟨howner, List.getElem?_eq_getElem hlt⟩
  obtain ⟨code', hcode', hformed⟩ := h.formed_of_plays hplays
  obtain rfl := Option.some.inj (hcode.symm.trans hcode')
  exact ⟨_, hplays, hformed⟩

/-- What the draft `d` has been told stays so in `d'`. -/
structure Grows (d d' : Draft) (roles roles' : List Role) : Prop where
  id : d'.body.id = d.body.id
  regs : d.body.regs.length ≤ d'.body.regs.length
  own : d.own ⊆ d'.own
  exits : d.exits ⊆ d'.exits
  resumed : d.resumed ⊆ d'.resumed
  roles : roles <+: roles'
  deed : ∀ here i, d.body.instr? here = some i → d'.deed here = d.deed here

section Grows

variable {e : Emitter} {d d' : Draft} {roles roles' : List Role} {here : BlockId}

theorem Plays.mono {role : Role} (h : d.Plays roles here role) (g : Grows d d' roles roles') :
    d'.Plays roles' here role := by
  obtain ⟨rest, hrest⟩ := g.roles
  have hlt : here.index < roles.length := (List.getElem?_eq_some_iff.1 h.2).1
  refine ⟨h.1.trans g.id.symm, ?_⟩
  rw [← hrest, List.getElem?_append_left hlt]
  exact h.2

theorem Marked.mono {k : Nat} {deeds : List (Option Deed)} (h : d.Marked here k deeds)
    (g : Grows d d' roles roles')
    (hin : ∀ j < deeds.length, ∃ i, d.body.instr? ⟨here, k + j⟩ = some i) :
    d'.Marked here k deeds := by
  intro j deed hj
  obtain ⟨i, hi⟩ := hin j (List.getElem?_eq_some_iff.1 hj).1
  rw [g.deed _ i hi]
  exact h j deed hj

theorem Closing.mono {k : Nat} {slots : ColorSlots} {start answer : Nat} {is : List Instr}
    {t : Option Terminator} (h : Closing e d roles here k slots start answer is t)
    (g : Grows d d' roles roles')
    (hin : ∀ j i, is[j]? = some i → d.body.instr? ⟨here, k + j⟩ = some i) :
    Closing e d' roles' here k slots start answer is t := by
  obtain ⟨s, span, color, hs, hcode, hm⟩ := h.code
  obtain ⟨next, failed, ht, hnext, hfailed⟩ := h.term
  refine ⟨⟨s, span, color, hs, hcode, hm.mono g fun j hj => ?_⟩,
    ⟨next, failed, ht, hnext.mono g, hfailed.mono g⟩, h.regs.1, h.regs.2.trans_le g.regs⟩
  rw [List.length_map] at hj
  exact ⟨_, hin j _ (List.getElem?_eq_getElem hj)⟩

theorem Tail.mono {k : Nat} {is : List Instr} {t : Option Terminator}
    (h : Tail e d roles here k is t) (g : Grows d d' roles roles')
    (hin : ∀ j i, is[j]? = some i → d.body.instr? ⟨here, k + j⟩ = some i) :
    Tail e d' roles' here k is t := by
  have hmarked : ∀ {k : Nat} {is : List Instr} {deeds : List (Option Deed)},
      d.Marked here k deeds → deeds.length ≤ is.length →
      (∀ j i, is[j]? = some i → d.body.instr? ⟨here, k + j⟩ = some i) →
      d'.Marked here k deeds := by
    intro k is deeds hm hle hin
    refine hm.mono g fun j hj => ?_
    exact ⟨_, hin j _ (List.getElem?_eq_getElem (hj.trans_le hle))⟩
  induction h with
  | unfinished => exact .unfinished
  | @own k i is t hown hdst hm h ih =>
    refine .own (g.own hown) (fun r hr => (hdst r hr).trans_le g.regs)
      (hmarked hm (by simp) hin) (ih fun j i hi => ?_)
    have := hin (j + 1) i (by simpa using hi)
    rwa [Nat.add_assoc, Nat.add_comm 1]
  | @opening k s span color slots is t hs hm h ih =>
    refine .opening hs (hmarked hm ?_ hin) (ih fun j i hi => ?_)
    · simp [ColorSlots.opening]
    · have := hin ((slots.opening span.callback).length + j) i
        (by rw [List.getElem?_append_right (by omega)]; simpa using hi)
      rwa [Nat.add_assoc]
  | exit h => exact .exit (g.exits h)
  | rebase hslots hr hm hrestart hnext =>
    exact .rebase hslots (hr.trans_le g.regs) (hmarked hm (by simp [ColorSlots.test]) hin)
      (hrestart.mono g) (hnext.mono g)
  | flush hslots hr hm hpresent hnext =>
    exact .flush hslots (hr.trans_le g.regs) (hmarked hm (by simp [ColorSlots.test]) hin)
      (hpresent.mono g) (hnext.mono g)
  | @close k slots r is t hdebug hm h =>
    refine .close hdebug (hmarked hm (by simp) hin) (h.mono g fun j i hi => ?_)
    have := hin (j + 1) i (by simpa using hi)
    rwa [Nat.add_assoc, Nat.add_comm 1]
  | check hslots hr hm htrap hopened =>
    exact .check hslots (hr.trans_le g.regs) (hmarked hm (by simp [ColorSlots.test]) hin)
      (htrap.mono g) (hopened.mono g)
  | resume h htarget hm => exact .resume (g.resumed h) htarget (hmarked hm (by simp) hin)

theorem Formed.mono {role : Role} {code : Code} (h : Formed e d roles here role code)
    (g : Grows d d' roles roles')
    (hin : ∀ j i, code.1[j]? = some i → d.body.instr? ⟨here, j⟩ = some i) :
    Formed e d' roles' here role code := by
  have hin' : ∀ j i, code.1[j]? = some i → d.body.instr? ⟨here, 0 + j⟩ = some i := by
    simpa only [Nat.zero_add] using hin
  have hsome : ∀ j < code.1.length, ∃ i, d.body.instr? ⟨here, 0 + j⟩ = some i :=
    fun j hj => ⟨_, hin' j _ (List.getElem?_eq_getElem hj)⟩
  cases role with
  | plain => exact Tail.mono h g hin'
  | failed answer =>
    obtain ⟨is, hcode, hm, ht⟩ := h
    refine ⟨is, hcode, hm.mono g fun j hj => hsome j ?_, ht.mono g fun j i hi => ?_⟩
    · rw [hcode]
      simp only [List.length_cons, List.length_nil] at hj
      simp [ErrorRecord.stores]
      omega
    · have := hin (3 + j) i (by
        rw [hcode, List.getElem?_append_right (by simp [ErrorRecord.stores])]
        simpa [ErrorRecord.stores] using hi)
      exact this
  | trap => exact h
  | opened slots start => exact Closing.mono h g hin'
  | restart slots =>
    obtain ⟨hslots, hm, next, hnext, rfl⟩ := h
    exact ⟨hslots, hm.mono g fun j hj => hsome j (by simpa using hj), next, hnext.mono g, rfl⟩
  | present slots start =>
    obtain ⟨hslots, hr, hm, next, failed, hnext, hfailed, rfl⟩ := h
    exact ⟨hslots, hr.trans_le g.regs, hm.mono g fun j hj => hsome j (by simpa using hj), next,
      failed, hnext.mono g, hfailed.mono g, rfl⟩
  | flushFailed answer =>
    obtain ⟨hm, rfl⟩ := h
    exact ⟨hm.mono g fun j hj => hsome j (by simpa [ErrorRecord.stores] using hj), rfl⟩

theorem Tail.append {k : Nat} {is more : List Instr} {t : Option Terminator}
    (h : Tail e d roles here k is none) (h' : Tail e d roles here (k + is.length) more t) :
    Tail e d roles here k (is ++ more) t := by
  generalize hnone : (none : Option Terminator) = t₀ at h
  induction h with
  | unfinished => exact h'
  | @own k i is t₀ hown hdst hm h ih =>
    refine .own hown hdst hm (ih ?_ hnone)
    rw [List.length_cons] at h'
    rwa [Nat.add_assoc, Nat.add_comm 1]
  | opening hs hm h ih =>
    rw [List.append_assoc]
    refine .opening hs hm (ih ?_ hnone)
    rwa [Nat.add_assoc, ← List.length_append]
  | @close k slots r is t₀ hdebug hm h =>
    obtain ⟨next, failed, ht, -⟩ := h.term
    simp [ht] at hnone
  | _ => simp at hnone

end Grows

section Extend

variable {e : Emitter} {d d' : Draft} {roles new : List Role}

theorem Formed.tail_of_open {here : BlockId} {role : Role} {is : List Instr}
    (h : Formed e d roles here role (is, none)) {more : List Instr} {t : Option Terminator}
    (h' : Tail e d roles here is.length more t) : Formed e d roles here role (is ++ more, t) := by
  cases role with
  | plain => exact Tail.append h (by rwa [Nat.zero_add])
  | failed answer =>
    obtain ⟨rest, hcode, hm, ht⟩ := h
    simp only at hcode
    refine ⟨rest ++ more, by simp [hcode], hm, Tail.append ht ?_⟩
    have hlength : is.length = 3 + rest.length := by
      rw [hcode, List.length_append]
      rfl
    rwa [← hlength]
  | trap => simp [Formed] at h
  | opened slots start =>
    obtain ⟨next, failed, ht, -⟩ := Closing.term h
    simp at ht
  | restart slots => simp [Formed] at h
  | present slots start => simp [Formed] at h
  | flushFailed answer => simp [Formed] at h

theorem Outlined.grow (h : Outlined e d roles) {here : BlockId} {old head : List Instr}
    {term : Option Terminator} {tail : List Code} {tys : List Ty}
    (g : d.body.Grown here old head term tail tys d'.body) (hg : Grows d d' roles (roles ++ new))
    (hnew : new.length = tail.length)
    (hhead : Tail e d' (roles ++ new) here old.length head term)
    (htail : ∀ k role code, new[k]? = some role → tail[k]? = some code →
      Formed e d' (roles ++ new) ⟨d.body.id, d.body.codes.length + k⟩ role code)
    (hpoints : ∀ point ∈ d'.points, point ∈ d.points ∨ d'.Plays (roles ++ new) point .plain ∨
      ∃ answer, d'.Plays (roles ++ new) point (.failed answer))
    (hpaths : ∀ path ∈ d'.paths, path ∈ d.paths ∨
      ∃ answer, d'.Plays (roles ++ new) path.block (.failed answer))
    (hkept : d.paths ⊆ d'.paths)
    (hfailures : ∀ k answer, new[k]? = some (.failed answer) →
      ∃ path ∈ d'.paths, path.block = ⟨d.body.id, d.body.codes.length + k⟩)
    (howned : ∀ point i, (point, i) ∈ d'.own → (point, i) ∈ d.own ∨ point = here ∧ i ∈ head)
    (hfresh : ∀ point, d'.body.instr? point = none → d'.deed point = none) :
    Outlined e d' (roles ++ new) := by
  have hlength := g.length_eq
  refine ⟨by simp [h.length, hnew, hlength], ?_, ?_, ?_, ?_, ?_, hfresh⟩
  · intro i role code hrole hcode
    rw [hg.id]
    rcases Nat.lt_or_ge i d.body.codes.length with hlt | hge
    · rw [List.getElem?_append_left (by rw [h.length]; exact hlt)] at hrole
      have hold := List.getElem?_eq_getElem hlt
      have hformed := (h.formed i role _ hrole hold).mono hg fun j instr hj => by
        rw [Body.instr?_of_code ((Body.code?_at _ i).trans hold)]
        exact hj
      by_cases hi : i = here.index
      · subst hi
        have hbase := Body.code?_some.1 g.base
        have hhere : (⟨d.body.id, here.index⟩ : BlockId) = here := by
          rw [← hbase.1]
        rw [(Body.code?_some.1 g.code_here).2] at hcode
        obtain rfl := Option.some.inj hcode
        rw [hold] at hbase
        rw [Option.some.inj hbase.2, hhere] at hformed
        rw [hhere]
        exact hformed.tail_of_open hhead
      · rw [g.code_other hlt hi, hold] at hcode
        exact Option.some.inj hcode ▸ hformed
    · obtain ⟨k, rfl⟩ := Nat.exists_eq_add_of_le hge
      rw [List.getElem?_append_right (by rw [h.length]; omega), h.length,
        Nat.add_sub_cancel_left] at hrole
      rw [← Body.code?_at, hg.id, g.code_tail] at hcode
      exact htail k role code hrole hcode
  · intro point hpoint
    rcases hpoints point hpoint with hold | hplays
    · exact (h.points point hold).imp (·.mono hg) (.imp fun answer hplays => hplays.mono hg)
    · exact hplays
  · intro path hpath
    rcases hpaths path hpath with hold | hplays
    · obtain ⟨answer, hplays⟩ := h.paths path hold
      exact ⟨answer, hplays.mono hg⟩
    · exact hplays
  · intro i answer hrole
    rw [hg.id]
    rcases Nat.lt_or_ge i roles.length with hlt | hge
    · rw [List.getElem?_append_left hlt] at hrole
      obtain ⟨path, hmem, hblock⟩ := h.failures i answer hrole
      exact ⟨path, hkept hmem, hblock⟩
    · obtain ⟨k, rfl⟩ := Nat.exists_eq_add_of_le hge
      rw [List.getElem?_append_right hge, Nat.add_sub_cancel_left] at hrole
      rw [h.length]
      exact hfailures k answer hrole
  · intro point i hi
    rcases howned point i hi with hold | ⟨rfl, hmem⟩
    · obtain ⟨code, hcode, hmem⟩ := h.owned point i hold
      by_cases hpoint : point = here
      · subst hpoint
        have hbase : d.body.code? point = _ := g.base
        rw [hcode] at hbase
        obtain rfl := Option.some.inj hbase
        exact ⟨_, g.code_here, List.mem_append_left _ hmem⟩
      · exact ⟨code, g.code_of_ne hcode hpoint, hmem⟩
    · exact ⟨_, g.code_here, List.mem_append_right _ hmem⟩

end Extend

end Draft

end SpanTracking
