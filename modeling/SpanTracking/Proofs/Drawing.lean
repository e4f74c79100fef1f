import SpanTracking.Proofs.Assembly
import SpanTracking.Proofs.Plans

set_option autoImplicit false

namespace SpanTracking

/-- Where a stage is: its block and, on a failure path, the register of the answer. -/
structure Site where
  block : BlockId
  answer : Option Nat := none

def Emitter.openingOf (e : Emitter) (s : SpanId) : List Instr :=
  match e.locate s with
  | .ok (span, _, slots) => slots.opening span.callback
  | .error _ => []

theorem Emitter.openingOf_eq {e : Emitter} {s : SpanId} {span : SpanDecl} {color : Nat}
    {slots : ColorSlots} (hs : e.locate s = .ok (span, color, slots)) :
    e.openingOf s = slots.opening span.callback := by
  simp [openingOf, hs]

def Stage.lead (e : Emitter) (stage : Stage) (answer : Option Nat) : List Instr :=
  (answer.elim [] fun r => e.record.stores posArg (.reg ⟨r⟩)) ++ stage.opens.flatMap e.openingOf

namespace Drawing

/-- A finished block of which no stage knows. -/
structure Inner (b : Body) (sites : List Site) (block : BlockId) (is : List Instr)
    (t : Terminator) : Prop where
  code : b.code? block = some (is, some t)
  apart : ∀ site ∈ sites, site.block ≠ block

/-- Of the registers from `lo` to `hi`, only that of the stage `failed` is kept for a failure
path. -/
def Owned (sites : List Site) (lo hi : Nat) (failed : Option Nat) : Prop :=
  ∀ (i : Nat) (site : Site) (x : Nat), sites[i]? = some site → site.answer = some x → lo ≤ x →
    x < hi → failed = some i

/-- The code by which a stage is left, from instruction `k` of its block on. -/
inductive Leaving (e : Emitter) (b : Body) (ends : List (Point × SpanId)) (sites : List Site)
    (here : BlockId) (k : Nat) : Option Exit → List Instr → Option Terminator → Prop
  | unfinished : Leaving e b ends sites here k none [] none
  | closes {s : SpanId} {span : SpanDecl} {color : Nat} {slots : ColorSlots} {next failed r : Nat}
      {next' failed' : Site} (hchecks : e.options.debugChecks = false)
      (hs : e.locate s = .ok (span, color, slots)) (hends : (⟨here, k⟩, s) ∈ ends)
      (hr : r + 3 ≤ b.regs.length) (howned : Owned sites r (r + 3) (some failed))
      (hnext : sites[next]? = some next') (hfailed : sites[failed]? = some failed')
      (hanswer : failed'.answer = some (r + 1)) :
      Leaving e b ends sites here k (some (.closes s next failed))
        (.load ⟨r⟩ slots.start.id slots.start.ty :: slots.close span.callback r (r + 1))
        (some (.condBr (.reg ⟨r + 2⟩) next'.block failed'.block .likelyTrue))
  | checks {s : SpanId} {span : SpanDecl} {color : Nat} {slots : ColorSlots} {next failed r : Nat}
      {next' failed' : Site} {trap opened : BlockId} (hchecks : e.options.debugChecks = true)
      (hs : e.locate s = .ok (span, color, slots)) (hends : (⟨here, k⟩, s) ∈ ends)
      (hr : r + 4 ≤ b.regs.length) (howned : Owned sites r (r + 4) (some failed))
      (hnext : sites[next]? = some next') (hfailed : sites[failed]? = some failed')
      (hanswer : failed'.answer = some (r + 2)) (htrap : Inner b sites trap [] .unreachable)
      (hopened : Inner b sites opened (slots.close span.callback r (r + 2))
        (.condBr (.reg ⟨r + 3⟩) next'.block failed'.block .likelyTrue)) :
      Leaving e b ends sites here k (some (.closes s next failed)) (slots.test .eq r)
        (some (.condBr (.reg ⟨r + 1⟩) trap opened .likelyFalse))
  | rebases {color : Nat} {slots : ColorSlots} {next r : Nat} {next' : Site} {restart : BlockId}
      (hslots : e.colors[color]? = some slots) (hr : r + 2 ≤ b.regs.length)
      (howned : Owned sites r (r + 2) none) (hnext : sites[next]? = some next')
      (hrestart : Inner b sites restart [.store slots.start.id posArg] (.br next'.block)) :
      Leaving e b ends sites here k (some (.rebases color next)) (slots.test .ne r)
        (some (.condBr (.reg ⟨r + 1⟩) restart next'.block .none))
  | flushes {color : Nat} {slots : ColorSlots} {next r : Nat} {next' : Site}
      {present failed : BlockId} (hslots : e.colors[color]? = some slots)
      (hr : slots.dispatch.answer (r + 2) + 2 ≤ b.regs.length)
      (howned : Owned sites r (slots.dispatch.answer (r + 2) + 2) none)
      (hnext : sites[next]? = some next')
      (hpresent : Inner b sites present
        (slots.dispatch.calling slots.sig [stateArg, .reg ⟨r⟩, endArg] e.options.calleeHints
            (r + 2) ++
          [.icmp ⟨slots.dispatch.answer (r + 2) + 1⟩ .eq (.reg ⟨slots.dispatch.answer (r + 2)⟩)
            (.status 0)])
        (.condBr (.reg ⟨slots.dispatch.answer (r + 2) + 1⟩) next'.block failed .likelyTrue))
      (hfailed : Inner b sites failed
        (e.record.stores endArg (.reg ⟨slots.dispatch.answer (r + 2)⟩))
        (.ret (.reg ⟨slots.dispatch.answer (r + 2)⟩))) :
      Leaving e b ends sites here k (some (.flushes color next)) (slots.test .ne r)
        (some (.condBr (.reg ⟨r + 1⟩) present next'.block .none))
  | resumes {target : FuncId} :
      Leaving e b ends sites here k (some (.resumes target)) [.store e.current.id (.func target)]
        (some (.ret (.status e.options.errorSentinel)))
  | jumps {target : Nat} {target' : Site} (htarget : sites[target]? = some target') :
      Leaving e b ends sites here k (some (.jumps target)) [] (some (.br target'.block))
  | branches {bits : Nat} {value : Int} {onTrue onFalse : Nat} {onTrue' onFalse' : Site}
      {hint : BranchHint} (htrue : sites[onTrue]? = some onTrue')
      (hfalse : sites[onFalse]? = some onFalse') :
      Leaving e b ends sites here k (some (.branches value onTrue onFalse)) []
        (some (.condBr (.int bits value) onTrue'.block onFalse'.block hint))
  | returns {value : Operand} (hvalue : value.isConstant) :
      Leaving e b ends sites here k (some (.returns value)) [] (some (.ret value))

structure Drawn (e : Emitter) (b : Body) (ends : List (Point × SpanId)) (sites : List Site)
    (stage : Stage) (site : Site) : Prop where
  failure : stage.failure = site.answer.isSome
  code : ∃ is t, b.code? site.block = some (stage.lead e site.answer ++ is, t) ∧
    Leaving e b ends sites site.block (stage.lead e site.answer).length stage.exit is t

structure Draws (e : Emitter) (b : Body) (ends : List (Point × SpanId)) (stages : List Stage)
    (sites : List Site) : Prop where
  entry : ∃ site, sites[0]? = some site ∧ site.block = b.entry
  distinct : (sites.map Site.block).Nodup
  length : sites.length = stages.length
  drawn : ∀ (i : Nat) (stage : Stage) (site : Site), stages[i]? = some stage →
    sites[i]? = some site → Drawn e b ends sites stage site
  answers : ∀ site ∈ sites, ∀ r, site.answer = some r → r < b.regs.length
  ends : ∀ x ∈ ends, ∃ (i : Nat) (stage : Stage) (site : Site) (next failed : Nat),
    stages[i]? = some stage ∧ sites[i]? = some site ∧
    stage.exit = some (.closes x.2 next failed) ∧
    x.1 = ⟨site.block, (stage.lead e site.answer).length⟩

section Mono

variable {e : Emitter} {b b' : Body} {ends more : List (Point × SpanId)} {sites new : List Site}

def Later (b : Body) (site : Site) : Prop :=
  b.code? site.block = none ∧ ∀ r, site.answer = some r → b.regs.length ≤ r

theorem getElem?_sites {i : Nat} {site : Site} (h : sites[i]? = some site) :
    (sites ++ new)[i]? = some site := by
  rw [List.getElem?_append_left (List.getElem?_eq_some_iff.1 h).1]
  exact h

theorem Inner.mono {block : BlockId} {is : List Instr} {t : Terminator}
    (h : Inner b sites block is t) (hw : b.Within b') (hnew : ∀ site ∈ new, Later b site) :
    Inner b' (sites ++ new) block is t := by
  refine ⟨hw.finished _ _ _ h.code, fun site hsite => ?_⟩
  rcases List.mem_append.1 hsite with hold | hadded
  · exact h.apart site hold
  · rintro rfl
    simpa [(hnew site hadded).1] using h.code

theorem Owned.mono {lo hi : Nat} {failed : Option Nat} (h : Owned sites lo hi failed)
    (hhi : hi ≤ b.regs.length) (hnew : ∀ site ∈ new, Later b site) :
    Owned (sites ++ new) lo hi failed := by
  intro i site x hi hx hle hlt
  rcases Nat.lt_or_ge i sites.length with hi' | hi'
  · rw [List.getElem?_append_left hi'] at hi
    exact h i site x hi hx hle hlt
  · rw [List.getElem?_append_right hi'] at hi
    have := (hnew site (List.mem_of_getElem? hi)).2 x hx
    omega

theorem owned_new (hsites : ∀ site ∈ sites, ∀ r, site.answer = some r → r < b.regs.length)
    {hi : Nat} {failed : Option Nat}
    (hnew : ∀ (j : Nat) (site : Site) (x : Nat), new[j]? = some site → site.answer = some x →
      x < hi → failed = some (sites.length + j)) :
    Owned (sites ++ new) b.regs.length hi failed := by
  intro i site x hi hx hle hlt
  rcases Nat.lt_or_ge i sites.length with hi' | hi'
  · rw [List.getElem?_append_left hi'] at hi
    have := hsites site (List.mem_of_getElem? hi) x hx
    omega
  · obtain ⟨j, rfl⟩ := Nat.exists_eq_add_of_le hi'
    rw [List.getElem?_append_right hi', Nat.add_sub_cancel_left] at hi
    exact hnew j site x hi hx hlt

theorem owned_plain (hsites : ∀ site ∈ sites, ∀ r, site.answer = some r → r < b.regs.length)
    (hi : Nat) (block : BlockId) : Owned (sites ++ [⟨block, none⟩]) b.regs.length hi none := by
  refine owned_new hsites fun j site x hj hx => ?_
  obtain rfl := List.mem_singleton.1 (List.mem_of_getElem? hj)
  simp at hx

theorem Leaving.mono {here : BlockId} {k : Nat} {exit : Option Exit} {is : List Instr}
    {t : Option Terminator} (h : Leaving e b ends sites here k exit is t) (hw : b.Within b')
    (hnew : ∀ site ∈ new, Later b site) :
    Leaving e b' (ends ++ more) (sites ++ new) here k exit is t := by
  cases h with
  | unfinished => exact .unfinished
  | closes hchecks hs hends hr howned hnext hfailed hanswer =>
    exact .closes hchecks hs (List.mem_append_left _ hends) (hr.trans hw.regs)
      (howned.mono hr hnew) (getElem?_sites hnext) (getElem?_sites hfailed) hanswer
  | checks hchecks hs hends hr howned hnext hfailed hanswer htrap hopened =>
    exact .checks hchecks hs (List.mem_append_left _ hends) (hr.trans hw.regs)
      (howned.mono hr hnew) (getElem?_sites hnext) (getElem?_sites hfailed) hanswer
      (htrap.mono hw hnew) (hopened.mono hw hnew)
  | rebases hslots hr howned hnext hrestart =>
    exact .rebases hslots (hr.trans hw.regs) (howned.mono hr hnew) (getElem?_sites hnext)
      (hrestart.mono hw hnew)
  | flushes hslots hr howned hnext hpresent hfailed =>
    exact .flushes hslots (hr.trans hw.regs) (howned.mono hr hnew) (getElem?_sites hnext)
      (hpresent.mono hw hnew) (hfailed.mono hw hnew)
  | resumes => exact .resumes
  | jumps htarget => exact .jumps (getElem?_sites htarget)
  | branches htrue hfalse => exact .branches (getElem?_sites htrue) (getElem?_sites hfalse)
  | returns hvalue => exact .returns hvalue

theorem Drawn.mono {stage : Stage} {site : Site} (h : Drawn e b ends sites stage site)
    (hw : b.Within b') (hnew : ∀ site ∈ new, Later b site)
    (hcode : ∀ code, b.code? site.block = some code → b'.code? site.block = some code) :
    Drawn e b' (ends ++ more) (sites ++ new) stage site := by
  obtain ⟨is, t, hblock, hleaving⟩ := h.code
  exact ⟨h.failure, is, t, hcode _ hblock, hleaving.mono hw hnew⟩

end Mono

section Growth

variable {e : Emitter} {b b' : Body} {ends more : List (Point × SpanId)} {stages : List Stage}
  {sites : List Site}

/-- A stage that has just been added, at block number `k` of those added to the body. -/
structure Added (e : Emitter) (b b' : Body) (stage : Stage) (site : Site) : Prop where
  later : Later b site
  failure : stage.failure = site.answer.isSome
  bound : ∀ r, site.answer = some r → r < b'.regs.length
  exit : stage.exit = none
  code : b'.code? site.block = some (stage.lead e site.answer, none)

theorem Added.drawn {stage : Stage} {site : Site} (h : Added e b b' stage site) :
    Drawn e b' ends sites stage site := by
  refine ⟨h.failure, [], none, by rw [List.append_nil]; exact h.code, ?_⟩
  rw [h.exit]
  exact .unfinished

/-- The body gets further blocks, some of them for further stages. At most the stage `i` changes. -/
theorem Draws.extend (h : Draws e b ends stages sites) (hw : b.Within b') (i : Nat)
    (change : Stage → Stage) {added : List Stage} {new : List Site}
    (hadded : List.Forall₂ (Added e b b') added new) (hdistinct : (new.map Site.block).Nodup)
    (hcode : ∀ (j : Nat) (site : Site) (code : Code), j ≠ i → sites[j]? = some site →
      b.code? site.block = some code → b'.code? site.block = some code)
    (hhere : ∀ stage site, stages[i]? = some stage → sites[i]? = some site →
      stage.exit = none ∧ Drawn e b' (ends ++ more) (sites ++ new) (change stage) site)
    (hmore : ∀ x ∈ more, ∃ stage site next failed, stages[i]? = some stage ∧
      sites[i]? = some site ∧ (change stage).exit = some (.closes x.2 next failed) ∧
      x.1 = ⟨site.block, ((change stage).lead e site.answer).length⟩) :
    Draws e b' (ends ++ more) (stages.modify i change ++ added) (sites ++ new) := by
  have hnew : ∀ site ∈ new, Later b site := by
    intro site hsite
    obtain ⟨j, hj⟩ := List.getElem?_of_mem hsite
    obtain ⟨hlt, rfl⟩ := List.getElem?_eq_some_iff.1 hj
    have hlt' : j < added.length := by rw [hadded.length_eq]; exact hlt
    exact (hadded.get hlt' hlt).later
  have hlength : (stages.modify i change).length = sites.length := by
    rw [List.length_modify, h.length]
  refine ⟨?_, ?_, ?_, ?_, ?_, ?_⟩
  · obtain ⟨site, hsite, hentry⟩ := h.entry
    exact ⟨site, getElem?_sites hsite, by rw [hentry, Body.entry, Body.entry, hw.id]⟩
  · rw [List.map_append]
    refine h.distinct.append hdistinct fun block hold hadd => ?_
    obtain ⟨site, hsite, rfl⟩ := List.mem_map.1 hold
    obtain ⟨site', hsite', heq⟩ := List.mem_map.1 hadd
    obtain ⟨j, hj⟩ := List.getElem?_of_mem hsite
    have hlt : j < stages.length := by rw [← h.length]; exact (List.getElem?_eq_some_iff.1 hj).1
    obtain ⟨is, t, hblock, -⟩ := (h.drawn j _ site (List.getElem?_eq_getElem hlt) hj).code
    rw [← heq, (hnew site' hsite').1] at hblock
    simp at hblock
  · simp [h.length, hadded.length_eq]
  · -- A stage is another one that was there, the one that changes, or a new one.
    intro j stage site hstage hsite
    rcases Nat.lt_or_ge j sites.length with hj | hj
    · rw [List.getElem?_append_left (by omega), List.getElem?_modify] at hstage
      rw [List.getElem?_append_left hj] at hsite
      obtain ⟨stage₀, hstage₀, rfl⟩ := Option.map_eq_some_iff.1 hstage
      by_cases hji : i = j
      · subst hji
        rw [if_pos rfl]
        exact (hhere stage₀ site hstage₀ hsite).2
      · rw [if_neg hji]
        exact (h.drawn j stage₀ site hstage₀ hsite).mono hw hnew
          fun code => hcode j site code (Ne.symm hji) hsite
    · obtain ⟨j, rfl⟩ := Nat.exists_eq_add_of_le hj
      rw [List.getElem?_append_right (by omega), hlength, Nat.add_sub_cancel_left] at hstage
      rw [List.getElem?_append_right hj, Nat.add_sub_cancel_left] at hsite
      obtain ⟨hlt, rfl⟩ := List.getElem?_eq_some_iff.1 hstage
      obtain ⟨hlt', rfl⟩ := List.getElem?_eq_some_iff.1 hsite
      exact (hadded.get hlt hlt').drawn
  · intro site hsite r hr
    rcases List.mem_append.1 hsite with hold | hadd
    · exact (h.answers site hold r hr).trans_le hw.regs
    · obtain ⟨j, hj⟩ := List.getElem?_of_mem hadd
      obtain ⟨hlt, rfl⟩ := List.getElem?_eq_some_iff.1 hj
      have hlt' : j < added.length := by rw [hadded.length_eq]; exact hlt
      exact (hadded.get hlt' hlt).bound r hr
  · intro x hx
    rcases List.mem_append.1 hx with hold | hadd
    · obtain ⟨j, stage, site, next, failed, hstage, hsite, hexit, hx⟩ := h.ends x hold
      refine ⟨j, stage, site, next, failed, ?_, getElem?_sites hsite, hexit, hx⟩
      have hji : i ≠ j := by
        rintro rfl
        rw [(hhere stage site hstage hsite).1] at hexit
        simp at hexit
      have hlt := (List.getElem?_eq_some_iff.1 hstage).1
      rw [List.getElem?_append_left (by simpa using hlt), List.getElem?_modify_ne _ _ hji, hstage]
    · obtain ⟨stage, site, next, failed, hstage, hsite, hexit, hx⟩ := hmore x hadd
      refine ⟨i, change stage, site, next, failed, ?_, getElem?_sites hsite, hexit, hx⟩
      have hlt := (List.getElem?_eq_some_iff.1 hstage).1
      rw [List.getElem?_append_left (by simpa using hlt), List.getElem?_modify_eq, hstage]
      rfl

theorem Leaving.of_open {here : BlockId} {k : Nat} {exit : Option Exit} {is : List Instr}
    (h : Leaving e b ends sites here k exit is none) : exit = none ∧ is = [] := by
  cases h
  exact ⟨rfl, rfl⟩

section Fragment

variable {i : Nat} {stage : Stage} {site : Site} {old head : List Instr}
  {term : Option Terminator} {tail : List Code} {tys : List Ty}

/-- An open block is that of a stage that has not been left. -/
theorem Draws.of_open (h : Draws e b ends stages sites) (hstage : stages[i]? = some stage)
    (hsite : sites[i]? = some site) (hopen : b.Open site.block old) :
    stage.exit = none ∧ old = stage.lead e site.answer := by
  obtain ⟨is, t, hcode, hleaving⟩ := (h.drawn i stage site hstage hsite).code
  obtain ⟨hold, rfl⟩ := Prod.mk.inj (Option.some.inj (hopen.symm.trans hcode))
  obtain ⟨hexit, rfl⟩ := hleaving.of_open
  exact ⟨hexit, by rw [hold, List.append_nil]⟩

theorem Draws.code_ne_none (h : Draws e b ends stages sites) (hmem : site ∈ sites) :
    b.code? site.block ≠ none := by
  obtain ⟨j, hj⟩ := List.getElem?_of_mem hmem
  have hlt : j < stages.length := by rw [← h.length]; exact (List.getElem?_eq_some_iff.1 hj).1
  obtain ⟨is, t, hcode, -⟩ := (h.drawn j _ site (List.getElem?_eq_getElem hlt) hj).code
  simp [hcode]

theorem Draws.getElem?_new (h : Draws e b ends stages sites) {new : List Site} {j : Nat}
    (hnew : new[j]? = some site) : (sites ++ new)[stages.length + j]? = some site := by
  rw [← h.length, List.getElem?_append_right (Nat.le_add_right _ _), Nat.add_sub_cancel_left]
  exact hnew

theorem Draws.block_inj (h : Draws e b ends stages sites) {j : Nat} {site' : Site}
    (hsite : sites[i]? = some site) (hsite' : sites[j]? = some site')
    (hblock : site.block = site'.block) : i = j := by
  have hlt : i < (sites.map Site.block).length := by
    simpa using (List.getElem?_eq_some_iff.1 hsite).1
  refine (List.getElem?_inj hlt h.distinct).1 ?_
  rw [List.getElem?_map, List.getElem?_map, hsite, hsite', Option.map_some, Option.map_some, hblock]

theorem code?_new (b : Body) (k : Nat) : b.code? ⟨b.id, b.codes.length + k⟩ = none := by
  rw [Body.code?_at]
  exact List.getElem?_eq_none (Nat.le_add_right _ _)

/-- An open block of a fragment is there for a new stage. -/
theorem added_tail {here : BlockId} (g : b.Grown here old head term tail tys b') {k : Nat}
    (hblock : site.block = ⟨b.id, b.codes.length + k⟩)
    (htail : tail[k]? = some (stage.lead e site.answer, none)) (hexit : stage.exit = none)
    (hfailure : stage.failure = site.answer.isSome)
    (hanswer : ∀ r, site.answer = some r → b.regs.length ≤ r ∧ r < b'.regs.length) :
    Added e b b' stage site := by
  refine ⟨⟨by rw [hblock]; exact code?_new b k, fun r hr => (hanswer r hr).1⟩, hfailure,
    fun r hr => (hanswer r hr).2, hexit, ?_⟩
  rw [hblock, g.code_tail]
  exact htail

theorem Draws.inner_tail (h : Draws e b ends stages sites) {here : BlockId}
    (g : b.Grown here old head term tail tys b') {k : Nat} {is : List Instr} {t : Terminator}
    (htail : tail[k]? = some (is, some t)) {new : List Site}
    (hnew : ∀ site ∈ new, site.block ≠ ⟨b.id, b.codes.length + k⟩) :
    Inner b' (sites ++ new) ⟨b.id, b.codes.length + k⟩ is t := by
  refine ⟨(g.code_tail k).trans htail, fun site hsite => ?_⟩
  rcases List.mem_append.1 hsite with hold | hadded
  · intro heq
    have hne := h.code_ne_none hold
    rw [heq] at hne
    exact hne (code?_new b k)
  · exact hnew site hadded

theorem Draws.grow (h : Draws e b ends stages sites) (hstage : stages[i]? = some stage)
    (hsite : sites[i]? = some site) (g : b.Grown site.block old head term tail tys b')
    (change : Stage → Stage) {added : List Stage} {new : List Site}
    (hadded : List.Forall₂ (Added e b b') added new) (hdistinct : (new.map Site.block).Nodup)
    (hfailure : (change stage).failure = stage.failure) {is : List Instr}
    (hlead : stage.lead e site.answer ++ head = (change stage).lead e site.answer ++ is)
    (hleaving : Leaving e b' (ends ++ more) (sites ++ new) site.block
      ((change stage).lead e site.answer).length (change stage).exit is term)
    (hmore : ∀ x ∈ more, ∃ next failed, (change stage).exit = some (.closes x.2 next failed) ∧
      x.1 = ⟨site.block, ((change stage).lead e site.answer).length⟩) :
    Draws e b' (ends ++ more) (stages.modify i change ++ added) (sites ++ new) := by
  obtain ⟨hexit, rfl⟩ := h.of_open hstage hsite g.base
  refine h.extend g.within i change hadded hdistinct ?_ ?_ ?_
  · intro j site' code hj hsite' hcode
    exact g.code_of_ne hcode fun heq => hj (h.block_inj hsite' hsite heq)
  · intro stage' site' hstage' hsite'
    obtain rfl := Option.some.inj (hstage.symm.trans hstage')
    obtain rfl := Option.some.inj (hsite.symm.trans hsite')
    refine ⟨hexit, hfailure.trans (h.drawn i stage site hstage hsite).failure, is, term, ?_,
      hleaving⟩
    rw [g.code_here, hlead]
  · intro x hx
    obtain ⟨next, failed, hexit', hx'⟩ := hmore x hx
    exact ⟨stage, site, next, failed, hstage, hsite, hexit', hx'⟩

variable {k : Plan} {s : SpanId} {span : SpanDecl} {color : Nat} {slots : ColorSlots}

theorem Draws.opens (h : Draws e b ends k.stages sites) (hstage : k.stages[i]? = some stage)
    (hsite : sites[i]? = some site) (hs : e.locate s = .ok (span, color, slots))
    (g : b.Grown site.block old (slots.opening span.callback) none [] [] b') :
    Draws e b' ends (k.opening i s).stages sites := by
  obtain ⟨hexit, -⟩ := h.of_open hstage hsite g.base
  have hlead : stage.lead e site.answer ++ slots.opening span.callback =
      Stage.lead e { stage with opens := stage.opens ++ [s] } site.answer ++ [] := by
    simp [Stage.lead, Emitter.openingOf_eq hs]
  have hgrow := h.grow hstage hsite g (fun stage => { stage with opens := stage.opens ++ [s] })
    .nil List.nodup_nil rfl hlead (by rw [hexit]; exact .unfinished) (List.forall_mem_nil _)
  simpa [Plan.opening] using hgrow

theorem Draws.leaves (h : Draws e b ends k.stages sites) (hstage : k.stages[i]? = some stage)
    (hsite : sites[i]? = some site) (g : b.Grown site.block old head term [] [] b') {exit : Exit}
    (hleaving : Leaving e b' ends sites site.block (stage.lead e site.answer).length (some exit)
      head term) :
    Draws e b' ends (k.leave i exit []).stages sites := by
  rw [← List.append_nil ends, ← List.append_nil sites] at hleaving
  have hgrow := h.grow hstage hsite g (fun stage => { stage with exit := some exit }) .nil
    List.nodup_nil rfl rfl hleaving (List.forall_mem_nil _)
  simpa [Plan.leave] using hgrow

def endSites (b : Body) (n answer : Nat) : List Site :=
  [⟨⟨b.id, b.codes.length + n⟩, none⟩, ⟨⟨b.id, b.codes.length + (n + 1)⟩, some answer⟩]

theorem Draws.next_site (h : Draws e b ends stages sites) (n answer : Nat) :
    (sites ++ endSites b n answer)[stages.length]? = some ⟨⟨b.id, b.codes.length + n⟩, none⟩ :=
  h.getElem?_new (j := 0) rfl

theorem Draws.failed_site (h : Draws e b ends stages sites) (n answer : Nat) :
    (sites ++ endSites b n answer)[stages.length + 1]? =
      some ⟨⟨b.id, b.codes.length + (n + 1)⟩, some answer⟩ :=
  h.getElem?_new rfl

theorem Draws.owned_ends (h : Draws e b ends stages sites) (n answer hi : Nat) :
    Owned (sites ++ endSites b n answer) b.regs.length hi (some (stages.length + 1)) := by
  refine owned_new h.answers ?_
  rintro (_ | _ | j) site x hj hx -
  · obtain rfl := Option.some.inj hj
    simp at hx
  · rw [h.length]
  · simp [endSites] at hj

theorem Draws.closing (h : Draws e b ends k.stages sites) (hstage : k.stages[i]? = some stage)
    (hsite : sites[i]? = some site) (g : b.Grown site.block old head term tail tys b')
    {n answer : Nat} (hnext : tail[n]? = some ([], none))
    (hfailed : tail[n + 1]? = some (e.record.stores posArg (.reg ⟨answer⟩), none))
    (hlo : b.regs.length ≤ answer) (hhi : answer < b'.regs.length)
    (hleaving : Leaving e b' (ends ++ [(⟨site.block, (stage.lead e site.answer).length⟩, s)])
      (sites ++ endSites b n answer) site.block (stage.lead e site.answer).length
      (some (.closes s k.stages.length (k.stages.length + 1))) head term) :
    Draws e b' (ends ++ [(⟨site.block, old.length⟩, s)])
      (k.leave i (.closes s k.stages.length (k.stages.length + 1))
        [{}, { failure := true }]).stages (sites ++ endSites b n answer) := by
  obtain ⟨-, rfl⟩ := h.of_open hstage hsite g.base
  have hadded : Added e b b' {} ⟨⟨b.id, b.codes.length + n⟩, none⟩ :=
    added_tail g rfl hnext rfl rfl (by simp)
  have hadded' : Added e b b' { failure := true }
      ⟨⟨b.id, b.codes.length + (n + 1)⟩, some answer⟩ := by
    refine added_tail g rfl (by simpa [Stage.lead] using hfailed) rfl rfl ?_
    rintro r ⟨⟩
    exact ⟨hlo, hhi⟩
  have hdistinct : ((endSites b n answer).map Site.block).Nodup := by simp [endSites]
  refine h.grow hstage hsite g (fun stage =>
      { stage with exit := some (.closes s k.stages.length (k.stages.length + 1)) })
    (.cons hadded (.cons hadded' .nil)) hdistinct rfl rfl hleaving ?_
  intro x hx
  obtain rfl := List.mem_singleton.1 hx
  exact ⟨_, _, rfl, rfl⟩

theorem Draws.closes (h : Draws e b ends k.stages sites) (hstage : k.stages[i]? = some stage)
    (hsite : sites[i]? = some site) (hs : e.locate s = .ok (span, color, slots))
    (hchecks : e.options.debugChecks = false)
    (g : b.Grown site.block old
      (.load ⟨b.regs.length⟩ slots.start.id slots.start.ty ::
        slots.close span.callback b.regs.length (b.regs.length + 1))
      (some (.condBr (.reg ⟨b.regs.length + 2⟩) ⟨b.id, b.codes.length⟩
        ⟨b.id, b.codes.length + 1⟩ .likelyTrue))
      [([], none), (e.record.stores posArg (.reg ⟨b.regs.length + 1⟩), none)]
      [slots.start.ty, slots.sig.ret, .i1] b') :
    Draws e b' (ends ++ [(⟨site.block, old.length⟩, s)])
      (k.leave i (.closes s k.stages.length (k.stages.length + 1))
        [{}, { failure := true }]).stages (sites ++ endSites b 0 (b.regs.length + 1)) := by
  have hregs : b'.regs.length = b.regs.length + 3 := by simp [g.regs]
  refine h.closing hstage hsite g rfl rfl (by omega) (by omega) ?_
  exact .closes hchecks hs (List.mem_append_right _ (List.mem_singleton_self _)) hregs.ge
    (h.owned_ends 0 _ _) (h.next_site 0 _) (h.failed_site 0 _) rfl

theorem Draws.checks (h : Draws e b ends k.stages sites) (hstage : k.stages[i]? = some stage)
    (hsite : sites[i]? = some site) (hs : e.locate s = .ok (span, color, slots))
    (hchecks : e.options.debugChecks = true)
    (g : b.Grown site.block old (slots.test .eq b.regs.length)
      (some (.condBr (.reg ⟨b.regs.length + 1⟩) ⟨b.id, b.codes.length⟩
        ⟨b.id, b.codes.length + 1⟩ .likelyFalse))
      [([], some .unreachable),
        (slots.close span.callback b.regs.length (b.regs.length + 2),
          some (.condBr (.reg ⟨b.regs.length + 3⟩) ⟨b.id, b.codes.length + 2⟩
            ⟨b.id, b.codes.length + 3⟩ .likelyTrue)),
        ([], none), (e.record.stores posArg (.reg ⟨b.regs.length + 2⟩), none)]
      [slots.start.ty, .i1, slots.sig.ret, .i1] b') :
    Draws e b' (ends ++ [(⟨site.block, old.length⟩, s)])
      (k.leave i (.closes s k.stages.length (k.stages.length + 1))
        [{}, { failure := true }]).stages (sites ++ endSites b 2 (b.regs.length + 2)) := by
  have hregs : b'.regs.length = b.regs.length + 4 := by simp [g.regs]
  have htrap : Inner b' (sites ++ endSites b 2 (b.regs.length + 2)) _ _ _ :=
    h.inner_tail g (k := 0) rfl (by simp [endSites])
  have hopened : Inner b' (sites ++ endSites b 2 (b.regs.length + 2)) _ _ _ :=
    h.inner_tail g (k := 1) rfl (by simp [endSites])
  refine h.closing hstage hsite g rfl rfl (by omega) (by omega) ?_
  exact .checks hchecks hs (List.mem_append_right _ (List.mem_singleton_self _)) hregs.ge
    (h.owned_ends 2 _ _) (h.next_site 2 _) (h.failed_site 2 _) rfl htrap hopened

theorem Draws.goesOn (h : Draws e b ends k.stages sites) (hstage : k.stages[i]? = some stage)
    (hsite : sites[i]? = some site) (g : b.Grown site.block old head term tail tys b')
    (htail : tail[1]? = some ([], none)) {exit : Exit}
    (hleaving : Leaving e b' ends (sites ++ [⟨⟨b.id, b.codes.length + 1⟩, none⟩]) site.block
      (stage.lead e site.answer).length (some exit) head term) :
    Draws e b' ends (k.leave i exit [{}]).stages
      (sites ++ [⟨⟨b.id, b.codes.length + 1⟩, none⟩]) := by
  have hadded : Added e b b' {} ⟨⟨b.id, b.codes.length + 1⟩, none⟩ :=
    added_tail g rfl htail rfl rfl (by simp)
  rw [← List.append_nil ends] at hleaving
  have hgrow := h.grow hstage hsite g (fun stage => { stage with exit := some exit })
    (.cons hadded .nil) (by simp) rfl rfl hleaving (List.forall_mem_nil _)
  simpa [Plan.leave] using hgrow

theorem Draws.rebases (h : Draws e b ends k.stages sites) (hstage : k.stages[i]? = some stage)
    (hsite : sites[i]? = some site) (hslots : e.colors[color]? = some slots)
    (g : b.Grown site.block old (slots.test .ne b.regs.length)
      (some (.condBr (.reg ⟨b.regs.length + 1⟩) ⟨b.id, b.codes.length⟩
        ⟨b.id, b.codes.length + 1⟩ .none))
      [([.store slots.start.id posArg], some (.br ⟨b.id, b.codes.length + 1⟩)), ([], none)]
      [slots.start.ty, .i1] b') :
    Draws e b' ends (k.leave i (.rebases color k.stages.length) [{}]).stages
      (sites ++ [⟨⟨b.id, b.codes.length + 1⟩, none⟩]) := by
  have hregs : b'.regs.length = b.regs.length + 2 := by simp [g.regs]
  have hrestart : Inner b' (sites ++ [⟨⟨b.id, b.codes.length + 1⟩, none⟩]) _ _ _ :=
    h.inner_tail g (k := 0) rfl (by simp)
  refine h.goesOn hstage hsite g rfl ?_
  exact .rebases hslots hregs.ge (owned_plain h.answers _ _) (h.getElem?_new (j := 0) rfl) hrestart

theorem Draws.flushes (h : Draws e b ends k.stages sites) (hstage : k.stages[i]? = some stage)
    (hsite : sites[i]? = some site) (hslots : e.colors[color]? = some slots)
    (g : b.Grown site.block old (slots.test .ne b.regs.length)
      (some (.condBr (.reg ⟨b.regs.length + 1⟩) ⟨b.id, b.codes.length⟩
        ⟨b.id, b.codes.length + 1⟩ .none))
      [(slots.dispatch.calling slots.sig [stateArg, .reg ⟨b.regs.length⟩, endArg]
            e.options.calleeHints (b.regs.length + 2) ++
          [.icmp ⟨slots.dispatch.answer (b.regs.length + 2) + 1⟩ .eq
            (.reg ⟨slots.dispatch.answer (b.regs.length + 2)⟩) (.status 0)],
        some (.condBr (.reg ⟨slots.dispatch.answer (b.regs.length + 2) + 1⟩)
          ⟨b.id, b.codes.length + 1⟩ ⟨b.id, b.codes.length + 2⟩ .likelyTrue)),
        ([], none),
        (e.record.stores endArg (.reg ⟨slots.dispatch.answer (b.regs.length + 2)⟩),
          some (.ret (.reg ⟨slots.dispatch.answer (b.regs.length + 2)⟩)))]
      ([slots.start.ty, .i1] ++ slots.dispatch.types slots.sig ++ [.i1]) b') :
    Draws e b' ends (k.leave i (.flushes color k.stages.length) [{}]).stages
      (sites ++ [⟨⟨b.id, b.codes.length + 1⟩, none⟩]) := by
  have hregs : slots.dispatch.answer (b.regs.length + 2) + 2 ≤ b'.regs.length := by
    have := slots.dispatch.types_length slots.sig (b.regs.length + 2)
    rw [g.regs]
    simp only [List.length_append, List.length_cons, List.length_nil]
    omega
  have hpresent : Inner b' (sites ++ [⟨⟨b.id, b.codes.length + 1⟩, none⟩]) _ _ _ :=
    h.inner_tail g (k := 0) rfl (by simp)
  have hlost : Inner b' (sites ++ [⟨⟨b.id, b.codes.length + 1⟩, none⟩]) _ _ _ :=
    h.inner_tail g (k := 2) rfl (by simp)
  refine h.goesOn hstage hsite g rfl ?_
  exact .flushes hslots hregs (owned_plain h.answers _ _) (h.getElem?_new (j := 0) rfl) hpresent
    hlost

theorem Draws.newBlock (h : Draws e b ends k.stages sites)
    (hcodes : b'.codes = b.codes ++ [([], none)]) (hregs : b'.regs = b.regs)
    (hid : b'.id = b.id) (hname : b'.name = b.name) :
    Draws e b' ends (k.stages ++ [({} : Stage)]) (sites ++ [⟨⟨b.id, b.codes.length⟩, none⟩]) := by
  have hcode : ∀ here code, b.code? here = some code → b'.code? here = some code :=
    fun _ _ => Body.code?_of_append hid hcodes
  have hw : b.Within b' := ⟨hid, hname, by rw [hregs], fun here is t h => hcode here _ h,
    fun here is h => ⟨[], none, by rw [List.append_nil]; exact hcode here _ h⟩⟩
  have hadded : Added e b b' {} ⟨⟨b.id, b.codes.length⟩, none⟩ := by
    refine ⟨⟨code?_new b 0, by simp⟩, rfl, by simp, rfl, ?_⟩
    rw [← hid, Body.code?_at, hcodes, List.getElem?_concat_length]
    rfl
  have hextend := h.extend hw k.stages.length id (.cons hadded .nil) (by simp)
    (fun j site code _ _ => hcode _ _) (fun stage site hstage => by simp at hstage)
    (List.forall_mem_nil _)
  simpa using hextend

end Fragment

def Passes (e : Emitter) (emit : BlockId → Nat → ColorSlots → Build Body BlockId)
    (exit : Nat → Nat → Exit) : Prop :=
  ∀ {b b' : Body} {ends : List (Point × SpanId)} {k : Plan} {sites : List Site} {i : Nat}
    {stage : Stage} {site : Site} {old : List Instr} {color : Nat} {slots : ColorSlots}
    {next : BlockId}, Draws e b ends k.stages sites → k.stages[i]? = some stage →
    sites[i]? = some site → b.Open site.block old → e.colors[color]? = some slots →
    emit site.block color slots b = .ok next b' →
    Draws e b' ends (k.leave i (exit color k.stages.length) [{}]).stages (sites ++ [⟨next, none⟩]) ∧
      b'.Open next []

theorem rebase_passes (e : Emitter) : Passes e Emitter.rebase .rebases := by
  intro b b' ends k sites i stage site old color slots next h hstage hsite hopen hslots hop
  obtain ⟨b'', hop', g⟩ := Emitter.rebase_grown hopen color slots
  rw [hop] at hop'
  obtain ⟨rfl, rfl⟩ := EStateM.Result.ok.inj hop'
  exact ⟨h.rebases hstage hsite hslots g, g.code_tail 1⟩

theorem flush_passes (e : Emitter) : Passes e e.flush .flushes := by
  intro b b' ends k sites i stage site old color slots next h hstage hsite hopen hslots hop
  obtain ⟨b'', hop', g⟩ := Emitter.flush_grown e hopen color slots
  rw [hop] at hop'
  obtain ⟨rfl, rfl⟩ := EStateM.Result.ok.inj hop'
  exact ⟨h.flushes hstage hsite hslots g, g.code_tail 1⟩

/-- The code of all colors leads from stage to stage. -/
theorem Draws.chain {emit : BlockId → Nat → ColorSlots → Build Body BlockId}
    {exit : Nat → Nat → Exit} (hpasses : Passes e emit exit) {list : List ColorSlots}
    {color : Nat} (hlist : ∀ j slots, list[j]? = some slots → e.colors[color + j]? = some slots)
    {k : Plan} {i : Nat} {stage : Stage} {site : Site} {old : List Instr} {next : BlockId}
    (h : Draws e b ends k.stages sites) (hstage : k.stages[i]? = some stage)
    (hsite : sites[i]? = some site) (hopen : b.Open site.block old)
    (hop : Emitter.chain emit site.block color list b = .ok next b') :
    ∃ new answer, Draws e b' ends (Plan.chain exit color list.length i k).2.stages (sites ++ new) ∧
      (sites ++ new)[(Plan.chain exit color list.length i k).1]? = some ⟨next, answer⟩ := by
  induction list generalizing b color k sites i stage site old with
  | nil =>
    obtain ⟨rfl, rfl⟩ := pure_ok hop
    exact ⟨[], site.answer, by rwa [List.append_nil], by rwa [List.append_nil]⟩
  | cons slots list ih =>
    obtain ⟨mid, b₁, hstep, hrest⟩ := bind_ok hop
    have hslots : e.colors[color]? = some slots := hlist 0 slots rfl
    obtain ⟨h₁, hopen₁⟩ := hpasses h hstage hsite hopen hslots hstep
    have hstage₁ : (k.leave i (exit color k.stages.length) [{}]).stages[k.stages.length]? =
        some {} := by
      simp [Plan.leave]
    have hsite₁ : (sites ++ [⟨mid, none⟩])[k.stages.length]? = some ⟨mid, none⟩ := by
      rw [← h.length, List.getElem?_concat_length]
    obtain ⟨new, answer, h₂, hnext⟩ := ih
      (fun j slots hj => by rw [Nat.add_assoc, Nat.add_comm 1]; exact hlist (j + 1) slots hj)
      h₁ hstage₁ hsite₁ hopen₁ hrest
    rw [List.append_assoc] at h₂ hnext
    exact ⟨⟨mid, none⟩ :: new, answer, h₂, hnext⟩

end Growth

structure Follows (e : Emitter) (a : Assembly) (k : Plan) (sites : List Site) : Prop where
  draws : Draws e a.draft.body a.ends k.stages sites
  points : List.Forall₂ (fun block i => ∃ answer, sites[i]? = some ⟨block, answer⟩)
    a.draft.points k.points
  paths : List.Forall₂ (fun path i => (∃ answer, sites[i]? = some ⟨path.block, answer⟩) ∧
    path.current = e.current ∧ path.sentinel = e.options.errorSentinel) a.draft.paths k.paths

theorem getElem?_of_forall₂ {α β : Type} {R : α → β → Prop} {l : List α} {l' : List β}
    (h : List.Forall₂ R l l') {n : Nat} {x : α} (hx : l[n]? = some x) :
    ∃ y, l'[n]? = some y ∧ R x y := by
  obtain ⟨hlt, rfl⟩ := List.getElem?_eq_some_iff.1 hx
  have hlt' : n < l'.length := h.length_eq ▸ hlt
  exact ⟨l'[n], List.getElem?_eq_getElem hlt', h.get hlt hlt'⟩

section Follows

variable {e : Emitter} {a a' : Assembly} {k k' : Plan} {sites new : List Site}

theorem Follows.stage (h : Follows e a k sites) {i : Nat} {site : Site}
    (hsite : sites[i]? = some site) : ∃ stage, k.stages[i]? = some stage := by
  have hlt := (List.getElem?_eq_some_iff.1 hsite).1
  rw [h.draws.length] at hlt
  exact ⟨_, List.getElem?_eq_getElem hlt⟩

theorem Follows.named (h : Follows e a k sites) {name : BlockName} {block : BlockId}
    (hname : a.draft.named? name = some block) :
    ∃ i stage answer, k.named? name = some i ∧ k.stages[i]? = some stage ∧
      sites[i]? = some ⟨block, answer⟩ := by
  cases name with
  | point n =>
    obtain ⟨i, hi, answer, hsite⟩ := getElem?_of_forall₂ h.points hname
    obtain ⟨stage, hstage⟩ := h.stage hsite
    exact ⟨i, stage, answer, hi, hstage, hsite⟩
  | path n =>
    obtain ⟨path, hpath, rfl⟩ := Option.map_eq_some_iff.1 hname
    obtain ⟨i, hi, ⟨answer, hsite⟩, -⟩ := getElem?_of_forall₂ h.paths hpath
    obtain ⟨stage, hstage⟩ := h.stage hsite
    exact ⟨i, stage, answer, hi, hstage, hsite⟩

theorem Follows.grow (h : Follows e a k sites)
    (hdraws : Draws e a'.draft.body a'.ends k'.stages (sites ++ new))
    {points : List BlockId} {indices : List Nat}
    (hpoints : a'.draft.points = a.draft.points ++ points)
    (hindices : k'.points = k.points ++ indices)
    (hnew : List.Forall₂ (fun block i => ∃ answer, (sites ++ new)[i]? = some ⟨block, answer⟩)
      points indices)
    {paths : List Resumption} {failed : List Nat} (hpaths : a'.draft.paths = a.draft.paths ++ paths)
    (hfailed : k'.paths = k.paths ++ failed)
    (hnew' : List.Forall₂ (fun path i =>
      (∃ answer, (sites ++ new)[i]? = some ⟨path.block, answer⟩) ∧ path.current = e.current ∧
        path.sentinel = e.options.errorSentinel) paths failed) :
    Follows e a' k' (sites ++ new) := by
  refine ⟨hdraws, ?_, ?_⟩
  · rw [hpoints, hindices]
    exact List.rel_append (h.points.imp fun block i hi => hi.imp fun _ => getElem?_sites) hnew
  · rw [hpaths, hfailed]
    exact List.rel_append (h.paths.imp fun path i hi => ⟨hi.1.imp fun _ => getElem?_sites, hi.2⟩)
      hnew'

theorem perform?_inv {op : Operation} (h : a.perform? e op = some a')
    (hop : ∀ here s, op ≠ .spanEnd here s) :
    ∃ draft, Draft.perform e op a.draft = .ok () draft ∧ a' = ⟨draft, a.ends⟩ := by
  rw [Assembly.perform?] at h
  split at h
  · rename_i u draft hperform
    split at h
    · exact absurd rfl (hop _ _)
    · exact ⟨draft, hperform, (Option.some.inj h).symm⟩
  · simp at h

theorem perform?_spanEnd {here : BlockId} {s : SpanId}
    (h : a.perform? e (.spanEnd here s) = some a') :
    ∃ draft, Draft.perform e (.spanEnd here s) a.draft = .ok () draft ∧
      a' = ⟨draft, a.ends ++ [(a.nextPoint here, s)]⟩ := by
  rw [Assembly.perform?] at h
  split at h
  · rename_i u draft hperform
    exact ⟨draft, hperform, (Option.some.inj h).symm⟩
  · simp at h

variable {i : Nat} {stage : Stage} {answer : Option Nat} {here : BlockId}

theorem Follows.leave (h : Follows e a k sites) {t : Terminator}
    (hop : a.perform? e (.leave here t) = some a') (hstage : k.stages[i]? = some stage)
    (hsite : sites[i]? = some ⟨here, answer⟩) {exit : Exit}
    (hleaving : ∀ b ends j, Leaving e b ends sites here j (some exit) [] (some t)) :
    Follows e a' (k.leave i exit []) (sites ++ []) := by
  obtain ⟨draft, hperform, rfl⟩ := perform?_inv hop (by simp)
  obtain ⟨u, b', hstep, hrest⟩ := Draft.onBody_bind hperform
  obtain ⟨-, rfl⟩ := EStateM.Result.ok.inj hrest
  obtain ⟨old, g⟩ := Body.terminate_grown hstep
  have hdraws := h.draws.leaves hstage hsite g (hleaving _ _ _)
  exact h.grow (by rwa [List.append_nil]) (List.append_nil _).symm (List.append_nil _).symm .nil
    (List.append_nil _).symm (List.append_nil _).symm .nil

theorem Follows.resumeAt (h : Follows e a k sites) {path : Resumption} {p : Program}
    {target : FuncId} (hcurrent : path.current = e.current)
    (hsentinel : path.sentinel = e.options.errorSentinel)
    (hop : a.perform? e (.resumeAt path p target) = some a') (hstage : k.stages[i]? = some stage)
    (hsite : sites[i]? = some ⟨path.block, answer⟩) :
    Follows e a' (k.leave i (.resumes target) []) (sites ++ []) := by
  obtain ⟨draft, hperform, rfl⟩ := perform?_inv hop (by simp)
  obtain ⟨u, b', hstep, hrest⟩ := Draft.onBody_bind hperform
  obtain ⟨-, rfl⟩ := EStateM.Result.ok.inj hrest
  obtain ⟨-, old, g⟩ := Resumption.resumeAt_inv hstep
  rw [hcurrent, hsentinel] at g
  have hdraws := h.draws.leaves hstage hsite g .resumes
  exact h.grow (by rwa [List.append_nil]) (List.append_nil _).symm (List.append_nil _).symm .nil
    (List.append_nil _).symm (List.append_nil _).symm .nil

theorem Follows.spanStart (h : Follows e a k sites) {s : SpanId}
    (hop : a.perform? e (.spanStart here s) = some a') (hstage : k.stages[i]? = some stage)
    (hsite : sites[i]? = some ⟨here, answer⟩) :
    Follows e a' { k.opening i s with points := k.points ++ [i] } (sites ++ []) := by
  obtain ⟨draft, hperform, rfl⟩ := perform?_inv hop (by simp)
  obtain ⟨next, b', hstep, hrest⟩ := Draft.onBody_bind hperform
  obtain ⟨-, rfl⟩ := EStateM.Result.ok.inj hrest
  obtain ⟨rfl, span, color, slots, old, hs, g⟩ := Emitter.spanStart_inv hstep
  have hdraws := h.draws.opens hstage hsite hs g
  refine h.grow (by rwa [List.append_nil]) rfl rfl (.cons ⟨answer, ?_⟩ .nil)
    (List.append_nil _).symm (List.append_nil _).symm .nil
  rwa [List.append_nil]

theorem Follows.spanEnd (h : Follows e a k sites) {s : SpanId}
    (hop : a.perform? e (.spanEnd here s) = some a') (hstage : k.stages[i]? = some stage)
    (hsite : sites[i]? = some ⟨here, answer⟩) :
    ∃ new, Follows e a'
      { k.leave i (.closes s k.stages.length (k.stages.length + 1)) [{}, { failure := true }] with
        points := k.points ++ [k.stages.length]
        paths := k.paths ++ [k.stages.length + 1] } (sites ++ new) := by
  obtain ⟨draft, hperform, rfl⟩ := perform?_spanEnd hop
  obtain ⟨⟨next, path⟩, b', hstep, hrest⟩ := Draft.onBody_bind hperform
  obtain ⟨-, rfl⟩ := EStateM.Result.ok.inj hrest
  obtain ⟨hsig, span, color, slots, old, hs, hopen⟩ := Emitter.spanEnd_inv hstep
  have hpoint : a.nextPoint here = ⟨here, old.length⟩ := by
    rw [Assembly.nextPoint, hopen]
    rfl
  rw [hpoint]
  cases hchecks : e.options.debugChecks with
  | false =>
    obtain ⟨b'', hstep', g⟩ := Emitter.spanEnd_grown_plain hopen hsig hs hchecks
    rw [hstep] at hstep'
    obtain ⟨hpair, rfl⟩ := EStateM.Result.ok.inj hstep'
    obtain ⟨rfl, rfl⟩ := Prod.mk.inj hpair
    exact ⟨_, h.grow (h.draws.closes hstage hsite hs hchecks g) rfl rfl
      (.cons ⟨_, h.draws.next_site 0 _⟩ .nil) rfl rfl
      (.cons ⟨⟨_, h.draws.failed_site 0 _⟩, rfl, rfl⟩ .nil)⟩
  | true =>
    obtain ⟨b'', hstep', g⟩ := Emitter.spanEnd_grown_checked hopen hsig hs hchecks
    rw [hstep] at hstep'
    obtain ⟨hpair, rfl⟩ := EStateM.Result.ok.inj hstep'
    obtain ⟨rfl, rfl⟩ := Prod.mk.inj hpair
    exact ⟨_, h.grow (h.draws.checks hstage hsite hs hchecks g) rfl rfl
      (.cons ⟨_, h.draws.next_site 2 _⟩ .nil) rfl rfl
      (.cons ⟨⟨_, h.draws.failed_site 2 _⟩, rfl, rfl⟩ .nil)⟩

theorem Follows.newBlock (h : Follows e a k sites) {name : String}
    (hop : a.perform? e (.newBlock name) = some a') :
    ∃ new, Follows e a'
      { k with stages := k.stages ++ [{}], points := k.points ++ [k.stages.length] }
      (sites ++ new) := by
  obtain ⟨draft, hperform, rfl⟩ := perform?_inv hop (by simp)
  obtain ⟨block, b', hstep, hrest⟩ := Draft.onBody_bind hperform
  obtain ⟨-, rfl⟩ := EStateM.Result.ok.inj hrest
  obtain ⟨rfl, rfl⟩ := EStateM.Result.ok.inj hstep
  have hcodes : Body.codes { a.draft.body with
      blocks := a.draft.body.blocks ++ [{ name := a.draft.body.freshName name }] } =
      a.draft.body.codes ++ [([], none)] := by
    simp [Body.codes, Block.code]
  have hdraws := h.draws.newBlock hcodes rfl rfl rfl
  refine ⟨_, h.grow hdraws rfl rfl (.cons ⟨none, ?_⟩ .nil) (List.append_nil _).symm
    (List.append_nil _).symm .nil⟩
  rw [← h.draws.length, List.getElem?_concat_length]
  simp [Body.codes]

theorem chain_names (exit : Nat → Nat → Exit) (color count i : Nat) (k : Plan) :
    (Plan.chain exit color count i k).2.points = k.points ∧
      (Plan.chain exit color count i k).2.paths = k.paths := by
  induction count generalizing color i k with
  | zero => exact ⟨rfl, rfl⟩
  | succ count ih => exact ih _ _ (k.leave i (exit color k.stages.length) [{}])

theorem Follows.sweep (h : Follows e a k sites)
    {emit : BlockId → Nat → ColorSlots → Build Body BlockId} {exit : Nat → Nat → Exit}
    (hpasses : Passes e emit exit) (hstage : k.stages[i]? = some stage)
    (hsite : sites[i]? = some ⟨here, answer⟩) {old : List Instr}
    (hopen : a.draft.body.Open here old) {next : BlockId} {b' : Body}
    (hop : Emitter.chain emit here 0 e.colors a.draft.body = .ok next b')
    (deed : Point → Option Deed) :
    ∃ new, Follows e ⟨{ a.draft with
          body := b'
          points := a.draft.points ++ [next]
          deed }, a.ends⟩
      { (Plan.chain exit 0 e.colors.length i k).2 with
        points := (Plan.chain exit 0 e.colors.length i k).2.points ++
          [(Plan.chain exit 0 e.colors.length i k).1] } (sites ++ new) := by
  obtain ⟨hpoints, hpaths⟩ := chain_names exit 0 e.colors.length i k
  obtain ⟨new, answer', hdraws, hnext⟩ := h.draws.chain hpasses
    (fun j slots hj => by rw [Nat.zero_add]; exact hj) hstage hsite hopen hop
  exact ⟨new, h.grow hdraws rfl (by rw [hpoints]) (.cons ⟨answer', hnext⟩ .nil)
    (List.append_nil _).symm (by simpa using hpaths) .nil⟩

/-- The plan goes along with every move. -/
theorem Follows.move (h : Follows e a k sites) {p : Program} {move : Move} {op : Operation}
    (hmove : move.resolve? a.draft p = some op) (hop : a.perform? e op = some a') :
    ∃ k' new, k.move? e.colors.length move = some k' ∧ Follows e a' k' (sites ++ new) := by
  cases move with
  | spanStart name s =>
    obtain ⟨here, hname, rfl⟩ := Option.map_eq_some_iff.1 hmove
    obtain ⟨i, stage, answer, hi, hstage, hsite⟩ := h.named hname
    exact ⟨_, _, by rw [Plan.move?, hi]; rfl, h.spanStart hop hstage hsite⟩
  | spanEnd name s =>
    obtain ⟨here, hname, rfl⟩ := Option.map_eq_some_iff.1 hmove
    obtain ⟨i, stage, answer, hi, hstage, hsite⟩ := h.named hname
    obtain ⟨new, hnew⟩ := h.spanEnd hop hstage hsite
    exact ⟨_, new, by rw [Plan.move?, hi]; rfl, hnew⟩
  | prologue name =>
    obtain ⟨here, hname, rfl⟩ := Option.map_eq_some_iff.1 hmove
    obtain ⟨i, stage, answer, hi, hstage, hsite⟩ := h.named hname
    obtain ⟨draft, hperform, rfl⟩ := perform?_inv hop (by simp)
    obtain ⟨next, b', hstep, hrest⟩ := Draft.onBody_bind hperform
    obtain ⟨-, rfl⟩ := EStateM.Result.ok.inj hrest
    obtain ⟨u, b₁, hcheck, hchain⟩ := bind_ok hstep
    obtain ⟨rfl, -, old, hopen⟩ := Emitter.checkTarget_inv hcheck
    rw [Emitter.rebaseFrom_eq] at hchain
    obtain ⟨new, hnew⟩ := h.sweep (rebase_passes e) hstage hsite hopen hchain a.draft.deed
    exact ⟨_, new, by rw [Plan.move?, hi]; rfl, hnew⟩
  | epilogue name =>
    obtain ⟨here, hname, rfl⟩ := Option.map_eq_some_iff.1 hmove
    obtain ⟨i, stage, answer, hi, hstage, hsite⟩ := h.named hname
    obtain ⟨draft, hperform, rfl⟩ := perform?_inv hop (by simp)
    obtain ⟨next, b', hstep, hrest⟩ := Draft.onBody_bind hperform
    obtain ⟨-, rfl⟩ := EStateM.Result.ok.inj hrest
    obtain ⟨u, b₁, hcheck, hchain⟩ := bind_ok hstep
    obtain ⟨rfl, -, old, hopen⟩ := Emitter.checkTarget_inv hcheck
    rw [Emitter.flushFrom_eq] at hchain
    obtain ⟨new, hnew⟩ := h.sweep (flush_passes e) hstage hsite hopen hchain
      (Draft.deedOfCalls a.draft.body b' .flushes a.draft.deed)
    exact ⟨_, new, by rw [Plan.move?, hi]; rfl, hnew⟩
  | resumeAt n target =>
    obtain ⟨path, hpath, rfl⟩ := Option.map_eq_some_iff.1 hmove
    obtain ⟨i, hi, ⟨answer, hsite⟩, hcurrent, hsentinel⟩ := getElem?_of_forall₂ h.paths hpath
    obtain ⟨stage, hstage⟩ := h.stage hsite
    exact ⟨_, _, by rw [Plan.move?, hi]; rfl, h.resumeAt hcurrent hsentinel hop hstage hsite⟩
  | newBlock name =>
    obtain rfl := Option.some.inj hmove
    obtain ⟨new, hnew⟩ := h.newBlock hop
    exact ⟨_, new, rfl, hnew⟩
  | br name target =>
    obtain ⟨here, hname, hmove⟩ := Option.bind_eq_some_iff.1 hmove
    obtain ⟨there, htarget, hmove⟩ := Option.bind_eq_some_iff.1 hmove
    obtain rfl := Option.some.inj hmove
    obtain ⟨i, stage, answer, hi, hstage, hsite⟩ := h.named hname
    obtain ⟨j, _, _, hj, -, hsite'⟩ := h.named htarget
    exact ⟨_, _, by rw [Plan.move?, hi]; simp [hj], h.leave hop hstage hsite fun _ _ _ =>
      .jumps hsite'⟩
  | condBr name bits value onTrue onFalse hint =>
    obtain ⟨here, hname, hmove⟩ := Option.bind_eq_some_iff.1 hmove
    obtain ⟨yes, htrue, hmove⟩ := Option.bind_eq_some_iff.1 hmove
    obtain ⟨no, hfalse, hmove⟩ := Option.bind_eq_some_iff.1 hmove
    obtain rfl := Option.some.inj hmove
    obtain ⟨i, stage, answer, hi, hstage, hsite⟩ := h.named hname
    obtain ⟨j, _, _, hj, -, hsite'⟩ := h.named htrue
    obtain ⟨l, _, _, hl, -, hsite''⟩ := h.named hfalse
    exact ⟨_, _, by rw [Plan.move?, hi]; simp [hj, hl], h.leave hop hstage hsite fun _ _ _ =>
      .branches hsite' hsite''⟩
  | ret name value =>
    rw [Move.resolve?] at hmove
    split at hmove
    · rename_i hvalue
      obtain ⟨here, hname, rfl⟩ := Option.map_eq_some_iff.1 hmove
      obtain ⟨i, stage, answer, hi, hstage, hsite⟩ := h.named hname
      exact ⟨_, _, by rw [Plan.move?, hi]; rfl, h.leave hop hstage hsite fun _ _ _ =>
        .returns hvalue⟩
    · simp at hmove

theorem Follows.moves {p : Program} {moves : List Move} (h : Follows e a k sites)
    (hfollow : Assembly.follow? e p moves a = some a') :
    ∃ k' new, Plan.follow? e.colors.length moves k = some k' ∧ Follows e a' k' (sites ++ new) := by
  induction moves generalizing a k sites with
  | nil =>
    obtain rfl := Option.some.inj hfollow
    exact ⟨k, [], rfl, by rwa [List.append_nil]⟩
  | cons move rest ih =>
    obtain ⟨op, hmove, hfollow⟩ := Option.bind_eq_some_iff.1 hfollow
    obtain ⟨a₁, hop, hrest⟩ := Option.bind_eq_some_iff.1 hfollow
    obtain ⟨k₁, new₁, hk₁, h₁⟩ := h.move hmove hop
    obtain ⟨k₂, new₂, hk₂, h₂⟩ := ih h₁ hrest
    refine ⟨k₂, new₁ ++ new₂, ?_, by rwa [List.append_assoc] at h₂⟩
    rw [Plan.follow?, hk₁]
    exact hk₂

theorem follows_start (e : Emitter) (f : FuncId) (name : String) :
    Follows e ⟨.start (.start f name parserSig parserParams), []⟩ {}
      [⟨(Body.start f name parserSig parserParams).entry, none⟩] := by
  refine ⟨⟨⟨_, rfl, rfl⟩, by simp, rfl, ?_, by simp, by simp⟩, .cons ⟨none, rfl⟩ .nil, .nil⟩
  rintro (_ | i) stage site hstage hsite
  · obtain rfl := Option.some.inj hstage
    obtain rfl := Option.some.inj hsite
    exact ⟨rfl, [], none, Body.code?_at _ 0, .unfinished⟩
  · simp at hsite

end Follows

end Drawing

/-- An assembly carries out the plan of its page. -/
theorem Page.follows {e : Emitter} {p : Program} {page : Page} {a : Assembly}
    (h : page.write? e p = some a) :
    a.draft.body.id = page.id ∧
      ∃ k sites, page.plan? e.colors.length = some k ∧ Drawing.Follows e a k sites := by
  obtain ⟨k, new, hk, hfollows⟩ := (Drawing.follows_start e page.id page.name).moves h
  refine ⟨?_, k, _, hk, hfollows⟩
  obtain ⟨site, hsite, hentry⟩ := hfollows.draws.entry
  obtain rfl := Option.some.inj hsite
  exact (congrArg BlockId.owner hentry).symm

end SpanTracking
