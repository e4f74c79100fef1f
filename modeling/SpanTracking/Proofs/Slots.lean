import SpanTracking.Proofs.Authors

set_option autoImplicit false

namespace SpanTracking

variable {σ : Type}

def Moment.opens? (book : FuncId → Draft) : Moment σ → Option SpanId
  | .executed here _ _ _ _ =>
    match (book here.block.owner).deed here with
    | some (.opens s) => some s
    | _ => none
  | _ => none

def Emitter.lastOpened (e : Emitter) (color : Nat) (spans : List SpanId) : Option SpanId :=
  (spans.filter fun s => e.coloring.colorOf s = some color).getLast?

/-- An open span of a shared color has its callback in the slot, and is the last that was opened. -/
def Emitter.SlotsSound (e : Emitter) (spans : List SpanId) (m : Memory) : Prop :=
  ∀ color slots slot candidates, e.colors[color]? = some slots →
    slots.dispatch = .indirect slot candidates →
    ∃ start, m.get? slots.start.id = some start ∧ (start.isNull ∨
      ∃ s span, e.lastOpened color spans = some s ∧ e.coloring.span? s = some span ∧
        m.get? slot.id = some (.func (some span.callback)) ∧ span.callback ∈ candidates)

/-- A call enters a function, and one that is listed if there is a list. -/
def Instr.CalleeListed (args : List Value) (regs : Regs) : Instr → Prop
  | .call _ callee _ _ callees => ∃ f, callee.eval args regs = .ok (.func (some f)) ∧
      ∀ listed, callees = some listed → f ∈ listed
  | _ => True

def Moment.KeepsSlots (e : Emitter) (book : FuncId → Draft) (spans : List SpanId) :
    Moment σ → Prop
  | .entered _ w => e.SlotsSound spans w.memory
  | .calling here i args regs w => e.SlotsSound spans w.memory ∧
      ((book here.block.owner).deed here = some .flushes → i.CalleeListed args regs)
  | .executed .. => True
  | .ended _ w => e.SlotsSound spans w.memory

theorem Moment.KeepsSlots.of_ofResult {e : Emitter} {book : FuncId → Draft} {spans : List SpanId}
    {r : EStateM.Result Fault (World σ) Value}
    (h : (Moment.ofResult r).KeepsSlots e book spans) :
    e.SlotsSound spans (Moment.ofResult r).world.memory := by
  cases r <;> exact h

/-- The author writes no field of a span, and branches only to blocks that were handed out. -/
structure Draft.LeavesSpans (d : Draft) (e : Emitter) : Prop where
  stores : ∀ x ∈ d.own, ∀ id ∈ x.2.writes?, id ∉ e.spanFields
  targets : ∀ x ∈ d.exits, ∀ target ∈ x.2.targets, target ∈ d.handedOut

instance (d : Draft) (e : Emitter) : Decidable (d.LeavesSpans e) :=
  decidable_of_iff (_ ∧ _) ⟨fun h => ⟨h.1, h.2⟩, fun h => ⟨h.stores, h.targets⟩⟩

namespace Slots

variable {e : Emitter} {p : Program}

structure Good (e : Emitter) (p : Program) (spans : List SpanId) (m : Memory) : Prop where
  fits : m.values.length = p.layout.fields.length
  sound : e.SlotsSound spans m

section Good

variable {spans : List SpanId} {m : Memory} {color : Nat} {slots : ColorSlots}

theorem good_fresh (he : e.Serves p) : Good e p [] (Memory.fresh p.layout) := by
  refine ⟨by simp [Memory.fresh], fun color slots slot candidates hs hd => ?_⟩
  obtain ⟨_, rfl, hget⟩ := he.get?_fresh (Emitter.field_start hs)
  exact ⟨.ptr none, hget, .inl rfl⟩

theorem Good.set_other (h : Good e p spans m) (he : e.Serves p) {field : FieldId} (v : Value)
    (hfield : field ∉ e.spanFields) : Good e p spans (m.set field v) := by
  refine ⟨by rw [Memory.set_length, h.fits], fun color slots slot candidates hs hd => ?_⟩
  obtain ⟨start, hstart, hopen⟩ := h.sound color slots slot candidates hs hd
  have hne : field ≠ slots.start.id := fun heq => hfield (heq ▸ Emitter.start_mem_spanFields hs)
  have hne' : field ≠ slot.id := fun heq =>
    hfield (heq ▸ Emitter.slot_mem_spanFields hs (he.slot_of_indirect hs hd).1)
  refine ⟨start, (Memory.get?_set_ne hne).trans hstart, hopen.imp id ?_⟩
  rintro ⟨s, span, hlast, hspan, hslot, hmem⟩
  exact ⟨s, span, hlast, hspan, (Memory.get?_set_ne hne').trans hslot, hmem⟩

theorem Good.set_start (h : Good e p spans m) (he : e.Serves p)
    (hs : e.colors[color]? = some slots) (v : Value)
    (hv : v.isNull ∨ ∃ start, m.get? slots.start.id = some start ∧ start.isNull = false) :
    Good e p spans (m.set slots.start.id v) := by
  refine ⟨by rw [Memory.set_length, h.fits], fun color' slots' slot candidates hs' hd => ?_⟩
  obtain ⟨start, hstart, hopen⟩ := h.sound color' slots' slot candidates hs' hd
  have hslot : ∀ u, (m.set slots.start.id u).get? slot.id = m.get? slot.id := fun u =>
    Memory.get?_set_ne (he.id_ne (Emitter.field_start hs) (he.field_slot hs' hd) (by simp))
  by_cases hcolor : color' = color
  · subst hcolor
    obtain rfl : slots = slots' := Option.some.inj (hs.symm.trans hs')
    refine ⟨v, Memory.get?_set_self hstart, ?_⟩
    rcases hv with hnull | ⟨start', hstart', hopen'⟩
    · exact .inl hnull
    · obtain rfl : start = start' := Option.some.inj (hstart.symm.trans hstart')
      refine .inr ?_
      obtain hnull | ⟨s, span, hlast, hspan, hget, hmem⟩ := hopen
      · simp [hopen'] at hnull
      · exact ⟨s, span, hlast, hspan, (hslot v).trans hget, hmem⟩
  · have hne : slots.start.id ≠ slots'.start.id :=
      he.id_ne (Emitter.field_start hs) (Emitter.field_start hs') (by simpa using Ne.symm hcolor)
    refine ⟨start, (Memory.get?_set_ne hne).trans hstart, hopen.imp id ?_⟩
    rintro ⟨s, span, hlast, hspan, hget, hmem⟩
    exact ⟨s, span, hlast, hspan, (hslot v).trans hget, hmem⟩

theorem lastOpened_append {s : SpanId} (hs : e.coloring.colorOf s = some color) :
    e.lastOpened color (spans ++ [s]) = some s := by
  simp [Emitter.lastOpened, List.filter_append, hs]

theorem lastOpened_append_ne {s : SpanId} (hs : e.coloring.colorOf s ≠ some color) :
    e.lastOpened color (spans ++ [s]) = e.lastOpened color spans := by
  simp [Emitter.lastOpened, List.filter_append, hs]

theorem Good.opened {w : World σ} (h : Good e p spans w.memory) (he : e.Serves p) {s : SpanId}
    {span : SpanDecl} (hs : e.locate s = .ok (span, color, slots)) (pos : Value) :
    Good e p (spans ++ [s]) (Machine.opened slots span.callback pos w).memory := by
  obtain ⟨hspan, hcolor, hslots⟩ := Emitter.mem_colors_of_locate hs
  have hfits : (Machine.opened slots span.callback pos w).memory.values.length =
      p.layout.fields.length := by
    unfold Machine.opened
    split <;> simp [Memory.set_length, h.fits]
  refine ⟨hfits, fun color' slots' slot candidates hs' hd => ?_⟩
  obtain ⟨start, hstart, hopen⟩ := h.sound color' slots' slot candidates hs' hd
  by_cases hcc : color' = color
  · subst hcc
    obtain rfl : slots = slots' := Option.some.inj (hslots.symm.trans hs')
    obtain ⟨hslot?, hcandidates⟩ := he.slot_of_indirect hslots hd
    have hne := he.id_ne (he.field_slot hslots hd) (Emitter.field_start hslots) (by simp)
    have hplace := he.has_field (he.field_slot hslots hd) h.fits
    have hput : (w.memory.set slots.start.id pos).Has slot.id := Memory.has_set.2 hplace
    obtain ⟨u, hu⟩ := hput.get?
    simp only [Machine.opened, hslot?, Machine.put_memory]
    refine ⟨pos, (Memory.get?_set_ne hne).trans (Memory.get?_set_self hstart), .inr ?_⟩
    refine ⟨s, span, lastOpened_append hcolor, hspan, Memory.get?_set_self hu, ?_⟩
    exact hcandidates ▸ he.mem_callbacks hs
  · -- The fields of another color are left as they are.
    have hkeep : ∀ y f, e.field? y = some f → y ≠ .start color → y ≠ .slot color →
        (Machine.opened slots span.callback pos w).memory.get? f.id = w.memory.get? f.id := by
      intro y f hf hne hne'
      have hstart := he.id_ne (Emitter.field_start hslots) hf hne.symm
      unfold Machine.opened
      split
      · rename_i slot₀ hslot₀
        have hf₀ : e.field? (.slot color) = some slot₀ := by simp [Emitter.field?, hslots, hslot₀]
        rw [Machine.put_memory, Memory.get?_set_ne (he.id_ne hf₀ hf hne'.symm), Machine.put_memory,
          Memory.get?_set_ne hstart]
      · rw [Machine.put_memory, Memory.get?_set_ne hstart]
    refine ⟨start, ?_, hopen.imp id ?_⟩
    · rw [hkeep _ _ (Emitter.field_start hs') (by simpa using hcc) (by simp)]
      exact hstart
    · rintro ⟨s', span', hlast, hspan', hget, hmem⟩
      refine ⟨s', span', ?_, hspan', ?_, hmem⟩
      · rw [lastOpened_append_ne (by rw [hcolor]; simpa using Ne.symm hcc)]
        exact hlast
      · rw [hkeep _ _ (he.field_slot hs' hd) (by simp) (by simpa using hcc)]
        exact hget

/-- The slot of a color with an open span holds the callback of a span. -/
theorem Good.callee (h : Good e p spans m)
    (hopen : ∃ start, m.get? slots.start.id = some start ∧ start.isNull = false)
    (hs : e.colors[color]? = some slots) {slot : Field} {candidates : List FuncId}
    (hd : slots.dispatch = .indirect slot candidates) :
    ∃ span ∈ e.coloring.spans, m.get? slot.id = some (.func (some span.callback)) ∧
      span.callback ∈ candidates := by
  obtain ⟨v, hv, hnull⟩ := hopen
  obtain ⟨v', hv', hsound⟩ := h.sound color slots slot candidates hs hd
  obtain rfl : v = v' := Option.some.inj (hv.symm.trans hv')
  rcases hsound with hnull' | ⟨s, span, -, hspan, hget, hmem⟩
  · simp [hnull] at hnull'
  · exact ⟨span, List.mem_of_getElem? hspan, hget, hmem⟩

end Good

def watch (σ : Type) (e : Emitter) (p : Program) (book : FuncId → Draft) :
    Watch σ (List SpanId) where
  notice spans m := spans ++ (m.opens? book).toList
  holds spans m := m.KeepsSlots e book spans
  done spans _ w := Good e p spans w.memory
  failed spans _ w := Good e p spans w.memory

section Body

open Machine Watch Draft

variable {book : FuncId → Draft} {roles : List Role} {A : Activation σ} {steps : Nat}
  {here : BlockId} {k : Nat} {is : List Instr} {t : Option Terminator} {spans : List SpanId}
  {regs : Regs} {w : World σ}

@[simp] theorem notice_entered : (watch σ e p book).notice spans (.entered here w) = spans := by
  simp [watch, Moment.opens?]

@[simp] theorem notice_calling {point : Point} {i : Instr} {args : List Value} :
    (watch σ e p book).notice spans (.calling point i args regs w) = spans := by
  simp [watch, Moment.opens?]

@[simp] theorem notice_ended {result : Except Fault Value} :
    (watch σ e p book).notice spans (.ended result w) = spans := by
  simp [watch, Moment.opens?]

theorem quiet (σ : Type) (h : ∀ s, (book here.owner).deed ⟨here, k⟩ ≠ some (.opens s)) :
    (watch σ e p book).Quiet ⟨here, k⟩ := by
  intro i args regs w g
  refine ⟨?_, trivial⟩
  have hnone : Moment.opens? book (.executed ⟨here, k⟩ i args regs w) = none := by
    rw [Moment.opens?]
    split
    · rename_i hdeed
      exact absurd hdeed (h _)
    · rfl
  simp [watch, hnone]

structure Note (e : Emitter) (p : Program) (d : Draft) (roles : List Role) (here : BlockId)
    (spans : List SpanId) (regs : Regs) (w : World σ) : Prop where
  role : ∃ role, d.Plays roles here role ∧ ∀ slots, (role = .restart slots ∨
    ∃ r, role = .present slots r) → ∃ start, w.memory.get? slots.start.id = some start ∧
      start.isNull = false
  good : Good e p spans w.memory
  regs : regs.length = d.body.regs.length

/-- The setting in which a body runs: it is a draft of the book with an outline, the functions that
it calls keep the slots sound, and so does the rest of the run from every block. -/
structure Setting (e : Emitter) (p : Program) (book : FuncId → Draft) (d : Draft)
    (roles : List Role) (A : Activation σ) (steps : Nat) : Prop where
  serves : e.Serves p
  outlined : Outlined e d roles
  page : book d.body.id = d
  body : A.body = d.body
  leaves : d.LeavesSpans e
  calls : ∀ f vs spans w, Good e p spans w.memory →
    (watch σ e p book).Meets (watch σ e p book).done spans (A.inner f vs w) (A.enter f vs w)
  runs : ∀ here spans regs w, Note e p d roles here spans regs w →
    (watch σ e p book).Runs A steps here spans regs w

namespace Setting

variable {d : Draft}

theorem deed_eq (S : Setting e p book d roles A steps) (howner : here.owner = d.body.id) :
    (book here.owner).deed = d.deed := by
  rw [howner, S.page]

theorem quiet_of_marked (S : Setting e p book d roles A steps) (howner : here.owner = d.body.id)
    {deeds : List (Option Deed)} (hm : d.Marked here k deeds) {j : Nat} {deed : Option Deed}
    (hj : deeds[j]? = some deed) (hne : ∀ s, deed ≠ some (.opens s)) :
    (watch σ e p book).Quiet ⟨here, k + j⟩ := by
  refine quiet σ fun s => ?_
  rw [S.deed_eq howner, hm j deed hj]
  exact hne s

theorem quiet_of_none (S : Setting e p book d roles A steps) (howner : here.owner = d.body.id)
    {deeds : List (Option Deed)} (hm : d.Marked here k deeds) (hnone : ∀ x ∈ deeds, x = none)
    {j : Nat} (hj : j < deeds.length) : (watch σ e p book).Quiet ⟨here, k + j⟩ :=
  S.quiet_of_marked howner hm (List.getElem?_eq_getElem hj) fun s => by
    simp [hnone _ (List.getElem_mem hj)]

theorem goto (S : Setting e p book d roles A steps) {role : Role} (hplays : d.Plays roles here role)
    (hrestart : ∀ slots, role ≠ .restart slots) (hpresent : ∀ slots r, role ≠ .present slots r)
    (hgood : Good e p spans w.memory) (hregs : regs.length = d.body.regs.length) :
    (watch σ e p book).Runs A steps here spans regs w := by
  refine S.runs here spans regs w ⟨⟨role, hplays, ?_⟩, hgood, hregs⟩
  rintro slots (rfl | ⟨r, rfl⟩)
  · exact absurd rfl (hrestart slots)
  · exact absurd rfl (hpresent slots r)

theorem goes_other (S : Setting e p book d roles A steps) {field : FieldId} {value : Operand}
    (hq : (watch σ e p book).Quiet ⟨here, k⟩)
    (hfield : field ∉ e.spanFields) (hgood : Good e p spans w.memory)
    (h : ∀ v, Good e p spans (put w field v).memory →
      (watch σ e p book).Goes A steps here (k + 1) (is, t) spans regs (put w field v)) :
    (watch σ e p book).Goes A steps here k (.store field value :: is, t) spans regs w := by
  rcases exec_store_cases A.enter A.args regs w field value with ⟨fault, hi⟩ | ⟨v, -, hi⟩
  · exact goes_error rfl hi hgood
  · exact goes_quiet rfl hq hi (h v (hgood.set_other S.serves v hfield))

theorem goes_callee (S : Setting e p book d roles A steps) (howner : here.owner = d.body.id)
    {dst : Reg} {callee : Operand} {sig : Signature} {operands : List Operand}
    {callees : Option (List FuncId)} (hdeed : ∀ s, d.deed ⟨here, k⟩ ≠ some (.opens s))
    (hlisted : d.deed ⟨here, k⟩ = some .flushes →
      (Instr.call dst callee sig operands callees).CalleeListed A.args regs)
    (hdst : dst.index < regs.length) (hgood : Good e p spans w.memory)
    (h : ∀ spans v w, Good e p spans w.memory → (watch σ e p book).Goes A steps here (k + 1)
      (is, t) spans (regs.set dst.index (some v)) w) :
    (watch σ e p book).Goes A steps here k (.call dst callee sig operands callees :: is, t) spans
      regs w := by
  have hq : (watch σ e p book).Quiet ⟨here, k⟩ := quiet σ fun s => by
    rw [S.deed_eq howner]
    exact hdeed s
  refine goes_call ?_ hdst ?_ ?_
  · rw [notice_calling]
    refine ⟨hgood.sound, fun hflushes => hlisted ?_⟩
    rwa [S.deed_eq howner] at hflushes
  · intro fault _
    rw [notice_calling]
    exact hgood
  · intro f vs _
    rw [notice_calling]
    refine (S.calls f vs spans w hgood).mono fun spans' v w' hgood' => ?_
    obtain ⟨hsame, hholds⟩ := hq (.call dst callee sig operands callees) A.args
      (regs.set dst.index (some v)) w' spans'
    rw [hsame]
    exact ⟨hholds, h spans' v w' hgood'⟩

theorem goes_own (S : Setting e p book d roles A steps) (howner : here.owner = d.body.id)
    {i : Instr} (hown : (here, i) ∈ d.own)
    (hdst : ∀ r, i.dst? = some r → r.index < d.body.regs.length) (hm : d.Marked here k [none])
    (hgood : Good e p spans w.memory) (hregs : regs.length = d.body.regs.length)
    (h : ∀ spans regs w, Good e p spans w.memory → regs.length = d.body.regs.length →
      (watch σ e p book).Goes A steps here (k + 1) (is, t) spans regs w) :
    (watch σ e p book).Goes A steps here k (i :: is, t) spans regs w := by
  have hdeed : d.deed ⟨here, k⟩ = none := hm 0 none rfl
  have hq : (watch σ e p book).Quiet ⟨here, k⟩ :=
    S.quiet_of_none howner hm (by simp) (j := 0) (by simp)
  rw [← hregs] at hdst
  cases hplain : i.isPlain with
  | true =>
    obtain ⟨fault, hi⟩ | ⟨regs', hlen, hi⟩ | ⟨field, value, v, rfl, hi⟩ :=
      exec_plain A.enter A.args regs w hplain hdst
    · exact goes_error hplain hi hgood
    · exact goes_quiet hplain hq hi (h spans regs' w hgood (hlen.trans hregs))
    · exact goes_quiet hplain hq hi
        (h spans regs _ (hgood.set_other S.serves v (S.leaves.stores _ hown field rfl)) hregs)
  | false =>
    cases i with
    | call dst callee sig operands callees =>
      exact S.goes_callee howner (by simp [hdeed]) (by simp [hdeed]) (hdst dst rfl) hgood
        fun spans v w hgood => h spans _ w hgood (by simpa using hregs)
    | _ => simp [Instr.isPlain] at hplain

theorem goes_answered (S : Setting e p book d roles A steps) {answer : Nat} {code : Value}
    {next failed : BlockId} {role : Role} (hq : (watch σ e p book).Quiet ⟨here, k⟩)
    (hanswer : answer + 1 < d.body.regs.length) (hnext : d.Plays roles next .plain)
    (hfailed : d.Plays roles failed role) (hrestart : ∀ slots, role ≠ .restart slots)
    (hpresent : ∀ slots r, role ≠ .present slots r) (hgood : Good e p spans w.memory)
    (hregs : regs.length = d.body.regs.length) :
    (watch σ e p book).Goes A steps here k
      ([.icmp ⟨answer + 1⟩ .eq (.reg ⟨answer⟩) (.status 0)],
        some (.condBr (.reg ⟨answer + 1⟩) next failed .likelyTrue)) spans
      (regs.set answer (some code)) w := by
  have hlen : answer + 1 < (regs.set answer (some code)).length := by
    rw [List.length_set, hregs]
    exact hanswer
  have hset : answer < regs.length := by
    rw [hregs]
    omega
  refine goes_answer hq hlen (List.getElem?_set_self hset) fun regs' hkeep => ?_
  have hregs' : regs'.length = d.body.regs.length := by
    rw [hkeep.length, List.length_set, hregs]
  split
  · exact S.goto hnext (by simp) (by simp) hgood hregs'
  · exact S.goto hfailed hrestart hpresent hgood hregs'

theorem goes_closing (S : Setting e p book d roles A steps) (howner : here.owner = d.body.id)
    {slots : ColorSlots} {start answer : Nat}
    (hclosing : Closing e d roles here k slots start answer is t)
    (hgood : Good e p spans w.memory) (hregs : regs.length = d.body.regs.length) :
    (watch σ e p book).Goes A steps here k (is, t) spans regs w := by
  obtain ⟨s, span, color, hs, rfl, hm⟩ := hclosing.code
  obtain ⟨next, failed, rfl, hnext, hfailed⟩ := hclosing.term
  obtain ⟨-, hanswer⟩ := hclosing.regs
  have hslots := (Emitter.mem_colors_of_locate hs).2.2
  have hq : ∀ j deed, [none, some (Deed.closes s), none][j]? = some deed →
      (watch σ e p book).Quiet ⟨here, k + j⟩ := by
    intro j deed hj
    refine S.quiet_of_marked howner hm hj ?_
    rintro s' rfl
    rcases j with _ | _ | _ | j <;> simp at hj
  refine goes_store (hq 0 _ rfl) (eval_noStart (S.serves.start_ty (List.mem_of_getElem? hslots)))
    (S.serves.has_field (Emitter.field_start hslots) hgood.fits) ?_
  have hclosed : Good e p spans (put w slots.start.id (.ptr none)).memory :=
    hgood.set_start S.serves hslots (.ptr none) (.inl rfl)
  have hdeed : d.deed ⟨here, k + 1⟩ = some (.closes s) := hm 1 _ rfl
  refine S.goes_callee howner (by simp [hdeed]) (by simp [hdeed]) (by rw [hregs]; simp; omega)
    hclosed fun spans code w hgood => ?_
  exact S.goes_answered (hq 2 _ rfl) hanswer hnext hfailed (by simp) (by simp) hgood hregs

theorem goes_start (S : Setting e p book d roles A steps) (howner : here.owner = d.body.id)
    {slots : ColorSlots} {how : Comparison} {r : Nat} {onTrue onFalse : BlockId} {hint : BranchHint}
    (hslots : slots ∈ e.colors) (hr : r + 1 < d.body.regs.length)
    (hm : d.Marked here k [none, none]) (hgood : Good e p spans w.memory)
    (hregs : regs.length = d.body.regs.length)
    (h : ∀ v regs, w.memory.get? slots.start.id = some v → regs.length = d.body.regs.length →
      (watch σ e p book).Runs A steps (if how.holds v (.ptr none) then onTrue else onFalse) spans
        regs w) :
    (watch σ e p book).Goes A steps here k
      (slots.test how r, some (.condBr (.reg ⟨r + 1⟩) onTrue onFalse hint)) spans regs w := by
  obtain ⟨color, hcolor⟩ := List.getElem?_of_mem hslots
  obtain ⟨v, hv⟩ := (S.serves.has_field (Emitter.field_start hcolor) hgood.fits).get?
  exact goes_test (fun j hj => S.quiet_of_none howner hm (by simp) hj) (S.serves.start_ty hslots)
    (by rw [hregs]; exact hr) hv fun regs' hkeep _ => h v regs' hv (hkeep.length.trans hregs)

/-- A branch to a block that deals with an open span, if there is one. -/
theorem goes_found (S : Setting e p book d roles A steps) (howner : here.owner = d.body.id)
    {slots : ColorSlots} {r : Nat} {found next : BlockId} {hint : BranchHint} {role : Role}
    (hslots : slots ∈ e.colors) (hr : r + 1 < d.body.regs.length)
    (hm : d.Marked here k [none, none]) (hfound : d.Plays roles found role)
    (hrole : ∀ slots', (role = .restart slots' ∨ ∃ r, role = .present slots' r) → slots' = slots)
    (hnext : d.Plays roles next .plain) (hgood : Good e p spans w.memory)
    (hregs : regs.length = d.body.regs.length) :
    (watch σ e p book).Goes A steps here k
      (slots.test .ne r, some (.condBr (.reg ⟨r + 1⟩) found next hint)) spans regs w := by
  refine S.goes_start howner hslots hr hm hgood hregs fun v regs hv hregs => ?_
  simp only [Comparison.holds, same_null]
  cases hnull : v.isNull with
  | true => exact S.goto hnext (by simp) (by simp) hgood hregs
  | false =>
    refine S.runs _ _ _ _ ⟨⟨_, hfound, fun slots' hdeals => ?_⟩, hgood, hregs⟩
    rw [hrole slots' hdeals]
    exact ⟨v, hv, hnull⟩

theorem goes_tail (S : Setting e p book d roles A steps) (howner : here.owner = d.body.id)
    (htail : Tail e d roles here k is t) (hgood : Good e p spans w.memory)
    (hregs : regs.length = d.body.regs.length) :
    (watch σ e p book).Goes A steps here k (is, t) spans regs w := by
  induction htail generalizing spans regs w with
  | unfinished => exact goes_leave (by simp [leave]) (by simp [leave]) fun _ _ => hgood
  | own hown hdst hm _ ih =>
    exact S.goes_own howner hown hdst hm hgood hregs fun spans regs w hgood hregs => ih hgood hregs
  | @opening k s span color slots is t hs hm _ ih =>
    have hslots := (Emitter.mem_colors_of_locate hs).2.2
    cases hpos : posArg.eval A.args regs with
    | error fault => exact goes_opening_error hpos hgood
    | ok pos =>
      refine goes_opening ?_ hpos (S.serves.has_field (Emitter.field_start hslots) hgood.fits) ?_ ?_
      · intro j hj
        refine quiet σ fun s => ?_
        rw [S.deed_eq howner, hm.before_opens hj]
        simp
      · intro slot hslot
        exact S.serves.has_field (Emitter.field_of_slot? hslots hslot) hgood.fits
      · intro i
        have hdeed : (book here.owner).deed ⟨here, k + slots.slot?.toList.length⟩ =
            some (.opens s) := by
          rw [S.deed_eq howner]
          exact hm.opens
        have hnotice : (watch σ e p book).notice spans
            (.executed ⟨here, k + slots.slot?.toList.length⟩ i A.args regs
              (opened slots span.callback pos w)) = spans ++ [s] := by
          simp [watch, Moment.opens?, hdeed]
        rw [hnotice]
        exact ⟨trivial, ih (hgood.opened S.serves hs pos) hregs⟩
  | @exit k t hexit =>
    refine goes_leave ?_ (fun _ _ => hgood) fun _ _ => hgood
    intro target htarget
    have hmem := S.leaves.targets _ hexit target (mem_targets_of_leave htarget)
    rcases S.outlined.plays_of_handedOut hmem with hplays | ⟨answer, hplays⟩
    · exact S.goto hplays (by simp) (by simp) hgood hregs
    · exact S.goto hplays (by simp) (by simp) hgood hregs
  | @rebase k slots r restart next hslots hr hm hrestart hnext =>
    refine S.goes_found howner hslots hr hm hrestart ?_ hnext hgood hregs
    rintro slots' (heq | ⟨r', heq⟩)
    · exact (Role.restart.inj heq).symm
    · simp at heq
  | @flush k slots r present next hslots hr hm hpresent hnext =>
    refine S.goes_found howner hslots hr hm hpresent ?_ hnext hgood hregs
    rintro slots' (heq | ⟨r', heq⟩)
    · simp at heq
    · exact (Role.present.inj heq).1.symm
  | @close k slots r is t hdebug hm hclosing =>
    obtain ⟨s, span, color, hs, -⟩ := hclosing.code
    have hslots := (Emitter.mem_colors_of_locate hs).2.2
    obtain ⟨v, hv⟩ := (S.serves.has_field (Emitter.field_start hslots) hgood.fits).get?
    have hq : (watch σ e p book).Quiet ⟨here, k⟩ :=
      S.quiet_of_none howner hm (by simp) (j := 0) (by simp)
    have hr := hclosing.regs
    refine goes_quiet rfl hq (exec_load hv (by rw [hregs]; simp; omega)) ?_
    exact S.goes_closing howner hclosing hgood (by simpa using hregs)
  | @check k slots r trap opened hslots hr hm htrap hopened =>
    refine S.goes_start howner hslots hr hm hgood hregs fun v regs hv hregs => ?_
    split
    · exact S.goto htrap (by simp) (by simp) hgood hregs
    · exact S.goto hopened (by simp) (by simp) hgood hregs
  | @resume k p' target _ _ hm =>
    have hq : (watch σ e p book).Quiet ⟨here, k⟩ :=
      S.quiet_of_none howner hm (by simp) (j := 0) (by simp)
    refine S.goes_other hq (S.serves.not_mem_spanFields (x := .current) rfl (by simp) (by simp))
      hgood fun v hgood => ?_
    exact goes_leave (by simp [leave, Operand.status, Operand.eval, bind, Except.bind, pure,
      Except.pure]) (fun _ _ => hgood) fun _ _ => hgood

theorem goes_record (S : Setting e p book d roles A steps) (howner : here.owner = d.body.id)
    {position code : Operand} (hm : d.Marked here k [none, none, none])
    (hgood : Good e p spans w.memory)
    (h : ∀ w, Good e p spans w.memory →
      (watch σ e p book).Goes A steps here (k + 3) (is, t) spans regs w) :
    (watch σ e p book).Goes A steps here k (e.record.stores position code ++ is, t) spans regs
      w := by
  have hq : ∀ j < 3, (watch σ e p book).Quiet ⟨here, k + j⟩ := fun j hj =>
    S.quiet_of_none howner hm (by simp) hj
  have hother := fun {x : Place} {f : Field} => S.serves.not_mem_spanFields (x := x) (f := f)
  refine S.goes_other (hq 0 (by omega)) (hother (x := .error) rfl (by simp) (by simp)) hgood
    fun _ hgood => ?_
  refine S.goes_other (hq 1 (by omega)) (hother (x := .reason) rfl (by simp) (by simp)) hgood
    fun _ hgood => ?_
  exact S.goes_other (hq 2 (by omega)) (hother (x := .errorPos) rfl (by simp) (by simp)) hgood
    fun _ hgood => h _ hgood

/-- A block in which the epilogue has found an open span: the callee is the callback in the slot. -/
theorem goes_present (S : Setting e p book d roles A steps) (howner : here.owner = d.body.id)
    {slots : ColorSlots} {start : Nat} {code : Code} (hformed : Formed e d roles here
      (.present slots start) code)
    (hopen : ∃ v, w.memory.get? slots.start.id = some v ∧ v.isNull = false)
    (hgood : Good e p spans w.memory) (hregs : regs.length = d.body.regs.length) :
    (watch σ e p book).Goes A steps here 0 code spans regs w := by
  obtain ⟨hslots, hanswer, hm, next, failed, hnext, hfailed, rfl⟩ := hformed
  obtain ⟨color, hcolor⟩ := List.getElem?_of_mem hslots
  cases hd : slots.dispatch with
  | direct callee =>
    simp only [hd, Dispatch.calling, Dispatch.answer, List.singleton_append] at hanswer hm hfailed ⊢
    have hq : (watch σ e p book).Quiet ⟨here, 0 + 1⟩ :=
      S.quiet_of_marked howner hm (j := 1) rfl (by simp [Instr.deedOfCall])
    have hdeed : d.deed ⟨here, 0⟩ = some .flushes := hm 0 _ rfl
    refine S.goes_callee howner (by simp [hdeed]) (fun _ => ⟨callee, rfl, by simp⟩)
      (by rw [hregs]; simp; omega) hgood fun spans v w hgood => ?_
    exact S.goes_answered hq hanswer hnext hfailed (by simp) (by simp) hgood hregs
  | indirect slot candidates =>
    simp only [hd, Dispatch.calling, Dispatch.answer, List.cons_append, List.nil_append]
      at hanswer hm hfailed ⊢
    -- The start is not null, so the slot holds one of the candidates.
    obtain ⟨span, -, hget, hlisted⟩ := hgood.callee hopen hcolor hd
    have hq : ∀ j deed, [none, some Deed.flushes, none][j]? = some deed →
        (watch σ e p book).Quiet ⟨here, 0 + j⟩ := by
      intro j deed hj
      refine S.quiet_of_marked howner hm hj ?_
      rintro s rfl
      rcases j with _ | _ | _ | j <;> simp at hj
    have hset : start + 2 < regs.length := by
      rw [hregs]
      omega
    refine goes_quiet rfl (hq 0 _ rfl) (exec_load hget hset) ?_
    have hregs' : (regs.set (start + 2) (some (Value.func (some span.callback)))).length =
        d.body.regs.length := by
      rw [List.length_set, hregs]
    have hdeed : d.deed ⟨here, 0 + 1⟩ = some .flushes := hm 1 _ rfl
    refine S.goes_callee howner (by simp [hdeed])
      (fun _ => ⟨span.callback, Operand.eval_reg (List.getElem?_set_self hset), ?_⟩)
      (by rw [hregs']; simp; omega) hgood fun spans v w hgood => ?_
    · intro listed hcallees
      split at hcallees
      · obtain rfl := Option.some.inj hcallees
        exact hlisted
      · simp at hcallees
    · exact S.goes_answered (hq 2 _ rfl) hanswer hnext hfailed (by simp) (by simp) hgood hregs'

theorem goes_restart (S : Setting e p book d roles A steps) (howner : here.owner = d.body.id)
    {slots : ColorSlots} {code : Code} (hformed : Formed e d roles here (.restart slots) code)
    (hopen : ∃ v, w.memory.get? slots.start.id = some v ∧ v.isNull = false)
    (hgood : Good e p spans w.memory) (hregs : regs.length = d.body.regs.length) :
    (watch σ e p book).Goes A steps here 0 code spans regs w := by
  obtain ⟨hslots, hm, next, hnext, rfl⟩ := hformed
  obtain ⟨color, hcolor⟩ := List.getElem?_of_mem hslots
  have hq : (watch σ e p book).Quiet ⟨here, 0⟩ :=
    S.quiet_of_none howner hm (by simp) (j := 0) (by simp)
  rcases exec_store_cases A.enter A.args regs w slots.start.id posArg with ⟨fault, hi⟩ | ⟨v, -, hi⟩
  · exact goes_error rfl hi hgood
  · refine goes_quiet rfl hq hi (goes_br (S.goto hnext (by simp) (by simp) ?_ hregs))
    exact hgood.set_start S.serves hcolor v (.inr hopen)

theorem goes_block (S : Setting e p book d roles A steps)
    (hnote : Note e p d roles here spans regs w) :
    ∃ code, A.body.code? here = some code ∧
      (watch σ e p book).Goes A steps here 0 code spans regs w := by
  obtain ⟨role, hplays, hopen⟩ := hnote.role
  have howner := hplays.1
  obtain ⟨code, hcode, hformed⟩ := S.outlined.formed_of_plays hplays
  refine ⟨code, by rw [S.body]; exact hcode, ?_⟩
  have hgood := hnote.good
  have hregs := hnote.regs
  cases role with
  | plain => exact S.goes_tail howner hformed hgood hregs
  | failed answer =>
    obtain ⟨is, t⟩ := code
    obtain ⟨rest, rfl, hm, htail⟩ := hformed
    exact S.goes_record howner hm hgood fun w hgood => S.goes_tail howner htail hgood hregs
  | trap =>
    obtain ⟨-, rfl⟩ := hformed
    exact goes_leave (by simp [leave]) (by simp [leave]) fun _ _ => hgood
  | opened slots start => exact S.goes_closing howner hformed hgood hregs
  | restart slots => exact S.goes_restart howner hformed (hopen slots (.inl rfl)) hgood hregs
  | present slots start =>
    exact S.goes_present howner hformed (hopen slots (.inr ⟨start, rfl⟩)) hgood hregs
  | flushFailed answer =>
    obtain ⟨hm, rfl⟩ := hformed
    rw [← List.append_nil (e.record.stores _ _)]
    refine S.goes_record howner hm hgood fun w hgood => ?_
    refine goes_leave ?_ (fun _ _ => hgood) fun _ _ => hgood
    intro target htarget
    have hmem := mem_targets_of_leave htarget
    simp [Terminator.targets] at hmem

end Setting

/-- The outline of a draft tells how its body runs. -/
theorem runs_body (he : e.Serves p) {d : Draft} (houtlined : Outlined e d roles)
    (hpage : book d.body.id = d) (hbody : A.body = d.body) (hleaves : d.LeavesSpans e)
    (hcalls : ∀ f vs spans w, Good e p spans w.memory →
      (watch σ e p book).Meets (watch σ e p book).done spans (A.inner f vs w) (A.enter f vs w))
    (hnote : Note e p d roles here spans regs w) :
    (watch σ e p book).Runs A steps here spans regs w := by
  refine runs_of_blocks (Note e p d roles) (fun _ _ _ _ hnote => hnote.good) ?_ hnote
  intro steps hruns here spans regs w hnote
  obtain ⟨code, hcode, hgoes⟩ :=
    (Setting.mk he houtlined hpage hbody hleaves hcalls hruns).goes_block hnote
  refine ⟨code, hcode, ?_, ?_⟩
  · rw [notice_entered]
    exact hnote.good.sound
  · rw [notice_entered]
    exact hgoes

theorem meets_of_good (he : e.Serves p)
    (hbook : ∀ f b, p.body? f = some b → p.Authored e book f ∧ (book f).LeavesSpans e)
    (host : Host σ) (limit depth : Nat) (f : FuncId) (args : List Value)
    (hgood : Good e p spans w.memory) :
    (watch σ e p book).Meets (watch σ e p book).done spans (trace p host limit depth f args w)
      (call p host limit depth f args w) := by
  refine meets_call (fun _ _ spans w => Good e p spans w.memory) ?_ ?_ ?_ depth hgood
  · intro depth f args spans w hgood hnone
    obtain ⟨fault, hcall⟩ | ⟨start, stop, -, hcall⟩ :=
      call_of_body_none host limit depth args w hnone
    · rw [hcall]
      exact hgood
    · rw [hcall]
      exact hgood
  · intro f b args spans w hgood _
    exact hgood
  · intro depth f b args spans w hcalls hgood hb
    obtain ⟨hauthored, hleaves⟩ := hbook f b hb
    obtain rfl : (book f).body = b := Option.some.inj (hauthored.body.symm.trans hb)
    obtain ⟨new, houtlined⟩ := hauthored.made.outlined
    have hid : (book f).body.id = f := (he.reachable.bodies f _ hb).1
    refine runs_body he houtlined (by rw [hid]) rfl hleaves hcalls
      ⟨⟨.plain, ?_, ?_⟩, hgood, by simp⟩
    · exact ⟨rfl, rfl⟩
    · rintro slots (h | ⟨r, h⟩) <;> simp at h

theorem foldl_notice (ms : List (Moment σ)) :
    ms.foldl (watch σ e p book).notice spans = spans ++ ms.filterMap (Moment.opens? book) := by
  induction ms generalizing spans with
  | nil => simp
  | cons m ms ih =>
    rw [List.foldl_cons, ih, List.filterMap_cons]
    cases hm : m.opens? book <;> simp [watch, hm]

end Body

end Slots

open Machine

/-- At every moment of any calls made from outside, also in the functions that they call and also
if calls fail: while a span of a shared color is open, the slot of the color holds the callback of
the span of that color that was opened last, which is one of the callbacks listed for the color. So
a call made for a span that is open at the end of a buffer enters a function, and one that is
listed at the call. -/
theorem callback_slots_sound {options : SpanOptions} {c : Coloring} {p₀ p₁ p : Program}
    {e : Emitter} (hp : p₀.Reachable) (he : Emitter.prepare options c p₀ = .ok e p₁)
    (hleads : p₁.Leads p) {book : FuncId → Draft}
    (hbook : ∀ f b, p.body? f = some b → p.Authored e book f ∧ (book f).LeavesSpans e)
    (requests : List (Request σ)) (host : σ) {before after : List (Moment σ)} {m : Moment σ}
    (hm : session p requests { memory := .fresh p.layout, host } = before ++ m :: after) :
    m.KeepsSlots e book ((before ++ [m]).filterMap (Moment.opens? book)) := by
  have hserves := Emitter.serves_of_prepare hp he hleads
  have hmeets : (Slots.watch σ e p book).Meets (fun _ _ _ => True) []
      (session p requests { memory := .fresh p.layout, host })
      (.ok () { memory := .fresh p.layout, host }) := by
    refine Watch.meets_session (fun spans w => Slots.Good e p spans w.memory) ?_ ?_ ?_
      (Slots.good_fresh hserves) _
    · intro q _ spans w hgood
      exact Slots.meets_of_good hserves hbook q.host q.limit q.depth q.callee q.args hgood
    · intro spans v w hgood
      rw [Slots.notice_ended]
      exact ⟨hgood.sound, hgood⟩
    · intro spans fault w hgood
      rw [Slots.notice_ended]
      exact ⟨hgood.sound, hgood⟩
  have hholds := hmeets.holds_of_eq hm
  rwa [Slots.foldl_notice, List.nil_append] at hholds

/-- A callback opens a span of the color that is being flushed or closed, and the function that
calls it goes on forever. -/
@[irreducible] def relay : List Draft := [
  .written (pairEmitter {}) ⟨1⟩ "on_b" [
    .spanStart ⟨⟨1⟩, 0⟩ ⟨0⟩,
    .leave ⟨⟨1⟩, 0⟩ (.ret (.status 0))],
  .written (pairEmitter {}) ⟨2⟩ "parse" [
    .prologue ⟨⟨2⟩, 0⟩,
    .spanStart ⟨⟨2⟩, 4⟩ ⟨1⟩,
    .epilogue ⟨⟨2⟩, 4⟩,
    .spanEnd ⟨⟨2⟩, 9⟩ ⟨1⟩,
    .leave ⟨⟨2⟩, 11⟩ (.br ⟨⟨2⟩, 0⟩),
    .resumeAt ⟨⟨⟨2⟩, 12⟩, EventParser.sharedFields.current, -1⟩ pairDeclared ⟨2⟩]]

@[irreducible] def relayProgram : Program := Build.after (Draft.defineAll relay) pairPrepared

theorem relay_made : ∀ d ∈ relay, d.Made (pairEmitter {}) := by
  unfold relay
  refine List.forall_mem_cons.2 ⟨?_, List.forall_mem_singleton.2 ?_⟩
  · exact Draft.made_written (by decide +kernel) (by simp)
  · refine Draft.made_written (by decide +kernel) fun path p target hmem => ?_
    simp only [List.mem_cons, List.not_mem_nil, reduceCtorEq, or_false, false_or,
      Operation.resumeAt.injEq] at hmem
    rw [hmem.1]
    exact ⟨rfl, rfl⟩

def silentCall (limit depth : Nat) (callee : FuncId) : Request Unit where
  host := ⟨fun _ => some fun _ _ _ => (0, ())⟩
  limit
  depth
  callee
  args := [.state, .ptr (some 3), .ptr (some 9)]

/-- The loop runs until no block is left to enter, and leaves a span open that the callback has
opened. -/
theorem callback_slots_sound_relay :
    ∃ before m, session relayProgram [silentCall 20 2 ⟨2⟩]
        { memory := .fresh relayProgram.layout, host := () } = before ++ [m] ∧
      m.world.memory.values = [.func none, .int 0, .ptr none, .ptr none, .ptr (some 3),
        .func (some ⟨0⟩), .ptr none] ∧
      m.KeepsSlots (pairEmitter {}) (Draft.book relay)
        ((before ++ [m]).filterMap (Moment.opens? (Draft.book relay))) := by
  have hdefined : Draft.defineAll relay pairPrepared = .ok () relayProgram := by
    unfold relayProgram
    exact Build.eq_ok_of_succeeds (by decide +kernel)
  have hleaves : ∀ d ∈ relay, d.LeavesSpans (pairEmitter {}) := by decide +kernel
  have hbook : ∀ f b, relayProgram.body? f = some b →
      relayProgram.Authored (pairEmitter {}) (Draft.book relay) f ∧
        (Draft.book relay f).LeavesSpans (pairEmitter {}) := fun f b hb =>
    (Draft.authored_of_defineAll hdefined pairPrepared_bodiless (by decide +kernel) relay_made
      hb).imp_right (hleaves _)
  have hsession := session_single relayProgram (silentCall 20 2 ⟨2⟩)
    { memory := .fresh relayProgram.layout, host := () }
  refine ⟨_, _, hsession, by decide +kernel, ?_⟩
  exact callback_slots_sound pairDeclared_reachable (prepare_pair true false)
    (Draft.leads_of_defineAll hdefined) hbook _ () hsession

/-- Branches into the middle of a prologue. -/
@[irreducible] def intruder : List Draft := [
  .written (pairEmitter {}) ⟨2⟩ "parse" [
    .newBlock "prologue",
    .prologue ⟨⟨2⟩, 1⟩,
    .leave ⟨⟨2⟩, 0⟩ (.br ⟨⟨2⟩, 2⟩),
    .leave ⟨⟨2⟩, 5⟩ (.ret (.status 0))]]

@[irreducible] def intruderProgram : Program := Build.after (Draft.defineAll intruder) pairPrepared

/-- Control that enters a prologue where an open span has been found opens one without a callback,
although no code but the emitter's has written a field of a span. -/
theorem slot_empty_of_intruder :
    pairDeclared.Reachable ∧
    Emitter.prepare {} sharedPair pairDeclared = .ok (pairEmitter {}) pairPrepared ∧
    pairPrepared.Leads intruderProgram ∧
    (∀ f b, intruderProgram.body? f = some b →
      intruderProgram.Authored (pairEmitter {}) (Draft.book intruder) f ∧
        (Draft.book intruder f).own = []) ∧
    ∃ before m, session intruderProgram [silentCall 5 1 ⟨2⟩]
        { memory := .fresh intruderProgram.layout, host := () } = before ++ [m] ∧
      ∀ spans, ¬ m.KeepsSlots (pairEmitter {}) (Draft.book intruder) spans := by
  have hdefined : Draft.defineAll intruder pairPrepared = .ok () intruderProgram := by
    unfold intruderProgram
    exact Build.eq_ok_of_succeeds (by decide +kernel)
  have hmade : ∀ d ∈ intruder, d.Made (pairEmitter {}) := by
    unfold intruder
    refine List.forall_mem_singleton.2 ?_
    exact Draft.made_written (by decide +kernel) (by simp)
  have hown : ∀ d ∈ intruder, d.own = [] := by decide +kernel
  refine ⟨pairDeclared_reachable, prepare_pair true false, Draft.leads_of_defineAll hdefined,
    ?_, ?_⟩
  · intro f b hb
    exact (Draft.authored_of_defineAll hdefined pairPrepared_bodiless (by decide +kernel) hmade
      hb).imp_right (hown _)
  · have hsession := session_single intruderProgram (silentCall 5 1 ⟨2⟩)
      { memory := .fresh intruderProgram.layout, host := () }
    refine ⟨_, _, hsession, fun spans hkeeps => ?_⟩
    obtain ⟨start, hstart, hnull | ⟨s, span, -, -, hslot, -⟩⟩ := hkeeps.of_ofResult 0 _ _ _ rfl rfl
    · have hopen : start = .ptr (some 3) := by
        refine Option.some.inj (hstart.symm.trans ?_)
        decide +kernel
      simp [hopen, Value.isNull] at hnull
    · have hempty : some (Value.func (some span.callback)) = some (.func none) := by
        refine hslot.symm.trans ?_
        decide +kernel
      simp at hempty

end SpanTracking
