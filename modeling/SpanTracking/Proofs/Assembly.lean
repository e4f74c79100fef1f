import SpanTracking.Proofs.Outline

set_option autoImplicit false

namespace SpanTracking.Draft

section Operations

variable {e : Emitter} {d d' : Draft} {roles new : List Role} {b' : Body} {here : BlockId}
  {old head : List Instr} {term : Option Terminator} {tail : List Code} {tys : List Ty}

/-- An operation changes the body, and then the transcript. -/
theorem onBody_bind {α β : Type} {step : Build Body α} {next : α → Build Draft β} {a : β}
    (h : (onBody step >>= next) d = .ok a d') :
    ∃ v b', step d.body = .ok v b' ∧ next v { d with body := b' } = .ok a d' := by
  obtain ⟨v, d₁, hbody, hnext⟩ := bind_ok h
  unfold onBody at hbody
  split at hbody
  · rename_i hstep
    obtain ⟨rfl, rfl⟩ := EStateM.Result.ok.inj hbody
    exact ⟨_, _, hstep, hnext⟩
  · simp at hbody

theorem deedOfCalls_old {before b : Body} {deed : Deed} {deeds : Point → Option Deed}
    {point : Point} {i : Instr} (h : before.instr? point = some i) :
    deedOfCalls before b deed deeds point = deeds point := by
  simp [deedOfCalls, h]

theorem deedOfCalls_new {before b : Body} {deed : Deed} {deeds : Point → Option Deed}
    {point : Point} {i : Instr} (h : before.instr? point = none) (h' : b.instr? point = some i)
    (hfresh : deeds point = none) : deedOfCalls before b deed deeds point = i.deedOfCall deed := by
  cases i <;> simp [deedOfCalls, h, h', hfresh, Instr.deedOfCall]

theorem deedOfCalls_absent {before b : Body} {deed : Deed} {deeds : Point → Option Deed}
    {point : Point} (h : b.instr? point = none) :
    deedOfCalls before b deed deeds point = deeds point := by
  unfold deedOfCalls
  split <;> simp_all

theorem deedOfCalls_none {before b : Body} {deed : Deed} {deeds : Point → Option Deed}
    (h : ∀ point i, before.instr? point = none → b.instr? point = some i → i.isPlain) :
    deedOfCalls before b deed deeds = deeds := by
  funext point
  unfold deedOfCalls
  split
  · rename_i hbefore hafter
    simpa [Instr.isPlain] using h point _ hbefore hafter
  · rfl

theorem deedOfCalls_trans {b b₁ b₂ : Body} {deed : Deed} {deeds : Point → Option Deed}
    (h₁ : b.Within b₁) (h₂ : b₁.Within b₂) :
    deedOfCalls b₁ b₂ deed (deedOfCalls b b₁ deed deeds) = deedOfCalls b b₂ deed deeds := by
  funext point
  cases hb : b.instr? point with
  | some i => rw [deedOfCalls_old (h₁.instr?_mono hb), deedOfCalls_old hb, deedOfCalls_old hb]
  | none =>
    cases hb₁ : b₁.instr? point with
    | some i =>
      rw [deedOfCalls_old hb₁]
      simp only [deedOfCalls, hb, hb₁, h₂.instr?_mono hb₁]
    | none => simp only [deedOfCalls, hb, hb₁]

theorem Grows.of_grown (g : d.body.Grown here old head term tail tys d'.body)
    (hown : d.own ⊆ d'.own) (hexits : d.exits ⊆ d'.exits) (hresumed : d.resumed ⊆ d'.resumed)
    (hdeed : ∀ point i, d.body.instr? point = some i → d'.deed point = d.deed point) :
    Grows d d' roles (roles ++ new) :=
  ⟨g.head_eq.id, by simp [g.regs], hown, hexits, hresumed, List.prefix_append _ _, hdeed⟩

/-- The added blocks have the added roles. -/
theorem Outlined.plays_new (h : Outlined e d roles) (d' : Draft) (new : List Role)
    (hid : d'.body.id = d.body.id) {k : Nat} {role : Role} (hk : new[k]? = some role) :
    d'.Plays (roles ++ new) ⟨d.body.id, d.body.codes.length + k⟩ role := by
  refine ⟨hid.symm, ?_⟩
  rw [← h.length, List.getElem?_append_right (by simp)]
  simpa using hk

theorem Outlined.marked_none (h : Outlined e d roles) {k n : Nat}
    (hnew : ∀ j, d.body.instr? ⟨here, k + j⟩ = none) :
    d.Marked here k (List.replicate n none) := by
  intro j deed hj
  rw [h.fresh _ (hnew j)]
  exact (List.eq_of_mem_replicate (List.mem_of_getElem? hj)).symm

theorem Outlined.fresh_of_grown (h : Outlined e d roles)
    (g : d.body.Grown here old head term tail tys b') {point : Point}
    (hpoint : b'.instr? point = none) : d.deed point = none := by
  refine h.fresh point ?_
  cases hi : d.body.instr? point with
  | none => rfl
  | some i => simp [g.within.instr?_mono hi] at hpoint

/-- The calls of an added fragment are marked, and nothing else of it. -/
theorem Outlined.marked_head (h : Outlined e d roles)
    (g : d.body.Grown here old head term tail tys b') {deed : Deed}
    (hd' : d'.deed = deedOfCalls d.body b' deed d.deed) :
    d'.Marked here old.length (head.map (Instr.deedOfCall deed)) := by
  intro j mark hj
  rw [List.getElem?_map, Option.map_eq_some_iff] at hj
  obtain ⟨i, hi, rfl⟩ := hj
  obtain ⟨hbefore, hafter⟩ := g.instr?_head j
  rw [hd']
  exact deedOfCalls_new hbefore (hafter.trans hi) (h.fresh _ hbefore)

theorem Outlined.marked_tail (h : Outlined e d roles)
    (g : d.body.Grown here old head term tail tys b') {deed : Deed}
    (hd' : d'.deed = deedOfCalls d.body b' deed d.deed) {k : Nat} {code : Code}
    (hk : tail[k]? = some code) :
    d'.Marked ⟨d.body.id, d.body.codes.length + k⟩ 0 (code.1.map (Instr.deedOfCall deed)) := by
  intro j mark hj
  rw [List.getElem?_map, Option.map_eq_some_iff] at hj
  obtain ⟨i, hi, rfl⟩ := hj
  obtain ⟨hbefore, hafter⟩ := g.instr?_tail hk j
  rw [hd', Nat.zero_add]
  exact deedOfCalls_new hbefore (hafter.trans hi) (h.fresh _ hbefore)

theorem Outlined.own (h : Outlined e d roles) {i : Instr}
    (g : d.body.Grown here old [i] none [] tys b')
    (hdst : ∀ r, i.dst? = some r → r.index < b'.regs.length) :
    Outlined e { d with body := b', own := (here, i) :: d.own } (roles ++ []) := by
  refine h.grow g (.of_grown g (List.subset_cons_self _ _) (fun _ h => h) (fun _ h => h)
    fun _ _ _ => rfl) rfl ?_ (by simp) (fun _ hp => .inl hp) (fun _ hp => .inl hp) (fun _ h => h)
    (by simp) ?_ fun _ hp => h.fresh_of_grown g hp
  · refine .own List.mem_cons_self hdst ?_ .unfinished
    exact h.marked_none (n := 1) fun j => (g.instr?_head j).1
  · intro point i' hi
    rcases List.mem_cons.1 hi with heq | hmem
    · obtain ⟨rfl, rfl⟩ := Prod.mk.inj heq
      exact .inr ⟨rfl, List.mem_singleton_self _⟩
    · exact .inl hmem

theorem Outlined.leave (h : Outlined e d roles) {t : Terminator}
    (hop : Body.terminate here t d.body = .ok () b') :
    Outlined e { d with body := b', exits := (here, t) :: d.exits } (roles ++ []) := by
  obtain ⟨old, g⟩ := Body.terminate_grown hop
  exact h.grow g (.of_grown g (fun _ h => h) (List.subset_cons_self _ _) (fun _ h => h)
    fun _ _ _ => rfl) rfl (.exit List.mem_cons_self) (by simp) (fun _ hp => .inl hp)
    (fun _ hp => .inl hp) (fun _ h => h) (by simp) (fun _ _ hi => .inl hi)
    fun _ hp => h.fresh_of_grown g hp

theorem Outlined.resumeAt (h : Outlined e d roles) {path : Resumption} {p : Program}
    {target : FuncId} (hcurrent : path.current = e.current)
    (hsentinel : path.sentinel = e.options.errorSentinel)
    (hop : path.resumeAt p target d.body = .ok () b') :
    Outlined e { d with body := b', resumed := (p, target) :: d.resumed } (roles ++ []) := by
  obtain ⟨htarget, old, g⟩ := Resumption.resumeAt_inv hop
  rw [hcurrent, hsentinel] at g
  refine h.grow g (.of_grown g (fun _ h => h) (fun _ h => h) (List.subset_cons_self _ _)
    fun _ _ _ => rfl) rfl ?_ (by simp) (fun _ hp => .inl hp) (fun _ hp => .inl hp) (fun _ h => h)
    (by simp) (fun _ _ hi => .inl hi) fun _ hp => h.fresh_of_grown g hp
  exact .resume List.mem_cons_self htarget
    (h.marked_none (n := 1) fun j => (g.instr?_head j).1)

theorem Outlined.role_of_open (h : Outlined e d roles) (hopen : d.body.Open here old) :
    d.Plays roles here .plain ∨ ∃ answer, d.Plays roles here (.failed answer) := by
  obtain ⟨howner, hcode⟩ := Body.code?_some.1 hopen
  have hlt : here.index < roles.length := by
    rw [h.length]
    exact (List.getElem?_eq_some_iff.1 hcode).1
  have hrole := List.getElem?_eq_getElem hlt
  have hformed := h.formed _ _ _ hrole hcode
  cases hr : roles[here.index] with
  | plain => exact .inl ⟨howner, hrole.trans (congrArg some hr)⟩
  | failed answer => exact .inr ⟨answer, howner, hrole.trans (congrArg some hr)⟩
  | opened slots start =>
    rw [hr] at hformed
    obtain ⟨next, failed, ht, -⟩ := Closing.term hformed
    simp at ht
  | _ => simp [hr, Formed] at hformed

theorem Outlined.newBlock (h : Outlined e d roles) {block : BlockId}
    (hcodes : b'.codes = d.body.codes ++ [([], none)]) (hid : b'.id = d.body.id)
    (hregs : b'.regs = d.body.regs) (hblock : block = ⟨d.body.id, d.body.codes.length⟩) :
    Outlined e { d with body := b', points := d.points ++ [block] } (roles ++ [.plain]) := by
  have hcode : ∀ here code, d.body.code? here = some code → b'.code? here = some code :=
    fun _ _ => Body.code?_of_append hid hcodes
  have hg : Grows d { d with body := b', points := d.points ++ [block] } roles
      (roles ++ [.plain]) :=
    ⟨hid, by simp [hregs], fun _ h => h, fun _ h => h, fun _ h => h, List.prefix_append _ _,
      fun _ _ _ => rfl⟩
  refine ⟨by simp [h.length, hcodes], ?_, ?_, ?_, ?_, ?_, ?_⟩
  · intro i role code hrole hi
    simp only [hid]
    simp only [hcodes] at hi
    rcases Nat.lt_or_ge i d.body.codes.length with hlt | hge
    · rw [List.getElem?_append_left (by rw [h.length]; exact hlt)] at hrole
      rw [List.getElem?_append_left hlt] at hi
      refine (h.formed i role code hrole hi).mono hg fun j instr hj => ?_
      rw [Body.instr?_of_code ((Body.code?_at _ i).trans hi)]
      exact hj
    · rw [List.getElem?_append_right hge, List.getElem?_singleton] at hi
      rw [List.getElem?_append_right (by rw [h.length]; exact hge), h.length,
        List.getElem?_singleton] at hrole
      split at hi
      · rename_i hzero
        rw [if_pos hzero] at hrole
        obtain rfl := Option.some.inj hrole
        obtain rfl := Option.some.inj hi
        exact .unfinished
      · simp at hi
  · intro point hpoint
    rcases List.mem_append.1 hpoint with hmem | hmem
    · exact (h.points point hmem).imp (·.mono hg) (.imp fun answer hplays => hplays.mono hg)
    · obtain rfl := List.mem_singleton.1 hmem
      rw [hblock]
      exact .inl (h.plays_new _ _ hid (k := 0) rfl)
  · intro path hpath
    obtain ⟨answer, hanswer⟩ := h.paths path hpath
    exact ⟨answer, hanswer.mono hg⟩
  · intro i answer hrole
    rw [hg.id]
    rcases Nat.lt_or_ge i roles.length with hlt | hge
    · exact h.failures i answer (by rwa [List.getElem?_append_left hlt] at hrole)
    · rw [List.getElem?_append_right hge, List.getElem?_singleton] at hrole
      split at hrole <;> simp at hrole
  · intro point i hi
    obtain ⟨code, hc, hmem⟩ := h.owned point i hi
    exact ⟨code, hcode point code hc, hmem⟩
  · intro point hpoint
    refine h.fresh point ?_
    cases hi : d.body.instr? point with
    | none => rfl
    | some i =>
      obtain ⟨code, hc, hget⟩ := Option.bind_eq_some_iff.1 hi
      simp only [Body.instr?, hcode _ _ hc, Option.bind_some, hget] at hpoint
      simp at hpoint

theorem Outlined.spanStart (h : Outlined e d roles) {s : SpanId} {next : BlockId}
    (hop : e.spanStart here s d.body = .ok next b') :
    Outlined e { d with
      body := b'
      points := d.points ++ [next]
      deed := deedAt (b'.lastPoint here) (.opens s) d.deed } (roles ++ []) := by
  obtain ⟨rfl, span, color, slots, old, hs, g⟩ := Emitter.spanStart_inv hop
  have hlast : b'.lastPoint next = ⟨next, old.length + slots.slot?.toList.length⟩ := by
    simp only [Body.lastPoint, g.code_here, Option.elim_some, List.length_append,
      ColorSlots.opening, List.length_cons, List.length_map]
    rfl
  rw [hlast]
  have hnew : ∀ j, d.body.instr? ⟨next, old.length + j⟩ = none := fun j => (g.instr?_head j).1
  -- Only the last instruction gets a deed, and it is a new one.
  have hdeed : ∀ point, point ≠ ⟨next, old.length + slots.slot?.toList.length⟩ →
      deedAt ⟨next, old.length + slots.slot?.toList.length⟩ (.opens s) d.deed point =
        d.deed point := by
    intro point hne
    refine if_neg fun hpoint => hne ?_
    cases point
    simp_all
  have hg : Grows d { d with
      body := b'
      points := d.points ++ [next]
      deed := deedAt ⟨next, old.length + slots.slot?.toList.length⟩ (.opens s) d.deed }
      roles (roles ++ []) := by
    refine .of_grown g (fun _ h => h) (fun _ h => h) (fun _ h => h) fun point i hi => hdeed point ?_
    rintro rfl
    simp [hnew] at hi
  refine h.grow g hg rfl ?_ (by simp) ?_ (fun _ hp => .inl hp) (fun _ h => h) (by simp)
    (fun _ _ hi => .inl hi) ?_
  · rw [← List.append_nil (slots.opening span.callback)]
    refine .opening hs ?_ .unfinished
    intro j mark hj
    rcases Nat.lt_or_ge j slots.slot?.toList.length with hlt | hge
    · rw [List.getElem?_append_left (by simpa using hlt), List.getElem?_map,
        Option.map_eq_some_iff] at hj
      obtain ⟨_, -, rfl⟩ := hj
      refine (hdeed _ fun heq => ?_).trans (h.fresh _ (hnew j))
      have := congrArg Point.done heq
      simp only at this
      omega
    · rw [List.getElem?_append_right (by simpa using hge), List.getElem?_singleton] at hj
      split at hj
      · rename_i hzero
        obtain rfl := Option.some.inj hj
        simp only [List.length_map] at hzero
        exact if_pos ⟨rfl, by simp only; omega⟩
      · simp at hj
  · intro point hpoint
    rcases List.mem_append.1 hpoint with hmem | hmem
    · exact .inl hmem
    · obtain rfl := List.mem_singleton.1 hmem
      exact .inr ((h.role_of_open g.base).imp (·.mono hg)
        (.imp fun answer hplays => hplays.mono hg))
  · intro point hpoint
    refine (hdeed point ?_).trans (h.fresh_of_grown g hpoint)
    rintro rfl
    have hafter := (g.instr?_head slots.slot?.toList.length).2
    rw [hpoint] at hafter
    have hlength := List.getElem?_eq_none_iff.1 hafter.symm
    simp [ColorSlots.opening] at hlength

/-- A fragment whose calls are there for one deed, with the blocks that its author is given. -/
structure Emits (d d' : Draft) (deed : Deed) (points : List BlockId) (paths : List Resumption) :
    Prop where
  points : d'.points = d.points ++ points
  paths : d'.paths = d.paths ++ paths
  own : d'.own = d.own
  exits : d'.exits = d.exits
  resumed : d'.resumed = d.resumed
  deed : d'.deed = deedOfCalls d.body d'.body deed d.deed

section Emits

variable {deed : Deed} {points : List BlockId} {paths : List Resumption}

theorem Emits.grows (h : Emits d d' deed points paths)
    (g : d.body.Grown here old head term tail tys d'.body) : Grows d d' roles (roles ++ new) :=
  .of_grown g (by rw [h.own]; exact fun _ h => h) (by rw [h.exits]; exact fun _ h => h)
    (by rw [h.resumed]; exact fun _ h => h)
    fun point i hi => by rw [h.deed, deedOfCalls_old hi]

theorem Outlined.emit (h : Outlined e d roles) (hd : Emits d d' deed points paths)
    (g : d.body.Grown here old head term tail tys d'.body) (hnew : new.length = tail.length)
    (hhead : Tail e d' (roles ++ new) here old.length head term)
    (htail : ∀ k role code, new[k]? = some role → tail[k]? = some code →
      Formed e d' (roles ++ new) ⟨d.body.id, d.body.codes.length + k⟩ role code)
    (hpoints : ∀ point ∈ points, d'.Plays (roles ++ new) point .plain)
    (hpaths : ∀ path ∈ paths, ∃ answer, d'.Plays (roles ++ new) path.block (.failed answer))
    (hfailures : ∀ k answer, new[k]? = some (.failed answer) →
      ∃ path ∈ paths, path.block = ⟨d.body.id, d.body.codes.length + k⟩) :
    Outlined e d' (roles ++ new) := by
  refine h.grow g (hd.grows g) hnew hhead htail ?_ ?_ ?_ ?_ ?_ ?_
  · intro point hpoint
    rw [hd.points] at hpoint
    exact (List.mem_append.1 hpoint).imp id fun hmem => .inl (hpoints point hmem)
  · intro path hpath
    rw [hd.paths] at hpath
    exact (List.mem_append.1 hpath).imp id (hpaths path)
  · rw [hd.paths]
    exact List.subset_append_left _ _
  · intro k answer hk
    obtain ⟨path, hmem, hblock⟩ := hfailures k answer hk
    exact ⟨path, hd.paths ▸ List.mem_append_right _ hmem, hblock⟩
  · intro point i hi
    exact .inl (hd.own ▸ hi)
  · intro point hpoint
    rw [hd.deed, deedOfCalls_absent hpoint]
    exact h.fresh_of_grown g hpoint

variable {s : SpanId} {span : SpanDecl} {color : Nat} {slots : ColorSlots} {next : BlockId}
  {path : Resumption}

theorem Outlined.spanEnd_plain (h : Outlined e d roles) (hopen : d.body.Open here old)
    (hsig : d.body.sig = parserSig) (hs : e.locate s = .ok (span, color, slots))
    (hdebug : e.options.debugChecks = false)
    (hop : e.spanEnd here s d.body = .ok (next, path) d'.body)
    (hd : Emits d d' (.closes s) [next] [path]) :
    Outlined e d' (roles ++ [.plain, .failed (d.body.regs.length + 1)]) := by
  obtain ⟨b'', hop', g⟩ := Emitter.spanEnd_grown_plain hopen hsig hs hdebug
  rw [hop] at hop'
  obtain ⟨hpair, hbody⟩ := EStateM.Result.ok.inj hop'
  obtain ⟨rfl, rfl⟩ := Prod.mk.inj hpair
  rw [← hbody] at g
  have hplays : ∀ k role, [Role.plain, .failed (d.body.regs.length + 1)][k]? = some role →
      d'.Plays _ _ role := fun k role => h.plays_new d' _ g.head_eq.id
  have hplain := hplays 0 _ rfl
  have hfailed := hplays 1 _ rfl
  have hhead := h.marked_head g hd.deed
  refine h.emit hd g rfl ?_ ?_ ?_ ?_ ?_
  · refine .close hdebug (fun j mark hj => hhead j mark ?_) ⟨⟨s, span, color, hs, rfl, ?_⟩,
      ⟨_, _, rfl, hplain, hfailed⟩, Nat.lt_succ_self _, by simp [g.regs]⟩
    · rcases j with _ | j
      · exact hj
      · simp at hj
    · intro j mark hj
      have := hhead (j + 1) mark hj
      rwa [Nat.add_assoc, Nat.add_comm 1]
  · intro k role code hrole hcode
    rcases k with _ | _ | k
    · obtain rfl := Option.some.inj hrole
      obtain rfl := Option.some.inj hcode
      exact .unfinished
    · obtain rfl := Option.some.inj hrole
      obtain rfl := Option.some.inj hcode
      exact ⟨[], rfl, h.marked_tail g hd.deed (k := 1) rfl, .unfinished⟩
    · simp at hcode
  · simpa using hplain
  · intro path hpath
    obtain rfl := List.mem_singleton.1 hpath
    exact ⟨_, hfailed⟩
  · intro k answer hk
    rcases k with _ | _ | k
    · simp at hk
    · exact ⟨_, List.mem_singleton_self _, rfl⟩
    · simp at hk

theorem Outlined.spanEnd_checked (h : Outlined e d roles) (hopen : d.body.Open here old)
    (hsig : d.body.sig = parserSig) (hs : e.locate s = .ok (span, color, slots))
    (hdebug : e.options.debugChecks = true)
    (hop : e.spanEnd here s d.body = .ok (next, path) d'.body)
    (hd : Emits d d' (.closes s) [next] [path]) :
    Outlined e d' (roles ++ [.trap, .opened slots d.body.regs.length, .plain,
      .failed (d.body.regs.length + 2)]) := by
  obtain ⟨b'', hop', g⟩ := Emitter.spanEnd_grown_checked hopen hsig hs hdebug
  rw [hop] at hop'
  obtain ⟨hpair, hbody⟩ := EStateM.Result.ok.inj hop'
  obtain ⟨rfl, rfl⟩ := Prod.mk.inj hpair
  rw [← hbody] at g
  have hplays : ∀ k role, [Role.trap, .opened slots d.body.regs.length, .plain,
      .failed (d.body.regs.length + 2)][k]? = some role → d'.Plays _ _ role :=
    fun k role => h.plays_new d' _ g.head_eq.id
  have hslots := List.mem_of_getElem? (Emitter.mem_colors_of_locate hs).2.2
  refine h.emit hd g rfl ?_ ?_ ?_ ?_ ?_
  · exact .check hslots (by simp [g.regs]) (h.marked_head g hd.deed) (hplays 0 _ rfl)
      (hplays 1 _ rfl)
  · intro k role code hrole hcode
    rcases k with _ | _ | _ | _ | k
    · obtain rfl := Option.some.inj hrole
      exact ⟨hdebug, (Option.some.inj hcode).symm⟩
    · obtain rfl := Option.some.inj hrole
      have hm := h.marked_tail g hd.deed hcode
      obtain rfl := Option.some.inj hcode
      exact ⟨⟨s, span, color, hs, rfl, hm⟩, ⟨_, _, rfl, hplays 2 _ rfl, hplays 3 _ rfl⟩,
        by simp, by simp [g.regs]⟩
    · obtain rfl := Option.some.inj hrole
      obtain rfl := Option.some.inj hcode
      exact .unfinished
    · obtain rfl := Option.some.inj hrole
      obtain rfl := Option.some.inj hcode
      exact ⟨[], rfl, h.marked_tail g hd.deed (k := 3) rfl, .unfinished⟩
    · simp at hcode
  · simpa using hplays 2 _ rfl
  · intro path hpath
    obtain rfl := List.mem_singleton.1 hpath
    exact ⟨_, hplays 3 _ rfl⟩
  · intro k answer hk
    rcases k with _ | _ | _ | _ | k
    · simp at hk
    · simp at hk
    · simp at hk
    · exact ⟨_, List.mem_singleton_self _, rfl⟩
    · simp at hk

theorem Outlined.rebase (h : Outlined e d roles) (hopen : d.body.Open here old)
    (hslots : slots ∈ e.colors) (hop : Emitter.rebase here color slots d.body = .ok next b') :
    Outlined e { d with body := b' } (roles ++ [.restart slots, .plain]) := by
  obtain ⟨b'', hop', g⟩ := Emitter.rebase_grown hopen color slots
  rw [hop] at hop'
  obtain ⟨rfl, rfl⟩ := EStateM.Result.ok.inj hop'
  have hplain : ∀ point i, d.body.instr? point = none → b'.instr? point = some i → i.isPlain := by
    intro point i hnone hsome
    have hmem := g.instr?_new hnone hsome
    simp only [ColorSlots.test, List.mem_cons, List.not_mem_nil, or_false, exists_eq_or_imp,
      exists_eq_left] at hmem
    obtain (rfl | rfl) | rfl := hmem <;> rfl
  have hd : Emits d { d with body := b' } .flushes [] [] :=
    ⟨(List.append_nil _).symm, (List.append_nil _).symm, rfl, rfl, rfl,
      (deedOfCalls_none hplain).symm⟩
  have hplays : ∀ k role, [Role.restart slots, .plain][k]? = some role →
      Plays { d with body := b' } _ _ role :=
    fun k role => h.plays_new _ _ g.head_eq.id
  refine h.emit hd g rfl ?_ ?_ (by simp) (by simp) ?_
  · exact .rebase hslots (by simp [g.regs]) (h.marked_head g hd.deed) (hplays 0 _ rfl)
      (hplays 1 _ rfl)
  · intro k role code hrole hcode
    rcases k with _ | _ | k
    · obtain rfl := Option.some.inj hrole
      have hm := h.marked_tail g hd.deed hcode
      obtain rfl := Option.some.inj hcode
      exact ⟨hslots, hm, _, hplays 1 _ rfl, rfl⟩
    · obtain rfl := Option.some.inj hrole
      obtain rfl := Option.some.inj hcode
      exact .unfinished
    · simp at hcode
  · intro k answer hk
    rcases k with _ | _ | k <;> simp at hk

theorem Outlined.flush (h : Outlined e d roles) (hopen : d.body.Open here old)
    (hslots : slots ∈ e.colors) (hop : e.flush here color slots d.body = .ok next d'.body)
    (hd : Emits d d' .flushes [] []) :
    Outlined e d' (roles ++ [.present slots d.body.regs.length, .plain,
      .flushFailed (slots.dispatch.answer (d.body.regs.length + 2))]) := by
  obtain ⟨b'', hop', g⟩ := Emitter.flush_grown e hopen color slots
  rw [hop] at hop'
  obtain ⟨rfl, hbody⟩ := EStateM.Result.ok.inj hop'
  rw [← hbody] at g
  have hplays : ∀ k role, [Role.present slots d.body.regs.length, .plain,
      .flushFailed (slots.dispatch.answer (d.body.regs.length + 2))][k]? = some role →
      d'.Plays _ _ role :=
    fun k role => h.plays_new d' _ g.head_eq.id
  have hregs : slots.dispatch.answer (d.body.regs.length + 2) + 1 < d'.body.regs.length := by
    have := slots.dispatch.types_length slots.sig (d.body.regs.length + 2)
    rw [g.regs]
    simp only [List.length_append, List.length_cons, List.length_nil]
    omega
  refine h.emit hd g rfl ?_ ?_ (by simp) (by simp) ?_
  · exact .flush hslots (by rw [g.regs]; simp) (h.marked_head g hd.deed) (hplays 0 _ rfl)
      (hplays 1 _ rfl)
  · intro k role code hrole hcode
    rcases k with _ | _ | _ | k
    · obtain rfl := Option.some.inj hrole
      have hm := h.marked_tail g hd.deed hcode
      obtain rfl := Option.some.inj hcode
      exact ⟨hslots, hregs, hm, _, _, hplays 1 _ rfl, hplays 2 _ rfl, rfl⟩
    · obtain rfl := Option.some.inj hrole
      obtain rfl := Option.some.inj hcode
      exact .unfinished
    · obtain rfl := Option.some.inj hrole
      obtain rfl := Option.some.inj hcode
      exact ⟨h.marked_tail g hd.deed (k := 2) rfl, rfl⟩
    · simp at hcode
  · intro k answer hk
    rcases k with _ | _ | _ | k <;> simp at hk

theorem Outlined.addPoint (h : Outlined e d roles)
    (hnext : d.Plays roles next .plain ∨ ∃ answer, d.Plays roles next (.failed answer)) :
    Outlined e { d with points := d.points ++ [next] } roles := by
  have hg : Grows d { d with points := d.points ++ [next] } roles roles :=
    ⟨rfl, Nat.le_refl _, fun _ h => h, fun _ h => h, fun _ h => h, List.prefix_rfl,
      fun _ _ _ => rfl⟩
  refine ⟨h.length, ?_, ?_, h.paths, h.failures, h.owned, h.fresh⟩
  · intro i role code hrole hcode
    refine (h.formed i role code hrole hcode).mono hg fun j instr hj => ?_
    rw [Body.instr?_of_code ((Body.code?_at _ i).trans hcode)]
    exact hj
  · intro point hpoint
    rcases List.mem_append.1 hpoint with hmem | hmem
    · exact h.points point hmem
    · obtain rfl := List.mem_singleton.1 hmem
      exact hnext

theorem Outlined.rebaseAll (h : Outlined e d roles) {list : List ColorSlots}
    (hlist : ∀ slots ∈ list, slots ∈ e.colors) (hopen : d.body.Open here old)
    (hop : Emitter.chain Emitter.rebase here color list d.body = .ok next b') :
    ∃ new, Outlined e { d with body := b' } (roles ++ new) := by
  induction list generalizing d roles here old color with
  | nil =>
    obtain ⟨rfl, rfl⟩ := pure_ok hop
    exact ⟨[], by rwa [List.append_nil]⟩
  | cons slots list ih =>
    simp only [List.mem_cons, forall_eq_or_imp] at hlist
    obtain ⟨mid, b₁, hstep, hmid, -⟩ := Emitter.rebase_appends d.body here old color slots hopen
    rw [Emitter.chain, bind_of_ok hstep] at hop
    obtain ⟨new, hnew⟩ := ih (h.rebase hopen hlist.1 hstep) hlist.2 hmid hop
    exact ⟨_, by rwa [List.append_assoc] at hnew⟩

theorem Outlined.flushAll (h : Outlined e d roles) {list : List ColorSlots}
    (hlist : ∀ slots ∈ list, slots ∈ e.colors) (hopen : d.body.Open here old)
    (hop : Emitter.chain e.flush here color list d.body = .ok next b') :
    ∃ new, Outlined e { d with body := b', deed := deedOfCalls d.body b' .flushes d.deed }
      (roles ++ new) := by
  induction list generalizing d roles here old color with
  | nil =>
    obtain ⟨rfl, rfl⟩ := pure_ok hop
    have hsame : deedOfCalls d.body d.body .flushes d.deed = d.deed :=
      deedOfCalls_none fun point i hnone hsome => by simp [hnone] at hsome
    exact ⟨[], by rwa [List.append_nil, hsame]⟩
  | cons slots list ih =>
    simp only [List.mem_cons, forall_eq_or_imp] at hlist
    obtain ⟨mid, b₁, hstep, hmid, hw₁, -⟩ :=
      Emitter.flush_appends e d.body here old color slots hopen
    obtain ⟨next', b₂, rest, hchain, -, hw₂, -⟩ :=
      Emitter.chain_appends (Emitter.flush_appends e) list hmid (color + 1)
    rw [Emitter.chain, bind_of_ok hstep] at hop
    obtain ⟨rfl, rfl⟩ : next = next' ∧ b' = b₂ := by simpa [hop] using hchain
    have hemits : Emits d { d with
        body := b₁, deed := deedOfCalls d.body b₁ .flushes d.deed } .flushes [] [] :=
      ⟨(List.append_nil _).symm, (List.append_nil _).symm, rfl, rfl, rfl, rfl⟩
    have hflush := h.flush hopen hlist.1 hstep hemits
    obtain ⟨new, hnew⟩ := ih hflush hlist.2 hmid hop
    simp only [deedOfCalls_trans hw₁ hw₂, List.append_assoc] at hnew
    exact ⟨_, hnew⟩

end Emits

theorem Outlined.ownNew (h : Outlined e d roles) {ty : Ty} (make : Reg → Instr)
    (hdst : (make ⟨d.body.regs.length⟩).dst? = some ⟨d.body.regs.length⟩) {v : Operand}
    (hop : Body.pushNew ty here make d.body = .ok v b') :
    Outlined e { d with body := b', own := (here, make ⟨d.body.regs.length⟩) :: d.own }
      (roles ++ []) := by
  obtain ⟨old, g⟩ := Body.pushNew_grown hop
  refine h.own g fun r hr => ?_
  obtain rfl := Option.some.inj (hdst.symm.trans hr)
  simp [g.regs]

theorem Outlined.perform (h : Outlined e d roles) {op : Operation}
    (hpath : ∀ path p target, op = .resumeAt path p target →
      path.current = e.current ∧ path.sentinel = e.options.errorSentinel)
    (hop : perform e op d = .ok () d') : ∃ new, Outlined e d' (roles ++ new) := by
  cases op with
  | spanStart here s =>
    obtain ⟨next, b', hstep, hrest⟩ := onBody_bind hop
    obtain ⟨-, rfl⟩ := EStateM.Result.ok.inj hrest
    exact ⟨_, h.spanStart hstep⟩
  | spanEnd here s =>
    obtain ⟨⟨next, path⟩, b', hstep, hrest⟩ := onBody_bind hop
    obtain ⟨-, rfl⟩ := EStateM.Result.ok.inj hrest
    obtain ⟨hsig, span, color, slots, old, hs, hopen⟩ := Emitter.spanEnd_inv hstep
    cases hdebug : e.options.debugChecks with
    | false => exact ⟨_, h.spanEnd_plain hopen hsig hs hdebug hstep ⟨rfl, rfl, rfl, rfl, rfl, rfl⟩⟩
    | true => exact ⟨_, h.spanEnd_checked hopen hsig hs hdebug hstep ⟨rfl, rfl, rfl, rfl, rfl, rfl⟩⟩
  | prologue here =>
    obtain ⟨next, b', hstep, hrest⟩ := onBody_bind hop
    obtain ⟨-, rfl⟩ := EStateM.Result.ok.inj hrest
    obtain ⟨u, b₁, hcheck, hchain⟩ := bind_ok hstep
    obtain ⟨rfl, -, old, hopen⟩ := Emitter.checkTarget_inv hcheck
    rw [Emitter.rebaseFrom_eq] at hchain
    obtain ⟨next', b₂, rest, hchain', hnext, -⟩ :=
      Emitter.chain_appends Emitter.rebase_appends e.colors hopen 0
    obtain ⟨rfl, rfl⟩ : next = next' ∧ b' = b₂ := by simpa [hchain] using hchain'
    obtain ⟨new, hnew⟩ := h.rebaseAll (fun _ h => h) hopen hchain
    exact ⟨new, hnew.addPoint (hnew.role_of_open hnext)⟩
  | epilogue here =>
    obtain ⟨next, b', hstep, hrest⟩ := onBody_bind hop
    obtain ⟨-, rfl⟩ := EStateM.Result.ok.inj hrest
    obtain ⟨u, b₁, hcheck, hchain⟩ := bind_ok hstep
    obtain ⟨rfl, -, old, hopen⟩ := Emitter.checkTarget_inv hcheck
    rw [Emitter.flushFrom_eq] at hchain
    obtain ⟨next', b₂, rest, hchain', hnext, -⟩ :=
      Emitter.chain_appends (Emitter.flush_appends e) e.colors hopen 0
    obtain ⟨rfl, rfl⟩ : next = next' ∧ b' = b₂ := by simpa [hchain] using hchain'
    obtain ⟨new, hnew⟩ := h.flushAll (fun _ h => h) hopen hchain
    exact ⟨new, hnew.addPoint (hnew.role_of_open hnext)⟩
  | resumeAt path p target =>
    obtain ⟨u, b', hstep, hrest⟩ := onBody_bind hop
    obtain ⟨-, rfl⟩ := EStateM.Result.ok.inj hrest
    obtain ⟨hcurrent, hsentinel⟩ := hpath path p target rfl
    exact ⟨_, h.resumeAt hcurrent hsentinel hstep⟩
  | newBlock name =>
    obtain ⟨block, b', hstep, hrest⟩ := onBody_bind hop
    obtain ⟨-, rfl⟩ := EStateM.Result.ok.inj hrest
    obtain ⟨rfl, rfl⟩ := EStateM.Result.ok.inj hstep
    refine ⟨_, h.newBlock ?_ rfl rfl ?_⟩
    · simp [Body.codes, Block.code]
    · simp [Body.codes]
  | load here field =>
    obtain ⟨v, b', hstep, hrest⟩ := onBody_bind hop
    obtain ⟨-, rfl⟩ := EStateM.Result.ok.inj hrest
    exact ⟨_, h.ownNew (fun dst => .load dst field.id field.ty) rfl hstep⟩
  | store here field value =>
    obtain ⟨u, b', hstep, hrest⟩ := onBody_bind hop
    obtain ⟨-, rfl⟩ := EStateM.Result.ok.inj hrest
    obtain ⟨old, g⟩ := Body.push_grown hstep
    exact ⟨_, h.own g (by simp [Instr.dst?])⟩
  | icmp here how lhs rhs =>
    obtain ⟨v, b', hstep, hrest⟩ := onBody_bind hop
    obtain ⟨-, rfl⟩ := EStateM.Result.ok.inj hrest
    exact ⟨_, h.ownNew (fun dst => .icmp dst how lhs rhs) rfl hstep⟩
  | call here callee sig args callees =>
    obtain ⟨v, b', hstep, hrest⟩ := onBody_bind hop
    obtain ⟨-, rfl⟩ := EStateM.Result.ok.inj hrest
    exact ⟨_, h.ownNew (fun dst => .call dst callee sig args callees) rfl hstep⟩
  | leave here term =>
    obtain ⟨u, b', hstep, hrest⟩ := onBody_bind hop
    obtain ⟨-, rfl⟩ := EStateM.Result.ok.inj hrest
    exact ⟨_, h.leave hstep⟩

theorem outlined_start (e : Emitter) (f : FuncId) (name : String) (sig : Signature)
    (params : List String) : Outlined e (start (.start f name sig params)) [.plain] := by
  refine ⟨rfl, ?_, ?_, ?_, ?_, ?_, fun _ _ => rfl⟩
  · intro i role code hrole hcode
    rcases i with _ | i
    · obtain rfl := Option.some.inj hrole
      obtain rfl := Option.some.inj hcode
      exact .unfinished
    · simp at hrole
  · intro point hpoint
    obtain rfl := List.mem_singleton.1 hpoint
    exact .inl ⟨rfl, rfl⟩
  · intro path hpath
    simp [start] at hpath
  · intro i answer hi
    rcases i with _ | i <;> simp at hi
  · intro point i hi
    simp [start] at hi

theorem Outlined.performAll {ops : List Operation} (h : Outlined e d roles)
    (hpaths : ∀ path p target, Operation.resumeAt path p target ∈ ops →
      path.current = e.current ∧ path.sentinel = e.options.errorSentinel)
    (hops : performAll e ops d = .ok () d') : ∃ new, Outlined e d' (roles ++ new) := by
  induction ops generalizing d roles with
  | nil =>
    obtain ⟨-, rfl⟩ := pure_ok hops
    exact ⟨[], by rwa [List.append_nil]⟩
  | cons op ops ih =>
    obtain ⟨u, d₁, hop, hrest⟩ := bind_ok hops
    obtain ⟨new, h₁⟩ := h.perform
      (fun path p target heq => hpaths path p target (by simp [heq])) hop
    obtain ⟨new', h₂⟩ := ih h₁ (fun path p target hmem =>
      hpaths path p target (List.mem_cons_of_mem _ hmem)) hrest
    exact ⟨new ++ new', by rwa [List.append_assoc] at h₂⟩

theorem Outlined.plays_of_handedOut (h : Outlined e d roles) (hhere : here ∈ d.handedOut) :
    d.Plays roles here .plain ∨ ∃ answer, d.Plays roles here (.failed answer) := by
  rcases List.mem_append.1 hhere with hpoint | hpath
  · exact h.points here hpoint
  · obtain ⟨path, hmem, rfl⟩ := List.mem_map.1 hpath
    exact .inr (h.paths path hmem)

/-- A draft has an outline, whatever its author did. -/
theorem Made.outlined (h : Made e d) : ∃ new, Outlined e d (.plain :: new) := by
  obtain ⟨f, name, sig, params, ops, hops, hpaths⟩ := h.steps
  exact (outlined_start e f name sig params).performAll hpaths hops

end Operations

end SpanTracking.Draft
