import SpanTracking.Proofs.Emissions

set_option autoImplicit false

namespace SpanTracking

namespace Body

/-- The open blocks of the body are those of `ends`, and all branches land. -/
structure Tied (b : Body) (ends : List BlockId) : Prop where
  nodup : ends.Nodup
  live : ∀ there, b.Live there ↔ there ∈ ends
  lands : b.Lands

theorem tied_start (f : FuncId) (name : String) (sig : Signature) (params : List String) :
    (Body.start f name sig params).Tied [⟨f, 0⟩] := by
  refine ⟨by simp, ?_, ?_⟩
  · intro there
    constructor
    · rintro ⟨old, hopen⟩
      obtain ⟨howner, hindex⟩ := code?_some.1 hopen
      obtain ⟨hlt, -⟩ := List.getElem?_eq_some_iff.1 hindex
      have hzero : there.index = 0 := by simpa [codes, Body.start] using hlt
      obtain ⟨owner, index⟩ := there
      exact List.mem_singleton.2 (by simp_all [Body.start])
    · intro hmem
      obtain rfl := List.mem_singleton.1 hmem
      exact ⟨[], by simp [Open, code?, block?, Body.start, Block.code]⟩
  · intro i is t hi
    cases i <;> simp [codes, Body.start, Block.code] at hi

theorem Tied.graft {b b' : Body} {here : BlockId} {left ends ends' rest : List BlockId}
    (h : b.Tied ends) (g : b.Grafted here left b') (hrest : ends.Perm (here :: rest))
    (hends : ends'.Perm (left ++ rest)) : b'.Tied ends' := by
  obtain ⟨hhere, hnodup⟩ := List.nodup_cons.1 (hrest.nodup_iff.1 h.nodup)
  have hmem : ∀ there, there ∈ rest ↔ b.Live there ∧ there ≠ here := by
    intro there
    rw [h.live, hrest.mem_iff, List.mem_cons]
    constructor
    · intro hthere
      exact ⟨.inr hthere, fun heq => hhere (heq ▸ hthere)⟩
    · rintro ⟨heq | hthere, hne⟩
      · exact absurd heq hne
      · exact hthere
  refine ⟨?_, ?_, g.lands h.lands⟩
  · rw [hends.nodup_iff, List.nodup_append]
    refine ⟨g.nodup, hnodup, ?_⟩
    rintro there hleft _ hthere rfl
    obtain ⟨hlive, hne⟩ := (hmem there).1 hthere
    obtain ⟨k, hk, -⟩ := hlive.block?
    rcases g.fresh there hleft with heq | hnone
    · exact hne heq
    · simp [hk] at hnone
  · intro there
    rw [g.live, hends.mem_iff, List.mem_append, hmem]

theorem ret_grafts {b : Body} {here : BlockId} (h : b.Live here) (value : Operand) :
    ∃ b', ret here value b = .ok () b' ∧ b.Grafted here [] b' := by
  obtain ⟨old, hopen⟩ := h
  obtain ⟨b', hr, g⟩ := (grown_self hopen).terminate (.ret value)
  have hgraft := g.grafted ((compositional_naming.terminate here (.ret value)).names hr)
    (by simp [Terminator.targets])
  exact ⟨b', hr, by simpa [loose] using hgraft⟩

/-- With all branches landing, verification stops at the first open block. -/
theorem Lands.verify {b : Body} (h : b.Lands) :
    b.verify = match b.blocks.find? fun k => k.term.isNone with
      | none => .ok ()
      | some k => .error (.unterminatedBlock b.name k.name) := by
  have hfinished : ∀ k ∈ b.blocks, ∀ t, k.term = some t → b.verifyBlock k = .ok () := by
    intro k hk t ht
    obtain ⟨i, hi⟩ := List.getElem?_of_mem hk
    have hcode : b.codes[i]? = some (k.instrs, some t) := by
      rw [codes, List.getElem?_map, hi, Option.map_some, Block.code, ht]
    have hall : (t.targets.all fun target => (b.block? target).isSome) = true :=
      List.all_eq_true.2 fun target htarget => code?_isSome.2 (h i _ t hcode target htarget)
    simp [verifyBlock, ht, hall]
  unfold Body.verify
  generalize b.blocks = blocks at hfinished
  induction blocks with
  | nil => rfl
  | cons k rest ih =>
    rw [List.forall_mem_cons] at hfinished
    change (b.verifyBlock k >>= fun _ => rest.forM b.verifyBlock) = _
    cases hterm : k.term with
    | none =>
      have hk : b.verifyBlock k = .error (.unterminatedBlock b.name k.name) := by
        simp [verifyBlock, hterm]
      simp [hk, hterm, bind, Except.bind]
    | some t =>
      rw [hfinished.1 t hterm]
      have hrest := ih hfinished.2
      simpa [hterm, bind, Except.bind] using hrest

theorem Tied.verify_ok {b : Body} (h : b.Tied []) : b.verify = .ok () := by
  have hnone : b.blocks.find? (fun k => k.term.isNone) = none := by
    rw [List.find?_eq_none]
    intro k hk hterm
    obtain ⟨i, hi⟩ := List.getElem?_of_mem hk
    have hopen : b.Open ⟨b.id, i⟩ k.instrs := by
      simp [Open, code?, block?, hi, Block.code, Option.isNone_iff_eq_none.1 hterm]
    simpa using (h.live ⟨b.id, i⟩).1 ⟨_, hopen⟩
  rw [h.lands.verify, hnone]

theorem Tied.verify_first {b : Body} {ends : List BlockId} (h : b.Tied ends) {there : BlockId}
    (hmem : there ∈ ends) (hfirst : ∀ other ∈ ends, there.index ≤ other.index) :
    ∃ k, b.block? there = some k ∧ b.verify = .error (.unterminatedBlock b.name k.name) := by
  obtain ⟨k, hk, hterm⟩ := ((h.live there).2 hmem).block?
  refine ⟨k, hk, ?_⟩
  obtain ⟨hlt, hk⟩ := List.getElem?_eq_some_iff.1 (block?_some.1 hk).2
  have hfind : b.blocks.find? (fun k => k.term.isNone) = some k := by
    rw [List.find?_eq_some_iff_getElem]
    refine ⟨by simp [hterm], there.index, hlt, hk, ?_⟩
    intro j hj
    -- An open block before this one would be an end with a lower number.
    by_contra hopen
    have hopen : b.Open ⟨b.id, j⟩ b.blocks[j].instrs := by
      have hjlt : j < b.blocks.length := hj.trans hlt
      simpa [Open, code?, block?, hjlt, Block.code] using hopen
    have hle := hfirst _ ((h.live ⟨b.id, j⟩).1 ⟨_, hopen⟩)
    exact absurd hj (Nat.not_lt.2 hle)
  rw [h.lands.verify, hfind]

end Body

structure Sheet where
  body : Body
  /-- The blocks in which parsing goes on. -/
  points : List BlockId
  /-- The failure paths that have not been finished. -/
  pending : List Resumption

namespace Sheet

def start (b : Body) : Sheet where
  body := b
  points := [b.entry]
  pending := []

inductive Move where
  | emit (e : Emitter) (m : Emission)
  | resume (path : Resumption) (p : Program) (target : FuncId)
  | ret (here : BlockId) (value : Operand)

def Offers (s : Sheet) : Move → Prop
  | .emit _ m => m.block ∈ s.points
  | .resume path _ _ => path ∈ s.pending
  | .ret here _ => here ∈ s.points

/-- A move uses up a block or a failure path, and an emission hands out new ones. A move that is
refused does neither. -/
def take (s : Sheet) : Move → Sheet
  | .emit e m =>
    match m.run e s.body with
    | .ok (next, path) b => ⟨b, next :: s.points.erase m.block, s.pending ++ path.toList⟩
    | .error _ b => { s with body := b }
  | .resume path p target =>
    match path.resumeAt p target s.body with
    | .ok () b => ⟨b, s.points, s.pending.erase path⟩
    | .error _ b => { s with body := b }
  | .ret here value =>
    match Body.ret here value s.body with
    | .ok () b => ⟨b, s.points.erase here, s.pending⟩
    | .error _ b => { s with body := b }

inductive Reached (b : Body) : Sheet → Prop where
  | start : Reached b (start b)
  | take {s : Sheet} {move : Move} (h : Reached b s) (hmove : s.Offers move) :
      Reached b (s.take move)

/-- The blocks that the author has been told of and has not used up. -/
def ends (s : Sheet) : List BlockId := s.points ++ s.pending.map Resumption.block

structure Sound (b : Body) (s : Sheet) : Prop where
  head_eq : b.SameHead s.body
  tied : s.body.Tied s.ends

variable {b : Body} {s : Sheet}

theorem Sound.live_of_point (h : s.Sound b) {here : BlockId} (hmem : here ∈ s.points) :
    s.body.Live here :=
  (h.tied.live here).2 (List.mem_append_left _ hmem)

theorem ends_perm_of_point {here : BlockId} (hmem : here ∈ s.points) :
    s.ends.Perm (here :: (s.points.erase here ++ s.pending.map Resumption.block)) :=
  (List.perm_cons_erase hmem).append_right _

theorem Sound.emit (h : s.Sound b) {e : Emitter} {m : Emission} (hmem : m.block ∈ s.points) :
    (s.take (.emit e m)).Sound b := by
  rcases m.run_cases e s.body with ⟨err, hr⟩ | ⟨⟨next, path⟩, b', hr, hgraft⟩
  · simpa [take, hr] using h
  · have htake : s.take (.emit e m) =
        ⟨b', next :: s.points.erase m.block, s.pending ++ path.toList⟩ := by simp [take, hr]
    have hends : (s.take (.emit e m)).ends = next :: ((s.points.erase m.block ++
        s.pending.map Resumption.block) ++ path.toList.map Resumption.block) := by
      simp [htake, ends]
    have hperm : (s.take (.emit e m)).ends.Perm (Emission.handedOut (next, path) ++
        (s.points.erase m.block ++ s.pending.map Resumption.block)) := by
      rw [hends]
      exact List.perm_append_comm.cons next
    rw [htake] at hperm ⊢
    exact ⟨h.head_eq.trans hgraft.head_eq,
      h.tied.graft hgraft (ends_perm_of_point hmem) hperm⟩

theorem Sound.resume (h : s.Sound b) {path : Resumption} {p : Program} {target : FuncId}
    (hmem : path ∈ s.pending) : (s.take (.resume path p target)).Sound b := by
  have hall := path.resumeAt_allOrNothing p target s.body
  cases hobj : path.objection p target s.body with
  | some err =>
    rw [hobj] at hall
    simpa [take, hall.1] using h
  | none =>
    rw [hobj] at hall
    obtain ⟨_, b', hr, hgraft⟩ := hall
    have htake : s.take (.resume path p target) = ⟨b', s.points, s.pending.erase path⟩ := by
      simp [take, hr]
    have hperm : s.ends.Perm
        (path.block :: (s.points ++ (s.pending.erase path).map Resumption.block)) :=
      (((List.perm_cons_erase hmem).map Resumption.block).append_left s.points).trans
        List.perm_middle
    rw [htake]
    exact ⟨h.head_eq.trans hgraft.head_eq, h.tied.graft hgraft hperm (.refl _)⟩

theorem Sound.ret (h : s.Sound b) {here : BlockId} (hmem : here ∈ s.points) (value : Operand) :
    (s.take (.ret here value)).Sound b ∧
      (s.take (.ret here value)).points = s.points.erase here ∧
      (s.take (.ret here value)).pending = s.pending := by
  obtain ⟨b', hr, hgraft⟩ := Body.ret_grafts (h.live_of_point hmem) value
  have htake : s.take (.ret here value) = ⟨b', s.points.erase here, s.pending⟩ := by
    simp [take, hr]
  rw [htake]
  exact ⟨⟨h.head_eq.trans hgraft.head_eq,
    h.tied.graft hgraft (ends_perm_of_point hmem) (.refl _)⟩, rfl, rfl⟩

theorem Sound.take (h : s.Sound b) {move : Move} (hmove : s.Offers move) :
    (s.take move).Sound b := by
  cases move with
  | emit e m => exact h.emit hmove
  | resume path p target => exact h.resume hmove
  | ret here value => exact (h.ret hmove value).1

theorem Reached.sound (hb : (Sheet.start b).Sound b) (h : Reached b s) : s.Sound b := by
  induction h with
  | start => exact hb
  | take _ hmove ih => exact ih.take hmove

def returned (s : Sheet) (value : BlockId → Operand) : Sheet :=
  s.points.foldl (fun s here => s.take (.ret here (value here))) s

theorem Sound.returned (h : s.Sound b) (hr : Reached b s) (value : BlockId → Operand) :
    Reached b (s.returned value) ∧ (s.returned value).points = [] ∧
      (s.returned value).pending = s.pending := by
  unfold Sheet.returned
  generalize hpoints : s.points = points
  induction points generalizing s with
  | nil => exact ⟨hr, hpoints, rfl⟩
  | cons here rest ih =>
    have hmem : here ∈ s.points := by simp [hpoints]
    obtain ⟨hsound, hrest, hpending⟩ := h.ret hmem (value here)
    rw [hpoints, List.erase_cons_head] at hrest
    rw [List.foldl_cons, ← hpending]
    exact ih hsound (hr.take hmem) hrest

theorem sound_start {p : Program} {f : FuncId} (hb : p.parserBody f = .ok b) :
    (start b).Sound b := by
  unfold Program.parserBody at hb
  split at hb
  · simp at hb
  split at hb
  · obtain rfl := Except.ok.inj hb
    exact ⟨.refl _, Body.tied_start f _ _ _⟩
  · simp at hb

theorem exists_first {pending : List Resumption} (h : pending ≠ []) :
    ∃ path ∈ pending, ∀ other ∈ pending, path.block.index ≤ other.block.index := by
  obtain ⟨path, hmem, hfirst⟩ := pending.toFinset.exists_min_image (fun path => path.block.index)
    (List.toFinset_nonempty_iff pending |>.2 h)
  exact ⟨path, List.mem_toFinset.1 hmem, fun other hother =>
    hfirst other (List.mem_toFinset.2 hother)⟩

/-- A forgotten failure path is always found, and nothing else is. Whatever authors have done with
the blocks they were handed, the open blocks are exactly those in which parsing goes on and those of
unfinished failure paths. Once they have returned from the former, the body is accepted if and only
if all failure paths are finished. Otherwise the error names the first of those that are not. -/
theorem forgotten_path_found {p : Program} {f : FuncId} (hb : p.parserBody f = .ok b)
    (hs : Reached b s) :
    s.ends.Nodup ∧
    (∀ there, s.body.Live there ↔ there ∈ s.points ∨ ∃ path ∈ s.pending, path.block = there) ∧
    ∀ value : BlockId → Operand,
      Reached b (s.returned value) ∧ (s.returned value).points = [] ∧
      (s.returned value).pending = s.pending ∧
      ((s.returned value).body.verify = .ok () ↔ s.pending = []) ∧
      ∀ path ∈ s.pending, (∀ other ∈ s.pending, path.block.index ≤ other.block.index) →
        ∃ k, (s.returned value).body.block? path.block = some k ∧
          (s.returned value).body.verify = .error (.unterminatedBlock b.name k.name) := by
  have hstart := sound_start hb
  have hsound := hs.sound hstart
  refine ⟨hsound.tied.nodup, ?_, ?_⟩
  · intro there
    rw [hsound.tied.live, ends, List.mem_append, List.mem_map]
  · intro value
    obtain ⟨hreached, hpoints, hpending⟩ := hsound.returned hs value
    have hsound' := hreached.sound hstart
    -- With no point left, the ends are those of the failure paths.
    have hends : (s.returned value).ends = s.pending.map Resumption.block := by
      rw [ends, hpoints, hpending, List.nil_append]
    have htied := hsound'.tied
    rw [hends] at htied
    have hnamed : ∀ path ∈ s.pending, (∀ other ∈ s.pending, path.block.index ≤ other.block.index) →
        ∃ k, (s.returned value).body.block? path.block = some k ∧
          (s.returned value).body.verify = .error (.unterminatedBlock b.name k.name) := by
      intro path hmem hfirst
      rw [← hsound'.head_eq.name]
      refine htied.verify_first (List.mem_map_of_mem hmem) ?_
      intro other hother
      obtain ⟨path', hmem', rfl⟩ := List.mem_map.1 hother
      exact hfirst path' hmem'
    refine ⟨hreached, hpoints, hpending, ⟨?_, ?_⟩, hnamed⟩
    · intro hok
      by_contra hne
      obtain ⟨path, hmem, hfirst⟩ := exists_first hne
      obtain ⟨k, -, herror⟩ := hnamed path hmem hfirst
      simp [hok] at herror
    · intro hnil
      rw [hnil] at htied
      exact htied.verify_ok

/-- Two spans are closed one after the other, and only the first failure path is finished. -/
def forgetful : Sheet :=
  [.emit (pairEmitter {}) (.spanEnd ⟨⟨2⟩, 0⟩ ⟨0⟩),
    .emit (pairEmitter {}) (.spanEnd ⟨⟨2⟩, 1⟩ ⟨2⟩),
    .resume ⟨⟨⟨2⟩, 2⟩, EventParser.sharedFields.current, -1⟩ pairPrepared ⟨2⟩].foldl take
      (start (.start ⟨2⟩ "parse" parserSig parserParams))

theorem forgetful_reached :
    Reached (.start ⟨2⟩ "parse" parserSig parserParams) forgetful := by
  simp only [forgetful, List.foldl_cons, List.foldl_nil]
  refine .take (.take (.take .start ?_) ?_) ?_
  · exact List.mem_singleton.2 rfl
  · exact List.mem_singleton.2 rfl
  · exact List.mem_cons_self

theorem forgotten_path_found_second :
    forgetful.points = [⟨⟨2⟩, 3⟩] ∧ forgetful.pending.map Resumption.block = [⟨⟨2⟩, 4⟩] ∧
      (forgetful.returned fun _ => .status 0).body.verify =
        .error (.unterminatedBlock "parse" "span_end_error1") := by
  have hbody : pairPrepared.parserBody ⟨2⟩ = .ok (.start ⟨2⟩ "parse" parserSig parserParams) := rfl
  obtain ⟨-, -, hreturned⟩ := forgotten_path_found hbody forgetful_reached
  obtain ⟨-, -, -, -, hnamed⟩ := hreturned fun _ => .status 0
  have hpending : forgetful.pending = [⟨⟨⟨2⟩, 4⟩, EventParser.sharedFields.current, -1⟩] := by
    decide +kernel
  have hname : ((forgetful.returned fun _ => .status 0).body.block? ⟨⟨2⟩, 4⟩).map Block.name =
      some "span_end_error1" := by
    decide +kernel
  obtain ⟨k, hk, herror⟩ := hnamed ⟨⟨⟨2⟩, 4⟩, EventParser.sharedFields.current, -1⟩
    (by simp [hpending]) (by simp [hpending])
  rw [hk] at hname
  refine ⟨by decide +kernel, by rw [hpending]; rfl, ?_⟩
  rw [herror, Option.some.inj hname]
  rfl

end Sheet

end SpanTracking
