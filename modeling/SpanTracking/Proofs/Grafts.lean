import SpanTracking.Proofs.Steps

set_option autoImplicit false

namespace SpanTracking

namespace Body

theorem block?_some {b : Body} {there : BlockId} {k : Block} :
    b.block? there = some k ↔ there.owner = b.id ∧ b.blocks[there.index]? = some k := by
  unfold block?
  split <;> simp [*]

section Names

def names (b : Body) : List String := b.blocks.map Block.name

structure NamesKept (b b' : Body) : Prop where
  params : b'.params = b.params
  names : b.names <+: b'.names

theorem NamesKept.refl (b : Body) : NamesKept b b := ⟨rfl, List.prefix_rfl⟩

theorem NamesKept.trans {a b c : Body} (h : NamesKept a b) (h' : NamesKept b c) : NamesKept a c :=
  ⟨h'.params.trans h.params, h.names.trans h'.names⟩

theorem NamesKept.block? {b b' : Body} (h : b.NamesKept b') {there : BlockId}
    {k : Block} {code : Code} (hk : b.block? there = some k) (hc : b'.code? there = some code) :
    b'.block? there = some ⟨k.name, code.1, code.2⟩ := by
  obtain ⟨k', hk', rfl⟩ := Option.map_eq_some_iff.1 hc
  obtain ⟨-, hk⟩ := block?_some.1 hk
  obtain ⟨-, hi⟩ := block?_some.1 hk'
  have hname : b'.names[there.index]? = b.names[there.index]? := by
    obtain ⟨hlt, -⟩ := List.getElem?_eq_some_iff.1 hk
    obtain ⟨rest, hrest⟩ := h.names
    rw [← hrest, List.getElem?_append_left (by simpa [Body.names] using hlt)]
  rw [Body.names, Body.names, List.getElem?_map, List.getElem?_map, hk, hi] at hname
  rw [hk', ← Option.some.inj hname]
  rfl

def SameNames (b b' : Body) : Prop := b'.params = b.params ∧ b'.names = b.names

theorem SameNames.trans {a b c : Body} (h : a.SameNames b) (h' : b.SameNames c) : a.SameNames c :=
  ⟨h'.1.trans h.1, h'.2.trans h.2⟩

theorem SameNames.kept {b b' : Body} (h : b.SameNames b') : b.NamesKept b' :=
  ⟨h.1, h.2 ▸ List.prefix_rfl⟩

theorem names_set {b : Body} {i : Nat} {k k' : Block} (hk : b.blocks[i]? = some k)
    (hname : k'.name = k.name) : (b.blocks.set i k').map Block.name = b.names := by
  obtain ⟨hlt, rfl⟩ := List.getElem?_eq_some_iff.1 hk
  have hlt' : i < b.names.length := by simpa [names] using hlt
  have hget : (b.blocks[i]).name = b.names[i] := by simp [names]
  rw [List.map_set, hname, hget]
  exact List.set_getElem_self hlt'

theorem sameNames_edit (here : BlockId) {change : Block → Block}
    (hname : ∀ k, (change k).name = k.name) : Build.Keeps SameNames (edit here change) := by
  intro b
  unfold Build.after edit
  by_cases howner : here.owner = b.id
  · cases hblock : b.blocks[here.index]? with
    | none => simp [howner, SameNames]
    | some k =>
      cases hterm : k.term with
      | some t => simp [howner, hterm, SameNames]
      | none =>
        simp only [howner, hterm, ↓reduceIte, Option.isSome_none, Bool.false_eq_true]
        exact ⟨rfl, names_set hblock (hname k)⟩
  · simp [howner, SameNames]

theorem sameNames_push (here : BlockId) (i : Instr) : Build.Keeps SameNames (push here i) :=
  sameNames_edit here fun _ => rfl

theorem sameNames_terminate (here : BlockId) (t : Terminator) :
    Build.Keeps SameNames (terminate here t) :=
  sameNames_edit here fun _ => rfl

theorem sameNames_pushNew (ty : Ty) (here : BlockId) (make : Reg → Instr) :
    Build.Keeps SameNames (pushNew ty here make) := by
  refine Build.Keeps.bind (R := SameNames) SameNames.trans (fun _ => ⟨rfl, rfl⟩) fun dst => ?_
  exact Build.Keeps.bind (R := SameNames) SameNames.trans (sameNames_push here (make dst))
    fun _ _ => ⟨rfl, rfl⟩

def Naming (α : Type) (step : Build Body α) (_ : List String) : Prop :=
  Build.Keeps NamesKept step

theorem Naming.names {α : Type} {step : Build Body α} {asked : List String}
    (h : Naming α step asked) {b b' : Body} {a : α} (hs : step b = .ok a b') : b.NamesKept b' :=
  Build.after_of_ok hs ▸ h b

theorem compositional_naming : Compositional (fun _ => True) Naming :=
  .ofKeeps NamesKept.refl NamesKept.trans
    (fun name b => ⟨rfl, by simp [Build.after, newBlock, names]⟩)
    (fun here _ _ b => (sameNames_push here _ b).kept)
    (fun here t b => (sameNames_terminate here t b).kept)
    fun ty here make _ _ b => (sameNames_pushNew ty here make b).kept

end Names

def Live (b : Body) (there : BlockId) : Prop := ∃ old, b.Open there old

def Lands (b : Body) : Prop :=
  ∀ (i : Nat) (is : List Instr) (t : Terminator), b.codes[i]? = some (is, some t) →
    ∀ target ∈ t.targets, target.owner = b.id ∧ target.index < b.codes.length

/-- The open ones of blocks whose numbers begin at `n`. -/
def loose (id : FuncId) (n : Nat) : List Code → List BlockId
  | [] => []
  | (_, none) :: rest => ⟨id, n⟩ :: loose id (n + 1) rest
  | (_, some _) :: rest => loose id (n + 1) rest

theorem mem_loose {id : FuncId} {n : Nat} {tail : List Code} {there : BlockId} :
    there ∈ loose id n tail ↔ ∃ k is, there = ⟨id, n + k⟩ ∧ tail[k]? = some (is, none) := by
  induction tail generalizing n with
  | nil => simp [loose]
  | cons code rest ih =>
    obtain ⟨is, term⟩ := code
    rw [← Nat.or_exists_add_one]
    cases term <;> simp [loose, ih, Nat.add_assoc, Nat.add_comm 1]

theorem loose_nodup (id : FuncId) (n : Nat) (tail : List Code) : (loose id n tail).Nodup := by
  induction tail generalizing n with
  | nil => exact List.nodup_nil
  | cons code rest ih =>
    obtain ⟨is, term⟩ := code
    cases term with
    | some t => exact ih (n + 1)
    | none =>
      refine List.nodup_cons.2 ⟨?_, ih (n + 1)⟩
      intro hmem
      obtain ⟨k, is, heq, -⟩ := mem_loose.1 hmem
      have := congrArg BlockId.index heq
      simp at this
      omega

/-- The body `b'` is `b` after code was emitted at `here`. Of the blocks with this code, those of
`left` are open. -/
structure Grafted (b : Body) (here : BlockId) (left : List BlockId) (b' : Body) : Prop where
  head_eq : b.SameHead b'
  params : b'.params = b.params
  regs : b.regs <+: b'.regs
  others : ∀ there k, there ≠ here → b.block? there = some k → b'.block? there = some k
  given : ∃ k k', b.block? here = some k ∧ k.term = none ∧ b'.block? here = some k' ∧
    k'.name = k.name ∧ k.instrs <+: k'.instrs
  fresh : ∀ there ∈ left, there = here ∨ b.block? there = none
  nodup : left.Nodup
  live : ∀ there, b'.Live there ↔ there ∈ left ∨ b.Live there ∧ there ≠ here
  lands : b.Lands → b'.Lands

theorem Live.block? {b : Body} {there : BlockId} (h : b.Live there) :
    ∃ k, b.block? there = some k ∧ k.term = none := by
  obtain ⟨old, hopen⟩ := h
  obtain ⟨k, hk, hcode⟩ := Option.map_eq_some_iff.1 hopen
  exact ⟨k, hk, congrArg Prod.snd hcode⟩

namespace Grafted

variable {b b₁ b₂ : Body} {here mid : BlockId} {left : List BlockId}

theorem refl (h : b.Live here) : b.Grafted here [here] b := by
  obtain ⟨k, hk, hterm⟩ := h.block?
  refine ⟨.refl b, rfl, List.prefix_rfl, fun _ _ _ hk => hk,
    ⟨k, k, hk, hterm, hk, rfl, List.prefix_rfl⟩, by simp, by simp, ?_, fun h => h⟩
  intro there
  by_cases heq : there = here
  · simp [heq, h]
  · simp [heq]

theorem live_of_mem (h : b.Grafted here left b₁) (hmem : mid ∈ left) : b₁.Live mid :=
  (h.live mid).2 (.inl hmem)

theorem block?_none (h : b.Grafted here left b₁) {there : BlockId}
    (hnone : b₁.block? there = none) : b.block? there = none := by
  by_contra hsome
  obtain ⟨k, hk⟩ := Option.ne_none_iff_exists'.1 hsome
  by_cases heq : there = here
  · obtain ⟨_, k', -, -, hk', -⟩ := h.given
    simp [heq, hk'] at hnone
  · simp [h.others there k heq hk] at hnone

theorem trans (h : b.Grafted here [mid] b₁) (h' : b₁.Grafted mid left b₂) :
    b.Grafted here left b₂ := by
  have hmid : mid = here ∨ b.block? mid = none := h.fresh mid (List.mem_singleton.2 rfl)
  -- The block in the middle is the given one or none of those that were there.
  have hne : ∀ there k, b.block? there = some k → there ≠ here → there ≠ mid := by
    rintro there k hk hthere rfl
    rcases hmid with rfl | hnone
    · exact hthere rfl
    · simp [hk] at hnone
  refine ⟨h.head_eq.trans h'.head_eq, h'.params.trans h.params, h.regs.trans h'.regs, ?_, ?_, ?_,
    h'.nodup, ?_, fun hlands => h'.lands (h.lands hlands)⟩
  · intro there k hthere hk
    exact h'.others there k (hne there k hk hthere) (h.others there k hthere hk)
  · obtain ⟨k, k₁, hk, hterm, hk₁, hname, hpre⟩ := h.given
    rcases hmid with rfl | hnone
    · obtain ⟨_, k₂, hk₁', -, hk₂, hname', hpre'⟩ := h'.given
      obtain rfl := Option.some.inj (hk₁.symm.trans hk₁')
      exact ⟨k, k₂, hk, hterm, hk₂, hname'.trans hname, hpre.trans hpre'⟩
    · have hhere : here ≠ mid := by
        rintro rfl
        simp [hk] at hnone
      exact ⟨k, k₁, hk, hterm, h'.others here k₁ hhere hk₁, hname, hpre⟩
  · intro there hmem
    rcases h'.fresh there hmem with rfl | hnone
    · exact hmid
    · exact .inr (h.block?_none hnone)
  · intro there
    rw [h'.live, h.live, List.mem_singleton]
    constructor
    · rintro (hmem | ⟨rfl | hold, hthere⟩)
      · exact .inl hmem
      · exact absurd rfl hthere
      · exact .inr hold
    · rintro (hmem | ⟨hlive, hthere⟩)
      · exact .inl hmem
      · obtain ⟨k, hk, -⟩ := hlive.block?
        exact .inr ⟨.inr ⟨hlive, hthere⟩, hne there k hk hthere⟩

end Grafted

section Grown

variable {b b' : Body} {here : BlockId} {old head : List Instr} {term : Option Terminator}
  {tail : List Code} {tys : List Ty}

theorem Grown.live_iff (g : Grown b here old head term tail tys b') (there : BlockId) :
    b'.Live there ↔ (there = here ∧ term = none) ∨ there ∈ loose b.id b.codes.length tail ∨
      b.Live there ∧ there ≠ here := by
  constructor
  · rintro ⟨is, hopen⟩
    obtain ⟨howner, hcode⟩ := code?_some.1 hopen
    rw [g.head_eq.id] at howner
    rcases Nat.lt_or_ge there.index b.codes.length with hlt | hge
    · by_cases heq : there = here
      · rw [heq, Open, g.code_here] at hopen
        exact .inl ⟨heq, (Prod.mk.inj (Option.some.inj hopen)).2⟩
      · have hindex : there.index ≠ here.index := by
          have howner' : here.owner = b.id := (code?_some.1 g.base).1
          intro hi
          exact heq (by cases there; cases here; simp_all)
        rw [g.code_other hlt hindex] at hcode
        exact .inr (.inr ⟨⟨is, code?_some.2 ⟨howner, hcode⟩⟩, heq⟩)
    · obtain ⟨k, hk⟩ := Nat.exists_eq_add_of_le hge
      have hthere : there = ⟨b.id, b.codes.length + k⟩ := by cases there; simp_all
      rw [hthere, Open, g.code_tail] at hopen
      exact .inr (.inl (mem_loose.2 ⟨k, is, hthere, hopen⟩))
  · rintro (⟨rfl, rfl⟩ | hmem | ⟨⟨is, hopen⟩, hne⟩)
    · exact ⟨_, g.code_here⟩
    · obtain ⟨k, is, rfl, hk⟩ := mem_loose.1 hmem
      exact ⟨is, (g.code_tail k).trans hk⟩
    · exact ⟨is, g.code_of_ne hopen hne⟩

theorem Grown.lands (g : Grown b here old head term tail tys b')
    (hterms : ∀ t, some t ∈ term :: tail.map Prod.snd → ∀ target ∈ t.targets,
      target.owner = b.id ∧ target.index < b.codes.length + tail.length) (h : b.Lands) :
    b'.Lands := by
  intro i is t hi target htarget
  rw [g.head_eq.id, g.length_eq]
  rcases Nat.lt_or_ge i b.codes.length with hlt | hge
  · by_cases heq : i = here.index
    · rw [heq, (code?_some.1 g.code_here).2] at hi
      obtain ⟨-, rfl⟩ := Prod.mk.inj (Option.some.inj hi)
      exact hterms t List.mem_cons_self target htarget
    · rw [g.code_other hlt heq] at hi
      obtain ⟨howner, hindex⟩ := h i is t hi target htarget
      exact ⟨howner, by omega⟩
  · obtain ⟨k, rfl⟩ := Nat.exists_eq_add_of_le hge
    rw [← code?_at, g.head_eq.id, g.code_tail] at hi
    have hmem := List.mem_map_of_mem (f := Prod.snd) (List.mem_of_getElem? hi)
    exact hterms t (List.mem_cons_of_mem _ hmem) target htarget

theorem Grown.grafted (g : Grown b here old head term tail tys b') (hn : b.NamesKept b')
    (hterms : ∀ t, some t ∈ term :: tail.map Prod.snd → ∀ target ∈ t.targets,
      target.owner = b.id ∧ target.index < b.codes.length + tail.length) :
    b.Grafted here ((if term.isNone then [here] else []) ++ loose b.id b.codes.length tail) b' := by
  obtain ⟨k, hk, hterm⟩ := Live.block? ⟨old, g.base⟩
  have hcode : k.code = (old, none) := Option.some.inj <| by
    have hbase := g.base
    rwa [Open, code?, hk] at hbase
  -- The numbers of new blocks are past the end of the body.
  have hfresh : ∀ there ∈ loose b.id b.codes.length tail, b.block? there = none := by
    intro there hmem
    obtain ⟨i, is, rfl, -⟩ := mem_loose.1 hmem
    refine Option.not_isSome_iff_eq_none.1 fun hsome => ?_
    have hlt := (code?_isSome.1 hsome).2
    simp at hlt
  refine ⟨g.head_eq, hn.params, ⟨tys, g.regs.symm⟩, ?_, ?_, ?_, ?_, ?_, g.lands hterms⟩
  · intro there k' hne hk'
    have hcode' : b.code? there = some k'.code := by rw [code?, hk']; rfl
    exact hn.block? hk' (g.code_of_ne hcode' hne)
  · refine ⟨k, _, hk, hterm, hn.block? hk g.code_here, rfl, head, ?_⟩
    rw [show k.instrs = old from congrArg Prod.fst hcode]
  · intro there hmem
    rcases List.mem_append.1 hmem with hmem | hmem
    · split at hmem
      · exact .inl (List.mem_singleton.1 hmem)
      · simp at hmem
    · exact .inr (hfresh there hmem)
  · refine List.nodup_append.2 ⟨by split <;> simp, loose_nodup _ _ _, ?_⟩
    rintro there hmem _ hmem' rfl
    split at hmem
    · obtain rfl := List.mem_singleton.1 hmem
      have hnone := hfresh there hmem'
      simp [hk] at hnone
    · simp at hmem
  · intro there
    rw [g.live_iff, List.mem_append]
    cases term <;> simp [or_assoc]

end Grown

end Body

end SpanTracking
