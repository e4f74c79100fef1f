import SpanTracking.Body.Edit
import SpanTracking.Proofs.Effects

set_option autoImplicit false

namespace SpanTracking

abbrev Code := List Instr × Option Terminator

def Block.code (k : Block) : Code := (k.instrs, k.term)

namespace Body

def codes (b : Body) : List Code := b.blocks.map Block.code

def code? (b : Body) (here : BlockId) : Option Code := (b.block? here).map Block.code

theorem code?_eq (b : Body) (here : BlockId) :
    b.code? here = if here.owner = b.id then b.codes[here.index]? else none := by
  unfold code? block? codes
  split
  · exact List.getElem?_map.symm
  · rfl

theorem code?_at (b : Body) (i : Nat) : b.code? ⟨b.id, i⟩ = b.codes[i]? := by
  rw [code?_eq, if_pos rfl]

theorem code?_some {b : Body} {here : BlockId} {code : Code} :
    b.code? here = some code ↔ here.owner = b.id ∧ b.codes[here.index]? = some code := by
  rw [code?_eq]
  split <;> simp_all

theorem code?_of_append {b b' : Body} {tail : List Code} (hid : b'.id = b.id)
    (hcodes : b'.codes = b.codes ++ tail) {here : BlockId} {code : Code}
    (h : b.code? here = some code) : b'.code? here = some code := by
  obtain ⟨howner, hi⟩ := code?_some.1 h
  refine code?_some.2 ⟨howner.trans hid.symm, ?_⟩
  rw [hcodes, List.getElem?_append_left (List.getElem?_eq_some_iff.1 hi).1]
  exact hi

/-- The block takes instructions, and holds `old`. -/
def Open (b : Body) (here : BlockId) (old : List Instr) : Prop := b.code? here = some (old, none)

theorem checkOpen_ok {b : Body} {here : BlockId} :
    b.checkOpen here = .ok () ↔ ∃ old, b.Open here old := by
  unfold checkOpen Open code?
  cases b.block? here with
  | none => simp
  | some k => cases ht : k.term <;> simp [Block.code, ht]

structure SameHead (b b' : Body) : Prop where
  id : b'.id = b.id
  name : b'.name = b.name
  sig : b'.sig = b.sig

theorem SameHead.refl (b : Body) : SameHead b b := ⟨rfl, rfl, rfl⟩

theorem SameHead.trans {b b' b'' : Body} (h : SameHead b b') (h' : SameHead b' b'') :
    SameHead b b'' :=
  ⟨h'.id.trans h.id, h'.name.trans h.name, h'.sig.trans h.sig⟩

theorem edit_ok {b : Body} {here : BlockId} {old : List Instr} (h : b.Open here old)
    {change : Block → Block} {code : Code}
    (hc : ∀ k : Block, k.code = (old, none) → (change k).code = code) :
    ∃ b', edit here change b = .ok () b' ∧ SameHead b b' ∧ b'.regs = b.regs ∧
      b'.codes = b.codes.set here.index code := by
  obtain ⟨ho, hcode⟩ := code?_some.1 h
  rw [codes, List.getElem?_map] at hcode
  obtain ⟨k, hk, hkc⟩ := Option.map_eq_some_iff.1 hcode
  have ht : k.term = none := congrArg Prod.snd hkc
  refine ⟨{ b with blocks := b.blocks.set here.index (change k) }, ?_, ⟨rfl, rfl, rfl⟩, rfl, ?_⟩
  · simp [edit, ho, hk, ht]
  · simp [codes, List.map_set, hc k hkc]

theorem push_ok {b : Body} {here : BlockId} {old : List Instr} (h : b.Open here old)
    (instr : Instr) : ∃ b', push here instr b = .ok () b' ∧ SameHead b b' ∧ b'.regs = b.regs ∧
      b'.codes = b.codes.set here.index (old ++ [instr], none) := by
  refine edit_ok h fun k hk => ?_
  obtain ⟨rfl, ht⟩ := Prod.mk.inj hk
  exact Prod.ext rfl ht

theorem terminate_ok {b : Body} {here : BlockId} {old : List Instr} (h : b.Open here old)
    (term : Terminator) : ∃ b', terminate here term b = .ok () b' ∧ SameHead b b' ∧
      b'.regs = b.regs ∧ b'.codes = b.codes.set here.index (old, some term) := by
  refine edit_ok h fun k hk => ?_
  obtain ⟨rfl, ht⟩ := Prod.mk.inj hk
  rfl

/-- The body `b'` is `b` with `head` appended to the block `here`, which held `old` and now ends in
`term`, with the blocks `tail` behind the others and registers of types `tys` behind the others. -/
structure Grown (b : Body) (here : BlockId) (old head : List Instr) (term : Option Terminator)
    (tail : List Code) (tys : List Ty) (b' : Body) : Prop where
  base : b.Open here old
  head_eq : SameHead b b'
  codes : b'.codes = b.codes.set here.index (old ++ head, term) ++ tail
  regs : b'.regs = b.regs ++ tys

section Grown

variable {b b' : Body} {here : BlockId} {old head : List Instr} {term : Option Terminator}
  {tail : List Code} {tys : List Ty}

theorem grown_self (h : b.Open here old) : Grown b here old [] none [] [] b := by
  refine ⟨h, .refl b, ?_, by simp⟩
  obtain ⟨hi, he⟩ := List.getElem?_eq_some_iff.1 (code?_some.1 h).2
  rw [List.append_nil, List.append_nil, ← he, List.set_getElem_self]

theorem Grown.here_lt (g : Grown b here old head term tail tys b') :
    here.index < b.codes.length :=
  (List.getElem?_eq_some_iff.1 (code?_some.1 g.base).2).1

theorem Grown.code_here (g : Grown b here old head term tail tys b') :
    b'.code? here = some (old ++ head, term) := by
  refine code?_some.2 ⟨g.head_eq.id ▸ (code?_some.1 g.base).1, ?_⟩
  rw [g.codes, List.getElem?_append_left (by simpa using g.here_lt)]
  exact List.getElem?_set_self g.here_lt

theorem Grown.code_tail (g : Grown b here old head term tail tys b') (k : Nat) :
    b'.code? ⟨b.id, b.codes.length + k⟩ = tail[k]? := by
  rw [← g.head_eq.id, code?_at, g.codes, List.getElem?_append_right (by simp)]
  simp

theorem Grown.code_other (g : Grown b here old head term tail tys b') {i : Nat}
    (hi : i < b.codes.length) (hne : i ≠ here.index) : b'.codes[i]? = b.codes[i]? := by
  rw [g.codes, List.getElem?_append_left (by simpa using hi)]
  exact List.getElem?_set_ne hne.symm

theorem Grown.length_eq (g : Grown b here old head term tail tys b') :
    b'.codes.length = b.codes.length + tail.length := by
  rw [g.codes]
  simp

theorem Grown.newReg (g : Grown b here old head term tail tys b') (ty : Ty) :
    ∃ b'', Body.newReg ty b' = .ok ⟨b.regs.length + tys.length⟩ b'' ∧
      Grown b here old head term tail (tys ++ [ty]) b'' := by
  refine ⟨{ b' with regs := b'.regs ++ [ty] }, ?_, g.base, ?_, g.codes, ?_⟩
  · simp [Body.newReg, g.regs]
  · exact ⟨g.head_eq.id, g.head_eq.name, g.head_eq.sig⟩
  · simp [g.regs]

theorem Grown.newBlock (g : Grown b here old head term tail tys b') (name : String) :
    ∃ b'', Body.newBlock name b' = .ok ⟨b.id, b.codes.length + tail.length⟩ b'' ∧
      Grown b here old head term (tail ++ [([], none)]) tys b'' := by
  have hl : b'.blocks.length = b.codes.length + tail.length := by
    rw [← g.length_eq, Body.codes, List.length_map]
  refine ⟨{ b' with blocks := b'.blocks ++ [{ name := b'.freshName name }] }, ?_, g.base, ?_, ?_,
    g.regs⟩
  · simp [Body.newBlock, hl, g.head_eq.id]
  · exact ⟨g.head_eq.id, g.head_eq.name, g.head_eq.sig⟩
  · rw [← List.append_assoc, ← g.codes]
    simp [Body.codes, Block.code]

theorem Grown.push (g : Grown b here old head none tail tys b') (instr : Instr) :
    ∃ b'', Body.push here instr b' = .ok () b'' ∧
      Grown b here old (head ++ [instr]) none tail tys b'' := by
  obtain ⟨b'', hp, hh, hr, hc⟩ := push_ok g.code_here instr
  refine ⟨b'', hp, g.base, g.head_eq.trans hh, ?_, hr.trans g.regs⟩
  rw [hc, g.codes, List.set_append_left _ _ (by simpa using g.here_lt), List.set_set,
    List.append_assoc]

theorem Grown.terminate (g : Grown b here old head none tail tys b') (t : Terminator) :
    ∃ b'', Body.terminate here t b' = .ok () b'' ∧
      Grown b here old head (some t) tail tys b'' := by
  obtain ⟨b'', hp, hh, hr, hc⟩ := terminate_ok g.code_here t
  refine ⟨b'', hp, g.base, g.head_eq.trans hh, ?_, hr.trans g.regs⟩
  rw [hc, g.codes, List.set_append_left _ _ (by simpa using g.here_lt), List.set_set]

theorem Grown.set_tail (g : Grown b here old head term tail tys b') {k : Nat} {code : Code}
    {b'' : Body} (hh : SameHead b' b'') (hr : b''.regs = b'.regs)
    (hc : b''.codes = b'.codes.set (b.codes.length + k) code) :
    Grown b here old head term (tail.set k code) tys b'' := by
  refine ⟨g.base, g.head_eq.trans hh, ?_, hr.trans g.regs⟩
  rw [hc, g.codes, List.set_append_right _ _ (by simp)]
  simp

theorem Grown.pushAt (g : Grown b here old head term tail tys b') {k : Nat} {is : List Instr}
    (hk : tail[k]? = some (is, none)) (instr : Instr) :
    ∃ b'', Body.push ⟨b.id, b.codes.length + k⟩ instr b' = .ok () b'' ∧
      Grown b here old head term (tail.set k (is ++ [instr], none)) tys b'' := by
  obtain ⟨b'', hp, hh, hr, hc⟩ := push_ok ((g.code_tail k).trans hk) instr
  exact ⟨b'', hp, g.set_tail hh hr hc⟩

theorem Grown.terminateAt (g : Grown b here old head term tail tys b') {k : Nat}
    {is : List Instr} (hk : tail[k]? = some (is, none)) (t : Terminator) :
    ∃ b'', Body.terminate ⟨b.id, b.codes.length + k⟩ t b' = .ok () b'' ∧
      Grown b here old head term (tail.set k (is, some t)) tys b'' := by
  obtain ⟨b'', hp, hh, hr, hc⟩ := terminate_ok ((g.code_tail k).trans hk) t
  exact ⟨b'', hp, g.set_tail hh hr hc⟩

theorem Grown.pushNew (g : Grown b here old head none tail tys b') (ty : Ty)
    (make : Reg → Instr) :
    ∃ b'', Body.pushNew ty here make b' = .ok (.reg ⟨b.regs.length + tys.length⟩) b'' ∧
      Grown b here old (head ++ [make ⟨b.regs.length + tys.length⟩]) none tail (tys ++ [ty])
        b'' := by
  obtain ⟨b₁, h₁, g₁⟩ := g.newReg ty
  obtain ⟨b₂, h₂, g₂⟩ := g₁.push (make ⟨b.regs.length + tys.length⟩)
  exact ⟨b₂, by rw [Body.pushNew, bind_of_ok h₁, bind_of_ok h₂, pure_run], g₂⟩

theorem Grown.pushNewAt (g : Grown b here old head term tail tys b') {k : Nat} {is : List Instr}
    (hk : tail[k]? = some (is, none)) (ty : Ty) (make : Reg → Instr) :
    ∃ b'', Body.pushNew ty ⟨b.id, b.codes.length + k⟩ make b' =
        .ok (.reg ⟨b.regs.length + tys.length⟩) b'' ∧
      Grown b here old head term (tail.set k (is ++ [make ⟨b.regs.length + tys.length⟩], none))
        (tys ++ [ty]) b'' := by
  obtain ⟨b₁, h₁, g₁⟩ := g.newReg ty
  obtain ⟨b₂, h₂, g₂⟩ := g₁.pushAt hk (make ⟨b.regs.length + tys.length⟩)
  exact ⟨b₂, by rw [Body.pushNew, bind_of_ok h₁, bind_of_ok h₂, pure_run], g₂⟩

theorem Grown.load (g : Grown b here old head none tail tys b') (f : Field) :
    ∃ b'', Body.load here f b' = .ok (.reg ⟨b.regs.length + tys.length⟩) b'' ∧
      Grown b here old (head ++ [.load ⟨b.regs.length + tys.length⟩ f.id f.ty]) none tail
        (tys ++ [f.ty]) b'' :=
  g.pushNew f.ty (.load · f.id f.ty)

theorem Grown.loadAt (g : Grown b here old head term tail tys b') {k : Nat} {is : List Instr}
    (hk : tail[k]? = some (is, none)) (f : Field) :
    ∃ b'', Body.load ⟨b.id, b.codes.length + k⟩ f b' =
        .ok (.reg ⟨b.regs.length + tys.length⟩) b'' ∧
      Grown b here old head term
        (tail.set k (is ++ [.load ⟨b.regs.length + tys.length⟩ f.id f.ty], none))
        (tys ++ [f.ty]) b'' :=
  g.pushNewAt hk f.ty (.load · f.id f.ty)

theorem Grown.icmp (g : Grown b here old head none tail tys b') (how : Comparison)
    (lhs rhs : Operand) :
    ∃ b'', Body.icmp here how lhs rhs b' = .ok (.reg ⟨b.regs.length + tys.length⟩) b'' ∧
      Grown b here old (head ++ [.icmp ⟨b.regs.length + tys.length⟩ how lhs rhs]) none tail
        (tys ++ [.i1]) b'' :=
  g.pushNew .i1 (.icmp · how lhs rhs)

theorem Grown.icmpAt (g : Grown b here old head term tail tys b') {k : Nat} {is : List Instr}
    (hk : tail[k]? = some (is, none)) (how : Comparison) (lhs rhs : Operand) :
    ∃ b'', Body.icmp ⟨b.id, b.codes.length + k⟩ how lhs rhs b' =
        .ok (.reg ⟨b.regs.length + tys.length⟩) b'' ∧
      Grown b here old head term
        (tail.set k (is ++ [.icmp ⟨b.regs.length + tys.length⟩ how lhs rhs], none))
        (tys ++ [.i1]) b'' :=
  g.pushNewAt hk .i1 (.icmp · how lhs rhs)

theorem Grown.call (g : Grown b here old head none tail tys b') (callee : Operand)
    (sig : Signature) (args : List Operand) (callees : Option (List FuncId)) :
    ∃ b'', Body.call here callee sig args callees b' =
        .ok (.reg ⟨b.regs.length + tys.length⟩) b'' ∧
      Grown b here old
        (head ++ [.call ⟨b.regs.length + tys.length⟩ callee sig args callees]) none tail
        (tys ++ [sig.ret]) b'' :=
  g.pushNew sig.ret (.call · callee sig args callees)

theorem Grown.callAt (g : Grown b here old head term tail tys b') {k : Nat} {is : List Instr}
    (hk : tail[k]? = some (is, none)) (callee : Operand) (sig : Signature) (args : List Operand)
    (callees : Option (List FuncId)) :
    ∃ b'', Body.call ⟨b.id, b.codes.length + k⟩ callee sig args callees b' =
        .ok (.reg ⟨b.regs.length + tys.length⟩) b'' ∧
      Grown b here old head term
        (tail.set k (is ++ [.call ⟨b.regs.length + tys.length⟩ callee sig args callees], none))
        (tys ++ [sig.ret]) b'' :=
  g.pushNewAt hk sig.ret (.call · callee sig args callees)

end Grown

/-- All blocks but those of `live` are finished, and branch only to blocks of the body. -/
def Settled (b : Body) (live : List Nat) : Prop :=
  ∀ (i : Nat) (code : Code), b.codes[i]? = some code → i ∈ live ∨
    ∃ t, code.2 = some t ∧ ∀ target ∈ t.targets, target.owner = b.id ∧ target.index < b.codes.length

theorem settled_start (f : FuncId) (name : String) (sig : Signature) (params : List String) :
    (Body.start f name sig params).Settled [0] := by
  intro i code hi
  cases i with
  | zero => exact .inl (List.mem_singleton.2 rfl)
  | succ i => simp [codes, Body.start] at hi

/-- The blocks that a fragment adds are live or finished; the block it started in is finished. -/
theorem Grown.settled {b b' : Body} {here : BlockId} {old head : List Instr}
    {term : Option Terminator} {tail : List Code} {tys : List Ty}
    (g : Grown b here old head term tail tys b') {live live' : List Nat} (h : b.Settled live)
    (hlive : ∀ i ∈ live, i ≠ here.index → i ∈ live')
    (hhere : here.index ∈ live' ∨ ∃ t, term = some t ∧
      ∀ target ∈ t.targets, target.owner = b.id ∧ target.index < b'.codes.length)
    (htail : ∀ (k : Nat) (code : Code), tail[k]? = some code → b.codes.length + k ∈ live' ∨
      ∃ t, code.2 = some t ∧
        ∀ target ∈ t.targets, target.owner = b.id ∧ target.index < b'.codes.length) :
    b'.Settled live' := by
  intro i code hi
  simp only [g.head_eq.id]
  rcases Nat.lt_or_ge i b.codes.length with hlt | hge
  · by_cases he : i = here.index
    · subst he
      have hcode := (code?_some.1 g.code_here).2
      rw [hcode] at hi
      obtain rfl := Option.some.inj hi
      exact hhere
    · rw [g.code_other hlt he] at hi
      rcases h i code hi with hl | ⟨t, ht, htargets⟩
      · exact .inl (hlive i hl he)
      · refine .inr ⟨t, ht, fun target hm => ⟨(htargets target hm).1, ?_⟩⟩
        have := (htargets target hm).2
        have := g.length_eq
        omega
  · obtain ⟨k, rfl⟩ := Nat.exists_eq_add_of_le hge
    rw [← code?_at, g.head_eq.id, g.code_tail] at hi
    exact htail k code hi

theorem code?_isSome {b : Body} {target : BlockId} :
    (b.block? target).isSome ↔ target.owner = b.id ∧ target.index < b.codes.length := by
  unfold block?
  split <;> simp_all [codes]

theorem Settled.verify {b : Body} (h : b.Settled []) : b.verify = .ok () := by
  have hall : ∀ k ∈ b.blocks, b.verifyBlock k = .ok () := by
    intro k hk
    obtain ⟨i, hi⟩ := List.getElem?_of_mem hk
    have hcode : b.codes[i]? = some k.code := by rw [codes, List.getElem?_map, hi]; rfl
    rcases h i k.code hcode with hl | ⟨t, ht, htargets⟩
    · simp at hl
    · have ht' : k.term = some t := ht
      have hin : (t.targets.all fun target => (b.block? target).isSome) = true := by
        rw [List.all_eq_true]
        exact fun target hm => code?_isSome.2 (htargets target hm)
      rw [verifyBlock, ht']
      simp only [hin, ↓reduceIte]
  exact forM_eq_ok.2 hall

end Body

end SpanTracking
