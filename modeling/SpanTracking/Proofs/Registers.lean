import SpanTracking.Proofs.Labels

set_option autoImplicit false

namespace SpanTracking

namespace Body

/-! ### What the primitive steps do to instructions and registers -/

def instrs (b : Body) : List Instr := b.blocks.flatMap Block.instrs

def results (b : Body) : List (Reg × Ty) := b.instrs.filterMap Instr.result?

section Primitives

variable {change : Block → Block} {new : List Instr}

/-- The instructions of a block stand between those of the earlier and of the later blocks. -/
theorem flatMap_set {blocks : List Block} {i : Nat} (h : i < blocks.length) (k : Block) :
    (blocks.set i k).flatMap Block.instrs = (blocks.take i).flatMap Block.instrs ++
      (k.instrs ++ (blocks.drop (i + 1)).flatMap Block.instrs) := by
  rw [List.set_eq_take_append_cons_drop, if_pos h, List.flatMap_append, List.flatMap_cons]

theorem edit_cases {b : Body} (hchange : ∀ k, (change k).instrs = k.instrs ++ new)
    (here : BlockId) :
    (∃ cause, edit here change b = .error (.misuse cause) b) ∨
      ∃ b', edit here change b = .ok () b' ∧ b'.instrs.Perm (b.instrs ++ new) ∧
        b'.regs = b.regs := by
  unfold edit
  by_cases howner : here.owner = b.id
  · cases hblock : b.blocks[here.index]? with
    | none => exact .inl ⟨_, by simp only [howner, ↓reduceIte]; rfl⟩
    | some k =>
      cases hterm : k.term with
      | some t => exact .inl ⟨.closed k.name, by simp [howner, hterm]⟩
      | none =>
        refine .inr ⟨{ b with blocks := b.blocks.set here.index (change k) }, ?_, ?_, rfl⟩
        · simp [howner, hterm]
        · obtain ⟨hlt, rfl⟩ := List.getElem?_eq_some_iff.1 hblock
          have hold : b.instrs =
              (b.blocks.set here.index b.blocks[here.index]).flatMap Block.instrs := by
            rw [List.set_getElem_self]
            rfl
          rw [hold, instrs, flatMap_set hlt, flatMap_set hlt, hchange, List.append_assoc,
            List.append_assoc, List.append_assoc]
          exact .append_left _ (.append_left _ List.perm_append_comm)
  · exact .inl ⟨.otherBody, by simp [howner]⟩

theorem push_cases (here : BlockId) (i : Instr) (b : Body) :
    (∃ cause, push here i b = .error (.misuse cause) b) ∨
      ∃ b', push here i b = .ok () b' ∧ b'.instrs.Perm (b.instrs ++ [i]) ∧ b'.regs = b.regs :=
  edit_cases (fun _ => rfl) here

theorem terminate_cases (here : BlockId) (term : Terminator) (b : Body) :
    (∃ cause, terminate here term b = .error (.misuse cause) b) ∨
      ∃ b', terminate here term b = .ok () b' ∧ b'.instrs.Perm b.instrs ∧ b'.regs = b.regs := by
  have hchange : ∀ k : Block, { k with term := some term }.instrs = k.instrs ++ [] :=
    fun k => (List.append_nil k.instrs).symm
  have h := edit_cases (b := b) hchange here
  rwa [List.append_nil] at h

def withReg (b : Body) (ty : Ty) : Body := { b with regs := b.regs ++ [ty] }

theorem pushNew_cases (ty : Ty) (here : BlockId) (make : Reg → Instr) (b : Body) :
    (∃ cause, pushNew ty here make b = .error (.misuse cause) (b.withReg ty)) ∨
      ∃ b', pushNew ty here make b = .ok (.reg ⟨b.regs.length⟩) b' ∧
        b'.instrs.Perm (b.instrs ++ [make ⟨b.regs.length⟩]) ∧ b'.regs = b.regs ++ [ty] := by
  have hreg : newReg ty b = .ok ⟨b.regs.length⟩ (b.withReg ty) := rfl
  rcases push_cases here (make ⟨b.regs.length⟩) (b.withReg ty) with ⟨cause, h⟩ | ⟨b', h, hrest⟩
  · exact .inl ⟨cause, andThen hreg (bind_of_error h)⟩
  · exact .inr ⟨b', andThen hreg (andThen h rfl), hrest⟩

end Primitives

/-! ### What holds of every body -/

/-- Registers are assigned once, by instructions of their types. A load is that of one of the
fields, and its result has the type of the field. -/
structure Assigned (fields : List Field) (b : Body) : Prop where
  once : (b.results.map Prod.fst).Nodup
  typed : ∀ i ∈ b.instrs, ∀ r ty, i.result? = some (r, ty) → b.regType? r = some ty
  loads : ∀ r id ty, .load r id ty ∈ b.instrs → ∃ field ∈ fields, field.id = id ∧ field.ty = ty

def Full (b : Body) : Prop := b.regs.length = b.results.length

section Assigned

variable {fields : List Field} {b b' : Body}

theorem mem_results {r : Reg} {ty : Ty} :
    (r, ty) ∈ b.results ↔ ∃ i ∈ b.instrs, i.result? = some (r, ty) :=
  List.mem_filterMap

theorem results_append {i : Instr} (h : b'.instrs.Perm (b.instrs ++ [i])) :
    b'.results.Perm (b.results ++ i.result?.toList) := by
  have hone : [i].filterMap Instr.result? = i.result?.toList := by
    cases hi : i.result? <;> simp [hi]
  rw [results, results, ← hone, ← List.filterMap_append]
  exact h.filterMap _

theorem Assigned.lt (h : b.Assigned fields) {r : Reg} (hr : r ∈ b.results.map Prod.fst) :
    r.index < b.regs.length := by
  obtain ⟨⟨r, ty⟩, hmem, rfl⟩ := List.mem_map.1 hr
  obtain ⟨i, hi, hresult⟩ := mem_results.1 hmem
  exact (List.getElem?_eq_some_iff.1 (h.typed i hi r ty hresult)).1

theorem Assigned.widen (h : b.Assigned fields) (hinstrs : b'.instrs.Perm b.instrs)
    (hregs : b.regs <+: b'.regs) : b'.Assigned fields where
  once := ((hinstrs.filterMap _).map _).nodup_iff.2 h.once
  typed i hi r ty hresult := by
    have hold := h.typed i (hinstrs.mem_iff.1 hi) r ty hresult
    obtain ⟨hlt, hty⟩ := List.getElem?_eq_some_iff.1 hold
    exact (List.prefix_iff_getElem?.1 hregs r.index hlt).trans (congrArg some hty)
  loads r id ty hi := h.loads r id ty (hinstrs.mem_iff.1 hi)

theorem Assigned.append (h : b.Assigned fields) {i : Instr}
    (hinstrs : b'.instrs.Perm (b.instrs ++ [i])) (hregs : b'.regs = b.regs)
    (hresult : ∀ r ty, i.result? = some (r, ty) →
      r ∉ b.results.map Prod.fst ∧ b.regType? r = some ty)
    (hload : ∀ r id ty, i = .load r id ty → ∃ field ∈ fields, field.id = id ∧ field.ty = ty) :
    b'.Assigned fields where
  once := by
    rw [((results_append hinstrs).map _).nodup_iff]
    cases hi : i.result? with
    | none => simpa using h.once
    | some result =>
      obtain ⟨hfresh, -⟩ := hresult result.1 result.2 hi
      rw [Option.toList_some, List.map_append, List.map_singleton, ← List.concat_eq_append]
      exact h.once.concat hfresh
  typed j hj r ty hr := by
    have hsame : b'.regType? r = b.regType? r := by rw [regType?, hregs, regType?]
    rw [hsame]
    rcases List.mem_append.1 (hinstrs.mem_iff.1 hj) with hold | hnew
    · exact h.typed j hold r ty hr
    · obtain rfl := List.mem_singleton.1 hnew
      exact (hresult r ty hr).2
  loads r id ty hj := by
    rcases List.mem_append.1 (hinstrs.mem_iff.1 hj) with hold | hnew
    · exact h.loads r id ty hold
    · exact hload r id ty (List.mem_singleton.1 hnew).symm

theorem Full.append (h : b.Full) {i : Instr} (hinstrs : b'.instrs.Perm (b.instrs ++ [i]))
    {tys : List Ty} (hregs : b'.regs = b.regs ++ tys) (hi : i.result?.toList.length = tys.length) :
    b'.Full := by
  have hold : b.regs.length = b.results.length := h
  rw [Full, hregs, (results_append hinstrs).length_eq, List.length_append, List.length_append, hi]
  omega

end Assigned

section Laws

variable {fields : List Field}

def KeepsAssigned (fields : List Field) (b b' : Body) : Prop :=
  b.Assigned fields → b'.Assigned fields

def KeepsFull (α : Type) (step : Build Body α) (_ : List String) : Prop :=
  ∀ b a b', step b = .ok a b' → b.Full → b'.Full

theorem keepsAssigned_pushNew (ty : Ty) (here : BlockId) (make : Reg → Instr)
    (hmake : ∀ r, (make r).result? = some (r, ty))
    (hload : ∀ r dst id ty, make r = .load dst id ty →
      ∃ field ∈ fields, field.id = id ∧ field.ty = ty) :
    Build.Keeps (KeepsAssigned fields) (pushNew ty here make) := by
  intro b hb
  have hwide : (b.withReg ty).Assigned fields := hb.widen (.refl _) (List.prefix_append _ _)
  have hfresh : (⟨b.regs.length⟩ : Reg) ∉ b.results.map Prod.fst :=
    fun hmem => Nat.lt_irrefl _ (hb.lt hmem)
  rcases pushNew_cases ty here make b with ⟨cause, hrun⟩ | ⟨b', hrun, hinstrs, hregs⟩
  · rw [Build.after, hrun]
    exact hwide
  · rw [Build.after_of_ok hrun]
    refine hwide.append hinstrs hregs (fun r t hr => ?_) fun r id t => hload _ r id t
    obtain ⟨rfl, rfl⟩ := Prod.mk.inj (Option.some.inj ((hmake _).symm.trans hr))
    exact ⟨hfresh, List.getElem?_concat_length ..⟩

theorem keepsAssigned_store (here : BlockId) (field : Field) (value : Operand) :
    Build.Keeps (KeepsAssigned fields) (store here field value) := by
  intro b hb
  rcases push_cases here (.store field.id value) b with ⟨cause, h⟩ | ⟨b', h, hinstrs, hregs⟩
  · rw [store, Build.after, h]
    exact hb
  · rw [store, Build.after_of_ok h]
    exact hb.append hinstrs hregs (by simp [Instr.result?]) (by simp)

theorem keepsAssigned_terminate (here : BlockId) (term : Terminator) :
    Build.Keeps (KeepsAssigned fields) (terminate here term) := by
  intro b hb
  rcases terminate_cases here term b with ⟨cause, h⟩ | ⟨b', h, hinstrs, hregs⟩
  · rw [Build.after, h]
    exact hb
  · rw [Build.after_of_ok h]
    exact hb.widen hinstrs (by rw [hregs])

theorem compositional_keepsAssigned (fields : List Field) :
    Compositional (· ∈ fields) fun _ step _ => Build.Keeps (KeepsAssigned fields) step := by
  refine .ofKeeps (fun _ hb => hb) (fun h h' hb => h' (h hb)) (fun name b hb => ?_)
    keepsAssigned_store keepsAssigned_terminate keepsAssigned_pushNew
  refine hb.widen ?_ List.prefix_rfl
  simp [Build.after, newBlock, instrs]

theorem compositional_keepsFull : Compositional (fun _ => True) KeepsFull where
  bind hx hf b a b' hok hb := by
    obtain ⟨a₁, b₁, hok₁, hok₂⟩ := bind_ok hok
    exact hf a₁ b₁ a b' hok₂ (hx b a₁ b₁ hok₁ hb)
  pure a b a' b' hok hb := (pure_ok hok).2 ▸ hb
  check test b a b' hok hb := (Build.check_ok hok).2 ▸ hb
  newBlock name b a b' hok hb := by
    obtain ⟨-, rfl⟩ := EStateM.Result.ok.inj hok
    simpa [Full, results, instrs] using hb
  store here field value b a b' hok hb := by
    rcases push_cases here (.store field.id value) b with ⟨cause, h⟩ | ⟨b₁, h, hinstrs, hregs⟩
    · simp [store, h] at hok
    · obtain ⟨-, rfl⟩ := EStateM.Result.ok.inj (h.symm.trans hok)
      exact hb.append hinstrs (by rw [hregs, List.append_nil]) rfl
  terminate here term b a b' hok hb := by
    rcases terminate_cases here term b with ⟨cause, h⟩ | ⟨b₁, h, hinstrs, hregs⟩
    · simp [h] at hok
    · obtain ⟨-, rfl⟩ := EStateM.Result.ok.inj (h.symm.trans hok)
      rw [Full, hregs, results, (hinstrs.filterMap _).length_eq]
      exact hb
  pushNew ty here make hmake _ b a b' hok hb := by
    rcases pushNew_cases ty here make b with ⟨cause, hrun⟩ | ⟨b₁, hrun, hinstrs, hregs⟩
    · simp [hrun] at hok
    · obtain ⟨-, rfl⟩ := EStateM.Result.ok.inj (hrun.symm.trans hok)
      exact hb.append hinstrs hregs (by rw [hmake]; rfl)

end Laws

/-! ### Requests, one after another -/

namespace Request

/-- The request is made of a block that does not take it, which is a mistake of the author. -/
def panics (r : Request) (b : Body) : Bool :=
  match r.run b with
  | .error (.misuse _) _ => true
  | _ => false

def OnlyMisuse {α : Type} (step : Build Body α) : Prop :=
  ∀ b err b', step b = .error err b' → ∃ cause, err = .misuse cause

theorem OnlyMisuse.bind {α β : Type} {x : Build Body α} {f : α → Build Body β}
    (hx : OnlyMisuse x) (hf : ∀ a, OnlyMisuse (f a)) : OnlyMisuse (x >>= f) := by
  intro b err b' h
  rw [bind_eq] at h
  cases hrun : x b with
  | ok a b₁ => exact hf a b₁ err b' (by simpa only [hrun] using h)
  | error err₁ b₁ =>
    simp only [hrun, EStateM.Result.error.injEq] at h
    exact hx b err b₁ (h.1 ▸ hrun)

theorem onlyMisuse_of_ok {α : Type} {step : Build Body α} (h : ∀ b, ∃ a b', step b = .ok a b') :
    OnlyMisuse step := by
  intro b err b' herror
  obtain ⟨a, b₁, hok⟩ := h b
  simp [hok] at herror

theorem onlyMisuse_edit (here : BlockId) (change : Block → Block) :
    OnlyMisuse (edit here change) := by
  intro b err b' h
  unfold edit at h
  repeat' split at h
  all_goals simp only [EStateM.Result.error.injEq, reduceCtorEq] at h
  all_goals exact ⟨_, h.1.symm⟩

theorem onlyMisuse_pushNew (ty : Ty) (here : BlockId) (make : Reg → Instr) :
    OnlyMisuse (pushNew ty here make >>= fun _ => pure ()) :=
  OnlyMisuse.bind (OnlyMisuse.bind (onlyMisuse_of_ok fun _ => ⟨_, _, rfl⟩) fun _ =>
    (onlyMisuse_edit here _).bind fun _ => onlyMisuse_of_ok fun _ => ⟨_, _, rfl⟩)
      fun _ => onlyMisuse_of_ok fun _ => ⟨_, _, rfl⟩

/-- A request that fails otherwise changes nothing. -/
theorem misuse_or_unchanged {r : Request} {b b' : Body} {err : BuildError}
    (h : r.run b = .error err b') : (∃ cause, err = .misuse cause) ∨ b' = b := by
  cases r with
  | emit e m =>
    right
    rcases m.run_cases e b with ⟨err', hrun⟩ | ⟨result, b₁, hrun, -⟩
    · rw [run, bind_of_error hrun] at h
      exact (EStateM.Result.error.inj h).2.symm
    · rw [run, bind_of_ok hrun] at h
      simp at h
  | resume path p target =>
    have hcases := path.resumeAt_allOrNothing p target b
    unfold AllOrNothing at hcases
    split at hcases
    · exact .inr (EStateM.Result.error.inj (hcases.1.symm.trans h)).2.symm
    · obtain ⟨u, b₁, hrun, -⟩ := hcases
      simp [run, hrun] at h
  | record r here pos code =>
    exact .inl ((onlyMisuse_edit _ _).bind (fun _ => (onlyMisuse_edit _ _).bind fun _ =>
      onlyMisuse_edit _ _) b err b' h)
  | newBlock name => simp [run, bind_eq, Body.newBlock] at h
  | load here field => exact .inl (onlyMisuse_pushNew _ _ _ b err b' h)
  | store here field value => exact .inl (onlyMisuse_edit _ _ b err b' h)
  | icmp here how lhs rhs => exact .inl (onlyMisuse_pushNew _ _ _ b err b' h)
  | call here callee sig args callees => exact .inl (onlyMisuse_pushNew _ _ _ b err b' h)
  | leave here term => exact .inl (onlyMisuse_edit _ _ b err b' h)

theorem full_after {r : Request} {b : Body} (hr : r.panics b = false) (hb : b.Full) :
    (Build.after r.run b).Full := by
  cases hrun : r.run b with
  | ok u b' =>
    rw [Build.after_of_ok hrun]
    exact compositional_keepsFull.request r (fun _ _ => trivial) b u b' hrun hb
  | error err b' =>
    rw [Build.after, hrun]
    rcases misuse_or_unchanged hrun with ⟨cause, rfl⟩ | rfl
    · simp [panics, hrun] at hr
    · exact hb

end Request

def calm : List Request → Body → Bool
  | [], _ => true
  | r :: rest, b => !r.panics b && calm rest (Build.after r.run b)

theorem assigned_edited {fields : List Field} {requests : List Request}
    (hloaded : ∀ r ∈ requests, ∀ field ∈ r.loaded, field ∈ fields) {b : Body}
    (hb : b.Assigned fields) : (edited requests b).Assigned fields := by
  induction requests generalizing b with
  | nil => exact hb
  | cons r rest ih =>
    obtain ⟨hr, hrest⟩ := List.forall_mem_cons.1 hloaded
    exact ih hrest ((compositional_keepsAssigned fields).request r hr b hb)

theorem full_edited {requests : List Request} {b : Body} (hcalm : calm requests b) (hb : b.Full) :
    (edited requests b).Full := by
  induction requests generalizing b with
  | nil => exact hb
  | cons r rest ih =>
    simp only [calm, Bool.and_eq_true, Bool.not_eq_true'] at hcalm
    exact ih hcalm.2 (Request.full_after hcalm.1 hb)

/-- If there are as many results as registers, each register is that of one instruction. -/
theorem Full.count {fields : List Field} {b : Body} (h : b.Full) (hb : b.Assigned fields) {r : Reg}
    (hr : r.index < b.regs.length) : (b.results.map Prod.fst).count r = 1 := by
  apply List.count_eq_one_of_mem hb.once
  have hmem : ∀ r : Reg, r ∈ (List.range b.regs.length).map Reg.mk ↔ r.index < b.regs.length := by
    intro r
    constructor
    · intro hr
      obtain ⟨k, hk, rfl⟩ := List.mem_map.1 hr
      exact List.mem_range.1 hk
    · intro hr
      exact List.mem_map.2 ⟨r.index, List.mem_range.2 hr, rfl⟩
  have hsub : (b.results.map Prod.fst).Subperm ((List.range b.regs.length).map Reg.mk) :=
    hb.once.subperm fun r hr => (hmem r).2 (hb.lt hr)
  have hlength : ((List.range b.regs.length).map Reg.mk).length ≤
      (b.results.map Prod.fst).length := by
    rw [List.length_map, List.length_map, List.length_range]
    exact h.le
  exact (hsub.perm_of_length_le hlength).mem_iff.2 ((hmem r).2 hr)

end Body

/-! ### The registers that a run meets -/

/-- The registers that an instruction finds, if it is a call, or leaves. -/
def Moment.regs? {σ : Type} : Moment σ → Option Regs
  | calling _ _ _ regs _ => some regs
  | executed _ _ _ regs _ => some regs
  | entered .. => none
  | ended .. => none

namespace Machine

variable {σ : Type} {enter : FuncId → List Value → Exec σ Value} {args : List Value}
  {regs regs' : Regs} {w w' : World σ}

/-- The registers of a run of the body, from none assigned on, after each of its instructions. -/
def files (enter : FuncId → List Value → Exec σ Value) (limit : Nat) (b : Body)
    (args : List Value) (w : World σ) : List Regs :=
  let blank := List.replicate b.regs.length none
  blank :: (runTrace enter (fun _ _ _ => []) b args limit b.entry blank w).filterMap Moment.regs?

theorem exec_length {i : Instr} (h : exec enter args regs i w = .ok regs' w') :
    regs'.length = regs.length := by
  have hassign : ∀ {r : Reg} {v : Value} {w : World σ},
      settle (assign regs r v) w = .ok regs' w' → regs'.length = regs.length := by
    intro r v w h
    unfold assign at h
    cases hr : regs[r.index]? with
    | none => simp [hr] at h
    | some old =>
      simp only [hr, settle_run, EStateM.Result.ok.injEq] at h
      rw [← h.1, List.length_set]
  cases i with
  | load dst field ty =>
    obtain ⟨v, w₁, -, h⟩ := bind_ok h
    exact hassign h
  | store field value =>
    obtain ⟨v, w₁, -, h⟩ := bind_ok h
    obtain ⟨u, w₂, -, h⟩ := bind_ok h
    rw [(pure_ok h).1]
  | icmp dst how lhs rhs =>
    obtain ⟨v, w₁, -, h⟩ := bind_ok h
    obtain ⟨u, w₂, -, h⟩ := bind_ok h
    exact hassign h
  | call dst callee sig operands callees =>
    obtain ⟨v, w₁, -, h⟩ := bind_ok h
    obtain ⟨f, w₂, -, h⟩ := bind_ok h
    obtain ⟨vs, w₃, -, h⟩ := bind_ok h
    obtain ⟨result, w₄, -, h⟩ := bind_ok h
    exact hassign h

theorem length_of_mem_files {limit : Nat} {b : Body} (h : regs ∈ files enter limit b args w) :
    regs.length = b.regs.length := by
  rcases List.mem_cons.1 h with rfl | h
  · exact List.length_replicate
  obtain ⟨m, hm, hregs⟩ := List.mem_filterMap.1 h
  have halong : Along enter (fun _ _ _ => []) args (fun regs => regs.length = b.regs.length)
      fun m => ∀ regs, m.regs? = some regs → regs.length = b.regs.length := by
    refine ⟨fun hlength hrun => (exec_length hrun).trans hlength, by simp, by simp [Moment.regs?],
      fun _ _ _ _ hlength _ heq => ?_, fun _ _ _ _ hlength _ heq => ?_⟩
    · exact Option.some.inj heq ▸ hlength
    · exact Option.some.inj heq ▸ hlength
  exact halong.of_mem_runTrace List.length_replicate hm regs hregs

theorem assign_of_lt {r : Reg} (h : r.index < regs.length) (v : Value) :
    assign regs r v = .ok (regs.set r.index (some v)) := by
  rw [assign, List.getElem?_eq_getElem h]

end Machine

namespace Body

/-- Registers are assigned once, with values of their types. Whatever a new body is asked for, and
whatever is refused, no two of its instructions assign the same register, and each assigns one that
has the type of its result. If no request panics, there are no other registers. Hence in every run
of the body, however far it has come, each instruction can assign its register. -/
theorem registers_assigned_once (f : FuncId) (name : String) (sig : Signature)
    (params : List String) (requests : List Request) :
    let b := edited requests (start f name sig params)
    b.Assigned (requests.flatMap Request.loaded) ∧
    (calm requests (start f name sig params) → ∀ r : Reg, r.index < b.regs.length →
      (b.results.map Prod.fst).count r = 1) ∧
    ∀ (σ : Type) (enter : FuncId → List Value → Exec σ Value) (limit : Nat) (args : List Value)
      (w : World σ), ∀ regs ∈ Machine.files enter limit b args w, ∀ i ∈ b.instrs,
        ∀ r ty, i.result? = some (r, ty) →
          ∀ v, Machine.assign regs r v = .ok (regs.set r.index (some v)) := by
  intro b
  have hassigned : b.Assigned (requests.flatMap Request.loaded) := by
    refine assigned_edited (fun r hr field hfield => List.mem_flatMap.2 ⟨r, hr, hfield⟩) ?_
    exact ⟨List.nodup_nil, by simp [start, instrs], by simp [start, instrs]⟩
  refine ⟨hassigned, fun hcalm r hr => ?_, fun σ enter limit args w regs hregs i hi r ty hr v => ?_⟩
  · exact (full_edited hcalm rfl).count hassigned hr
  · refine Machine.assign_of_lt ?_ v
    rw [Machine.length_of_mem_files hregs]
    exact (List.getElem?_eq_some_iff.1 (hassigned.typed i hi r ty hr)).1

/-- A field is loaded and a span ends, all in the first block. In the run the callback fails. -/
theorem registers_assigned_once_spanEnd :
    let requests : List Request := [.load ⟨⟨2⟩, 0⟩ ⟨⟨1⟩, "error", .i32⟩,
      .emit (pairEmitter {}) (.spanEnd ⟨⟨2⟩, 0⟩ ⟨2⟩)]
    let b := edited requests (start ⟨2⟩ "parse" parserSig parserParams)
    let args : List Value := [.state, .ptr (some 3), .ptr (some 8)]
    let w : World Unit := ⟨⟨[.func none, .int 0, .ptr none, .ptr none, .ptr none, .func none,
      .ptr (some 2)]⟩, (), #[]⟩
    let regs : Regs := [some (.int 0), some (.ptr (some 2)), some (.int 7), none]
    calm requests (start ⟨2⟩ "parse" parserSig parserParams) = true ∧
      b.regs = [.i32, .bytes, .i32, .i1] ∧ (b.results.map Prod.fst).count ⟨3⟩ = 1 ∧
      regs ∈ Machine.files (fun _ _ => pure (.int 7)) 1 b args w ∧
      Machine.assign regs ⟨3⟩ (.int 0) =
        .ok [some (.int 0), some (.ptr (some 2)), some (.int 7), some (.int 0)] := by
  intro requests b args w regs
  have hcalm : calm requests (start ⟨2⟩ "parse" parserSig parserParams) = true := by decide +kernel
  have hregs : b.regs = [.i32, .bytes, .i32, .i1] := by decide +kernel
  have hmem : regs ∈ Machine.files (fun _ _ => pure (.int 7)) 1 b args w := by decide +kernel
  obtain ⟨-, hcount, hfiles⟩ :=
    registers_assigned_once ⟨2⟩ "parse" parserSig parserParams requests
  refine ⟨hcalm, hregs, hcount hcalm ⟨3⟩ ?_, hmem, ?_⟩
  · change 3 < b.regs.length
    rw [hregs]
    decide
  · exact hfiles Unit _ 1 args w regs hmem (.icmp ⟨3⟩ .eq (.reg ⟨2⟩) (.status 0))
      (by decide +kernel) ⟨3⟩ .i1 rfl (.int 0)

/-- A load that the block refuses has used up a register. -/
example :
    let b := edited [.load ⟨⟨3⟩, 0⟩ ⟨⟨1⟩, "error", .i32⟩, .icmp ⟨⟨2⟩, 0⟩ .eq (.param 1) (.param 2)]
      (start ⟨2⟩ "parse" parserSig parserParams)
    b.regs = [.i32, .i1] ∧ b.results = [(⟨1⟩, .i1)] := by decide +kernel

end Body

end SpanTracking
