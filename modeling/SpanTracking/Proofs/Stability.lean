import SpanTracking.Proofs.Termination

set_option autoImplicit false

namespace SpanTracking

namespace Machine

variable {σ : Type}

/-- The call comes to `outcome` and leaves `w'`, at whatever depth calls may be nested from some
depth on. -/
def Ends (p : Program) (host : Host σ) (limit : Nat) (f : FuncId) (args : List Value) (w : World σ)
    (outcome : Except Fault Value) (w' : World σ) : Prop :=
  outcome ≠ .error .tooDeep ∧
    ∃ depth, ∀ deeper ≥ depth, call p host limit deeper f args w = settle outcome w'

theorem settle_eq_error {outcome : Except Fault Value} {fault : Fault} {w w' : World σ}
    (h : settle outcome w = .error fault w') : outcome = .error fault := by
  cases outcome with
  | ok v => simp at h
  | error fault' => rw [(EStateM.Result.error.inj h).1]

theorem ends_of_call {p : Program} {host : Host σ} {limit depth : Nat} {f : FuncId}
    {args : List Value} {w w' : World σ} {outcome : Except Fault Value}
    (h : call p host limit depth f args w = settle outcome w') (hdeep : outcome ≠ .error .tooDeep) :
    Ends p host limit f args w outcome w' := by
  refine ⟨hdeep, depth, fun deeper hle => ?_⟩
  rw [call_settled (fun v hv => hdeep (settle_eq_error (h.symm.trans hv))) hle]
  exact h

/-- A run that ends before it has entered too many blocks ends in the same way, with the same record
and the same calls of the host, if it may enter more. -/
theorem limit_raised {p : Program} {host : Host σ} {limit limit' : Nat} {f : FuncId}
    {args : List Value} {w w' : World σ} {outcome : Except Fault Value}
    (h : Ends p host limit f args w outcome w') (hsteps : ∀ n, outcome ≠ .error (.stepLimit n))
    (hle : limit ≤ limit') : Ends p host limit' f args w outcome w' := by
  obtain ⟨hdeep, depth, hcall⟩ := h
  refine ⟨hdeep, depth, fun deeper hd => ?_⟩
  have hraised : Parallel Eq (· = .stepLimit limit) (call p host limit deeper f args)
      (call p host limit' deeper f args) :=
    call_parallel (respected_eq (· = .stepLimit limit)) (fun _ => .inl rfl) host hle (.inl rfl)
      le_rfl (.inr rfl) f args
  obtain ⟨v, hv, rfl⟩ := hraised.outcome rfl (hcall deeper hd)
    fun fault hfault hlimit => hsteps limit (hlimit ▸ hfault)
  exact hv

/-- With a limit of two, `again` comes back from its third activation, and it does no more with a
higher limit. -/
theorem limit_raised_counting :
    Ends (Program.edited counting {}) (Scripts.bind {} ⟨1⟩ ⟨0, [0, 1]⟩).host 2 ⟨0⟩
        [.state, .ptr (some 0), .ptr (some 5)] ⟨⟨[]⟩, Scripts.bind {} ⟨1⟩ ⟨0, [0, 1]⟩, #[]⟩
        (.ok (.int 0))
        ⟨⟨[]⟩, Scripts.bind {} ⟨1⟩ ⟨1, []⟩, #[⟨⟨1⟩, 0, 5⟩, ⟨⟨1⟩, 0, 5⟩, ⟨⟨1⟩, 0, 5⟩]⟩ ∧
      Ends (Program.edited counting {}) (Scripts.bind {} ⟨1⟩ ⟨0, [0, 1]⟩).host defaultLimit ⟨0⟩
        [.state, .ptr (some 0), .ptr (some 5)] ⟨⟨[]⟩, Scripts.bind {} ⟨1⟩ ⟨0, [0, 1]⟩, #[]⟩
        (.ok (.int 0))
        ⟨⟨[]⟩, Scripts.bind {} ⟨1⟩ ⟨1, []⟩, #[⟨⟨1⟩, 0, 5⟩, ⟨⟨1⟩, 0, 5⟩, ⟨⟨1⟩, 0, 5⟩]⟩ := by
  have hrun : call (Program.edited counting {}) (Scripts.bind {} ⟨1⟩ ⟨0, [0, 1]⟩).host 2 3 ⟨0⟩
      [.state, .ptr (some 0), .ptr (some 5)] ⟨⟨[]⟩, Scripts.bind {} ⟨1⟩ ⟨0, [0, 1]⟩, #[]⟩ =
        settle (.ok (.int 0)) ⟨⟨[]⟩, Scripts.bind {} ⟨1⟩ ⟨1, []⟩,
          #[⟨⟨1⟩, 0, 5⟩, ⟨⟨1⟩, 0, 5⟩, ⟨⟨1⟩, 0, 5⟩]⟩ := rfl
  have hends := ends_of_call hrun (by simp)
  exact ⟨hends, limit_raised hends (by simp) (by decide)⟩

end Machine

/-! ### Additions to a program -/

namespace Program

theorem Edit.decl?_after {edit : Edit} {p : Program} {n : Nat} (hn : n ≤ p.decls.length)
    (hdefine : ∀ b, edit = .define b → n ≤ b.id.index) :
    n ≤ (Build.after edit.run p).decls.length ∧
      ∀ f : FuncId, f.index < n → (Build.after edit.run p).decl? f = p.decl? f := by
  unfold Build.after
  split
  · rename_i r p' hrun
    cases edit with
    | field name ty =>
      obtain ⟨g, hg, -⟩ := map_ok hrun
      obtain ⟨l, -, rfl⟩ := onLayout_ok hg
      exact ⟨hn, fun _ _ => rfl⟩
    | declare name sig =>
      obtain ⟨g, hg, -⟩ := map_ok hrun
      obtain ⟨-, rfl⟩ | ⟨-, -, rfl⟩ := declare_cases hg
      · exact ⟨hn, fun _ _ => rfl⟩
      · refine ⟨by simp; omega, fun f hf => ?_⟩
        exact List.getElem?_append_left (Nat.lt_of_lt_of_le hf hn)
    | intern text =>
      obtain ⟨t, ht, -⟩ := map_ok hrun
      obtain ⟨-, rfl | rfl⟩ := intern_cases ht <;> exact ⟨hn, fun _ _ => rfl⟩
    | define b =>
      obtain ⟨u, hu, -⟩ := map_ok hrun
      have hlater := hdefine b rfl
      refine ⟨?_, fun f hf => decl?_of_define_ne hu fun heq => ?_⟩
      · obtain ⟨-, d, -, -, -, -, rfl⟩ := define_cases hu
        simpa using hn
      · rw [heq] at hlater
        omega
  · rename_i err p' hrun
    rw [Edit.unchanged_of_error hrun]
    exact ⟨hn, fun _ _ => rfl⟩

theorem decl?_edited {later : List Edit} {p : Program} {n : Nat} (hn : n ≤ p.decls.length)
    (hlater : ∀ b, Edit.define b ∈ later → n ≤ b.id.index) {f : FuncId} (hf : f.index < n) :
    (edited later p).decl? f = p.decl? f := by
  induction later generalizing p with
  | nil => rfl
  | cons edit rest ih =>
    obtain ⟨hn', hsame⟩ :=
      edit.decl?_after hn fun b heq => hlater b (heq ▸ List.mem_cons_self)
    exact (ih hn' fun b hb => hlater b (List.mem_cons_of_mem _ hb)).trans (hsame f hf)

end Program

def Fault.Missing (fault : Fault) : Prop :=
  (∃ f, fault = .unknownFunction f) ∨ ∃ id, fault = .unknownField id

namespace Machine

variable {σ : Type}

/-- The record of the first world has `n` fields. That of the second has further ones, which hold
`extra`, and nothing else is different. -/
def Widened (n : Nat) (extra : List Value) (w v : World σ) : Prop :=
  w.memory.values.length = n ∧ v = { w with memory := ⟨w.memory.values ++ extra⟩ }

/-- A record that agrees on the fields of another one has further fields, if any. -/
theorem widened_of_agree {n : Nat} {w : World σ} {m : Memory} (hfits : w.memory.values.length = n)
    (hagree : ∀ id : FieldId, id.index < n → m.get? id = w.memory.get? id) :
    Widened n (m.values.drop n) w { w with memory := m } := by
  have htake : m.values.take n = w.memory.values := by
    refine List.ext_getElem? fun k => ?_
    rcases Nat.lt_or_ge k n with hlt | hge
    · rw [List.getElem?_take_of_lt hlt]
      exact hagree ⟨k⟩ hlt
    · rw [List.getElem?_eq_none (by simp; omega), List.getElem?_eq_none (by omega)]
  exact ⟨hfits, by rw [← htake, List.take_append_drop]⟩

theorem get?_widened {m : Memory} {id : FieldId} {u : Value} (h : m.get? id = some u)
    (extra : List Value) : (Memory.mk (m.values ++ extra)).get? id = some u :=
  (List.getElem?_append_left (List.getElem?_eq_some_iff.1 h).1).trans h

theorem respected_widened (n : Nat) (extra : List Value) :
    Respected (σ := σ) (Widened n extra) Fault.Missing where
  read id := by
    rintro w _ ⟨hlen, rfl⟩
    rcases read_cases id w with ⟨u, hu, hread⟩ | ⟨-, hread⟩
    · rw [hread]
      exact ⟨_, by simp [read, get?_widened hu], hlen, rfl⟩
    · rw [hread]
      exact .inl (.inr ⟨id, rfl⟩)
  write id u := by
    rintro w _ ⟨hlen, rfl⟩
    unfold write
    cases hget : w.memory.get? id with
    | none => exact .inl (.inr ⟨id, rfl⟩)
    | some old =>
      have hi : id.index < w.memory.values.length := (List.getElem?_eq_some_iff.1 hget).1
      simp only [get?_widened hget]
      refine ⟨_, rfl, (Memory.set_length w.memory id u).trans hlen, ?_⟩
      simp [Memory.set, List.set_append_left _ _ hi]
  ask host f name args := by
    rintro w _ ⟨hlen, rfl⟩
    unfold askHost
    cases host.answer f with
    | none => exact .inr ⟨_, rfl, hlen, rfl⟩
    | some reply =>
      cases positions args with
      | none => exact .inr ⟨_, rfl, hlen, rfl⟩
      | some pair => exact ⟨_, rfl, hlen, rfl⟩

end Machine

open Machine in
/-- Fields, functions and texts that are added to a program, and bodies for functions that are
added, are not seen by the functions of the program. On records that agree on the fields the program
had, a run comes to the same end, with the same calls of the host and the same values in these
fields; the other fields stay as they are. -/
theorem later_edits_unseen {p : Program} {later : List Program.Edit}
    (hlater : ∀ b, Program.Edit.define b ∈ later → p.decls.length ≤ b.id.index) {σ : Type}
    {host : Host σ} {limit : Nat} {f : FuncId} {args : List Value} {w w' : World σ} {m : Memory}
    {outcome : Except Fault Value} (hfits : w.memory.values.length = p.layout.fields.length)
    (hagree : ∀ id : FieldId, id.index < p.layout.fields.length → m.get? id = w.memory.get? id)
    (h : Ends p host limit f args w outcome w')
    (hfunction : ∀ g, outcome ≠ .error (.unknownFunction g))
    (hfield : ∀ id, outcome ≠ .error (.unknownField id)) :
    ∃ m', Ends (Program.edited later p) host limit f args { w with memory := m } outcome
        { w' with memory := m' } ∧
      (∀ id : FieldId, id.index < p.layout.fields.length → m'.get? id = w'.memory.get? id) ∧
      ∀ id : FieldId, p.layout.fields.length ≤ id.index → m'.get? id = m.get? id := by
  obtain ⟨hdeep, depth, hcall⟩ := h
  let n := p.layout.fields.length
  let extra := m.values.drop n
  have hwide : Widened n extra w { w with memory := m } := widened_of_agree hfits hagree
  have hdecl : ∀ g, (Program.edited later p).decl? g = p.decl? g ∨
      p.decl? g = none ∧ Fault.Missing (.unknownFunction g) := by
    intro g
    rcases Nat.lt_or_ge g.index p.decls.length with hlt | hge
    · exact .inl (Program.decl?_edited le_rfl hlater hlt)
    · exact .inr ⟨List.getElem?_eq_none hge, .inl ⟨g, rfl⟩⟩
  have hfollows : ∀ deeper ≥ depth, w'.memory.values.length = n ∧
      call (Program.edited later p) host limit deeper f args { w with memory := m } =
        settle outcome { w' with memory := ⟨w'.memory.values ++ extra⟩ } := by
    intro deeper hd
    have hparallel : Parallel (Widened n extra) Fault.Missing (call p host limit deeper f args)
        (call (Program.edited later p) host limit deeper f args) :=
      call_parallel (respected_widened n extra) hdecl host le_rfl (.inr rfl) le_rfl (.inr rfl) f
        args
    obtain ⟨v, hv, hlen, rfl⟩ := hparallel.outcome hwide (hcall deeper hd) (by
      rintro _ hfault (⟨g, rfl⟩ | ⟨id, rfl⟩)
      · exact hfunction g hfault
      · exact hfield id hfault)
    exact ⟨hlen, hv⟩
  have hlen : w'.memory.values.length = n := (hfollows depth le_rfl).1
  refine ⟨⟨w'.memory.values ++ extra⟩,
    ⟨hdeep, depth, fun deeper hd => (hfollows deeper hd).2⟩, ?_, ?_⟩
  · intro id hid
    exact List.getElem?_append_left (hlen ▸ hid)
  · intro id hid
    have hright : n + (id.index - n) = id.index := Nat.add_sub_cancel' hid
    simp only [Memory.get?]
    rw [List.getElem?_append_right (hlen ▸ hid), hlen, List.getElem?_drop, hright]

def tallying : List Program.Edit := [
  .field "count" .i32,
  .declare "tally" parserSig,
  .declare "more" (callbackSig .external),
  .define (.worked [
    .call ⟨⟨0⟩, 0⟩ (.func ⟨1⟩) (callbackSig .external) [stateArg, posArg, endArg] none,
    .store ⟨⟨0⟩, 0⟩ ⟨⟨0⟩, "count", .i32⟩ (.reg ⟨0⟩),
    .ret ⟨⟨0⟩, 0⟩ (.reg ⟨0⟩)] (.start ⟨0⟩ "tally" parserSig parserParams))]

def latecoming : List Program.Edit := [
  .field "late" .i32,
  .intern "too late",
  .declare "come_late" parserSig,
  .define (.worked [
    .store ⟨⟨2⟩, 0⟩ ⟨⟨1⟩, "late", .i32⟩ (.status 1),
    .ret ⟨⟨2⟩, 0⟩ (.status 0)] (.start ⟨2⟩ "come_late" parserSig parserParams))]

open Machine in
theorem later_edits_unseen_tally :
    (∀ b, Program.Edit.define b ∈ latecoming →
      (Program.edited tallying {}).decls.length ≤ b.id.index) ∧
      ((Program.edited latecoming (Program.edited tallying {})).body? ⟨2⟩).isSome ∧
      ∃ m', Ends (Program.edited latecoming (Program.edited tallying {}))
          (Scripts.constant [⟨1⟩] 6).host 1 ⟨0⟩ [.state, .ptr (some 0), .ptr (some 5)]
          ⟨⟨[.int 0, .int 4]⟩, Scripts.constant [⟨1⟩] 6, #[]⟩ (.ok (.int 6))
          ⟨m', Scripts.constant [⟨1⟩] 6, #[⟨⟨1⟩, 0, 5⟩]⟩ ∧
        m'.get? ⟨0⟩ = some (.int 6) ∧ m'.get? ⟨1⟩ = some (.int 4) := by
  have hlater : ∀ b, Program.Edit.define b ∈ latecoming →
      (Program.edited tallying {}).decls.length ≤ b.id.index := by
    intro b hb
    simp only [latecoming, List.mem_cons, reduceCtorEq, false_or, List.not_mem_nil, or_false,
      Program.Edit.define.injEq] at hb
    subst hb
    decide
  have hrun : call (Program.edited tallying {}) (Scripts.constant [⟨1⟩] 6).host 1 1 ⟨0⟩
      [.state, .ptr (some 0), .ptr (some 5)] ⟨⟨[.int 0]⟩, Scripts.constant [⟨1⟩] 6, #[]⟩ =
        settle (.ok (.int 6)) ⟨⟨[.int 6]⟩, Scripts.constant [⟨1⟩] 6, #[⟨⟨1⟩, 0, 5⟩]⟩ := rfl
  have hagree : ∀ id : FieldId, id.index < (Program.edited tallying {}).layout.fields.length →
      (Memory.mk [.int 0, .int 4]).get? id = (Memory.mk [.int 0]).get? id := by
    intro id hid
    have hzero : id.index = 0 := Nat.lt_one_iff.1 hid
    simp [Memory.get?, hzero]
  obtain ⟨m', hends, hold, hnew⟩ := later_edits_unseen hlater rfl hagree
    (ends_of_call hrun (by simp)) (by simp) (by simp)
  exact ⟨hlater, rfl, m', hends, hold ⟨0⟩ (by decide), hnew ⟨1⟩ (by decide)⟩

end SpanTracking
