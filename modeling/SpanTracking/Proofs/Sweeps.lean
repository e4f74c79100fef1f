import SpanTracking.Proofs.Buffers

set_option autoImplicit false

namespace SpanTracking

namespace ColorSlots

def isOpen (m : Memory) (slots : ColorSlots) : Bool :=
  match m.get? slots.start.id with
  | some v => !v.isNull
  | none => false

/-- The number of blocks that the code of the colors enters: one for each color, and one more for
each that is open. -/
def toll (m : Memory) (colors : List ColorSlots) : Nat :=
  (colors.map fun slots => 1 + (slots.isOpen m).toNat).sum

/-- The colors with an open span whose own block is among the first `limit` ones. -/
def reached (m : Memory) (limit : Nat) (colors : List ColorSlots) : List ColorSlots :=
  (colors.zipIdx.filter fun x => x.1.isOpen m && decide (2 + toll m (colors.take x.2) ≤ limit)).map
    Prod.fst

section Toll

variable {m : Memory} {slots : ColorSlots} {colors : List ColorSlots} {limit : Nat}

theorem isOpen_eq (m : Memory) (slots : ColorSlots) :
    slots.isOpen m = !((m.get? slots.start.id).map Value.isNull).getD true := by
  unfold isOpen
  cases m.get? slots.start.id <;> rfl

theorem isOpen_of_get? {v : Value} (h : m.get? slots.start.id = some v) :
    slots.isOpen m = !v.isNull := by
  rw [isOpen, h]

theorem toll_cons (m : Memory) (slots : ColorSlots) (rest : List ColorSlots) :
    toll m (slots :: rest) = 1 + (slots.isOpen m).toNat + toll m rest := rfl

theorem toll_eq (m : Memory) (colors : List ColorSlots) :
    toll m colors = colors.length + colors.countP (isOpen m) := by
  induction colors with
  | nil => rfl
  | cons slots rest ih =>
    rw [toll_cons, ih, List.length_cons, List.countP_cons]
    cases slots.isOpen m with
    | true =>
      rw [Bool.toNat_true, if_pos rfl]
      omega
    | false =>
      rw [Bool.toNat_false, if_neg (by simp)]
      omega

theorem reached_cons (m : Memory) (limit : Nat) (slots : ColorSlots) (rest : List ColorSlots) :
    reached m limit (slots :: rest) =
      (if slots.isOpen m && decide (2 ≤ limit) then [slots] else []) ++
        reached m (limit - (1 + (slots.isOpen m).toNat)) rest := by
  have hlater : ∀ x : ColorSlots × Nat,
      (x.1.isOpen m && decide (2 + toll m ((slots :: rest).take (x.2 + 1)) ≤ limit)) =
        (x.1.isOpen m &&
          decide (2 + toll m (rest.take x.2) ≤ limit - (1 + (slots.isOpen m).toNat))) := by
    intro x
    have hiff : 2 + (1 + (slots.isOpen m).toNat + toll m (rest.take x.2)) ≤ limit ↔
        2 + toll m (rest.take x.2) ≤ limit - (1 + (slots.isOpen m).toNat) := by omega
    rw [List.take_succ_cons, toll_cons, decide_eq_decide.2 hiff]
  have hfirst : toll m ((slots :: rest).take 0) = 0 := rfl
  rw [reached, List.zipIdx_cons, List.zipIdx_succ, List.filter_cons, List.filter_map]
  simp only [Function.comp_def, hlater, hfirst]
  split <;> simp [reached, Function.comp_def]

theorem reached_of_le (h : toll m colors < limit) :
    reached m limit colors = colors.filter (isOpen m) := by
  induction colors generalizing limit with
  | nil => rfl
  | cons slots rest ih =>
    rw [toll_cons] at h
    rw [reached_cons, ih (by omega), List.filter_cons]
    cases hopen : slots.isOpen m with
    | true =>
      rw [hopen, Bool.toNat_true] at h
      have hle : 2 ≤ limit := by omega
      simp [hle]
    | false => simp

theorem reached_append (m : Memory) (limit : Nat) (xs ys : List ColorSlots) :
    reached m limit (xs ++ ys) = reached m limit xs ++ reached m (limit - toll m xs) ys := by
  induction xs generalizing limit with
  | nil => rfl
  | cons slots rest ih =>
    rw [List.cons_append, reached_cons, ih, reached_cons, toll_cons, List.append_assoc,
      Nat.sub_sub]

theorem isOpen_of_mem_reached (h : slots ∈ reached m limit colors) : slots.isOpen m = true := by
  obtain ⟨x, hx, rfl⟩ := List.mem_map.1 h
  exact (Bool.and_eq_true_iff.1 (List.mem_filter.1 hx).2).1

theorem reached_eq_nil (h : limit ≤ 1) : reached m limit colors = [] := by
  induction colors generalizing limit with
  | nil => rfl
  | cons slots rest ih =>
    have hlt : ¬ 2 ≤ limit := by omega
    rw [reached_cons, ih (by omega)]
    simp [hlt]

end Toll

end ColorSlots

open ColorSlots (toll reached isOpen)

namespace Machine

variable {σ : Type}

def entering (limit steps : Nat) (w : World σ)
    (next : Nat → EStateM.Result Fault (World σ) Value) : EStateM.Result Fault (World σ) Value :=
  match steps with
  | 0 => .error (.stepLimit limit) w
  | steps + 1 => next steps

/-- What becomes of the function in the block for an open span: it goes on, or a further block stops
it with a value. -/
inductive Turn (σ : Type) where
  | on (w : World σ)
  | off (w : World σ) (v : Value) (last : World σ)

def Turn.world : Turn σ → World σ
  | on w => w
  | off w _ _ => w

@[simp] theorem Turn.world_on (w : World σ) : (Turn.on w).world = w := rfl

@[simp] theorem Turn.world_off (w last : World σ) (v : Value) : (Turn.off w v last).world = w := rfl

def pass (limit : Nat) (visit : ColorSlots → World σ → Turn σ) (slots : ColorSlots)
    (next : Nat → World σ → EStateM.Result Fault (World σ) Value) (steps : Nat) (w : World σ) :
    EStateM.Result Fault (World σ) Value :=
  if slots.isOpen w.memory then
    entering limit steps w fun steps =>
      match visit slots w with
      | .on w₁ => entering limit steps w₁ fun steps => next steps w₁
      | .off w₁ v last => entering limit steps w₁ fun _ => .ok v last
  else entering limit steps w fun steps => next steps w

def sweep (limit : Nat) (visit : ColorSlots → World σ → Turn σ)
    (next : Nat → World σ → EStateM.Result Fault (World σ) Value) :
    List ColorSlots → Nat → World σ → EStateM.Result Fault (World σ) Value
  | [] => next
  | slots :: rest => pass limit visit slots (sweep limit visit next rest)

def visitAll (visit : ColorSlots → World σ → Turn σ) (colors : List ColorSlots) (w : World σ) :
    World σ :=
  colors.foldl (fun w slots => (visit slots w).world) w

def Smooth (visit : ColorSlots → World σ → Turn σ) (m : Memory) :
    List ColorSlots → World σ → Prop
  | [], _ => True
  | slots :: rest, w =>
    if slots.isOpen m then ∃ w₁, visit slots w = .on w₁ ∧ Smooth visit m rest w₁
    else Smooth visit m rest w

section Sweep

variable {limit : Nat} {visit : ColorSlots → World σ → Turn σ}
  {next : Nat → World σ → EStateM.Result Fault (World σ) Value} {m : Memory}
  {colors : List ColorSlots} {w : World σ}

theorem sweep_append (xs ys : List ColorSlots) :
    sweep limit visit next (xs ++ ys) = sweep limit visit (sweep limit visit next ys) xs := by
  induction xs with
  | nil => rfl
  | cons slots rest ih => rw [List.cons_append, sweep, ih, sweep]

def KeepsOpen (visit : ColorSlots → World σ → Turn σ) : Prop :=
  ∀ slots w, slots.isOpen w.memory = true →
    ∀ other : ColorSlots, other.isOpen (visit slots w).world.memory = other.isOpen w.memory

/-- If no color stops the function, it comes through if there are enough blocks left to enter. If
not, it has dealt with the colors that it has reached. -/
theorem sweep_smooth (hkeeps : KeepsOpen visit)
    (hm : ∀ slots : ColorSlots, slots.isOpen w.memory = slots.isOpen m)
    (hsmooth : Smooth visit m colors w) (steps : Nat) :
    sweep limit visit next colors steps w =
      if toll m colors ≤ steps then
        next (steps - toll m colors) (visitAll visit (colors.filter (isOpen m)) w)
      else .error (.stepLimit limit) (visitAll visit (reached m (steps + 1) colors) w) := by
  induction colors generalizing w steps with
  | nil => simp [sweep, toll, visitAll]
  | cons slots rest ih =>
    rw [sweep, pass, hm slots, ColorSlots.reached_cons, ColorSlots.toll_cons]
    cases hopen : slots.isOpen m with
    | false =>
      rw [Smooth, if_neg (by simp [hopen])] at hsmooth
      rw [Bool.toNat_false, Nat.add_zero, List.filter_cons_of_neg (by simp [hopen])]
      cases steps with
      | zero => simp [entering, ColorSlots.reached_eq_nil, visitAll]
      | succ steps =>
        have hle : 1 + toll m rest ≤ steps + 1 ↔ toll m rest ≤ steps := by omega
        have hsub : steps + 1 - (1 + toll m rest) = steps - toll m rest := by omega
        simpa [entering, hle, hsub] using ih hm hsmooth steps
    | true =>
      rw [Smooth, if_pos hopen] at hsmooth
      obtain ⟨w₁, hvisit, hrest⟩ := hsmooth
      have hm₁ : ∀ other : ColorSlots, other.isOpen w₁.memory = other.isOpen m := by
        intro other
        have hkept := hkeeps slots w ((hm slots).trans hopen) other
        rwa [hvisit, Turn.world_on, hm] at hkept
      rw [Bool.toNat_true, one_add_one_eq_two, List.filter_cons_of_pos hopen]
      -- The limit stops the function before the block for the span, after it, or later.
      match steps with
      | 0 => simp [entering, ColorSlots.reached_eq_nil, visitAll]
      | 1 =>
        have hlt : ¬ 2 + toll m rest ≤ 1 := by omega
        simp [entering, hvisit, hlt, ColorSlots.reached_eq_nil, visitAll]
      | steps + 2 =>
        have hle : 2 + toll m rest ≤ steps + 2 ↔ toll m rest ≤ steps := by omega
        have hsub : steps + 2 - (2 + toll m rest) = steps - toll m rest := by omega
        have hlimit : steps + 2 + 1 - 2 = steps + 1 := by omega
        simpa [entering, hvisit, hle, hsub, hlimit, visitAll] using ih hm₁ hrest steps

theorem visitAll_concat (colors : List ColorSlots) (slots : ColorSlots) (w : World σ) :
    visitAll visit (colors ++ [slots]) w = (visit slots (visitAll visit colors w)).world :=
  List.foldl_concat ..

theorem isOpen_visitAll (hkeeps : KeepsOpen visit)
    (hm : ∀ slots : ColorSlots, slots.isOpen w.memory = slots.isOpen m)
    (hopen : ∀ slots ∈ colors, slots.isOpen m = true) (other : ColorSlots) :
    other.isOpen (visitAll visit colors w).memory = other.isOpen m := by
  induction colors generalizing w with
  | nil => exact hm other
  | cons slots rest ih =>
    obtain ⟨hslots, hrest⟩ := List.forall_mem_cons.1 hopen
    refine ih (fun other => ?_) hrest
    rw [hkeeps slots w ((hm slots).trans hslots), hm]

/-- If a color stops the function, it takes two blocks more than the colors before it. -/
theorem sweep_stopped (hkeeps : KeepsOpen visit)
    (hm : ∀ slots : ColorSlots, slots.isOpen w.memory = slots.isOpen m)
    (hsmooth : Smooth visit m colors w) {slots : ColorSlots} (hopen : slots.isOpen m = true)
    {w₁ last : World σ} {v : Value}
    (hoff : visit slots (visitAll visit (colors.filter (isOpen m)) w) = .off w₁ v last)
    (rest : List ColorSlots) (steps : Nat) :
    sweep limit visit next (colors ++ slots :: rest) steps w =
      if toll m colors + 2 ≤ steps then .ok v last
      else .error (.stepLimit limit)
        (visitAll visit (reached m (steps + 1) (colors ++ slots :: rest)) w) := by
  have hthere : slots.isOpen (visitAll visit (colors.filter (isOpen m)) w).memory = true := by
    rw [isOpen_visitAll hkeeps hm (fun slots hmem => (List.mem_filter.1 hmem).2), hopen]
  rw [sweep_append, sweep_smooth hkeeps hm hsmooth, ColorSlots.reached_append,
    ColorSlots.reached_cons, hopen, Bool.toNat_true, one_add_one_eq_two]
  by_cases hle : toll m colors ≤ steps
  · -- The function comes to this color, with `left` blocks to enter.
    obtain ⟨left, rfl⟩ := Nat.exists_eq_add_of_le hle
    have hleft : toll m colors + left - toll m colors = left := by omega
    have hlimit : toll m colors + left + 1 - toll m colors = left + 1 := by omega
    rw [if_pos hle, hleft, hlimit, ColorSlots.reached_of_le (by omega), sweep, pass, if_pos hthere,
      hoff]
    match left with
    | 0 => simp [entering, ColorSlots.reached_eq_nil]
    | 1 => simp [entering, ColorSlots.reached_eq_nil, visitAll_concat, hoff]
    | left + 2 => simp [entering]
  · have hlt : ¬ toll m colors + 2 ≤ steps := by omega
    have hnone : ¬ 2 ≤ steps + 1 - toll m colors := by omega
    have hnil : reached m (steps + 1 - toll m colors - 2) rest = [] :=
      ColorSlots.reached_eq_nil (by omega)
    simp [hle, hlt, hnone, hnil]

/-- The entry block comes on top of those of the colors. -/
theorem enter_smooth (hkeeps : KeepsOpen visit) (hsmooth : Smooth visit w.memory colors w)
    (v : Value) :
    (entering limit limit w fun steps => sweep limit visit (fun _ w => .ok v w) colors steps w) =
      if 1 + toll w.memory colors ≤ limit then
        .ok v (visitAll visit (reached w.memory limit colors) w)
      else .error (.stepLimit limit) (visitAll visit (reached w.memory limit colors) w) := by
  cases limit with
  | zero => simp [entering, ColorSlots.reached_eq_nil, visitAll]
  | succ limit =>
    rw [entering, sweep_smooth hkeeps (fun _ => rfl) hsmooth]
    by_cases hle : toll w.memory colors ≤ limit
    · rw [if_pos hle, if_pos (by omega), ColorSlots.reached_of_le (by omega)]
    · rw [if_neg hle, if_neg (by omega)]

theorem enter_stopped (hkeeps : KeepsOpen visit) (hsmooth : Smooth visit w.memory colors w)
    {slots : ColorSlots} (hopen : slots.isOpen w.memory = true) {w₁ last : World σ} {v : Value}
    (hoff : visit slots (visitAll visit (colors.filter (isOpen w.memory)) w) =
      .off w₁ v last) (rest : List ColorSlots) :
    (entering limit limit w fun steps =>
        sweep limit visit next (colors ++ slots :: rest) steps w) =
      if 3 + toll w.memory colors ≤ limit then .ok v last
      else .error (.stepLimit limit)
        (visitAll visit (reached w.memory limit (colors ++ slots :: rest)) w) := by
  cases limit with
  | zero => simp [entering, ColorSlots.reached_eq_nil, visitAll]
  | succ limit =>
    rw [entering, sweep_stopped hkeeps (fun _ => rfl) hsmooth hopen hoff]
    by_cases hle : toll w.memory colors + 2 ≤ limit
    · rw [if_pos hle, if_pos (by omega)]
    · rw [if_neg hle, if_neg (by omega)]

theorem pass_congr {next' : Nat → World σ → EStateM.Result Fault (World σ) Value}
    {slots : ColorSlots} (hclosed : slots.isOpen w.memory = false → ∀ steps,
      next steps w = next' steps w)
    (hon : ∀ w₁, slots.isOpen w.memory = true → visit slots w = .on w₁ → ∀ steps,
      next steps w₁ = next' steps w₁) (steps : Nat) :
    pass limit visit slots next steps w = pass limit visit slots next' steps w := by
  unfold pass
  cases hopen : slots.isOpen w.memory with
  | false => simp [hclosed hopen]
  | true =>
    cases hvisit : visit slots w with
    | on w₁ => simp [hon w₁ hopen hvisit]
    | off w₁ v last => rfl

end Sweep

/-! ### The code follows -/

section Code

variable {enter : FuncId → List Value → Exec σ Value} {limit : Nat} {whole : Body}
  {args : List Value} {pos stop : Value} {regs : Regs} {w : World σ}

theorem runFrom_entering (steps : Nat) (here : BlockId) :
    runFrom enter limit whole args steps here regs w =
      entering limit steps w fun steps => runAt enter limit whole args steps here 0 regs w := by
  cases steps with
  | zero => rfl
  | succ steps => rw [runFrom_succ, entering]

/-- In any body that it is part of, the code of a color of the list deals with it as `visit` says,
however many blocks are left to enter. -/
def Paces (emit : BlockId → Nat → ColorSlots → Build Body BlockId)
    (visit : ColorSlots → World σ → Turn σ) (inv : World σ → Prop) (colors : List ColorSlots)
    (enter : FuncId → List Value → Exec σ Value) (limit : Nat) (pos stop : Value) : Prop :=
  ∀ (b b' whole : Body) (here next : BlockId) (old : List Instr) (color : Nat) (regs : Regs)
    (w : World σ), ∀ slots ∈ colors, b.Open here old → emit here color slots b = .ok next b' →
    b'.Within whole → whole.regs.length ≤ regs.length → inv w →
    ∃ regs', regs'.length = regs.length ∧ ∀ steps,
      runAt enter limit whole [.state, pos, stop] steps here old.length regs w =
        pass limit visit slots
          (fun steps w => runAt enter limit whole [.state, pos, stop] steps next 0 regs' w) steps w

theorem chain_paced {emit : BlockId → Nat → ColorSlots → Build Body BlockId}
    {visit : ColorSlots → World σ → Turn σ} {inv : World σ → Prop} {colors : List ColorSlots}
    (ha : Emitter.Appends emit) (hpaces : Paces emit visit inv colors enter limit pos stop)
    (hinv : ∀ slots ∈ colors, ∀ w w₁, inv w → slots.isOpen w.memory = true →
      visit slots w = .on w₁ → inv w₁)
    {b b' : Body} {here next : BlockId} {old rest : List Instr} {color : Nat}
    (h : b.Open here old) (hc : Emitter.chain emit here color colors b = .ok next b')
    (hn : b'.Open next rest) (hw : b'.Within whole)
    (hret : whole.code? next = some (rest, some (.ret (.status 0))))
    (hl : whole.regs.length ≤ regs.length) (hw₀ : inv w) (steps : Nat) :
    runAt enter limit whole [.state, pos, stop] steps here old.length regs w =
      sweep limit visit (fun _ w => .ok (.int 0) w) colors steps w := by
  induction colors generalizing b here old color regs w steps with
  | nil =>
    obtain ⟨rfl, rfl⟩ := pure_ok hc
    obtain rfl : old = rest := (Prod.mk.inj (Option.some.inj (h.symm.trans hn))).1
    have hret' : whole.code? here = some (old ++ [], some (.ret (.status 0))) := by simpa using hret
    rw [runAt_of_code hret', sweep]
    exact finish_ret rfl
  | cons slots list ih =>
    obtain ⟨mid, b₁, he, hmid, -⟩ := ha b here old color slots h
    rw [Emitter.chain, bind_of_ok he] at hc
    obtain ⟨next', b₂, rest', hc', -, hw₂, -⟩ := Emitter.chain_appends ha list hmid (color + 1)
    obtain ⟨rfl, rfl⟩ : next = next' ∧ b' = b₂ := by simpa [hc] using hc'
    obtain ⟨regs₁, hlen, hgo⟩ := hpaces b b₁ whole here mid old color regs w slots
      List.mem_cons_self h he (hw₂.trans hw) hl hw₀
    have hrest : ∀ w₁, inv w₁ → ∀ steps,
        runAt enter limit whole [.state, pos, stop] steps mid 0 regs₁ w₁ =
          sweep limit visit (fun _ w => .ok (.int 0) w) list steps w₁ := by
      intro w₁ hw₁ steps
      exact ih
        (fun b b' whole here next old color regs w slots hmem =>
          hpaces b b' whole here next old color regs w slots (List.mem_cons_of_mem _ hmem))
        (fun slots hmem => hinv slots (List.mem_cons_of_mem _ hmem)) hmid hc
        (by rw [hlen]; exact hl) hw₁ steps
    rw [hgo, sweep]
    exact pass_congr (fun _ => hrest w hw₀)
      (fun w₁ hopen hvisit => hrest w₁ (hinv slots List.mem_cons_self w w₁ hw₀ hopen hvisit)) steps

end Code

end Machine

end SpanTracking
