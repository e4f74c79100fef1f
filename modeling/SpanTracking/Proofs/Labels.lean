import SpanTracking.Proofs.Emissions
import SpanTracking.Text.Listing

set_option autoImplicit false

/-!
# Labels of blocks

A block is listed and branched to by its name. A body under construction is asked for blocks by
name, by its author and by the span operations, and a taken name is told apart by the number of the
new block. That is tried once: the names of a body follow from the names it was asked for, and they
are distinct exactly if no taken name had been taken with that number as well. Only an author who
numbers names ahead can bring this about.
-/

namespace SpanTracking

namespace Body

def numbered (name : String) (k : Nat) : String := name ++ "." ++ toString k

def Plain (name : String) : Prop := ∀ x k, name ≠ numbered x k

def addName (taken : List String) (name : String) : List String :=
  taken ++ [if name ∈ taken then numbered name taken.length else name]

def addNames (taken asked : List String) : List String := asked.foldl addName taken

theorem addNames_append (taken xs ys : List String) :
    addNames taken (xs ++ ys) = addNames (addNames taken xs) ys :=
  List.foldl_append

/-- The name is taken, and so is the one that it would be given instead. -/
def Clash (taken : List String) (name : String) : Prop :=
  name ∈ taken ∧ numbered name taken.length ∈ taken

section Names

variable {taken asked : List String} {name : String}

theorem addName_nodup : (addName taken name).Nodup ↔ taken.Nodup ∧ ¬ Clash taken name := by
  unfold addName Clash
  rw [List.nodup_append]
  by_cases hmem : name ∈ taken
  · simp only [hmem, ↓reduceIte, true_and, List.nodup_singleton, List.mem_singleton]
    exact ⟨fun h => ⟨h.1, fun hclash => h.2 _ hclash _ rfl rfl⟩,
      fun h => ⟨h.1, fun a ha b hb heq => h.2 (hb ▸ heq ▸ ha)⟩⟩
  · simp only [hmem, ↓reduceIte, false_and, not_false_eq_true, and_true, List.nodup_singleton,
      true_and, List.mem_singleton]
    exact ⟨fun h => h.1, fun h => ⟨h, fun a ha b hb heq => hmem (hb ▸ heq ▸ ha)⟩⟩

/-- Names stay distinct exactly as long as there is no clash. -/
theorem addNames_nodup : (addNames taken asked).Nodup ↔ taken.Nodup ∧
    ∀ before name after, asked = before ++ name :: after →
      ¬ Clash (addNames taken before) name := by
  induction asked generalizing taken with
  | nil => simp [addNames]
  | cons first rest ih =>
    change (addNames (addName taken first) rest).Nodup ↔ _
    rw [ih, addName_nodup]
    constructor
    · rintro ⟨⟨hnodup, hfirst⟩, hrest⟩
      refine ⟨hnodup, fun before name after heq => ?_⟩
      cases before with
      | nil =>
        obtain ⟨rfl, -⟩ := List.cons.inj heq
        exact hfirst
      | cons _ before =>
        obtain ⟨rfl, hsplit⟩ := List.cons.inj heq
        exact hrest before name after hsplit
    · rintro ⟨hnodup, h⟩
      exact ⟨⟨hnodup, h [] first rest rfl⟩,
        fun before name after heq => h (first :: before) name after (by rw [heq]; rfl)⟩

theorem plain_of_notMem (h : '.' ∉ name.toList) : Plain name := by
  rintro x k rfl
  simp [numbered] at h

theorem numbered_inj {name name' : String} {k k' : Nat}
    (h : numbered name k = numbered name' k') : name = name' ∧ k = k' := by
  -- The number is what follows the last dot.
  have hchars := congrArg (fun s => s.toList.reverse) h
  simp only [numbered, Nat.toString_eq_repr, String.toList_append, Nat.toList_repr,
    List.reverse_append] at hchars
  obtain ⟨hnumber, hnames⟩ := reverse_digits_cons_inj (by decide) hchars
  exact ⟨String.toList_inj.1 (List.reverse_inj.1 hnames), hnumber⟩

/-- No two names are equal, and no block has a name with a number beyond its own. -/
structure Tidy (taken : List String) : Prop where
  nodup : taken.Nodup
  behind : ∀ (i : Nat) (name : String) (k : Nat), taken[i]? = some (numbered name k) → k ≤ i

/-- A plain name keeps the names tidy. -/
theorem Tidy.addName (h : Tidy taken) (hname : Plain name) : Tidy (addName taken name) := by
  have hfresh : numbered name taken.length ∉ taken := by
    intro hmem
    obtain ⟨i, hi⟩ := List.getElem?_of_mem hmem
    have hle := h.behind i name taken.length hi
    have hlt := (List.getElem?_eq_some_iff.1 hi).1
    omega
  refine ⟨addName_nodup.2 ⟨h.nodup, fun hclash => hfresh hclash.2⟩, fun i x k hi => ?_⟩
  unfold Body.addName at hi
  rcases Nat.lt_or_ge i taken.length with hlt | hge
  · exact h.behind i x k (by rwa [List.getElem?_append_left hlt] at hi)
  · rw [List.getElem?_append_right hge, List.getElem?_singleton] at hi
    split at hi
    · split at hi
      · obtain ⟨-, rfl⟩ := numbered_inj (Option.some.inj hi)
        exact hge
      · exact absurd (Option.some.inj hi) (hname x k)
    · simp at hi

theorem Tidy.addNames (h : Tidy taken) (hasked : ∀ name ∈ asked, Plain name) :
    Tidy (addNames taken asked) := by
  induction asked generalizing taken with
  | nil => exact h
  | cons first rest ih =>
    obtain ⟨hfirst, hrest⟩ := List.forall_mem_cons.1 hasked
    exact ih (h.addName hfirst) hrest

end Names

theorem names_newBlock (name : String) (b : Body) :
    (Build.after (newBlock name) b).names = addName b.names name := by
  simp [Build.after, newBlock, names, addName, freshName, numbered]

/-- A step that succeeds has asked for blocks of these names. If it asks for none, it leaves names
as they are, also if it fails. -/
structure Asks (α : Type) (step : Build Body α) (asked : List String) : Prop where
  names : ∀ b a b', step b = .ok a b' → b'.names = addNames b.names asked
  quiet : asked = [] → Build.Keeps (fun b b' : Body => b'.names = b.names) step

theorem Asks.ofQuiet {α : Type} {step : Build Body α}
    (h : Build.Keeps (fun b b' : Body => b'.names = b.names) step) : Asks α step [] where
  names b _ _ hrun := Build.after_of_ok hrun ▸ h b
  quiet _ := h

theorem compositional_asks : Compositional (fun _ => True) Asks where
  bind hx hf := by
    refine ⟨fun b a b' hrun => ?_, fun hasked => ?_⟩
    · obtain ⟨a₁, b₁, hrun₁, hrun₂⟩ := bind_ok hrun
      rw [(hf a₁).names b₁ a b' hrun₂, hx.names b a₁ b₁ hrun₁, addNames_append]
    · obtain ⟨hxs, hys⟩ := List.append_eq_nil_iff.1 hasked
      exact Build.Keeps.bind (R := fun b b' : Body => b'.names = b.names)
        (fun h h' => h'.trans h) (hx.quiet hxs) fun a => (hf a).quiet hys
  pure a := .ofQuiet fun _ => rfl
  check test := .ofQuiet fun b => by
    unfold Build.after Build.check
    cases test b <;> rfl
  newBlock name := by
    refine ⟨fun b a b' hrun => ?_, by simp⟩
    rw [← Build.after_of_ok hrun, names_newBlock]
    rfl
  store here field value := .ofQuiet fun b => (sameNames_push here _ b).2
  terminate here term := .ofQuiet fun b => (sameNames_terminate here term b).2
  pushNew ty here make _ _ := .ofQuiet fun b => (sameNames_pushNew ty here make b).2

end Body

namespace Emitter

open Body

theorem plain_blockName {role : String} (hrole : '.' ∉ role.toList) (color : Nat) :
    Plain (blockName role color) := by
  refine plain_of_notMem fun hmem => ?_
  simp only [blockName, Nat.toString_eq_repr, String.toList_append, Nat.toList_repr,
    List.mem_append, hrole, false_or] at hmem
  exact notMem_digits (by decide) color hmem

theorem plain_rebaseNames (color : Nat) : ∀ name ∈ rebaseNames color, Plain name := by
  simp [rebaseNames, plain_blockName]

theorem plain_flushNames (color : Nat) : ∀ name ∈ flushNames color, Plain name := by
  simp [flushNames, plain_blockName]

theorem plain_endNames (e : Emitter) (color : Nat) : ∀ name ∈ e.endNames color, Plain name := by
  unfold endNames
  split <;> simp [plain_blockName]

end Emitter

namespace Emission

open Body

/-- An emission asks for plain names only. -/
theorem plain_of_mem_blockNames {e : Emitter} {m : Emission} {name : String}
    (h : name ∈ m.blockNames e) : Plain name := by
  cases m with
  | spanStart here s => simp [blockNames] at h
  | spanEnd here s =>
    cases hs : e.locate s with
    | error err => simp [blockNames, hs] at h
    | ok found =>
      simp only [blockNames, hs] at h
      exact e.plain_endNames _ name h
  | prologue here =>
    obtain ⟨color, -, h⟩ := List.mem_flatMap.1 h
    exact Emitter.plain_rebaseNames color name h
  | epilogue here =>
    obtain ⟨color, -, h⟩ := List.mem_flatMap.1 h
    exact Emitter.plain_flushNames color name h

end Emission

namespace Body

inductive Request where
  | emit (e : Emitter) (m : Emission)
  | resume (path : Resumption) (p : Program) (target : FuncId)
  | record (r : ErrorRecord) (here : BlockId) (pos code : Operand)
  | newBlock (name : String)
  | load (here : BlockId) (field : Field)
  | store (here : BlockId) (field : Field) (value : Operand)
  | icmp (here : BlockId) (how : Comparison) (lhs rhs : Operand)
  | call (here : BlockId) (callee : Operand) (sig : Signature) (args : List Operand)
      (callees : Option (List FuncId))
  | leave (here : BlockId) (term : Terminator)

namespace Request

def run : Request → Build Body Unit
  | emit e m => do
    let _ ← m.run e
    return ()
  | resume path p target => path.resumeAt p target
  | record r here pos code => r.emit here pos code
  | newBlock name => do
    let _ ← Body.newBlock name
    return ()
  | load here field => do
    let _ ← Body.load here field
    return ()
  | store here field value => Body.store here field value
  | icmp here how lhs rhs => do
    let _ ← Body.icmp here how lhs rhs
    return ()
  | call here callee sig args callees => do
    let _ ← Body.call here callee sig args callees
    return ()
  | leave here term => terminate here term

/-- The names of the blocks that the request asks for. An emission that is objected to asks for
none. -/
def asked (b : Body) : Request → List String
  | emit e m => if Build.succeeds (m.run e) b then m.blockNames e else []
  | newBlock name => [name]
  | _ => []

def loaded : Request → List Field
  | emit e _ => e.loaded
  | load _ field => [field]
  | _ => []

def blockNames : Request → List String
  | emit e m => m.blockNames e
  | newBlock name => [name]
  | _ => []

end Request

theorem Compositional.request {Loads : Field → Prop}
    {P : (α : Type) → Build Body α → List String → Prop} (hP : Compositional Loads P) (r : Request)
    (hloaded : ∀ field ∈ r.loaded, Loads field) : P Unit r.run r.blockNames := by
  cases r with
  | emit e m => exact hP.map (hP.emission hloaded m) _
  | resume path p target => exact hP.resumeAt path p target
  | record r here pos code => exact hP.record here r pos code
  | newBlock name => exact hP.map (hP.newBlock name) _
  | load here field => exact hP.map (hP.load here (hloaded field (List.mem_singleton.2 rfl))) _
  | store here field value => exact hP.store here field value
  | icmp here how lhs rhs => exact hP.map (hP.icmp here how lhs rhs) _
  | call here callee sig args callees => exact hP.map (hP.call here callee sig args callees) _
  | leave here term => exact hP.terminate here term

namespace Request

theorem names_after (r : Request) (b : Body) :
    (Build.after r.run b).names = addNames b.names (r.asked b) := by
  have hasks := compositional_asks.request r fun _ _ => trivial
  cases r with
  | emit e m =>
    rcases m.run_cases e b with ⟨err, hrun⟩ | ⟨result, b', hrun, -⟩
    · have hfailed : (emit e m).run b = .error err b := bind_of_error hrun
      simp [Build.after, hfailed, asked, Build.succeeds, hrun, addNames]
    · have hdone : (emit e m).run b = .ok () b' := bind_of_ok hrun
      rw [Build.after_of_ok hdone, hasks.names b () b' hdone]
      simp [asked, blockNames, Build.succeeds, hrun]
  | newBlock name => exact names_newBlock name b
  | _ => exact hasks.quiet rfl b

end Request

def edited (requests : List Request) (b : Body) : Body :=
  requests.foldl (fun b r => Build.after r.run b) b

def asked : List Request → Body → List String
  | [], _ => []
  | r :: rest, b => r.asked b ++ asked rest (Build.after r.run b)

theorem names_edited (requests : List Request) (b : Body) :
    (edited requests b).names = addNames b.names (asked requests b) := by
  induction requests generalizing b with
  | nil => rfl
  | cons r rest ih =>
    change (edited rest (Build.after r.run b)).names = _
    rw [ih, r.names_after, asked, addNames_append]

/-- If the author asks for plain names only, so do all requests together. -/
theorem plain_of_mem_asked {requests : List Request}
    (h : ∀ name, .newBlock name ∈ requests → Plain name) (b : Body) :
    ∀ name ∈ asked requests b, Plain name := by
  induction requests generalizing b with
  | nil => simp [asked]
  | cons r rest ih =>
    intro name hname
    rcases List.mem_append.1 hname with hname | hname
    · unfold Request.asked at hname
      split at hname
      · split at hname
        · exact Emission.plain_of_mem_blockNames hname
        · simp at hname
      · obtain rfl := List.mem_singleton.1 hname
        exact h name List.mem_cons_self
      · simp at hname
    · exact ih (fun name hmem => h name (List.mem_cons_of_mem _ hmem)) _ name hname

/-- No two blocks are branched to by one label. -/
def LabelsApart (b : Body) : Prop :=
  ∀ i j, i < b.blocks.length → j < b.blocks.length →
    b.label ⟨b.id, i⟩ = b.label ⟨b.id, j⟩ → i = j

theorem labelsApart_iff (b : Body) : b.LabelsApart ↔ b.names.Nodup := by
  have hlabel : ∀ i (hi : i < b.blocks.length),
      b.label ⟨b.id, i⟩ = "label %" ++ b.blocks[i].name := by
    intro i hi
    simp [label, block?, hi]
  unfold LabelsApart names
  rw [List.nodup_iff_injective_get]
  constructor
  · intro h i j heq
    have hi : i.1 < b.blocks.length := by simpa using i.2
    have hj : j.1 < b.blocks.length := by simpa using j.2
    refine Fin.ext (h i j hi hj ?_)
    rw [hlabel i hi, hlabel j hj]
    simpa using heq
  · intro h i j hi hj heq
    rw [hlabel i hi, hlabel j hj, String.append_right_inj] at heq
    have hfin := @h ⟨i, by simpa using hi⟩ ⟨j, by simpa using hj⟩ (by simpa using heq)
    exact Fin.mk.inj hfin

/-- Labels identify blocks as long as nobody numbers names ahead. The names of the blocks of a new
body follow from the names that it was asked for, whatever else was done and whatever was refused.
They are distinct, and labels identify blocks, if and only if a block was never asked for by a taken
name that was taken with the block's number as well. This never happens if the names given by the
author have no number after a dot, whichever span code was emitted. -/
theorem labels_apart_without_clash (f : FuncId) (name : String) (sig : Signature)
    (params : List String) (requests : List Request) :
    let b := edited requests (start f name sig params)
    let wanted := asked requests (start f name sig params)
    b.names = addNames ["entry"] wanted ∧
    (b.LabelsApart ↔ b.names.Nodup) ∧
    (b.names.Nodup ↔ ∀ before next after, wanted = before ++ next :: after →
      ¬ Clash (addNames ["entry"] before) next) ∧
    ((∀ given, .newBlock given ∈ requests → Plain given) → b.LabelsApart) := by
  intro b wanted
  have hnames : b.names = addNames ["entry"] wanted := names_edited requests _
  refine ⟨hnames, b.labelsApart_iff, ?_, fun hgiven => ?_⟩
  · rw [hnames, addNames_nodup]
    simp
  · have hnone : Tidy [] := ⟨by simp, by simp⟩
    have hentry : Tidy ["entry"] := hnone.addName (plain_of_notMem (by decide))
    rw [b.labelsApart_iff, hnames]
    exact (hentry.addNames (plain_of_mem_asked hgiven _)).nodup

/-- A name is given twice, and a span ends twice. -/
theorem labels_apart_without_clash_twice :
    let b := edited [.newBlock "next", .newBlock "next",
      .emit (pairEmitter {}) (.spanEnd ⟨⟨2⟩, 0⟩ ⟨2⟩),
      .emit (pairEmitter {}) (.spanEnd ⟨⟨2⟩, 3⟩ ⟨2⟩)]
      (start ⟨2⟩ "parse" parserSig parserParams)
    b.names = ["entry", "next", "next.2", "span_end1", "span_end_error1", "span_end1.5",
      "span_end_error1.6"] ∧ b.LabelsApart := by
  refine ⟨by decide +kernel, (labels_apart_without_clash _ _ _ _ _).2.2.2 fun given hgiven => ?_⟩
  simp only [List.mem_cons, Request.newBlock.injEq, reduceCtorEq, List.not_mem_nil, or_false,
    or_self] at hgiven
  subst hgiven
  exact plain_of_notMem (by decide)

/-- The third block that is asked for gets the name of the first. -/
theorem labels_of_numbered_ahead :
    let b := edited [.newBlock "next.3", .newBlock "next", .newBlock "next"]
      (start ⟨0⟩ "parse" parserSig parserParams)
    b.names = ["entry", "next.3", "next", "next.3"] ∧
      b.label ⟨⟨0⟩, 1⟩ = b.label ⟨⟨0⟩, 3⟩ ∧ ¬ b.LabelsApart := by
  intro b
  have hnames : b.names = ["entry", "next.3", "next", "next.3"] := by decide +kernel
  refine ⟨hnames, by decide +kernel, ?_⟩
  rw [b.labelsApart_iff, hnames]
  decide

end Body

end SpanTracking
