import SpanTracking.Proofs.Construction
import SpanTracking.Proofs.Ledger

set_option autoImplicit false

/-!
# Delivery in pieces

An input may come in any number of buffers, each of them anywhere in memory. A span that is open at
the end of a buffer is handed over up to there and goes on at the start of the next one. Whatever
the cuts are, the calls for one occurrence of a span deliver it without gap or overlap, from its
first offset to its last.
-/

namespace SpanTracking

inductive Mark where
  | opens (span : SpanId) (offset : Nat)
  | closes (span : SpanId) (offset : Nat)
deriving DecidableEq

def Mark.offset : Mark → Nat
  | opens _ offset => offset
  | closes _ offset => offset

/-- A part of the input as a call gets it: where it lies in memory, its length, and the marks that
are handled in this call. -/
structure Buffer where
  position : Nat
  length : Nat
  marks : List Mark
deriving DecidableEq

structure Occurrence where
  span : SpanId
  start : Nat
  stop : Nat
deriving DecidableEq

namespace Delivery

def event (pos stop : Nat) : Mark → Event
  | .opens s _ => .openSpan s pos stop
  | .closes s _ => .closeSpan s pos stop

def events (base : Nat) (b : Buffer) : List Event :=
  .enter b.position (b.position + b.length) ::
    (b.marks.map fun m => event (b.position + (m.offset - base)) (b.position + b.length) m) ++
    [.leave (b.position + b.length) (b.position + b.length)]

/-- The events of all buffers, each with what to add to a position to get an offset. -/
def schedule (base : Nat) : List Buffer → List (Int × Event)
  | [] => []
  | b :: rest =>
    (events base b).map (fun e => ((base : Int) - b.position, e)) ++ schedule (base + b.length) rest

def ends (base : Nat) : List Buffer → List Nat
  | [] => []
  | b :: rest => (base + b.length) :: ends (base + b.length) rest

/-- The buffers make up the input from `base` to `total`, and the marks of a buffer lie in it, its
two ends included. -/
def Fits (total : Nat) (base : Nat) : List Buffer → Prop
  | [] => base = total
  | b :: rest =>
    (∀ m ∈ b.marks, base ≤ m.offset ∧ m.offset ≤ base + b.length) ∧
      Fits total (base + b.length) rest

instance decidableFits (total : Nat) : (base : Nat) → (buffers : List Buffer) →
    Decidable (Fits total base buffers)
  | base, [] => inferInstanceAs (Decidable (base = total))
  | base, b :: rest =>
    have := decidableFits total (base + b.length) rest
    inferInstanceAs (Decidable (_ ∧ _))

def closing (total : Nat) (s : SpanId) : List Mark → Nat
  | [] => total
  | .opens _ _ :: rest => closing total s rest
  | .closes r offset :: rest => if r = s then offset else closing total s rest

def occurrences (total : Nat) : List Mark → List Occurrence
  | [] => []
  | .opens s offset :: rest => ⟨s, offset, closing total s rest⟩ :: occurrences total rest
  | .closes _ _ :: rest => occurrences total rest

/-- The number of the occurrence that each span is open for, and the number of the next one. -/
structure Census where
  holder : SpanId → Option Nat := fun _ => none
  next : Nat := 0

def Census.after (census : Census) : Event → Census
  | .openSpan s _ _ => ⟨Function.update census.holder s (some census.next), census.next + 1⟩
  | .closeSpan s _ _ => { census with holder := Function.update census.holder s none }
  | .enter _ _ => census
  | .leave _ _ => census

def Census.served (census : Census) (order : List SpanId) : Event → List Nat
  | .openSpan _ _ _ => []
  | .closeSpan s _ _ => (census.holder s).toList
  | .enter _ _ => []
  | .leave _ _ => order.filterMap census.holder

def served (order : List SpanId) (census : Census) : List Event → List (List Nat)
  | [] => []
  | event :: rest => census.served order event :: served order (census.after event) rest

def absolute (shift : Int) (calls : List HostCall) : List (FuncId × Int × Int) :=
  calls.map fun call => (call.callee, call.start + shift, call.stop + shift)

def pick {α : Type} (k : Nat) (owners : List Nat) (items : List α) : List α :=
  (owners.zip items).filterMap fun x => if x.1 = k then some x.2 else none

def deliveries (k : Nat) : List (List Nat) → List (Int × List HostCall) → List (FuncId × Int × Int)
  | owners :: more, (shift, calls) :: rest =>
    pick k owners (absolute shift calls) ++ deliveries k more rest
  | _, _ => []

/-- Consecutive pieces from `start` through the given offsets. -/
def pieces (callback : FuncId) (start : Nat) : List Nat → List (FuncId × Int × Int)
  | [] => []
  | stop :: rest => (callback, start, stop) :: pieces callback stop rest

inductive Moment where
  | mark (m : Mark)
  | cut (offset : Nat)

def moments (base : Nat) : List Buffer → List Moment
  | [] => []
  | b :: rest =>
    b.marks.map .mark ++ .cut (base + b.length) :: moments (base + b.length) rest

namespace Moment

def offset : Moment → Nat
  | mark m => m.offset
  | cut offset => offset

def mark? : Moment → Option Mark
  | mark m => some m
  | cut _ => none

def cut? : Moment → Option Nat
  | mark _ => none
  | cut offset => some offset

end Moment

/-- The open spans, each with the number of its occurrence and the offset that it has been
delivered up to. -/
structure Standing where
  held : SpanId → Option (Nat × Nat) := fun _ => none
  next : Nat := 0

namespace Standing

def census (st : Standing) : Census := ⟨fun s => (st.held s).map Prod.fst, st.next⟩

def after (st : Standing) : Moment → Standing
  | .mark (.opens s offset) =>
    ⟨Function.update st.held s (some (st.next, offset)), st.next + 1⟩
  | .mark (.closes s _) => { st with held := Function.update st.held s none }
  | .cut offset => { st with held := fun s => (st.held s).map fun h => (h.1, offset) }

/-- What is delivered at a moment: the number of the occurrence, the span, and from where to
where. -/
def told (st : Standing) (order : List SpanId) : Moment → List (Nat × SpanId × Nat × Nat)
  | .mark (.opens _ _) => []
  | .mark (.closes s offset) => (st.held s).toList.map fun h => (h.1, s, h.2, offset)
  | .cut offset => order.filterMap fun s => (st.held s).map fun h => (h.1, s, h.2, offset)

end Standing

def told (order : List SpanId) (st : Standing) : List Moment → List (Nat × SpanId × Nat × Nat)
  | [] => []
  | moment :: rest => st.told order moment ++ told order (st.after moment) rest

def heard (c : Coloring) (k : Nat) (pieces : List (Nat × SpanId × Nat × Nat)) :
    List (FuncId × Int × Int) :=
  pieces.filterMap fun x => if x.1 = k then
    (c.span? x.2.1).map fun span => (span.callback, (x.2.2.1 : Int), (x.2.2.2 : Int)) else none

def passed (s : SpanId) : List Moment → List Nat
  | [] => []
  | .mark (.opens _ _) :: rest => passed s rest
  | .mark (.closes r offset) :: rest => if r = s then [offset] else passed s rest
  | .cut offset :: rest => offset :: passed s rest

section Moments

def InOrder (c : Coloring) (opened : List SpanId) (marks : List Mark) : Prop :=
  c.Orderly opened (marks.map fun m => event m.offset m.offset m)

instance (c : Coloring) (opened : List SpanId) (marks : List Mark) :
    Decidable (InOrder c opened marks) :=
  inferInstanceAs (Decidable (c.Orderly _ _))

def Moment.opened (opened : List SpanId) : Moment → List SpanId
  | mark m => (event m.offset m.offset m).opened opened
  | cut _ => opened

def Moment.Allowed (c : Coloring) (opened : List SpanId) : Moment → Prop
  | mark m => c.Allows opened (event m.offset m.offset m)
  | cut _ => True

theorem InOrder.cons {c : Coloring} {opened : List SpanId} {moment : Moment} {rest : List Moment}
    (h : InOrder c opened ((moment :: rest).filterMap Moment.mark?)) :
    moment.Allowed c opened ∧ InOrder c (moment.opened opened) (rest.filterMap Moment.mark?) := by
  cases moment with
  | mark m => exact h
  | cut offset => exact ⟨trivial, h⟩

structure Standing.Sound (st : Standing) (c : Coloring) (opened : List SpanId) : Prop where
  opens : ∀ s, s ∈ opened ↔ (st.held s).isSome
  known : ∀ s ∈ opened, s.index < c.spans.length
  begun : ∀ s h, st.held s = some h → h.1 < st.next
  apart : ∀ r s h h', st.held r = some h → st.held s = some h' → h.1 = h'.1 → r = s

variable {c : Coloring} {st : Standing} {opened : List SpanId}

theorem Standing.Sound.free (h : st.Sound c opened) {s : SpanId} {offset : Nat}
    (hallowed : (Moment.mark (.opens s offset)).Allowed c opened) : st.held s = none := by
  by_contra hs
  exact hallowed.2 s ((h.opens s).2 (Option.isSome_iff_ne_none.2 hs)) rfl

theorem Standing.Sound.after_opens (h : st.Sound c opened) {s : SpanId} {offset : Nat}
    (hallowed : (Moment.mark (.opens s offset)).Allowed c opened) :
    (st.after (.mark (.opens s offset))).Sound c (s :: opened) := by
  have hold : ∀ q f, q ≠ s → (st.after (.mark (.opens s offset))).held q = some f →
      st.held q = some f ∧ f.1 < st.next := by
    intro q f hq hf
    have hf' : st.held q = some f := by simpa [Standing.after, hq] using hf
    exact ⟨hf', h.begun q f hf'⟩
  have hnew : ∀ f, (st.after (.mark (.opens s offset))).held s = some f → f.1 = st.next := by
    intro f hf
    obtain rfl : (st.next, offset) = f := by simpa [Standing.after] using hf
    rfl
  refine ⟨?_, ?_, ?_, ?_⟩
  · intro q
    by_cases hq : q = s
    · simp [Standing.after, hq]
    · simp [Standing.after, hq, h.opens q]
  · intro q hq
    rcases List.mem_cons.1 hq with rfl | hq
    · exact hallowed.1
    · exact h.known q hq
  · intro q f hf
    have hnext : (st.after (.mark (.opens s offset))).next = st.next + 1 := rfl
    by_cases hq : q = s
    · subst hq
      have := hnew f hf
      omega
    · have := (hold q f hq hf).2
      omega
  · intro r q g g' hr hq hgg
    by_cases hrs : r = s <;> by_cases hqs : q = s
    · rw [hrs, hqs]
    · subst hrs
      have := hnew g hr
      have := (hold q g' hqs hq).2
      omega
    · subst hqs
      have := hnew g' hq
      have := (hold r g hrs hr).2
      omega
    · exact h.apart r q g g' (hold r g hrs hr).1 (hold q g' hqs hq).1 hgg

theorem Standing.Sound.after (h : st.Sound c opened) {moment : Moment}
    (hallowed : moment.Allowed c opened) : (st.after moment).Sound c (moment.opened opened) := by
  cases moment with
  | cut offset =>
    refine ⟨?_, h.known, ?_, ?_⟩
    · intro s
      simpa [Standing.after, Moment.opened] using h.opens s
    · intro s g hs
      obtain ⟨g', hg', rfl⟩ := Option.map_eq_some_iff.1 hs
      exact h.begun s g' hg'
    · intro r s g g' hr hs hgg
      obtain ⟨f, hf, rfl⟩ := Option.map_eq_some_iff.1 hr
      obtain ⟨f', hf', rfl⟩ := Option.map_eq_some_iff.1 hs
      exact h.apart r s f f' hf hf' hgg
  | mark m =>
    cases m with
    | opens s offset => exact h.after_opens hallowed
    | closes s offset =>
      have hold : ∀ q f, (st.after (.mark (.closes s offset))).held q = some f →
          st.held q = some f := by
        intro q f hf
        by_cases hq : q = s
        · simp [Standing.after, hq] at hf
        · simpa [Standing.after, hq] using hf
      refine ⟨?_, ?_, ?_, ?_⟩
      · intro q
        by_cases hq : q = s
        · simp [Standing.after, Moment.opened, event, Event.opened, hq]
        · simp [Standing.after, Moment.opened, event, Event.opened, hq, h.opens q]
      · intro q hq
        exact h.known q (List.mem_filter.1 hq).1
      · intro q g hq
        exact h.begun q g (hold q g hq)
      · intro r q g g' hr hq hgg
        exact h.apart r q g g' (hold r g hr) (hold q g' hq) hgg

theorem heard_append (c : Coloring) (k : Nat) (xs ys : List (Nat × SpanId × Nat × Nat)) :
    heard c k (xs ++ ys) = heard c k xs ++ heard c k ys := List.filterMap_append

/-- Nothing is delivered for an occurrence that no span is open for. -/
theorem heard_told_nil {order : List SpanId} {k : Nat}
    (hk : ∀ s h, st.held s = some h → h.1 ≠ k) (moment : Moment) :
    heard c k (st.told order moment) = [] := by
  rw [heard, List.filterMap_eq_nil_iff]
  intro x hx
  have hne : x.1 ≠ k := by
    cases moment with
    | mark m =>
      cases m with
      | opens s offset => simp [Standing.told] at hx
      | closes s offset =>
        obtain ⟨h, hh, rfl⟩ : ∃ h, st.held s = some h ∧ (h.1, s, h.2, offset) = x := by
          simpa [Standing.told] using hx
        exact hk s h hh
    | cut offset =>
      obtain ⟨s, -, hs⟩ := List.mem_filterMap.1 hx
      obtain ⟨h, hh, rfl⟩ := Option.map_eq_some_iff.1 hs
      exact hk s h hh
  simp [hne]

/-- After its span has closed, nothing more is delivered for an occurrence. -/
theorem heard_released {ms : List Moment} {order : List SpanId} {k : Nat} (hlt : k < st.next)
    (hk : ∀ s h, st.held s = some h → h.1 ≠ k) : heard c k (told order st ms) = [] := by
  induction ms generalizing st with
  | nil => rfl
  | cons moment rest ih =>
    have hnext : k < (st.after moment).next ∧
        ∀ s h, (st.after moment).held s = some h → h.1 ≠ k := by
      cases moment with
      | mark m =>
        cases m with
        | opens s offset =>
          refine ⟨Nat.lt_succ_of_lt hlt, ?_⟩
          intro q h hq
          by_cases hqs : q = s
          · obtain rfl : (st.next, offset) = h := by simpa [Standing.after, hqs] using hq
            exact Nat.ne_of_gt hlt
          · exact hk q h (by simpa [Standing.after, hqs] using hq)
        | closes s offset =>
          refine ⟨hlt, ?_⟩
          intro q h hq
          by_cases hqs : q = s
          · simp [Standing.after, hqs] at hq
          · exact hk q h (by simpa [Standing.after, hqs] using hq)
      | cut offset =>
        refine ⟨hlt, ?_⟩
        intro s h hs
        obtain ⟨h', hh', rfl⟩ := Option.map_eq_some_iff.1 hs
        exact hk s h' hh'
    rw [told, heard_append, heard_told_nil hk, ih hnext.1 hnext.2]
    rfl

/-- An open span is delivered from where it stands, up to each end of a buffer and to where it
closes. -/
theorem heard_held (hc : c.Valid) {ms : List Moment} (hst : st.Sound c opened)
    (horder : InOrder c opened (ms.filterMap Moment.mark?)) {s : SpanId} {k since : Nat}
    (hs : st.held s = some (k, since)) {span : SpanDecl} (hspan : c.span? s = some span) :
    heard c k (told c.colors.flatten st ms) = pieces span.callback since (passed s ms) := by
  induction ms generalizing st opened since with
  | nil => rfl
  | cons moment rest ih =>
    obtain ⟨hallowed, hrest⟩ := horder.cons
    have hst' := hst.after hallowed
    rw [told, heard_append]
    cases moment with
    | mark m =>
      cases m with
      | opens r offset =>
        have hne : s ≠ r := by
          rintro rfl
          simp [hst.free hallowed] at hs
        have hs' : (st.after (.mark (.opens r offset))).held s = some (k, since) := by
          simpa [Standing.after, hne] using hs
        rw [ih hst' hrest hs']
        rfl
      | closes r offset =>
        by_cases hrs : r = s
        · subst hrs
          have hlast : heard c k (st.told c.colors.flatten (.mark (.closes r offset))) =
              [(span.callback, (since : Int), (offset : Int))] := by
            simp [Standing.told, hs, heard, hspan]
          have hk : ∀ q h, (st.after (.mark (.closes r offset))).held q = some h → h.1 ≠ k := by
            intro q h hq hkq
            by_cases hqr : q = r
            · simp [Standing.after, hqr] at hq
            · have hq' : st.held q = some h := by simpa [Standing.after, hqr] using hq
              exact hqr (hst.apart q r h _ hq' hs hkq)
          have hlt : k < (st.after (.mark (.closes r offset))).next := hst.begun r _ hs
          rw [hlast, heard_released hlt hk]
          simp [passed, pieces]
        · have hs' : (st.after (.mark (.closes r offset))).held s = some (k, since) := by
            simpa [Standing.after, Ne.symm hrs] using hs
          have hnil : heard c k (st.told c.colors.flatten (.mark (.closes r offset))) = [] := by
            rw [heard, List.filterMap_eq_nil_iff]
            intro x hx
            obtain ⟨h, hh, rfl⟩ : ∃ h, st.held r = some h ∧ (h.1, r, h.2, offset) = x := by
              simpa [Standing.told] using hx
            have hne : h.1 ≠ k := fun hk => hrs (hst.apart r s h _ hh hs hk)
            simp [hne]
          rw [hnil, ih hst' hrest hs']
          simp [passed, hrs]
    | cut offset =>
      have hs' : (st.after (.cut offset)).held s = some (k, offset) := by
        simp [Standing.after, hs]
      have hmem : s ∈ c.colors.flatten :=
        hc.covered s.index (hst.known s ((hst.opens s).2 (by simp [hs])))
      have hpiece : heard c k (st.told c.colors.flatten (.cut offset)) =
          [(span.callback, (since : Int), (offset : Int))] := by
        rw [heard, Standing.told, List.filterMap_filterMap]
        refine filterMap_of_unique hc.nodup hmem (by simp [hs, hspan]) ?_
        intro r _ hrs
        cases hr : st.held r with
        | none => rfl
        | some h =>
          have hne : h.1 ≠ k := fun hk => hrs (hst.apart r s h _ hr hs hk)
          simp [hne]
      rw [hpiece, ih hst' hrest hs']
      rfl

/-- Every occurrence that begins is delivered from its first offset on. -/
theorem heard_begun (hc : c.Valid) {total : Nat} {ms : List Moment} (hst : st.Sound c opened)
    (horder : InOrder c opened (ms.filterMap Moment.mark?)) {i : Nat} {o : Occurrence}
    (ho : (occurrences total (ms.filterMap Moment.mark?))[i]? = some o) :
    ∃ span rest, c.span? o.span = some span ∧ .mark (.opens o.span o.start) :: rest <:+ ms ∧
      o.stop = closing total o.span (rest.filterMap Moment.mark?) ∧
      heard c (st.next + i) (told c.colors.flatten st ms) =
        pieces span.callback o.start (passed o.span rest) := by
  induction ms generalizing st opened i with
  | nil => simp [occurrences] at ho
  | cons moment rest ih =>
    obtain ⟨hallowed, hrest⟩ := horder.cons
    have hst' := hst.after hallowed
    -- nobody is open yet for an occurrence to come
    have hnil : heard c (st.next + i) (st.told c.colors.flatten moment) = [] := by
      refine heard_told_nil (fun s h hs => ?_) moment
      have := hst.begun s h hs
      omega
    rw [told, heard_append, hnil, List.nil_append]
    cases moment with
    | mark m =>
      cases m with
      | opens s offset =>
        cases i with
        | zero =>
          obtain rfl : ⟨s, offset, closing total s (rest.filterMap Moment.mark?)⟩ = o := by
            simpa [Moment.mark?, occurrences] using ho
          have hspan := List.getElem?_eq_getElem hallowed.1
          have hs : (st.after (.mark (.opens s offset))).held s = some (st.next, offset) := by
            simp [Standing.after]
          exact ⟨_, rest, hspan, List.suffix_rfl, rfl, heard_held hc hst' hrest hs hspan⟩
        | succ i =>
          have ho' : (occurrences total (rest.filterMap Moment.mark?))[i]? = some o := by
            simpa [Moment.mark?, occurrences] using ho
          obtain ⟨span, later, hspan, hsuffix, hstop, hheard⟩ := ih hst' hrest ho'
          refine ⟨span, later, hspan, hsuffix.trans (List.suffix_cons _ _), hstop, ?_⟩
          rw [← hheard, show st.next + (i + 1) = st.next + 1 + i by omega]
          rfl
      | closes s offset =>
        obtain ⟨span, later, hspan, hsuffix, hstop, hheard⟩ := ih hst' hrest ho
        exact ⟨span, later, hspan, hsuffix.trans (List.suffix_cons _ _), hstop, hheard⟩
    | cut offset =>
      obtain ⟨span, later, hspan, hsuffix, hstop, hheard⟩ := ih hst' hrest ho
      exact ⟨span, later, hspan, hsuffix.trans (List.suffix_cons _ _), hstop, hheard⟩

/-- A span passes the ends of buffers in turn, up to where it closes or the input ends. -/
theorem passed_eq {total : Nat} (s : SpanId) {ms : List Moment}
    (hlast : ms.getLast? = some (.cut total)) :
    ∃ joints, joints <+: ms.filterMap Moment.cut? ∧
      passed s ms = joints ++ [closing total s (ms.filterMap Moment.mark?)] := by
  induction ms with
  | nil => simp at hlast
  | cons moment rest ih =>
    cases moment with
    | mark m =>
      have hrest : rest.getLast? = some (.cut total) := by
        cases rest with
        | nil => simp at hlast
        | cons next later => simpa using hlast
      obtain ⟨joints, hprefix, hpassed⟩ := ih hrest
      cases m with
      | opens r offset => exact ⟨joints, hprefix, hpassed⟩
      | closes r offset =>
        by_cases hrs : r = s
        · exact ⟨[], List.nil_prefix, by simp [passed, hrs, Moment.mark?, closing]⟩
        · exact ⟨joints, hprefix, by simp [passed, hrs, Moment.mark?, closing, hpassed]⟩
    | cut offset =>
      cases rest with
      | nil =>
        obtain rfl : offset = total := by simpa using hlast
        exact ⟨[], List.nil_prefix, rfl⟩
      | cons next later =>
        obtain ⟨joints, hprefix, hpassed⟩ := ih (by simpa using hlast)
        exact ⟨offset :: joints, (List.prefix_cons_inj offset).2 hprefix,
          congrArg (offset :: ·) hpassed⟩

theorem passed_sublist (s : SpanId) (ms : List Moment) :
    (passed s ms).Sublist (ms.map Moment.offset) := by
  induction ms with
  | nil => exact .slnil
  | cons moment rest ih =>
    cases moment with
    | mark m =>
      cases m with
      | opens r offset => exact ih.cons _
      | closes r offset =>
        by_cases hrs : r = s
        · simp only [passed, hrs, ↓reduceIte]
          exact (List.nil_sublist _).cons_cons offset
        · simpa [passed, hrs] using ih.cons _
    | cut offset => exact ih.cons_cons offset

end Moments

section Buffers

theorem moments_marks (base : Nat) (buffers : List Buffer) :
    (moments base buffers).filterMap Moment.mark? = buffers.flatMap Buffer.marks := by
  induction buffers generalizing base with
  | nil => rfl
  | cons b rest ih =>
    have hmarks : (b.marks.map Moment.mark).filterMap Moment.mark? = b.marks := by
      rw [List.filterMap_map]
      exact List.filterMap_some
    rw [moments, List.filterMap_append, hmarks, List.filterMap_cons_none rfl, ih, List.flatMap_cons]

theorem moments_cuts (base : Nat) (buffers : List Buffer) :
    (moments base buffers).filterMap Moment.cut? = ends base buffers := by
  induction buffers generalizing base with
  | nil => rfl
  | cons b rest ih =>
    have hmarks : (b.marks.map Moment.mark).filterMap Moment.cut? = [] := by
      rw [List.filterMap_eq_nil_iff]
      intro moment hmoment
      obtain ⟨m, -, rfl⟩ := List.mem_map.1 hmoment
      rfl
    rw [moments, List.filterMap_append, hmarks]
    exact congrArg ((base + b.length) :: ·) (ih (base + b.length))

theorem moments_getLast {total base : Nat} {buffers : List Buffer} (hne : buffers ≠ [])
    (hfits : Fits total base buffers) :
    (moments base buffers).getLast? = some (.cut total) := by
  induction buffers generalizing base with
  | nil => exact absurd rfl hne
  | cons b rest ih =>
    rw [moments, List.getLast?_append]
    cases rest with
    | nil =>
      have htotal : base + b.length = total := hfits.2
      simp [moments, htotal]
    | cons next later =>
      have hlast := ih (List.cons_ne_nil _ _) hfits.2
      rw [List.getLast?_cons, hlast]
      rfl

theorem moments_sorted {total base : Nat} {buffers : List Buffer} (hfits : Fits total base buffers)
    (hsorted : (buffers.flatMap Buffer.marks).Pairwise fun m n => m.offset ≤ n.offset) :
    (∀ moment ∈ moments base buffers, base ≤ moment.offset) ∧
      (moments base buffers).Pairwise fun m n => m.offset ≤ n.offset := by
  induction buffers generalizing base with
  | nil => exact ⟨by simp [moments], .nil⟩
  | cons b rest ih =>
    rw [List.flatMap_cons, List.pairwise_append] at hsorted
    obtain ⟨hhere, hlater, -⟩ := hsorted
    obtain ⟨hmarks, hfits'⟩ := hfits
    obtain ⟨hge, hpairwise⟩ := ih hfits' hlater
    have hcut : ∀ moment ∈ Moment.cut (base + b.length) :: moments (base + b.length) rest,
        base + b.length ≤ moment.offset := by
      intro moment hmoment
      rcases List.mem_cons.1 hmoment with rfl | hmoment
      · exact Nat.le_refl _
      · exact hge moment hmoment
    have hmark : ∀ moment ∈ b.marks.map Moment.mark,
        base ≤ moment.offset ∧ moment.offset ≤ base + b.length := by
      intro moment hmoment
      obtain ⟨m, hm, rfl⟩ := List.mem_map.1 hmoment
      exact hmarks m hm
    constructor
    · intro moment hmoment
      rcases List.mem_append.1 hmoment with hmoment | hmoment
      · exact (hmark moment hmoment).1
      · have := hcut moment hmoment
        omega
    · refine List.pairwise_append.2 ⟨List.pairwise_map.2 hhere, ?_, ?_⟩
      · exact List.pairwise_cons.2 ⟨hge, hpairwise⟩
      · intro m hm n hn
        have := (hmark m hm).2
        have := hcut n hn
        omega

end Buffers

section Schedule

variable {c : Coloring} {st : Standing} {l : Ledger} {opened : List SpanId}

def delivered (c : Coloring) (sentinel : Int32) (k : Nat) (census : Census) (l : Ledger) :
    List (Int × Event) → List (FuncId × Int × Int)
  | [] => []
  | (shift, event) :: rest =>
    let entry := l.step sentinel c.colors.flatten (fun _ => 0) event
    pick k (census.served c.colors.flatten event) (absolute shift (c.calls entry.handed)) ++
      delivered c sentinel k (census.after event) entry.ledger rest

theorem deliveries_eq (c : Coloring) (sentinel : Int32) (k : Nat) (census : Census) (l : Ledger)
    (schedule : List (Int × Event)) :
    deliveries k (served c.colors.flatten census (schedule.map Prod.snd))
        ((schedule.map Prod.fst).zip ((Ledger.run sentinel c.colors.flatten
          (schedule.map fun x => (fun _ => 0, x.2)) l).map fun entry => c.calls entry.handed)) =
      delivered c sentinel k census l schedule := by
  induction schedule generalizing census l with
  | nil => rfl
  | cons x rest ih =>
    simp only [List.map_cons, served, Ledger.run, List.zip_cons_cons, deliveries, delivered, ih]

theorem pick_filterMap {α β : Type} (k : Nat) {f : α → Option Nat} {g : α → Option β}
    (list : List α) (hfg : ∀ a, (f a).isSome = (g a).isSome) :
    pick k (list.filterMap f) (list.filterMap g) =
      list.filterMap fun a => if f a = some k then g a else none := by
  induction list with
  | nil => rfl
  | cons a rest ih =>
    have ha := hfg a
    cases hf : f a with
    | none =>
      have hg : g a = none := by simpa [hf] using ha
      rw [List.filterMap_cons_none hf, List.filterMap_cons_none hg, ih,
        List.filterMap_cons_none (by simp [hf])]
    | some n =>
      obtain ⟨b, hg⟩ := Option.isSome_iff_exists.1 (ha.symm.trans (by simp [hf]))
      rw [List.filterMap_cons_some hf, List.filterMap_cons_some hg, pick, List.zip_cons_cons,
        List.filterMap_cons, List.filterMap_cons, ← ih, pick]
      by_cases hn : n = k
      · simp [hf, hg, hn]
      · simp [hf, hn]

/-- In a buffer at `position` whose first byte is at the offset `base`, the ledger has the open
spans where the standing has them. -/
structure Accords (st : Standing) (l : Ledger) (base position : Nat) : Prop where
  starts : ∀ s, l.starts s = (st.held s).map fun h => position + (h.2 - base)
  within : ∀ s h, st.held s = some h → base ≤ h.2

theorem census_after (st : Standing) (m : Mark) (pos stop : Nat) :
    st.census.after (event pos stop m) = (st.after (.mark m)).census := by
  cases m with
  | opens s offset =>
    simp only [event, Census.after, Standing.census, Standing.after, Census.mk.injEq, and_true]
    funext r
    by_cases hr : r = s <;> simp [hr]
  | closes s offset =>
    simp only [event, Census.after, Standing.census, Standing.after, Census.mk.injEq, and_true]
    funext r
    by_cases hr : r = s <;> simp [hr]

theorem Accords.mark {base position : Nat} (h : Accords st l base position) {m : Mark}
    (hm : base ≤ m.offset) (sentinel : Int32) (order : List SpanId) (stop : Nat) :
    Accords (st.after (.mark m))
      (l.step sentinel order (fun _ => 0) (event (position + (m.offset - base)) stop m)).ledger
      base position := by
  cases m with
  | opens s offset =>
    refine ⟨?_, ?_⟩
    · intro r
      by_cases hr : r = s
      · simp [event, Ledger.step, Standing.after, hr, Mark.offset]
      · simp [event, Ledger.step, Standing.after, hr, h.starts r]
    · intro r g hg
      by_cases hr : r = s
      · obtain rfl : (st.next, offset) = g := by simpa [Standing.after, hr] using hg
        exact hm
      · exact h.within r g (by simpa [Standing.after, hr] using hg)
  | closes s offset =>
    refine ⟨?_, ?_⟩
    · intro r
      by_cases hr : r = s
      · simp [event, Ledger.step, Standing.after, hr]
      · simp [event, Ledger.step, Standing.after, hr, h.starts r]
    · intro r g hg
      by_cases hr : r = s
      · simp [Standing.after, hr] at hg
      · exact h.within r g (by simpa [Standing.after, hr] using hg)

theorem Accords.pick_mark {base position : Nat} (h : Accords st l base position)
    (hst : st.Sound c opened) {m : Mark} (hm : base ≤ m.offset) (sentinel : Int32) (k stop : Nat) :
    pick k (st.census.served c.colors.flatten (event (position + (m.offset - base)) stop m))
        (absolute ((base : Int) - position) (c.calls (l.step sentinel c.colors.flatten (fun _ => 0)
          (event (position + (m.offset - base)) stop m)).handed)) =
      heard c k (st.told c.colors.flatten (.mark m)) := by
  cases m with
  | opens s offset => rfl
  | closes s offset =>
    cases hs : st.held s with
    | none => simp [event, Census.served, Standing.census, Standing.told, hs, pick, heard]
    | some g =>
      have hspan := List.getElem?_eq_getElem (hst.known s ((hst.opens s).2 (by simp [hs])))
      have hspan' : c.span? s = some _ := hspan
      have hg := h.within s g hs
      have hfrom : ((position + (g.2 - base) : Nat) : Int) + ((base : Int) - position) = g.2 := by
        omega
      have hto : ((position + (offset - base) : Nat) : Int) + ((base : Int) - position) =
          offset := by
        simp only [Mark.offset] at hm
        omega
      simp only [event, Mark.offset, Census.served, Standing.census, Standing.told, hs, Ledger.step,
        h.starts s, Option.map_some, Option.toList_some, List.map_cons, List.map_nil, ↓reduceIte,
        Coloring.calls, List.filterMap_cons, List.filterMap_nil, hspan', absolute, hfrom, hto, pick,
        List.zip_cons_cons, List.zip_nil_right, heard]

theorem Accords.pick_cut {base position : Nat} (h : Accords st l base position)
    (hst : st.Sound c opened) (k length : Nat) :
    pick k (c.colors.flatten.filterMap st.census.holder)
        (absolute ((base : Int) - position)
          (c.calls (l.flushed c.colors.flatten (position + length)))) =
      heard c k (st.told c.colors.flatten (.cut (base + length))) := by
  have hcalls : absolute ((base : Int) - position)
      (c.calls (l.flushed c.colors.flatten (position + length))) =
        c.colors.flatten.filterMap fun s => (st.held s).bind fun g => (c.span? s).map fun span =>
          (span.callback, (g.2 : Int), ((base + length : Nat) : Int)) := by
    rw [absolute, Coloring.calls, Ledger.flushed, List.filterMap_filterMap, List.map_filterMap]
    congr 1
    funext s
    cases hs : st.held s with
    | none => simp [h.starts s, hs]
    | some g =>
      have hg := h.within s g hs
      have hfrom : ((position + (g.2 - base) : Nat) : Int) + ((base : Int) - position) = g.2 := by
        omega
      have hto : ((position + length : Nat) : Int) + ((base : Int) - position) =
          ((base + length : Nat) : Int) := by
        omega
      simp only [h.starts s, hs, Option.map_some, Option.bind_some, Option.map_map]
      congr 1
      funext span
      simp only [Function.comp, hfrom, hto]
  have hsome : ∀ s, (st.census.holder s).isSome = ((st.held s).bind fun g =>
      (c.span? s).map fun span =>
        (span.callback, (g.2 : Int), ((base + length : Nat) : Int))).isSome := by
    intro s
    cases hs : st.held s with
    | none => simp [Standing.census, hs]
    | some g =>
      have hspan := List.getElem?_eq_getElem (hst.known s ((hst.opens s).2 (by simp [hs])))
      simp [Standing.census, hs, Coloring.span?, hspan]
  rw [hcalls, pick_filterMap k _ hsome, heard, Standing.told, List.filterMap_filterMap]
  congr 1
  funext s
  cases hs : st.held s with
  | none => simp [Standing.census, hs]
  | some g => simp [Standing.census, hs]

theorem delivered_marks (sentinel : Int32) (k stop : Nat) {base position : Nat}
    {later : List (Int × Event)} {moments : List Moment}
    (hlater : ∀ st l opened, st.Sound c opened →
      InOrder c opened (moments.filterMap Moment.mark?) → Accords st l base position →
        delivered c sentinel k st.census l later = heard c k (told c.colors.flatten st moments))
    {marks : List Mark} (hmarks : ∀ m ∈ marks, base ≤ m.offset) (hst : st.Sound c opened)
    (horder : InOrder c opened ((marks.map Moment.mark ++ moments).filterMap Moment.mark?))
    (hl : Accords st l base position) :
    delivered c sentinel k st.census l
        ((marks.map fun m => ((base : Int) - position,
          event (position + (m.offset - base)) stop m)) ++ later) =
      heard c k (told c.colors.flatten st (marks.map Moment.mark ++ moments)) := by
  induction marks generalizing st l opened with
  | nil => exact hlater st l opened hst horder hl
  | cons m rest ih =>
    simp only [List.mem_cons, forall_eq_or_imp] at hmarks
    obtain ⟨hallowed, hrest⟩ := horder.cons
    have hnext := ih hmarks.2 (hst.after hallowed) hrest
      (hl.mark hmarks.1 sentinel c.colors.flatten stop)
    simp only [List.map_cons, List.cons_append, delivered, told, heard_append]
    rw [hl.pick_mark hst hmarks.1, census_after, hnext]

/-- All buffers deliver what is told of their moments. -/
theorem delivered_schedule (sentinel : Int32) (k : Nat) {total base : Nat} {buffers : List Buffer}
    (hfits : Fits total base buffers) (hst : st.Sound c opened)
    (horder : InOrder c opened ((moments base buffers).filterMap Moment.mark?))
    (hopen : ∀ s, (l.starts s).isSome = (st.held s).isSome)
    (hbase : ∀ s h, st.held s = some h → h.2 = base) :
    delivered c sentinel k st.census l (schedule base buffers) =
      heard c k (told c.colors.flatten st (moments base buffers)) := by
  induction buffers generalizing st l opened base with
  | nil => rfl
  | cons b rest ih =>
    obtain ⟨hmarks, hfits'⟩ := hfits
    have henter : Accords st { l with starts := fun s => (l.starts s).map fun _ => b.position } base
        b.position := by
      refine ⟨?_, fun s h hs => (hbase s h hs).ge⟩
      intro s
      have hs := hopen s
      cases hh : st.held s with
      | none =>
        have hnone : l.starts s = none := by simpa [hh] using hs
        simp [hnone]
      | some h =>
        obtain ⟨start, hstart⟩ := Option.isSome_iff_exists.1 (hs.trans (by simp [hh]))
        simp [hstart, hbase s h hh]
    have hlater : ∀ st l opened, st.Sound c opened →
        InOrder c opened ((Moment.cut (base + b.length) ::
          moments (base + b.length) rest).filterMap Moment.mark?) → Accords st l base b.position →
        delivered c sentinel k st.census l (((base : Int) - b.position,
            .leave (b.position + b.length) (b.position + b.length)) ::
              schedule (base + b.length) rest) =
          heard c k (told c.colors.flatten st (Moment.cut (base + b.length) ::
            moments (base + b.length) rest)) := by
      intro st l opened hst horder hl
      obtain ⟨hallowed, hrest⟩ := horder.cons
      have hcensus : st.census = (st.after (.cut (base + b.length))).census := by
        simp [Standing.census, Standing.after, Option.map_map, Function.comp_def]
      have hnext := ih hfits' (hst.after hallowed) hrest (l := l)
        (fun s => by simp [Standing.after, hl.starts s]) (fun s h hs => by
          obtain ⟨h', -, rfl⟩ := Option.map_eq_some_iff.1 hs
          rfl)
      rw [← hcensus] at hnext
      simp only [delivered, told, heard_append, Census.served, Census.after, Ledger.step]
      rw [hl.pick_cut hst, hnext]
    have hrun := delivered_marks sentinel k (b.position + b.length) hlater
      (fun m hm => (hmarks m hm).1) hst horder henter
    simp only [schedule, events, List.map_cons, List.cons_append, List.map_append, List.map_map,
      List.append_assoc, List.map_nil, List.nil_append, delivered, moments]
    simpa [Function.comp_def, pick, Census.served, Census.after, Ledger.step] using hrun

theorem orderly_marks (pos : Mark → Nat) (stop : Nat) {marks : List Mark} {later : List Event}
    {rest : List Mark} (hlater : ∀ opened, InOrder c opened rest → c.Orderly opened later)
    (horder : InOrder c opened (marks ++ rest)) :
    c.Orderly opened ((marks.map fun m => event (pos m) stop m) ++ later) := by
  induction marks generalizing opened with
  | nil => exact hlater opened horder
  | cons m marks ih =>
    obtain ⟨hallows, hrest⟩ := horder
    -- positions do not matter for the order
    cases m with
    | opens s offset => exact ⟨hallows, ih hrest⟩
    | closes s offset => exact ⟨hallows, ih hrest⟩

theorem orderly_schedule {base : Nat} {buffers : List Buffer}
    (horder : InOrder c opened (buffers.flatMap Buffer.marks)) :
    c.Orderly opened ((schedule base buffers).map Prod.snd) := by
  induction buffers generalizing base opened with
  | nil => trivial
  | cons b rest ih =>
    have hlater : ∀ opened, InOrder c opened (rest.flatMap Buffer.marks) →
        c.Orderly opened (.leave (b.position + b.length) (b.position + b.length) ::
          (schedule (base + b.length) rest).map Prod.snd) :=
      fun opened hrest => ⟨trivial, ih hrest⟩
    have hmarks := orderly_marks (fun m => b.position + (m.offset - base)) (b.position + b.length)
      hlater horder
    simp only [schedule, events, List.map_append, List.map_map, List.map_cons, List.cons_append,
      List.append_assoc, List.map_nil, List.nil_append]
    exact ⟨trivial, by simpa [Function.comp_def, Event.opened] using hmarks⟩

theorem calls_length {handed : List (SpanId × Nat × Nat)}
    (h : ∀ x ∈ handed, x.1.index < c.spans.length) : (c.calls handed).length = handed.length := by
  rw [Coloring.calls, List.length_filterMap_eq_countP, List.countP_eq_length]
  intro x hx
  simp [Coloring.span?, h x hx]

/-- Every event succeeds, and has as many calls as there are occurrences to serve. -/
theorem served_step {census : Census} (hsame : ∀ s, (census.holder s).isSome = (l.starts s).isSome)
    (hknown : ∀ s, (l.starts s).isSome → s.index < c.spans.length) (sentinel : Int32)
    (event : Event) :
    (l.step sentinel c.colors.flatten (fun _ => 0) event).status = 0 ∧
      (census.served c.colors.flatten event).length =
        (c.calls (l.step sentinel c.colors.flatten (fun _ => 0) event).handed).length ∧
      ∀ s, ((census.after event).holder s).isSome =
        ((l.step sentinel c.colors.flatten (fun _ => 0) event).ledger.starts s).isSome := by
  cases event with
  | openSpan s pos stop =>
    refine ⟨rfl, rfl, fun r => ?_⟩
    by_cases hr : r = s <;> simp [Census.after, Ledger.step, hr, hsame r]
  | closeSpan s pos stop =>
    refine ⟨rfl, ?_, fun r => ?_⟩
    · have hs := hsame s
      cases hstart : l.starts s with
      | none =>
        have hnone : census.holder s = none := by simpa [hstart] using hs
        simp [Census.served, Ledger.step, hstart, hnone, Coloring.calls]
      | some start =>
        obtain ⟨k, hk⟩ := Option.isSome_iff_exists.1 (hs.trans (by simp [hstart]))
        rw [calls_length]
        · simp [Census.served, Ledger.step, hstart, hk]
        · simpa [Ledger.step, hstart] using hknown s (by simp [hstart])
    · by_cases hr : r = s <;> simp [Census.after, Ledger.step, hr, hsame r]
  | enter pos stop =>
    refine ⟨rfl, rfl, fun r => ?_⟩
    simp [Census.after, Ledger.step, hsame r]
  | leave pos stop =>
    refine ⟨rfl, ?_, hsame⟩
    rw [calls_length]
    · simp only [Census.served, Ledger.step, Ledger.flushed, List.length_filterMap_eq_countP,
        Option.isSome_map, hsame]
    · intro x hx
      obtain ⟨s, -, hs⟩ := List.mem_filterMap.1 hx
      obtain ⟨start, hstart, rfl⟩ := Option.map_eq_some_iff.1 hs
      exact hknown s (by simp [hstart])

theorem served_run {census : Census} (hsame : ∀ s, (census.holder s).isSome = (l.starts s).isSome)
    (hopened : l.Opens opened) (hknown : ∀ s ∈ opened, s.index < c.spans.length)
    (sentinel : Int32) {events : List Event} (horder : c.Orderly opened events) :
    List.Forall₂ (fun owners (entry : Ledger.Entry) =>
        entry.status = 0 ∧ owners.length = (c.calls entry.handed).length)
      (served c.colors.flatten census events)
      (Ledger.run sentinel c.colors.flatten (events.map fun e => (fun _ => 0, e)) l) := by
  induction events generalizing census l opened with
  | nil => exact .nil
  | cons event rest ih =>
    obtain ⟨hallows, hrest⟩ := horder
    obtain ⟨hstatus, hlength, hsame'⟩ := served_step hsame
      (fun s hs => hknown s ((hopened s).2 hs)) sentinel event
    have hknown' : ∀ s ∈ event.opened opened, s.index < c.spans.length := by
      intro s hs
      cases event with
      | openSpan r pos stop =>
        rcases List.mem_cons.1 hs with rfl | hs
        · exact hallows.1
        · exact hknown s hs
      | closeSpan r pos stop => exact hknown s (List.mem_filter.1 hs).1
      | enter pos stop => exact hknown s hs
      | leave pos stop => exact hknown s hs
    exact .cons ⟨hstatus, hlength⟩
      (ih hsame' (hopened.step sentinel c.colors.flatten _ event) hknown' hrest)

/-- A schedule delivers every occurrence in consecutive pieces. -/
theorem delivered_occurrence (hc : c.Valid) (sentinel : Int32) {total : Nat} {buffers : List Buffer}
    (hfits : Fits total 0 buffers)
    (hsorted : (buffers.flatMap Buffer.marks).Pairwise fun m n => m.offset ≤ n.offset)
    (horder : InOrder c [] (buffers.flatMap Buffer.marks)) {k : Nat} {o : Occurrence}
    (ho : (occurrences total (buffers.flatMap Buffer.marks))[k]? = some o) :
    ∃ span joints, c.span? o.span = some span ∧ joints <:+: ends 0 buffers ∧
      (o.start :: joints ++ [o.stop]).Pairwise (· ≤ ·) ∧
      delivered c sentinel k {} {} (schedule 0 buffers) =
        pieces span.callback o.start (joints ++ [o.stop]) := by
  have hst : ({} : Standing).Sound c [] := by
    refine ⟨?_, ?_, ?_, ?_⟩ <;> simp
  rw [← moments_marks 0 buffers] at ho horder
  obtain ⟨span, rest, hspan, hsuffix, hstop, hheard⟩ := heard_begun hc hst horder ho
  have hne : buffers ≠ [] := by
    rintro rfl
    simp [moments] at hsuffix
  -- the moments after the opening end with the last cut
  obtain ⟨front, hfront⟩ := hsuffix
  have hlast : rest.getLast? = some (.cut total) := by
    have hall := moments_getLast hne hfits
    rw [← hfront, List.getLast?_append, List.getLast?_cons] at hall
    cases hrest : rest.getLast? with
    | none => simp [hrest] at hall
    | some moment => simpa [hrest] using hall
  obtain ⟨joints, hprefix, hpassed⟩ := passed_eq o.span hlast
  rw [← hstop] at hpassed
  refine ⟨span, joints, hspan, ?_, ?_, ?_⟩
  · rw [← moments_cuts 0 buffers, ← hfront, List.filterMap_append]
    exact hprefix.isInfix.trans (List.suffix_append _ _).isInfix
  · have hmoments := (moments_sorted hfits hsorted).2
    rw [← hfront, List.pairwise_append] at hmoments
    have hoffsets := List.pairwise_map.2 hmoments.2.1
    rw [List.cons_append, ← hpassed]
    exact hoffsets.sublist ((passed_sublist o.span rest).cons_cons o.start)
  · rw [← hpassed, ← hheard, Nat.zero_add]
    exact delivered_schedule sentinel k hfits hst horder (fun _ => rfl) (by simp)

section Parser

variable {σ : Type} {parser : EventParser} {run : List (Option (Except Fault Int32) × World σ)}
  {entries : List Ledger.Entry}

theorem calls_of_tells (h : List.Forall₂ (fun x entry => parser.Tells x.1 x.2 entry) run entries) :
    run.map (fun x => x.2.calls.toList) =
      entries.map fun entry => parser.emitter.coloring.calls entry.handed := by
  induction h with
  | nil => rfl
  | cons htells _ ih => rw [List.map_cons, List.map_cons, htells.calls, ih]

theorem served_of_tells (h : List.Forall₂ (fun x entry => parser.Tells x.1 x.2 entry) run entries)
    {owners : List (List Nat)}
    (hserved : List.Forall₂ (fun ks (entry : Ledger.Entry) => entry.status = 0 ∧
      ks.length = (parser.emitter.coloring.calls entry.handed).length) owners entries) :
    List.Forall₂ (fun ks x => x.1 = some (.ok 0) ∧ ks.length = x.2.calls.size) owners run := by
  induction h generalizing owners with
  | nil =>
    cases hserved
    exact .nil
  | cons htells _ ih =>
    cases hserved with
    | cons hfirst hrest =>
      refine .cons ⟨?_, ?_⟩ (ih hrest)
      · rw [htells.status, hfirst.1]
      · rw [hfirst.2, ← htells.calls, Array.length_toList]

end Parser

/-- Take any valid coloring and its generated parser, callbacks that return zero, and marks at
offsets that do not decrease, in order. However the input is cut into buffers, every event succeeds
and every call is for one occurrence of a span. The calls for an occurrence are consecutive pieces
from where it opens to where it closes, or to the end of the input, and the joints between them are
the ends of successive buffers. -/
theorem deliveries_consecutive {σ : Type} {options : SpanOptions} {p p' : Program}
    {parser : EventParser} (hp : p.Reachable) (hc : c.Valid)
    (hparser : EventParser.generate options c p = .ok parser p') {host : Host σ}
    (hhost : host.Answers parser.program c fun _ => 0) {limit : Nat}
    (hlimit : 1 + 2 * c.colors.length ≤ limit) (depth : Nat) {trace : List Mark}
    (hsorted : trace.Pairwise fun m n => m.offset ≤ n.offset) (horder : InOrder c [] trace)
    {total : Nat} {buffers : List Buffer} (hfits : Fits total 0 buffers)
    (hcut : buffers.flatMap Buffer.marks = trace) (state : σ) :
    let plan := schedule 0 buffers
    let owners := served c.colors.flatten {} (plan.map Prod.snd)
    let run := parser.run limit (depth + 1) (plan.map fun x => (host, x.2))
      ⟨Memory.fresh parser.program.layout, state, #[]⟩
    List.Forall₂ (fun ks x => x.1 = some (.ok 0) ∧ ks.length = x.2.calls.size) owners run ∧
      ∀ (k : Nat) (o : Occurrence), (occurrences total trace)[k]? = some o →
        ∃ span joints, c.span? o.span = some span ∧ joints <:+: ends 0 buffers ∧
          (o.start :: joints ++ [o.stop]).Pairwise (· ≤ ·) ∧
          deliveries k owners
              ((plan.map Prod.fst).zip (run.map fun x => x.2.calls.toList)) =
            pieces span.callback o.start (joints ++ [o.stop]) := by
  intro plan owners run
  obtain ⟨hgenerated, rfl, -⟩ := EventParser.generate_ok hp.numbered hc hparser
  obtain rfl := hgenerated.coloring
  subst hcut
  have hplan : parser.emitter.coloring.Orderly [] (plan.map Prod.snd) := orderly_schedule horder
  have hopens : ({} : Ledger).Opens [] := by simp [Ledger.Opens]
  have hsteps : ∀ x ∈ plan.map fun x => ((fun _ => 0 : SpanId → Int32), host, x.2),
      x.2.1.Answers parser.program parser.emitter.coloring x.1 ∧ ∀ s, x.1 s = 0 := by
    intro x hx
    obtain ⟨y, -, rfl⟩ := List.mem_map.1 hx
    exact ⟨hhost, fun _ => rfl⟩
  have htells := hgenerated.run_ledger hc hlimit depth (fun x hx => (hsteps x hx).1)
    (fun x hx _ _ _ => (hsteps x hx).2) hopens (by simpa [Function.comp_def] using hplan)
    (Represents.fresh hgenerated.ready hc.nonempty state) (Scheme.Follows.fresh _)
  simp only [List.map_map, Function.comp_def] at htells
  have hsame : ∀ s, (({} : Census).holder s).isSome = (({} : Ledger).starts s).isSome :=
    fun _ => rfl
  have hserved := served_run hsame hopens (by simp) options.errorSentinel hplan
  simp only [List.map_map, Function.comp_def] at hserved
  refine ⟨served_of_tells htells hserved, ?_⟩
  intro k o ho
  obtain ⟨span, joints, hspan, hjoints, hle, hdelivered⟩ :=
    delivered_occurrence hc options.errorSentinel hfits hsorted horder ho
  refine ⟨span, joints, hspan, hjoints, hle, ?_⟩
  rw [calls_of_tells htells, ← hdelivered]
  exact deliveries_eq parser.emitter.coloring options.errorSentinel k {} {} plan

/-- Ten bytes in three buffers, the second of them empty. The color of the first two spans changes
hands at the cut, and the third span stays open. -/
def threeBuffers : List Buffer :=
  [⟨100, 5, [.opens ⟨0⟩ 2, .opens ⟨2⟩ 3]⟩, ⟨7, 0, [.closes ⟨0⟩ 5]⟩,
    ⟨50, 5, [.opens ⟨1⟩ 5, .closes ⟨1⟩ 9]⟩]

theorem deliveries_consecutive_threeBuffers :
    ∃ parser p', EventParser.generate {} sharedPair
        (EventParser.callbackProgram ["on_a", "on_b"]) = .ok parser p' ∧
      ∃ joints, joints <:+: [5, 5, 10] ∧
        deliveries 1
            (served sharedPair.colors.flatten {} ((schedule 0 threeBuffers).map Prod.snd))
            (((schedule 0 threeBuffers).map Prod.fst).zip
              ((parser.run 5 1 ((schedule 0 threeBuffers).map fun x =>
                ((⟨fun _ => some fun _ _ state => (0, state)⟩ : Host Unit), x.2))
                ⟨Memory.fresh parser.program.layout, (), #[]⟩).map fun x => x.2.calls.toList)) =
          pieces ⟨0⟩ 3 (joints ++ [10]) := by
  obtain ⟨parser, p', hparser, rfl, hbodyless⟩ : ∃ parser p', EventParser.generate {} sharedPair
      (EventParser.callbackProgram ["on_a", "on_b"]) = .ok parser p' ∧ _ ∧ _ :=
    EventParser.generate_callbackProgram sharedPair_valid (by decide) (by decide) (by decide)
      (by decide) (by decide)
  have hhost : (⟨fun _ => some fun _ _ state => (0, state)⟩ : Host Unit).Answers parser.program
      sharedPair fun _ => 0 :=
    fun s span hs => ⟨hbodyless span (List.mem_of_getElem? hs), _, rfl, fun _ _ _ => rfl⟩
  have hlimit : 1 + 2 * sharedPair.colors.length ≤ 5 := by decide
  have hsorted : (threeBuffers.flatMap Buffer.marks).Pairwise fun m n => m.offset ≤ n.offset := by
    decide
  have horder : InOrder sharedPair [] (threeBuffers.flatMap Buffer.marks) := by decide
  have hfits : Fits 10 0 threeBuffers := by decide
  obtain ⟨span, joints, hspan, hjoints, -, hdelivered⟩ := (deliveries_consecutive
    (EventParser.callbackProgram_reachable (by decide)) sharedPair_valid hparser hhost hlimit 0
    hsorted horder hfits rfl ()).2 1 ⟨⟨2⟩, 3, 10⟩ rfl
  obtain rfl : (⟨"c", ⟨0⟩⟩ : SpanDecl) = span := Option.some.inj hspan
  exact ⟨parser, _, hparser, joints, hjoints, hdelivered⟩

end Schedule

end Delivery

end SpanTracking
