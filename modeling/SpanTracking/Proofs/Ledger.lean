import SpanTracking.Proofs.Observation

set_option autoImplicit false

/-!
# Orderly runs

In an orderly run a span is opened only while no other span of its color is open, and closed only
while it is open itself. Then a parser can be described without colors: a ledger has one line for
each span, and the coloring decides only in which order the open spans are handed over at the end
of a buffer.
-/

namespace SpanTracking

theorem filterMap_of_unique {α β : Type} {f : α → Option β} {list : List α} (hnodup : list.Nodup)
    {a : α} (ha : a ∈ list) {b : β} (hb : f a = some b) (hne : ∀ r ∈ list, r ≠ a → f r = none) :
    list.filterMap f = [b] := by
  induction list with
  | nil => simp at ha
  | cons r rest ih =>
    obtain ⟨hr, hrest⟩ := List.nodup_cons.1 hnodup
    by_cases hra : r = a
    · subst hra
      have hnil : rest.filterMap f = [] := by
        rw [List.filterMap_eq_nil_iff]
        intro x hx
        exact hne x (List.mem_cons_of_mem _ hx) fun h => hr (h ▸ hx)
      rw [List.filterMap_cons_some hb, hnil]
    · have ha' : a ∈ rest := (List.mem_cons.1 ha).resolve_left (Ne.symm hra)
      rw [List.filterMap_cons_none (hne r List.mem_cons_self hra)]
      exact ih hrest ha' fun x hx => hne x (List.mem_cons_of_mem _ hx)

def Event.opened (opened : List SpanId) : Event → List SpanId
  | .openSpan s _ _ => s :: opened
  | .closeSpan s _ _ => opened.filter (· ≠ s)
  | .enter _ _ => opened
  | .leave _ _ => opened

namespace Coloring

def Allows (c : Coloring) (opened : List SpanId) : Event → Prop
  | .openSpan s _ _ => s.index < c.spans.length ∧ ∀ r ∈ opened, c.colorOf r ≠ c.colorOf s
  | .closeSpan s _ _ => s ∈ opened
  | .enter _ _ => True
  | .leave _ _ => True

instance (c : Coloring) (opened : List SpanId) : DecidablePred (c.Allows opened)
  | .openSpan s _ _ =>
    inferInstanceAs (Decidable (s.index < c.spans.length ∧ ∀ r ∈ opened, c.colorOf r ≠ c.colorOf s))
  | .closeSpan s _ _ => inferInstanceAs (Decidable (s ∈ opened))
  | .enter _ _ => .isTrue trivial
  | .leave _ _ => .isTrue trivial

def Orderly (c : Coloring) (opened : List SpanId) : List Event → Prop
  | [] => True
  | event :: rest => c.Allows opened event ∧ c.Orderly (event.opened opened) rest

instance decidableOrderly (c : Coloring) (opened : List SpanId) :
    (events : List Event) → Decidable (c.Orderly opened events)
  | [] => .isTrue trivial
  | event :: rest =>
    have := decidableOrderly c (event.opened opened) rest
    inferInstanceAs (Decidable (_ ∧ _))

end Coloring

/-- Where each open span starts, and what the last failure left behind. -/
structure Ledger where
  starts : SpanId → Option Nat := fun _ => none
  /-- The code and the position of the last failure. -/
  failure : Option (Int32 × Nat) := none
  /-- A callback failed as its span was closed, and parsing resumes elsewhere. -/
  resuming : Bool := false

namespace Ledger

structure Entry where
  status : Int32
  handed : List (SpanId × Nat × Nat)
  ledger : Ledger

def flushed (l : Ledger) (order : List SpanId) (stop : Nat) : List (SpanId × Nat × Nat) :=
  order.filterMap fun s => (l.starts s).map fun start => (s, start, stop)

/-- An event whose callbacks return `code`. At the end of a buffer the open spans are handed over
in the given order. -/
def step (sentinel : Int32) (order : List SpanId) (code : SpanId → Int32) (l : Ledger) :
    Event → Entry
  | .openSpan s pos _ => ⟨0, [], { l with starts := Function.update l.starts s (some pos) }⟩
  | .closeSpan s pos _ =>
    let handed := (l.starts s).toList.map fun start => (s, start, pos)
    let starts := Function.update l.starts s none
    if code s = 0 then ⟨0, handed, { l with starts }⟩
    else ⟨sentinel, handed, ⟨starts, some (code s, pos), true⟩⟩
  | .enter pos _ => ⟨0, [], { l with starts := fun s => (l.starts s).map fun _ => pos }⟩
  | .leave _ stop => ⟨0, l.flushed order stop, l⟩

def run (sentinel : Int32) (order : List SpanId) :
    List ((SpanId → Int32) × Event) → Ledger → List Entry
  | [], _ => []
  | (code, event) :: rest, l =>
    let entry := l.step sentinel order code event
    entry :: run sentinel order rest entry.ledger

def Opens (l : Ledger) (opened : List SpanId) : Prop := ∀ s, s ∈ opened ↔ (l.starts s).isSome

theorem Opens.step {l : Ledger} {opened : List SpanId} (h : l.Opens opened) (sentinel : Int32)
    (order : List SpanId) (code : SpanId → Int32) (event : Event) :
    (l.step sentinel order code event).ledger.Opens (event.opened opened) := by
  intro r
  cases event with
  | openSpan s pos stop =>
    by_cases hr : r = s
    · simp [Ledger.step, Event.opened, hr]
    · simp [Ledger.step, Event.opened, hr, h r]
  | closeSpan s pos stop =>
    have hstarts : (l.step sentinel order code (.closeSpan s pos stop)).ledger.starts =
        Function.update l.starts s none := by
      by_cases hz : code s = 0 <;> simp [Ledger.step, hz]
    rw [hstarts]
    by_cases hr : r = s
    · simp [Event.opened, hr]
    · simp [Event.opened, hr, h r]
  | enter pos stop => simp [Ledger.step, Event.opened, h r]
  | leave pos stop => exact h r

end Ledger

namespace Scheme

variable {φ σ : Type}

def calls (S : Scheme φ) (handed : List (SpanId × Nat × Nat)) : List (φ × Nat × Nat) :=
  handed.filterMap fun x => S.spans[x.1.index]?.map fun span => (span.2, x.2)

def Answers (S : Scheme φ) (reply : Replies φ σ) (code : SpanId → Int32) : Prop :=
  ∀ s span, S.spans[s.index]? = some span →
    ∀ start stop state, (reply span.2 start stop state).1 = code s

/-- The tracker `t` has of each color what the ledger has of the span that is open. -/
structure Follows (S : Scheme φ) (t : Tracker φ) (l : Ledger) : Prop where
  failure : t.failure = l.failure
  current : t.current = if l.resuming then some S.resume else none
  known : ∀ s, (l.starts s).isSome → s.index < S.spans.length
  one : ∀ members ∈ S.colors, ∀ s ∈ members, ∀ r ∈ members,
    (l.starts s).isSome → (l.starts r).isSome → s = r
  start : ∀ i members, S.colors[i]? = some members →
    ∀ pos, t.start i = some pos ↔ ∃ s ∈ members, l.starts s = some pos
  callee : ∀ i members, S.colors[i]? = some members → ∀ s ∈ members, (l.starts s).isSome →
    S.callee t i = S.spans[s.index]?.map Prod.snd

namespace Follows

variable {S : Scheme φ} {t : Tracker φ} {l : Ledger}

theorem fresh (S : Scheme φ) : S.Follows {} {} := by
  refine ⟨rfl, rfl, ?_, ?_, ?_, ?_⟩ <;> simp

/-- One span of a color is opened or closed, and the others of it are not open. -/
theorem change (h : S.Follows t l) {i : Nat} {members : List SpanId}
    (hi : S.colors[i]? = some members) {s : SpanId} (hs : s ∈ members)
    (hknown : s.index < S.spans.length) (hothers : ∀ r ∈ members, r ≠ s → l.starts r = none)
    (hsep : ∀ j members', S.colors[j]? = some members' → s ∈ members' → j = i)
    {start : Option Nat} {t' : Tracker φ} {l' : Ledger}
    (hstart : t'.start = Function.update t.start i start)
    (hcallee : ∀ j, j ≠ i → S.callee t' j = S.callee t j)
    (hopen : start.isSome → S.callee t' i = S.spans[s.index]?.map Prod.snd)
    (hstarts : l'.starts = Function.update l.starts s start) (hfailure : t'.failure = l'.failure)
    (hcurrent : t'.current = if l'.resuming then some S.resume else none) : S.Follows t' l' := by
  have hself : l'.starts s = start := by simp [hstarts]
  have hne : ∀ r, r ≠ s → l'.starts r = l.starts r := fun r hr => by simp [hstarts, hr]
  have hnone : ∀ r ∈ members, r ≠ s → l'.starts r = none := by
    intro r hr hrs
    rw [hne r hrs]
    exact hothers r hr hrs
  have hother : ∀ j members', S.colors[j]? = some members' → j ≠ i → ∀ r ∈ members', r ≠ s := by
    rintro j members' hj hji r hr rfl
    exact hji (hsep j members' hj hr)
  refine ⟨hfailure, hcurrent, ?_, ?_, ?_, ?_⟩
  · intro r hr
    by_cases hrs : r = s
    · rw [hrs]
      exact hknown
    · rw [hne r hrs] at hr
      exact h.known r hr
  · intro members' hm a ha b hb hoa hob
    obtain ⟨j, hj⟩ := List.getElem?_of_mem hm
    by_cases hji : j = i
    · subst hji
      obtain rfl : members = members' := Option.some.inj (hi.symm.trans hj)
      have honly : ∀ r ∈ members, (l'.starts r).isSome → r = s := by
        intro r hr hro
        by_contra hrs
        simp [hnone r hr hrs] at hro
      rw [honly a ha hoa, honly b hb hob]
    · rw [hne a (hother j members' hj hji a ha)] at hoa
      rw [hne b (hother j members' hj hji b hb)] at hob
      exact h.one members' hm a ha b hb hoa hob
  · intro j members' hj pos
    by_cases hji : j = i
    · subst hji
      obtain rfl : members = members' := Option.some.inj (hi.symm.trans hj)
      rw [hstart, Function.update_self]
      constructor
      · rintro rfl
        exact ⟨s, hs, hself⟩
      · rintro ⟨r, hr, hpos⟩
        by_cases hrs : r = s
        · rw [← hself, ← hrs]
          exact hpos
        · simp [hnone r hr hrs] at hpos
    · rw [hstart, Function.update_of_ne hji, h.start j members' hj pos]
      constructor
      · rintro ⟨r, hr, hpos⟩
        exact ⟨r, hr, (hne r (hother j members' hj hji r hr)).trans hpos⟩
      · rintro ⟨r, hr, hpos⟩
        exact ⟨r, hr, (hne r (hother j members' hj hji r hr)).symm.trans hpos⟩
  · intro j members' hj r hr hro
    by_cases hji : j = i
    · subst hji
      obtain rfl : members = members' := Option.some.inj (hi.symm.trans hj)
      by_cases hrs : r = s
      · subst hrs
        rw [hself] at hro
        exact hopen hro
      · simp [hnone r hr hrs] at hro
    · rw [hne r (hother j members' hj hji r hr)] at hro
      rw [hcallee j hji]
      exact h.callee j members' hj r hr hro

theorem rebased (h : S.Follows t l) (pos : Nat) :
    S.Follows { t with start := fun i => (t.start i).map fun _ => pos }
      { l with starts := fun s => (l.starts s).map fun _ => pos } := by
  refine ⟨h.failure, h.current, ?_, ?_, ?_, ?_⟩
  · intro s hs
    exact h.known s (by simpa using hs)
  · intro members hm a ha b hb hoa hob
    exact h.one members hm a ha b hb (by simpa using hoa) (by simpa using hob)
  · intro i members hi pos'
    simp only [Option.map_eq_some_iff]
    constructor
    · rintro ⟨old, hold, rfl⟩
      obtain ⟨s, hs, hstart⟩ := (h.start i members hi old).1 hold
      exact ⟨s, hs, old, hstart, rfl⟩
    · rintro ⟨s, hs, old, hstart, rfl⟩
      exact ⟨old, (h.start i members hi old).2 ⟨s, hs, hstart⟩, rfl⟩
  · intro i members hi s hs hso
    exact h.callee i members hi s hs (by simpa using hso)

end Follows

/-- At most one member of a color is handed over. -/
theorem flushed_members {l : Ledger} {members : List SpanId} (hnodup : members.Nodup)
    (hone : ∀ s ∈ members, ∀ r ∈ members, (l.starts s).isSome → (l.starts r).isSome → s = r)
    {s : SpanId} (hs : s ∈ members) {start : Nat} (hstart : l.starts s = some start) (stop : Nat) :
    l.flushed members stop = [(s, start, stop)] := by
  refine filterMap_of_unique hnodup hs (by simp [hstart]) ?_
  intro r hr hrs
  by_contra hro
  have hsome : (l.starts r).isSome := by simpa [← Option.isSome_iff_ne_none] using hro
  exact hrs (hone r hr s hs hsome (by simp [hstart]))

theorem calls_append (S : Scheme φ) (xs ys : List (SpanId × Nat × Nat)) :
    S.calls (xs ++ ys) = S.calls xs ++ S.calls ys := List.filterMap_append

theorem ask_eq (reply : Replies φ σ) (callback : φ) (start stop : Nat) (t : Tracked φ σ) :
    Tracker.ask reply callback start stop t =
      .ok (reply callback start stop t.host).1
        ⟨t.tracker, (reply callback start stop t.host).2, t.calls ++ [(callback, start, stop)]⟩ :=
  rfl

section Zero

variable {S : Scheme φ} {t : Tracked φ σ} {l : Ledger} {reply : Replies φ σ}

/-- A callback that returns zero lets the open span of a color be handed over. -/
theorem Follows.flush (h : S.Follows t.tracker l) (hreply : S.Answers reply fun _ => 0)
    (stop : Nat) {color : Nat} {members : List SpanId} (hcolor : S.colors[color]? = some members)
    (hnodup : members.Nodup) :
    ∃ t', S.flush reply stop color t = .ok none t' ∧ t'.tracker = t.tracker ∧
      t'.calls = t.calls ++ S.calls (l.flushed members stop) := by
  have hget : (get : Track φ σ (Tracked φ σ)) t = .ok t t := rfl
  rw [Scheme.flush, bind_of_ok hget]
  cases hstart : t.tracker.start color with
  | none =>
    have hnil : l.flushed members stop = [] := by
      rw [Ledger.flushed, List.filterMap_eq_nil_iff]
      intro s hs
      cases hopen : l.starts s with
      | none => rfl
      | some start =>
        have hclash := (h.start color members hcolor start).2 ⟨s, hs, hopen⟩
        simp [hstart] at hclash
    exact ⟨t, rfl, rfl, by simp [hnil, calls]⟩
  | some start =>
    obtain ⟨s, hs, hopen⟩ := (h.start color members hcolor start).1 hstart
    have hsome : (l.starts s).isSome := by simp [hopen]
    have hspan := List.getElem?_eq_getElem (h.known s hsome)
    have hcallee := h.callee color members hcolor s hs hsome
    rw [hspan, Option.map_some] at hcallee
    have hhanded := flushed_members hnodup (h.one members (List.mem_of_getElem? hcolor)) hs
      hopen stop
    have hzero := hreply s _ hspan start stop t.host
    simp only [hcallee]
    rw [bind_of_ok (ask_eq ..), hzero]
    exact ⟨_, rfl, rfl, by simp [hhanded, calls, hspan]⟩

theorem Follows.flushAll (h : S.Follows t.tracker l) (hreply : S.Answers reply fun _ => 0)
    (stop : Nat) {list : List (List SpanId)} (hnodup : ∀ members ∈ list, members.Nodup)
    {color : Nat}
    (hlist : ∀ i members, list[i]? = some members → S.colors[color + i]? = some members) :
    ∃ t', S.flushAll reply stop (List.range' color list.length) t = .ok 0 t' ∧
      t'.tracker = t.tracker ∧ t'.calls = t.calls ++ S.calls (l.flushed list.flatten stop) := by
  induction list generalizing color t with
  | nil => exact ⟨t, rfl, rfl, by simp [Ledger.flushed, calls]⟩
  | cons members rest ih =>
    have hrest : ∀ i members, rest[i]? = some members →
        S.colors[color + 1 + i]? = some members := by
      intro i members' hi
      rw [Nat.add_assoc, Nat.add_comm 1]
      exact hlist (i + 1) members' hi
    simp only [List.mem_cons, forall_eq_or_imp] at hnodup
    obtain ⟨t₁, hrun₁, htracker₁, hcalls₁⟩ := h.flush hreply stop (hlist 0 members rfl) hnodup.1
    rw [← htracker₁] at h
    obtain ⟨t₂, hrun₂, htracker₂, hcalls₂⟩ := ih h hnodup.2 hrest
    have hflushed : l.flushed (members ++ rest.flatten) stop =
        l.flushed members stop ++ l.flushed rest.flatten stop := List.filterMap_append
    refine ⟨t₂, ?_, htracker₂.trans htracker₁, ?_⟩
    · rw [List.length_cons, List.range'_succ, Scheme.flushAll]
      exact (bind_of_ok hrun₁).trans hrun₂
    · rw [hcalls₂, hcalls₁, List.flatten_cons, hflushed, calls_append, List.append_assoc]

end Zero

end Scheme

section Steps

variable {φ σ : Type} {e : Emitter} {label : FuncId → φ} {resume : FuncId} {title : φ → String}
  {t : Tracked φ σ} {l : Ledger} {opened : List SpanId} {reply : Replies φ σ}
  {code : SpanId → Int32}

theorem Emitter.scheme_locate (label : FuncId → φ) (resume : FuncId) (title : φ → String)
    (hc : e.coloring.Valid) {s : SpanId} (hs : s.index < e.coloring.spans.length) :
    ∃ span color members, (e.scheme label resume title).spans[s.index]? = some span ∧
      e.coloring.colorOf s = some color ∧ e.coloring.colors[color]? = some members ∧
      s ∈ members ∧ (e.scheme label resume title).locate s = some (span, color) := by
  obtain ⟨color, hcolor⟩ := hc.exists_color hs
  obtain ⟨members, hm, hsm⟩ := hc.colorOf_eq_some.1 hcolor
  have hspan := List.getElem?_eq_getElem hs
  have hspan' : (e.scheme label resume title).spans[s.index]? =
      some (e.coloring.spans[s.index].name, label e.coloring.spans[s.index].callback) := by
    simp [Emitter.scheme, hspan]
  have hfind : (e.scheme label resume title).colors.findIdx?
      (fun members => decide (s ∈ members)) = some color :=
    hc.colorOf_eq_findIdx?.symm.trans hcolor
  refine ⟨_, color, members, hspan', hcolor, hm, hsm, ?_⟩
  simp [Scheme.locate, hspan', hfind]

theorem Scheme.Follows.opens (hc : e.coloring.Valid)
    (h : (e.scheme label resume title).Follows t.tracker l) {s : SpanId} {span : String × φ}
    (hspan : (e.scheme label resume title).spans[s.index]? = some span) {color : Nat}
    {members : List SpanId} (hcolor : e.coloring.colors[color]? = some members)
    (hs : s ∈ members) (hfree : ∀ r ∈ members, l.starts r = none) (pos : Nat) :
    ∃ t', (e.scheme label resume title).openSpan span.2 color pos t = .ok 0 t' ∧
      t'.calls = t.calls ∧ (e.scheme label resume title).Follows t'.tracker
        { l with starts := Function.update l.starts s (some pos) } := by
  have hsep : ∀ j members', e.coloring.colors[j]? = some members' → s ∈ members' → j = color :=
    fun _ _ hj hsj => hc.color_unique hcolor hs hj hsj
  have hknown := (List.getElem?_eq_some_iff.1 hspan).1
  cases hsole : (e.scheme label resume title).sole color with
  | some r =>
    obtain rfl : r = s := by
      have hone : members = [r] := by
        have hcolor' : (e.scheme label resume title).colors[color]? = some members := hcolor
        rw [Scheme.sole, hcolor'] at hsole
        split at hsole
        · simp_all
        · simp at hsole
      simpa [hone, eq_comm] using hs
    refine ⟨{ t with tracker := t.tracker.setStart color (some pos) }, ?_, rfl, ?_⟩
    · simp only [Scheme.openSpan, hsole]
      rfl
    · refine h.change hcolor hs hknown (fun r hr _ => hfree r hr) hsep rfl ?_ ?_ rfl h.failure
        h.current
      · intro j _
        rfl
      · intro _
        simp [Scheme.callee, hsole]
  | none =>
    refine ⟨{ t with tracker := (t.tracker.setStart color (some pos)).setOpener color span.2 }, ?_,
      rfl, ?_⟩
    · simp only [Scheme.openSpan, hsole]
      rfl
    · refine h.change hcolor hs hknown (fun r hr _ => hfree r hr) hsep rfl ?_ ?_ rfl h.failure
        h.current
      · intro j hj
        simp [Scheme.callee, Tracker.setOpener, Tracker.setStart, hj]
      · intro _
        simp [Scheme.callee, hsole, Tracker.setOpener, hspan]

theorem Scheme.Follows.closes (hc : e.coloring.Valid)
    (h : (e.scheme label resume title).Follows t.tracker l) {s : SpanId} {span : String × φ}
    (hspan : (e.scheme label resume title).spans[s.index]? = some span) {color : Nat}
    {members : List SpanId} (hcolor : e.coloring.colors[color]? = some members)
    (hs : s ∈ members) (hopen : (l.starts s).isSome)
    (hreply : (e.scheme label resume title).Answers reply code) (order : List SpanId)
    (pos stop : Nat) :
    ∃ t', (e.scheme label resume title).closeSpan reply span color pos t =
        .ok (l.step e.options.errorSentinel order code (.closeSpan s pos stop)).status t' ∧
      t'.calls = t.calls ++ (e.scheme label resume title).calls
        (l.step e.options.errorSentinel order code (.closeSpan s pos stop)).handed ∧
      (e.scheme label resume title).Follows t'.tracker
        (l.step e.options.errorSentinel order code (.closeSpan s pos stop)).ledger := by
  have hsep : ∀ j members', e.coloring.colors[j]? = some members' → s ∈ members' → j = color :=
    fun _ _ hj hsj => hc.color_unique hcolor hs hj hsj
  have hknown := (List.getElem?_eq_some_iff.1 hspan).1
  have hothers : ∀ r ∈ members, r ≠ s → l.starts r = none := by
    intro r hr hrs
    by_contra hro
    exact hrs (h.one members (List.mem_of_getElem? hcolor) r hr s hs
      (Option.isSome_iff_ne_none.2 hro) hopen)
  obtain ⟨start, hstart⟩ := Option.isSome_iff_exists.1 hopen
  have hstart' := (h.start color members hcolor start).2 ⟨s, hs, hstart⟩
  have hget : (get : Track φ σ (Tracked φ σ)) t = .ok t t := rfl
  have hset : Tracker.alter (Tracker.setStart color none) t =
      .ok () { t with tracker := t.tracker.setStart color none } := rfl
  have hcode := hreply s span hspan start pos t.host
  rw [Scheme.closeSpan, bind_of_ok hget]
  simp only [hstart']
  rw [bind_of_ok hset, bind_of_ok (ask_eq ..), hcode]
  by_cases hz : code s = 0
  · simp only [hz, ↓reduceIte, Ledger.step, hstart]
    refine ⟨_, rfl, by simp [Scheme.calls, hspan], ?_⟩
    exact h.change hcolor hs hknown hothers hsep rfl (fun _ _ => rfl) (by simp) rfl h.failure
      h.current
  · simp only [hz, ↓reduceIte, Ledger.step, hstart]
    refine ⟨_, rfl, by simp [Scheme.calls, hspan], ?_⟩
    exact h.change hcolor hs hknown hothers hsep rfl (fun _ _ => rfl) (by simp) rfl rfl rfl

/-- Every event that is in order succeeds, and does to the tracker what it does to the ledger. -/
theorem Scheme.Follows.step (hc : e.coloring.Valid)
    (h : (e.scheme label resume title).Follows t.tracker l) (hopened : l.Opens opened)
    {event : Event} (hallows : e.coloring.Allows opened event)
    (hreply : (e.scheme label resume title).Answers reply code)
    (hleave : ∀ pos stop, event = .leave pos stop → ∀ s, code s = 0) :
    ∃ act t', (e.scheme label resume title).step reply event = some act ∧
      act t = .ok (l.step e.options.errorSentinel e.coloring.colors.flatten code event).status t' ∧
      t'.calls = t.calls ++ (e.scheme label resume title).calls
        (l.step e.options.errorSentinel e.coloring.colors.flatten code event).handed ∧
      (e.scheme label resume title).Follows t'.tracker
        (l.step e.options.errorSentinel e.coloring.colors.flatten code event).ledger := by
  cases event with
  | openSpan s pos stop =>
    obtain ⟨hknown, hclear⟩ := hallows
    obtain ⟨span, color, members, hspan, hcolorOf, hcolor, hs, hlocate⟩ :=
      Emitter.scheme_locate label resume title hc hknown
    have hfree : ∀ r ∈ members, l.starts r = none := by
      intro r hr
      by_contra hro
      have hmem : r ∈ opened := (hopened r).2 (Option.isSome_iff_ne_none.2 hro)
      apply hclear r hmem
      rw [hcolorOf, hc.colorOf_eq_some]
      exact ⟨members, hcolor, hr⟩
    obtain ⟨t', hrun, hcalls, hfollows⟩ := h.opens hc hspan hcolor hs hfree pos
    refine ⟨_, t', ?_, hrun, ?_, hfollows⟩
    · simp [Scheme.step, hlocate]
    · simp [hcalls, Ledger.step, calls]
  | closeSpan s pos stop =>
    have hopen := (hopened s).1 hallows
    have hknown : s.index < e.coloring.spans.length := by
      simpa [Emitter.scheme] using h.known s hopen
    obtain ⟨span, color, members, hspan, -, hcolor, hs, hlocate⟩ :=
      Emitter.scheme_locate label resume title hc hknown
    obtain ⟨t', hrun, hcalls, hfollows⟩ :=
      h.closes hc hspan hcolor hs hopen hreply e.coloring.colors.flatten pos stop
    refine ⟨_, t', ?_, hrun, hcalls, hfollows⟩
    simp [Scheme.step, hlocate]
  | enter pos stop =>
    exact ⟨_, _, rfl, rfl, by simp [Ledger.step, calls], h.rebased pos⟩
  | leave pos stop =>
    have hzero := funext (hleave pos stop rfl)
    subst hzero
    have hnodup := (List.nodup_flatten.1 hc.nodup).1
    have hlist : ∀ (i : Nat) (members : List SpanId), e.coloring.colors[i]? = some members →
        e.coloring.colors[0 + i]? = some members := by
      intro i members hi
      rwa [Nat.zero_add]
    obtain ⟨t', hrun, htracker, hcalls⟩ := h.flushAll hreply stop hnodup hlist
    rw [← htracker] at h
    refine ⟨_, t', rfl, ?_, hcalls, h⟩
    rw [List.range_eq_range']
    exact hrun

end Steps

/-- The callbacks of a coloring have no body, and the host answers each of them with the code of its
span. -/
def Host.Answers {σ : Type} (host : Host σ) (p : Program) (c : Coloring) (code : SpanId → Int32) :
    Prop :=
  ∀ s span, c.span? s = some span →
    (∃ d, p.decl? span.callback = some d ∧ d.body = none) ∧
    ∃ reply, host.answer span.callback = some reply ∧
      ∀ start stop state, (reply start stop state).1 = code s

/-- The answers of a host, with zero from the functions that it does not know. -/
def Host.replies {σ : Type} (host : Host σ) : Replies FuncId σ := fun f start stop state =>
  (host.answer f).elim (0, state) fun reply => reply start stop state

theorem Host.Answers.hosted {σ : Type} {host : Host σ} {e : Emitter} {p : Program}
    {code : SpanId → Int32} (h : host.Answers p e.coloring code) :
    e.Hosted p id p.nameOf host host.replies := by
  refine ⟨?_, ?_⟩
  · intro span hspan
    obtain ⟨i, hi⟩ := List.getElem?_of_mem hspan
    obtain ⟨⟨d, hd, hb⟩, -⟩ := h ⟨i⟩ span hi
    exact ⟨d, hd, hb, by simp [Program.nameOf, hd]⟩
  · intro span hspan
    obtain ⟨i, hi⟩ := List.getElem?_of_mem hspan
    obtain ⟨-, reply, hreply, -⟩ := h ⟨i⟩ span hi
    rw [hreply]
    congr 1
    funext start stop state
    simp [Host.replies, hreply]

theorem Host.Answers.scheme {σ : Type} {host : Host σ} {e : Emitter} {p : Program}
    {code : SpanId → Int32} (h : host.Answers p e.coloring code) (resume : FuncId)
    (title : FuncId → String) : (e.scheme id resume title).Answers host.replies code := by
  intro s span hspan start stop state
  simp only [Emitter.scheme, List.getElem?_map, Option.map_eq_some_iff] at hspan
  obtain ⟨d, hd, rfl⟩ := hspan
  obtain ⟨-, reply, hreply, hcode⟩ := h s d hd
  simp [Host.replies, hreply, hcode]

def Coloring.calls (c : Coloring) (handed : List (SpanId × Nat × Nat)) : List HostCall :=
  handed.filterMap fun x => (c.span? x.1).map fun span => ⟨span.callback, x.2.1, x.2.2⟩

theorem Emitter.scheme_calls (e : Emitter) (resume : FuncId) (title : FuncId → String)
    (handed : List (SpanId × Nat × Nat)) :
    (e.scheme id resume title).calls handed =
      (e.coloring.calls handed).map fun call => (call.callee, call.start, call.stop) := by
  rw [Scheme.calls, Coloring.calls, List.map_filterMap]
  congr 1
  funext x
  cases hx : e.coloring.spans[x.1.index]? with
  | none => simp [Emitter.scheme, Coloring.span?, hx]
  | some span => simp [Emitter.scheme, Coloring.span?, hx]

namespace EventParser

variable {σ : Type} {parser : EventParser} {options : SpanOptions} {c : Coloring}

structure Tells (parser : EventParser) (result : Option (Except Fault Int32)) (w : World σ)
    (entry : Ledger.Entry) : Prop where
  status : result = some (.ok entry.status)
  calls : w.calls.toList = parser.emitter.coloring.calls entry.handed
  tracks : ∃ t, Represents parser.emitter parser.program id w t ∧
    (parser.emitter.scheme id parser.resume parser.program.nameOf).Follows t.tracker entry.ledger

theorem Generated.step_ledger (hp : parser.Generated options c) (hc : c.Valid) {limit : Nat}
    (hlimit : 1 + 2 * c.colors.length ≤ limit) (depth : Nat) {host : Host σ}
    {code : SpanId → Int32} (hhost : host.Answers parser.program c code) {l : Ledger}
    {opened : List SpanId} (hopened : l.Opens opened) {event : Event}
    (hallows : c.Allows opened event)
    (hleave : ∀ pos stop, event = .leave pos stop → ∀ s, code s = 0) {w : World σ}
    {t : Tracked FuncId σ} (hw : Represents parser.emitter parser.program id w t)
    (ht : (parser.emitter.scheme id parser.resume parser.program.nameOf).Follows t.tracker l) :
    ∃ act result w', parser.step host limit (depth + 1) event = some act ∧
      outcome (act { w with calls := #[] }) = (result, w') ∧
      parser.Tells (some result) w' (l.step options.errorSentinel c.colors.flatten code event) := by
  obtain rfl := hp.coloring
  obtain rfl := hp.settings
  have hclear : (parser.emitter.scheme id parser.resume parser.program.nameOf).Follows
      ({ t with calls := [] } : Tracked FuncId σ).tracker l := ht
  obtain ⟨track, t', htrack, hrun, hcalls, hfollows⟩ := hclear.step hc hopened hallows
    (hhost.scheme parser.resume parser.program.nameOf) hleave
  have hstep := hp.step_agrees hc hhost.hosted hlimit depth event hw.clear
  rw [htrack] at hstep
  generalize parser.step host limit (depth + 1) event = act at hstep ⊢
  cases hstep with
  | some hagree =>
    rename_i act
    rw [hrun] at hagree
    obtain ⟨hresult, hrep⟩ := hagree.outcome_eq
    have hlog := hrep.calls.trans (hcalls.trans (Emitter.scheme_calls ..))
    have hinj : Function.Injective
        fun call : HostCall => (call.callee, call.start, call.stop) := by
      rintro ⟨⟩ ⟨⟩ h
      simpa using h
    exact ⟨act, _, _, rfl, Prod.mk.eta.symm, congrArg some hresult,
      List.map_injective_iff.2 hinj hlog, t', hrep, hfollows⟩

/-- A parser does in an orderly run what the ledger tells. -/
theorem Generated.run_ledger (hp : parser.Generated options c) (hc : c.Valid) {limit : Nat}
    (hlimit : 1 + 2 * c.colors.length ≤ limit) (depth : Nat)
    {steps : List ((SpanId → Int32) × Host σ × Event)}
    (hhost : ∀ x ∈ steps, x.2.1.Answers parser.program c x.1)
    (hleave : ∀ x ∈ steps, ∀ pos stop, x.2.2 = .leave pos stop → ∀ s, x.1 s = 0) {l : Ledger}
    {opened : List SpanId} (hopened : l.Opens opened)
    (horder : c.Orderly opened (steps.map fun x => x.2.2)) {w : World σ}
    {t : Tracked FuncId σ} (hw : Represents parser.emitter parser.program id w t)
    (ht : (parser.emitter.scheme id parser.resume parser.program.nameOf).Follows t.tracker l) :
    List.Forall₂ (fun x entry => parser.Tells x.1 x.2 entry)
      (parser.run limit (depth + 1) (steps.map fun x => x.2) w)
      (Ledger.run options.errorSentinel c.colors.flatten (steps.map fun x => (x.1, x.2.2)) l) := by
  induction steps generalizing w t l opened with
  | nil => exact .nil
  | cons x rest ih =>
    obtain ⟨code, host, event⟩ := x
    simp only [List.mem_cons, forall_eq_or_imp] at hhost hleave
    obtain ⟨hallows, hrest⟩ := horder
    obtain ⟨act, result, w', hact, hrun, htells⟩ :=
      hp.step_ledger hc hlimit depth hhost.1 hopened hallows hleave.1 hw ht
    obtain ⟨t', hw', ht'⟩ := htells.tracks
    have hnext := ih hhost.2 hleave.2 (hopened.step _ _ _ event) hrest hw' ht'
    simp only [List.map_cons, run, hact, hrun, Ledger.run]
    exact .cons htells hnext

end EventParser

end SpanTracking
