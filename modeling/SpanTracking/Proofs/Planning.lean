import SpanTracking.Proofs.Authors

set_option autoImplicit false

namespace SpanTracking

/-- Without repetitions, entries stand in the order in which they first occur. -/
theorem pairwise_idxOf_eraseDups {α : Type} [BEq α] [LawfulBEq α] (l : List α) :
    l.eraseDups.Pairwise fun a b => l.idxOf a < l.idxOf b := by
  induction l using List.reverseRecOn with
  | nil => simp
  | append_singleton l a ih =>
    -- The last entry is new or has been left out.
    have hlast : ∀ b ∈ [a].removeAll l, b = a ∧ a ∉ l := by
      intro b hb
      simp only [List.removeAll, List.mem_filter, List.mem_singleton] at hb
      obtain ⟨rfl, hb⟩ := hb
      exact ⟨rfl, by simpa using hb⟩
    rw [List.eraseDups_append, List.pairwise_append]
    refine ⟨?_, ?_, ?_⟩
    · refine ih.imp_of_mem ?_
      intro b b' hb hb' hlt
      rwa [List.idxOf_append_of_mem (List.mem_eraseDups.1 hb),
        List.idxOf_append_of_mem (List.mem_eraseDups.1 hb')]
    · by_cases ha : a ∈ l <;> simp [List.removeAll, List.eraseDups_cons, ha]
    · intro b hb b' hb'
      have hmem := List.mem_eraseDups.1 hb
      obtain ⟨rfl, hnew⟩ := hlast b' (List.mem_eraseDups.1 hb')
      rw [List.idxOf_append_of_mem hmem, List.idxOf_append_of_notMem hnew]
      exact (List.idxOf_lt_length_of_mem hmem).trans_le (Nat.le_add_right _ _)

namespace ColorSlots

structure Allotted (slots : ColorSlots) (c : Coloring) (p : Program) (color : Nat)
    (members : List SpanId) : Prop where
  planned : slots.Planned c p.layout color members
  members_eq : slots.members = members
  typed : ∀ s ∈ members, ∃ span d, c.span? s = some span ∧ p.decl? span.callback = some d ∧
    d.sig = slots.sig
  slot_iff : slots.slot?.isSome ↔ 1 < members.length
  listed : ∀ f, f ∈ slots.callbacks ↔ f ∈ c.callbacksOf members
  ordered : slots.callbacks.Pairwise fun f g =>
    (c.callbacksOf members).idxOf f < (c.callbacksOf members).idxOf g

theorem Allotted.mono {slots : ColorSlots} {c : Coloring} {p p' : Program} {color : Nat}
    {members : List SpanId} (h : slots.Allotted c p color members) (hp : p.Extends p') :
    slots.Allotted c p' color members := by
  refine ⟨h.planned.mono hp.fields, h.members_eq, ?_, h.slot_iff, h.listed, h.ordered⟩
  intro s hs
  obtain ⟨span, d, hspan, hd, hsig⟩ := h.typed s hs
  obtain ⟨d', hd', -, hsig', -⟩ := hp.decls _ d hd
  exact ⟨span, d', hspan, hd', hsig'.trans hsig⟩

theorem Allotted.place {slots : ColorSlots} {c : Coloring} {p : Program} {color : Nat}
    {members : List SpanId} (h : slots.Allotted c p color members) :
    p.layout.Holds slots.start (Place.start color).name .bytes ∧
      ∀ f, slots.slot? = some f → p.layout.Holds f (Place.slot color).name slots.sig.ptr := by
  refine ⟨h.planned.start, ?_⟩
  intro f hf
  have hlen : 1 < members.length := h.slot_iff.1 (by simp [hf])
  match members, hlen with
  | s :: t :: rest, _ =>
    obtain ⟨slot, hslot, -, hholds⟩ := h.planned.shared s t rest rfl
    obtain rfl := Option.some.inj (hslot.symm.trans hf)
    exact hholds

theorem Allotted.place_of_mem {slots : ColorSlots} {c : Coloring} {p : Program} {color : Nat}
    {members : List SpanId} (h : slots.Allotted c p color members) {f : Field}
    (hf : f ∈ slots.fields) :
    ∃ x ty, (x = Place.start color ∨ x = Place.slot color) ∧ p.layout.Holds f x.name ty := by
  rcases List.mem_cons.1 hf with rfl | hslot
  · exact ⟨_, _, .inl rfl, h.place.1⟩
  · exact ⟨_, _, .inr rfl, h.place.2 f (by simpa using hslot)⟩

end ColorSlots

namespace Coloring

theorem planColor_allotted {c : Coloring} {color : Nat} {members : List SpanId} {p p' : Program}
    {slots : ColorSlots} (hp : p.layout.Numbered)
    (h : c.planColor color members p = .ok slots p') : slots.Allotted c p' color members := by
  obtain ⟨hplanned, -⟩ := planColor_ok hp h
  obtain ⟨htyped, hmembers, hcallbacks, p₁, hstart, hrest⟩ := planColor_cases h
  obtain ⟨l₁, -, rfl⟩ := Program.onLayout_ok hstart
  have hlisted : ∀ f, f ∈ slots.callbacks ↔ f ∈ c.callbacksOf members := by
    intro f
    rw [hcallbacks, List.mem_eraseDups]
  have hordered := hcallbacks ▸ pairwise_idxOf_eraseDups (c.callbacksOf members)
  obtain ⟨s, span, rfl, -, hnone, -, rfl⟩ | ⟨hlen, slot, hslot, hsome, -⟩ := hrest
  · exact ⟨hplanned, hmembers, htyped, by simp [hnone], hlisted, hordered⟩
  · obtain ⟨l₂, -, rfl⟩ := Program.onLayout_ok hslot
    exact ⟨hplanned, hmembers, htyped, by simp [hsome, hlen], hlisted, hordered⟩

end Coloring

namespace ColorSlots

theorem Allotted.fields_apart {slots : ColorSlots} {c : Coloring} {p : Program} {color : Nat}
    {members : List SpanId} (h : slots.Allotted c p color members) :
    slots.fields.Pairwise fun f g => f.id ≠ g.id := by
  refine List.pairwise_cons.2 ⟨?_, ?_⟩
  · intro g hg he
    have hplace := h.place.1.place_eq (h.place.2 g (by simpa using hg)) he
    simp at hplace
  · cases slots.slot? <;> simp

theorem Allotted.apart {slots slots' : ColorSlots} {c : Coloring} {p : Program} {i j : Nat}
    {members members' : List SpanId} (h : slots.Allotted c p i members)
    (h' : slots'.Allotted c p j members') (hij : i ≠ j) :
    ∀ f ∈ slots.fields, ∀ g ∈ slots'.fields, f.id ≠ g.id := by
  intro f hf g hg he
  obtain ⟨x, _, hx, hholds⟩ := h.place_of_mem hf
  obtain ⟨y, _, hy, hholds'⟩ := h'.place_of_mem hg
  have hxy := hholds.place_eq hholds' he
  rcases hx with rfl | rfl <;> rcases hy with rfl | rfl <;> simp_all

end ColorSlots

def Place.sharedNames : List String :=
  [Place.current, Place.error, Place.reason, Place.errorPos].map Place.name

/-- A plan that succeeds gives the members of every color their own storage: a start, and a slot of
the signature of their callbacks if they are several. No two of these fields are at one place, and
none is ever at a place of the shared fields. -/
theorem Coloring.plan_apart {c : Coloring} {p p' : Program} {plan : List ColorSlots}
    (hp : p.Reachable) (h : c.plan p = .ok plan p') :
    plan.length = c.colors.length ∧
    (∀ (i : Nat) (slots : ColorSlots) (members : List SpanId), plan[i]? = some slots →
      c.colors[i]? = some members → slots.Allotted c p' i members) ∧
    (plan.flatMap ColorSlots.fields).Pairwise (fun f g => f.id ≠ g.id) ∧
    ∀ later, p'.Leads later → ∀ f ∈ plan.flatMap ColorSlots.fields,
      later.layout.get? f.id = some f ∧
      ∀ name ∈ Place.sharedNames, ∀ g, later.layout.lookup name = some g → f.id ≠ g.id := by
  obtain ⟨hlead, hlen, hall⟩ := planFrom_induction
    (P := fun q i members slots => slots.Allotted c q i members) hp.numbered
    (fun _ _ _ _ _ hq hslots => planColor_allotted hq hslots)
    (fun _ _ _ _ _ hlead hallotted => hallotted.mono hlead.extends) h
  have hcolor : ∀ (i : Nat) (hi : i < plan.length), ∃ members, plan[i].Allotted c p' i members := by
    intro i hi
    have hm := List.getElem?_eq_getElem (hlen ▸ hi)
    have hi' := hall i plan[i] _ (List.getElem?_eq_getElem hi) hm
    rw [Nat.zero_add] at hi'
    exact ⟨_, hi'⟩
  refine ⟨hlen, ?_, ?_, ?_⟩
  · intro i slots members hs hm
    have hi := hall i slots members hs hm
    rwa [Nat.zero_add] at hi
  · rw [List.pairwise_flatMap]
    constructor
    · intro slots hslots
      obtain ⟨i, hi, rfl⟩ := List.getElem_of_mem hslots
      obtain ⟨members, hallotted⟩ := hcolor i hi
      exact hallotted.fields_apart
    · rw [List.pairwise_iff_getElem]
      intro i j hi hj hij
      obtain ⟨members, hallotted⟩ := hcolor i hi
      obtain ⟨members', hallotted'⟩ := hcolor j hj
      exact hallotted.apart hallotted' hij.ne
  · intro later hlater f hf
    obtain ⟨slots, hslots, hf⟩ := List.mem_flatMap.1 hf
    obtain ⟨i, hi, rfl⟩ := List.getElem_of_mem hslots
    obtain ⟨members, hallotted⟩ := hcolor i hi
    obtain ⟨x, ty, hx, hholds⟩ := (hallotted.mono hlater.extends).place_of_mem hf
    refine ⟨hholds.has, ?_⟩
    intro name hname g hg he
    obtain ⟨y, hy, rfl⟩ := List.mem_map.1 hname
    have hnumbered := ((hp.leads hlead).leads hlater).numbered
    obtain ⟨hhas, hn⟩ := Layout.has_of_lookup hnumbered hg
    have hxy := hholds.place_eq (y := y) ⟨hhas, hn, rfl⟩ he
    rcases hx with rfl | rfl <;> subst hxy <;> simp at hy

/-- Planning once more finds the fields that are there, and they are still apart. -/
theorem Coloring.plan_apart_again :
    sharedPair.plan pairPrepared = .ok (pairEmitter {}).colors pairPrepared ∧
      ((pairEmitter {}).colors.flatMap ColorSlots.fields).Pairwise (fun f g => f.id ≠ g.id) ∧
      ((pairEmitter {}).colors.flatMap ColorSlots.fields).length = 3 := by
  have hplan : sharedPair.plan pairPrepared = .ok (pairEmitter {}).colors pairPrepared := rfl
  have hreach : pairPrepared.Reachable := pairDeclared_reachable.leads
    (Emitter.prepare_ok pairDeclared_reachable.numbered (prepare_pair true false)).2.2.2.2
  exact ⟨hplan, (plan_apart hreach hplan).2.2.1, rfl⟩

end SpanTracking
