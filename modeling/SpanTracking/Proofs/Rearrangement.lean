import SpanTracking.Proofs.Nesting

set_option autoImplicit false

namespace SpanTracking.Program

/-! ### Giving bodies to functions -/

def attach (p : Program) (b : Body) : Program :=
  { p with decls := p.decls.modify b.id.index fun d => { d with body := some b } }

def attachAll (p : Program) (bs : List Body) : Program := bs.foldl attach p

structure Takes (p : Program) (b : Body) : Prop where
  verified : b.verify = .ok ()
  awaits : ∃ d, p.decl? b.id = some d ∧ d.sig = b.sig ∧ d.name = b.name ∧ d.body = none

section Attach

variable {p : Program} {b b' : Body} {bs bs' : List Body}

theorem attachAll_concat (p : Program) (bs : List Body) (b : Body) :
    p.attachAll (bs ++ [b]) = (p.attachAll bs).attach b :=
  List.foldl_concat ..

theorem attach_eq_set {d : Decl} (h : p.decl? b.id = some d) :
    p.attach b = { p with decls := p.decls.set b.id.index { d with body := some b } } := by
  have hget : p.decls[b.id.index]? = some d := h
  rw [attach, List.modify_eq_set_getElem?, hget]
  rfl

theorem define_iff {p' : Program} : define b p = .ok () p' ↔ p.Takes b ∧ p' = p.attach b := by
  constructor
  · intro h
    obtain ⟨hverify, d, hd, hsig, hname, hbody, rfl⟩ := define_cases h
    exact ⟨⟨hverify, d, hd, hsig, hname, hbody⟩, (attach_eq_set hd).symm⟩
  · rintro ⟨⟨hverify, d, hd, hsig, hname, hbody⟩, rfl⟩
    simp [define, hverify, hd, hsig, hname, hbody, attach_eq_set hd]

theorem decl?_attach (p : Program) (b : Body) (f : FuncId) :
    (p.attach b).decl? f =
      (p.decl? f).map fun d => if b.id.index = f.index then { d with body := some b } else d :=
  List.getElem?_modify ..

theorem map_attach {α : Type} (g : Decl → α) (hg : ∀ d body, g { d with body } = g d) :
    (p.attach b).decls.map g = p.decls.map g := by
  apply List.ext_getElem?
  intro i
  simp only [attach, List.getElem?_map, List.getElem?_modify, Option.map_eq_map, Option.map_map]
  congr 1
  funext d
  rw [Function.comp_apply, apply_ite g, hg, ite_self]

theorem length_attach (p : Program) (b : Body) : (p.attach b).decls.length = p.decls.length :=
  List.length_modify ..

/-- Bodies of different functions do not interfere. -/
theorem attach_comm (h : b.id ≠ b'.id) : (p.attach b).attach b' = (p.attach b').attach b := by
  have hindex : b.id.index ≠ b'.id.index := fun heq => h (by cases hb : b.id; simp_all)
  simp only [attach, List.modify_modify_ne _ _ _ hindex]

theorem attachAll_perm (h : bs.Perm bs') (hnodup : (bs.map Body.id).Nodup) :
    p.attachAll bs = p.attachAll bs' := by
  apply h.foldl_eq'
  intro b hb b' hb' q
  by_cases heq : b = b'
  · rw [heq]
  · exact attach_comm fun hid => heq (List.inj_on_of_nodup_map hnodup hb hb' hid)

theorem takes_attach : (p.attach b).Takes b' ↔ p.Takes b' ∧ b'.id ≠ b.id := by
  constructor
  · rintro ⟨hverify, d, hd, hsig, hname, hbody⟩
    rw [decl?_attach] at hd
    obtain ⟨d₀, hd₀, rfl⟩ := Option.map_eq_some_iff.1 hd
    by_cases hid : b.id.index = b'.id.index
    · simp [hid] at hbody
    · rw [if_neg hid] at hsig hname hbody
      exact ⟨⟨hverify, d₀, hd₀, hsig, hname, hbody⟩, fun heq => hid (by rw [heq])⟩
  · rintro ⟨⟨hverify, d, hd, hsig, hname, hbody⟩, hne⟩
    have hid : b.id.index ≠ b'.id.index := fun heq => hne (by cases hb : b.id; simp_all)
    exact ⟨hverify, d, by rw [decl?_attach, hd, Option.map_some, if_neg hid], hsig, hname, hbody⟩

theorem takes_attachAll : (p.attachAll bs).Takes b ↔ p.Takes b ∧ b.id ∉ bs.map Body.id := by
  induction bs generalizing p with
  | nil => simp [attachAll]
  | cons b' bs ih =>
    have hstep : p.attachAll (b' :: bs) = (p.attach b').attachAll bs := rfl
    rw [hstep, ih, takes_attach, List.map_cons, List.mem_cons, not_or, and_assoc]

theorem Takes.lt (h : p.Takes b) : b.id.index < p.decls.length := by
  obtain ⟨d, hd, -⟩ := h.awaits
  exact (List.getElem?_eq_some_iff.1 hd).1

theorem Takes.later {q : Program} (h : p.Takes b) (hpq : p.decls <+: q.decls) : q.Takes b := by
  obtain ⟨hverify, d, hd, hrest⟩ := h
  exact ⟨hverify, d, decl?_of_prefix hpq hd, hrest⟩

/-- Functions that are declared later make no difference to a body of an earlier one. -/
theorem Takes.earlier {q : Program} (h : q.Takes b) (hpq : p.decls <+: q.decls)
    (hb : (p.decl? b.id).isSome) : p.Takes b := by
  obtain ⟨hverify, d, hd, hrest⟩ := h
  obtain ⟨d', hd'⟩ := Option.isSome_iff_exists.1 hb
  have hthere := decl?_of_prefix hpq hd'
  obtain rfl : d' = d := Option.some.inj (hthere.symm.trans hd)
  exact ⟨hverify, d', hd', hrest⟩

end Attach

/-! ### Declarations do not look at bodies -/

def carry {α : Type} (g : Program → Program) :
    EStateM.Result BuildError Program α → EStateM.Result BuildError Program α
  | .ok a p => .ok a (g p)
  | .error err p => .error err (g p)

section Carry

variable {α β : Type} {g : Program → Program} {x : Build Program α} {p : Program}

theorem carry_map (f : α → β) (h : x (g p) = carry g (x p)) :
    (f <$> x) (g p) = carry g ((f <$> x) p) := by
  change (x >>= fun a => pure (f a)) (g p) = carry g ((x >>= fun a => pure (f a)) p)
  rw [bind_eq, bind_eq, h]
  cases x p <;> rfl

theorem carry_ok {r : EStateM.Result BuildError Program α} {a : α} {p' : Program}
    (h : carry g r = .ok a p') : ∃ q, r = .ok a q ∧ p' = g q := by
  cases r with
  | ok b q =>
    obtain ⟨rfl, rfl⟩ := EStateM.Result.ok.inj h
    exact ⟨q, rfl, rfl⟩
  | error err q => simp [carry] at h

end Carry

theorem declare_attach {p : Program} {b : Body} (h : b.id.index < p.decls.length) (name : String)
    (sig : Signature) :
    declare name sig (p.attach b) = carry (attach · b) (declare name sig p) := by
  have hfind : ((p.attach b).decls.findIdx? fun d => d.name = name) =
      p.decls.findIdx? fun d => d.name = name := by
    have hmap := congrArg (List.findIdx? fun text => decide (text = name))
      (map_attach (p := p) (b := b) Decl.name fun _ _ => rfl)
    rwa [List.findIdx?_map, List.findIdx?_map] at hmap
  have hsig : ∀ i : Nat, (p.attach b).decls[i]?.map Decl.sig = p.decls[i]?.map Decl.sig := by
    intro i
    rw [← List.getElem?_map, map_attach _ fun _ _ => rfl, List.getElem?_map]
  have happend : ∀ d : Decl, (p.attach b).decls ++ [d] =
      (p.decls ++ [d]).modify b.id.index fun d => { d with body := some b } := by
    intro d
    rw [attach, List.modify_eq_take_drop, List.modify_eq_take_drop,
      List.take_append_of_le_length h.le, List.drop_append_of_le_length h.le,
      List.drop_eq_getElem_cons h, List.append_assoc]
    rfl
  unfold declare
  rw [hfind]
  cases p.decls.findIdx? fun d => d.name = name with
  | some i =>
    simp only [hsig]
    split <;> rfl
  | none =>
    simp only [carry, happend, length_attach]
    rfl

theorem intern_attach (text : String) (p : Program) (b : Body) :
    intern text (p.attach b) = carry (attach · b) (intern text p) := by
  have hliterals : (p.attach b).literals = p.literals := rfl
  unfold intern
  rw [hliterals]
  split
  · rfl
  · cases p.literals.findIdx? fun t => t = text <;> rfl

theorem onLayout_attach {α : Type} (step : Build Layout α) (p : Program) (b : Body) :
    onLayout step (p.attach b) = carry (attach · b) (onLayout step p) := by
  have hlayout : (p.attach b).layout = p.layout := rfl
  unfold onLayout
  rw [hlayout]
  cases step p.layout <;> rfl

namespace Edit

def body? : Edit → Option Body
  | define b => some b
  | _ => none

def bodies (edits : List Edit) : List Body := edits.filterMap body?

def declarations (edits : List Edit) : List Edit := edits.filter fun edit => edit.body?.isNone

theorem declares_or_defines (edit : Edit) : edit.body? = none ∨ ∃ b, edit = define b := by
  cases edit with
  | define b => exact .inr ⟨b, rfl⟩
  | _ => exact .inl rfl

theorem bodies_cons {edit : Edit} (h : edit.body? = none) (rest : List Edit) :
    bodies (edit :: rest) = bodies rest :=
  List.filterMap_cons_none h

theorem declarations_cons {edit : Edit} (h : edit.body? = none) (rest : List Edit) :
    declarations (edit :: rest) = edit :: declarations rest :=
  List.filter_cons_of_pos (by simp [h])

/-- Makes the edits one after another. The first one that is refused ends it. -/
def runAll : List Edit → Build Program (List Receipt)
  | [] => return []
  | edit :: rest => do
    let r ← edit.run
    let rs ← runAll rest
    return r :: rs

/-- Each body comes after the declaration of its function. -/
def DeclaresFirst (p : Program) (edits : List Edit) : Prop :=
  ∀ i b, edits[i]? = some (define b) →
    (p.decl? b.id).isSome ∨ ∃ sig, declare b.name sig ∈ edits.take i

theorem run_attach {edit : Edit} (hedit : edit.body? = none) {p : Program} {b : Body}
    (h : b.id.index < p.decls.length) :
    edit.run (p.attach b) = carry (attach · b) (edit.run p) := by
  cases edit with
  | field name ty => exact carry_map (g := (attach · b)) _ (onLayout_attach _ p b)
  | declare name sig => exact carry_map (g := (attach · b)) _ (declare_attach h name sig)
  | intern text => exact carry_map (g := (attach · b)) _ (intern_attach text p b)
  | define b => simp [body?] at hedit

theorem run_attachAll {edit : Edit} (hedit : edit.body? = none) {p : Program} {bs : List Body}
    (h : ∀ b ∈ bs, b.id.index < p.decls.length) :
    edit.run (p.attachAll bs) = carry (attachAll · bs) (edit.run p) := by
  induction bs generalizing p with
  | nil =>
    change edit.run p = carry id (edit.run p)
    cases edit.run p <;> rfl
  | cons b bs ih =>
    obtain ⟨hb, hbs⟩ := List.forall_mem_cons.1 h
    calc edit.run ((p.attach b).attachAll bs)
        = carry (attachAll · bs) (edit.run (p.attach b)) :=
          ih fun b' hmem => (length_attach p b).symm ▸ hbs b' hmem
      _ = carry (attachAll · bs) (carry (attach · b) (edit.run p)) := by rw [run_attach hedit hb]
      _ = carry (attachAll · (b :: bs)) (edit.run p) := by cases edit.run p <;> rfl

theorem decls_of_run {edit : Edit} (hedit : edit.body? = none) {p p' : Program} {r : Receipt}
    (h : edit.run p = .ok r p') : p.decls <+: p'.decls := by
  cases edit with
  | field name ty =>
    obtain ⟨f, hf, -⟩ := map_ok h
    obtain ⟨l, -, rfl⟩ := onLayout_ok hf
    exact List.prefix_rfl
  | declare name sig =>
    obtain ⟨f, hf, -⟩ := map_ok h
    obtain ⟨-, rfl⟩ | ⟨-, -, rfl⟩ := declare_cases hf
    · exact List.prefix_rfl
    · exact List.prefix_append _ _
  | intern text =>
    obtain ⟨t, ht, -⟩ := map_ok h
    obtain ⟨-, rfl | rfl⟩ := intern_cases ht <;> exact List.prefix_rfl
  | define b => simp [body?] at hedit

end Edit

/-! ### Runs of edits -/

namespace Edit

section Runs

variable {edit : Edit} {rest edits : List Edit} {p p' q q' : Program} {r : Receipt}
  {rs : List Receipt} {b : Body} {bs : List Body}

theorem runAll_cons_ok (h : runAll (edit :: rest) p = .ok rs p') :
    ∃ r q rs', edit.run p = .ok r q ∧ runAll rest q = .ok rs' p' ∧ rs = r :: rs' := by
  obtain ⟨r, q, hr, h⟩ := bind_ok h
  obtain ⟨rs', q', hrs, h⟩ := bind_ok h
  obtain ⟨rfl, rfl⟩ := pure_ok h
  exact ⟨r, q, rs', hr, hrs, rfl⟩

theorem runAll_cons_of_ok (h : edit.run p = .ok r q) (h' : runAll rest q = .ok rs p') :
    runAll (edit :: rest) p = .ok (r :: rs) p' :=
  andThen h (andThen h' rfl)

theorem leads_of_runAll (h : runAll edits p = .ok rs p') : p.Leads p' := by
  induction edits generalizing p rs with
  | nil =>
    obtain ⟨-, rfl⟩ := pure_ok h
    exact .refl
  | cons edit rest ih =>
    obtain ⟨r, q, rs', hr, hrs, -⟩ := runAll_cons_ok h
    exact (Relation.ReflTransGen.single (step_of_ok hr)).trans (ih hrs)

theorem decls_of_runAll (h : runAll (declarations edits) p = .ok rs p') : p.decls <+: p'.decls := by
  induction edits generalizing p rs with
  | nil =>
    obtain ⟨-, rfl⟩ := pure_ok h
    exact List.prefix_rfl
  | cons edit rest ih =>
    rcases edit.declares_or_defines with hedit | ⟨b, rfl⟩
    · rw [declarations_cons hedit] at h
      obtain ⟨r, q, rs', hr, hrs, -⟩ := runAll_cons_ok h
      exact (decls_of_run hedit hr).trans (ih hrs)
    · exact ih h

theorem run_define_iff :
    (define b).run p = .ok r p' ↔ r = .defined ∧ p.Takes b ∧ p' = p.attach b := by
  constructor
  · intro h
    obtain ⟨u, hdefine, rfl⟩ := map_ok h
    exact ⟨rfl, define_iff.1 hdefine⟩
  · rintro ⟨rfl, hdefine⟩
    exact andThen (define_iff.2 hdefine) rfl

/-- A sequence of edits comes to its declarations, with the bodies given to their functions
afterwards. -/
theorem declarations_of_runAll (hbs : ∀ b ∈ bs, b.id.index < q.decls.length)
    (h : runAll edits (q.attachAll bs) = .ok rs p') :
    ∃ rs' q', runAll (declarations edits) q = .ok rs' q' ∧
      p' = q'.attachAll (bs ++ bodies edits) ∧
      (∀ b ∈ bodies edits, q'.Takes b ∧ b.id ∉ bs.map Body.id) ∧
      ((bodies edits).map Body.id).Nodup ∧
      (edits.zip rs).Perm ((declarations edits).zip rs' ++
        (bodies edits).map fun b => (define b, .defined)) := by
  induction edits generalizing q bs rs with
  | nil =>
    obtain ⟨rfl, rfl⟩ := pure_ok h
    exact ⟨[], q, rfl, by simp [bodies], by simp [bodies], by simp [bodies], by simp [bodies]⟩
  | cons edit rest ih =>
    obtain ⟨r, p₁, rs₁, hr, hrest, rfl⟩ := runAll_cons_ok h
    rcases edit.declares_or_defines with hedit | ⟨b, rfl⟩
    · rw [run_attachAll hedit hbs] at hr
      obtain ⟨q₁, hq₁, rfl⟩ := carry_ok hr
      have hdecls := decls_of_run hedit hq₁
      obtain ⟨rs', q', hrun, hp', htakes, hnodup, hzip⟩ :=
        ih (fun b hb => (hbs b hb).trans_le hdecls.length_le) hrest
      rw [bodies_cons hedit, declarations_cons hedit]
      exact ⟨r :: rs', q', runAll_cons_of_ok hq₁ hrun, hp', htakes, hnodup, hzip.cons _⟩
    · obtain ⟨rfl, htakes, rfl⟩ := run_define_iff.1 hr
      obtain ⟨hb, hfresh⟩ := takes_attachAll.1 htakes
      rw [← attachAll_concat] at hrest
      have hbs' : ∀ b' ∈ bs ++ [b], b'.id.index < q.decls.length :=
        List.forall_mem_append.2 ⟨hbs, List.forall_mem_singleton.2 hb.lt⟩
      obtain ⟨rs', q', hrun, hp', htakes', hnodup, hzip⟩ := ih hbs' hrest
      have hb' : q'.Takes b := hb.later (decls_of_runAll hrun)
      rw [List.append_assoc] at hp'
      refine ⟨rs', q', hrun, hp', ?_, ?_, ?_⟩
      · intro b' hmem
        rcases List.mem_cons.1 hmem with rfl | hlater
        · exact ⟨hb', hfresh⟩
        · obtain ⟨hthere, hfresh'⟩ := htakes' b' hlater
          exact ⟨hthere, fun hold => hfresh' (by simp [hold])⟩
      · refine List.nodup_cons.2 ⟨fun hmem => ?_, hnodup⟩
        obtain ⟨b', hlater, hid⟩ := List.mem_map.1 hmem
        exact (htakes' b' hlater).2 (by simp [hid])
      · exact (hzip.cons _).trans List.perm_middle.symm

/-- A body whose function has just been declared belongs to no other one. -/
theorem declared_of_run {name : String} {sig : Signature} (h : (declare name sig).run p = .ok r q)
    (hdecls : q.decls <+: q'.decls) (hnames : (q'.decls.map Decl.name).Nodup) (hb : q'.Takes b)
    (hname : b.name = name) : (q.decl? b.id).isSome := by
  obtain ⟨f, hf, -⟩ := map_ok h
  obtain ⟨d, hd, hd', -⟩ := declare_decl hf
  obtain ⟨d₁, hd₁, -, hname₁, -⟩ := hb.awaits
  have hlookup : q'.lookup name = some f :=
    (lookup_iff hnames _ _).2 ⟨d, decl?_of_prefix hdecls hd, hd'⟩
  have hlookup₁ : q'.lookup name = some b.id :=
    (lookup_iff hnames _ _).2 ⟨d₁, hd₁, hname₁.trans hname⟩
  obtain rfl : f = b.id := Option.some.inj (hlookup.symm.trans hlookup₁)
  exact Option.isSome_iff_exists.2 ⟨d, hd⟩

/-- The first edit of a sequence does its part of what later bodies need. -/
theorem DeclaresFirst.behind_declaration (h : DeclaresFirst p (edit :: rest))
    (hr : edit.run p = .ok r q) (hedit : edit.body? = none) (hdecls : q.decls <+: q'.decls)
    (hnames : (q'.decls.map Decl.name).Nodup) (htakes : ∀ b ∈ bodies rest, q'.Takes b) :
    DeclaresFirst q rest := by
  intro i b hi
  have hb : q'.Takes b := htakes b (List.mem_filterMap.2 ⟨_, List.mem_of_getElem? hi, rfl⟩)
  rcases h (i + 1) b hi with hthere | ⟨sig, hmem⟩
  · obtain ⟨d, hd⟩ := Option.isSome_iff_exists.1 hthere
    exact .inl (Option.isSome_iff_exists.2 ⟨d, decl?_of_prefix (decls_of_run hedit hr) hd⟩)
  · rcases List.mem_cons.1 hmem with rfl | hlater
    · exact .inl (declared_of_run hr hdecls hnames hb rfl)
    · exact .inr ⟨sig, hlater⟩

theorem DeclaresFirst.behind_body (h : DeclaresFirst p (define b :: rest)) :
    DeclaresFirst p rest := by
  intro i b' hi
  rcases h (i + 1) b' hi with hthere | ⟨sig, hmem⟩
  · exact .inl hthere
  · rcases List.mem_cons.1 hmem with heq | hlater
    · cases heq
    · exact .inr ⟨sig, hlater⟩

/-- Conversely, the bodies can be anywhere after the declarations of their functions. -/
theorem runAll_of_declarations (hbs : ∀ b ∈ bs, b.id.index < q.decls.length)
    (h : runAll (declarations edits) q = .ok rs q') (hnames : (q'.decls.map Decl.name).Nodup)
    (htakes : ∀ b ∈ bodies edits, q'.Takes b ∧ b.id ∉ bs.map Body.id)
    (hnodup : ((bodies edits).map Body.id).Nodup) (hfirst : DeclaresFirst q edits) :
    ∃ rs', runAll edits (q.attachAll bs) = .ok rs' (q'.attachAll (bs ++ bodies edits)) ∧
      (edits.zip rs').Perm ((declarations edits).zip rs ++
        (bodies edits).map fun b => (define b, .defined)) := by
  induction edits generalizing q bs rs with
  | nil =>
    obtain ⟨rfl, rfl⟩ := pure_ok h
    exact ⟨[], by simp [bodies, runAll], by simp [bodies]⟩
  | cons edit rest ih =>
    have hdecls := decls_of_runAll h
    rcases edit.declares_or_defines with hedit | ⟨b, rfl⟩
    · rw [bodies_cons hedit] at htakes hnodup ⊢
      rw [declarations_cons hedit] at h ⊢
      obtain ⟨r, q₁, rs₁, hr, hrest, rfl⟩ := runAll_cons_ok h
      have hfirst' : DeclaresFirst q₁ rest :=
        hfirst.behind_declaration hr hedit (decls_of_runAll hrest) hnames
          fun b hb => (htakes b hb).1
      obtain ⟨rs', hrun, hzip⟩ :=
        ih (fun b hb => (hbs b hb).trans_le (decls_of_run hedit hr).length_le) hrest htakes hnodup
          hfirst'
      refine ⟨r :: rs', runAll_cons_of_ok ?_ hrun, hzip.cons _⟩
      rw [run_attachAll hedit hbs, hr]
      rfl
    · obtain ⟨⟨hb', hfresh⟩, htakes'⟩ := List.forall_mem_cons.1 htakes
      obtain ⟨hnew, hnodup'⟩ := List.nodup_cons.1 hnodup
      -- There is no edit before this one, so the function is there already.
      have hthere : (q.decl? b.id).isSome := by
        rcases hfirst 0 b rfl with hthere | ⟨sig, hmem⟩
        · exact hthere
        · simp at hmem
      have hb : q.Takes b := hb'.earlier hdecls hthere
      have hbs' : ∀ b' ∈ bs ++ [b], b'.id.index < q.decls.length :=
        List.forall_mem_append.2 ⟨hbs, List.forall_mem_singleton.2 hb.lt⟩
      have hfresh' : ∀ b' ∈ bodies rest, q'.Takes b' ∧ b'.id ∉ (bs ++ [b]).map Body.id := by
        intro b' hmem
        obtain ⟨hthere', hold⟩ := htakes' b' hmem
        refine ⟨hthere', ?_⟩
        rw [List.map_append, List.mem_append, not_or]
        exact ⟨hold, fun hid => hnew (List.mem_singleton.1 hid ▸ List.mem_map_of_mem hmem)⟩
      obtain ⟨rs', hrun, hzip⟩ := ih hbs' h hfresh' hnodup' hfirst.behind_body
      rw [attachAll_concat, List.append_assoc] at hrun
      refine ⟨.defined :: rs', runAll_cons_of_ok ?_ hrun, (hzip.cons _).trans List.perm_middle.symm⟩
      exact run_define_iff.2 ⟨rfl, takes_attachAll.2 ⟨hb, hfresh⟩, rfl⟩

end Runs

/-- Bodies can be defined in any order. Take edits that were all granted, and make them in another
order, with the declarations among them in the same order and each body after the declaration of its
function. Then they are all granted again, each hands out the same, and the program is the same. -/
theorem bodies_in_any_order {p p' : Program} (hp : p.Reachable) {edits edits' : List Edit}
    {rs : List Receipt} (h : runAll edits p = .ok rs p')
    (hbodies : (bodies edits').Perm (bodies edits))
    (hdeclarations : declarations edits' = declarations edits) (hfirst : DeclaresFirst p edits') :
    ∃ rs', runAll edits' p = .ok rs' p' ∧ (edits'.zip rs').Perm (edits.zip rs) := by
  have hnone : ∀ b ∈ ([] : List Body), b.id.index < p.decls.length := by simp
  obtain ⟨rs₁, q, hrun, rfl, htakes, hnodup, hzip⟩ := declarations_of_runAll hnone h
  have hnames : (q.decls.map Decl.name).Nodup := Reachable.names (hp.trans (leads_of_runAll hrun))
  rw [← hdeclarations] at hrun hzip
  obtain ⟨rs', hrun', hzip'⟩ := runAll_of_declarations hnone hrun hnames
    (fun b hb => htakes b (hbodies.mem_iff.1 hb)) ((hbodies.map _).nodup_iff.2 hnodup) hfirst
  refine ⟨rs', ?_, ?_⟩
  · rw [List.nil_append, attachAll_perm hbodies.symm hnodup]
    exact hrun'
  · exact hzip'.trans (((hbodies.map _).append_left _).trans hzip.symm)

/-! ### A function that is defined before the one that it calls -/

def mainBody : Body :=
  .worked [.call ⟨⟨0⟩, 0⟩ (.func ⟨1⟩) parserSig [.param 0, .param 1, .param 2] none,
    .ret ⟨⟨0⟩, 0⟩ (.status 0)] (.start ⟨0⟩ "main" parserSig parserParams)

def leafBody : Body :=
  .worked [.ret ⟨⟨1⟩, 0⟩ (.status 0)] (.start ⟨1⟩ "leaf" parserSig parserParams)

def mainFirst : List Edit :=
  [.declare "main" parserSig, .define mainBody, .declare "leaf" parserSig, .define leafBody,
    .intern "done", .field "count" .i32]

def mainLast : List Edit :=
  [.declare "main" parserSig, .declare "leaf" parserSig, .define leafBody, .intern "done",
    .field "count" .i32, .define mainBody]

theorem bodies_in_any_order_mainLast :
    bodies mainFirst = [mainBody, leafBody] ∧ bodies mainLast = [leafBody, mainBody] ∧
      DeclaresFirst {} mainLast ∧ ∃ rs rs', runAll mainFirst {} = .ok rs (edited mainFirst {}) ∧
        runAll mainLast {} = .ok rs' (edited mainFirst {}) ∧
        (mainLast.zip rs').Perm (mainFirst.zip rs) := by
  have hfirst : DeclaresFirst {} mainLast := by
    intro i b hi
    have hlt : i < 6 := (List.getElem?_eq_some_iff.1 hi).1
    interval_cases i
    all_goals simp only [mainLast, List.getElem?_cons_zero, List.getElem?_cons_succ,
      Option.some.injEq, Edit.define.injEq, reduceCtorEq] at hi
    · exact hi ▸ .inr ⟨parserSig, .tail _ (.head _)⟩
    · exact hi ▸ .inr ⟨parserSig, .head _⟩
  have hmainFirst : runAll mainFirst {} = .ok [.function ⟨0⟩, .defined, .function ⟨1⟩, .defined,
      .text ⟨0⟩, .field ⟨⟨0⟩, "count", .i32⟩] (edited mainFirst {}) := rfl
  have hswap : (bodies mainLast).Perm (bodies mainFirst) := .swap mainBody leafBody []
  obtain ⟨rs', hrun, hzip⟩ := bodies_in_any_order .refl hmainFirst hswap rfl hfirst
  exact ⟨rfl, rfl, hfirst, _, rs', hmainFirst, hrun, hzip⟩

end Edit

end SpanTracking.Program
