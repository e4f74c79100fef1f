import SpanTracking.Proofs.Authors

set_option autoImplicit false

namespace SpanTracking.Program

inductive Edit where
  | field (name : String) (ty : Ty)
  | declare (name : String) (sig : Signature)
  | intern (text : String)
  | define (b : Body)

inductive Receipt where
  | field (f : Field)
  | function (f : FuncId)
  | text (t : LiteralId)
  | defined

namespace Edit

def run : Edit → Build Program Receipt
  | field name ty => Receipt.field <$> onLayout (Layout.declare name ty)
  | declare name sig => Receipt.function <$> Program.declare name sig
  | intern text => Receipt.text <$> Program.intern text
  | define b => (fun _ => Receipt.defined) <$> Program.define b

/-- The program has what the edit asked for, under the number that was handed out. -/
def Granted (p : Program) : Edit → Receipt → Prop
  | field name ty, .field f => p.layout.get? f.id = some f ∧ f.name = name ∧ f.ty = ty
  | declare name sig, .function f => ∃ d, p.decl? f = some d ∧ d.name = name ∧ d.sig = sig
  | intern text, .text t => p.literal? t = some text
  | define b, .defined => p.body? b.id = some b
  | _, _ => False

end Edit

/-- The program after edits, some of which may have been refused. -/
def edited (edits : List Edit) (p : Program) : Program :=
  edits.foldl (fun p edit => Build.after edit.run p) p

structure Sound (p : Program) : Prop where
  fields : (p.layout.fields.map Field.name).Nodup
  numbered : ∀ (k : Nat) (f : Field), p.layout.fields[k]? = some f → f.id = ⟨k⟩
  names : (p.decls.map Decl.name).Nodup
  lookup : ∀ (name : String) (f : FuncId),
    p.lookup name = some f ↔ ∃ d, p.decl? f = some d ∧ d.name = name
  texts : p.literals.Nodup
  closed : ∀ text ∈ p.literals, '\x00' ∉ text.toList
  bodies : ∀ (f : FuncId) (b : Body), p.body? f = some b → b.verify = .ok () ∧ b.id = f ∧
    ∃ d, p.decl? f = some d ∧ d.name = b.name ∧ d.sig = b.sig

section Map

variable {α β : Type} {g : α → β} {x : Build Program α} {p p' : Program}

theorem map_ok {r : β} (h : (g <$> x) p = .ok r p') : ∃ a, x p = .ok a p' ∧ g a = r := by
  obtain ⟨a, q, ha, hr⟩ := bind_ok (f := fun a => pure (g a)) h
  obtain ⟨rfl, rfl⟩ := pure_ok hr
  exact ⟨a, ha, rfl⟩

theorem map_error {err : BuildError} (h : (g <$> x) p = .error err p') : x p = .error err p' := by
  change (x >>= fun a => pure (g a)) p = _ at h
  rw [bind_eq] at h
  cases hx : x p with
  | ok a q => simp [hx] at h
  | error e q => simpa [hx] using h

end Map

section Refused

variable {p p' : Program} {err : BuildError}

theorem onLayout_declare_error {name : String} {ty : Ty}
    (h : onLayout (Layout.declare name ty) p = .error err p') : p' = p := by
  unfold onLayout Layout.declare at h
  cases hl : p.layout.lookup name with
  | none => simp [hl] at h
  | some f =>
    by_cases ht : f.ty = ty
    · simp [hl, ht] at h
    · simp only [hl, if_neg ht, EStateM.Result.error.injEq] at h
      exact h.2.symm

theorem declare_error {name : String} {sig : Signature} (h : declare name sig p = .error err p') :
    p' = p := by
  unfold declare at h
  split at h
  · split at h
    · simp at h
    · simp only [EStateM.Result.error.injEq] at h
      exact h.2.symm
  · simp at h

theorem intern_error {text : String} (h : intern text p = .error err p') : p' = p := by
  unfold intern at h
  split at h
  · simp only [EStateM.Result.error.injEq] at h
    exact h.2.symm
  · split at h <;> simp at h

theorem define_error {b : Body} (h : define b p = .error err p') : p' = p := by
  unfold define at h
  repeat' split at h
  all_goals simp only [EStateM.Result.error.injEq, reduceCtorEq] at h
  all_goals exact h.2.symm

end Refused

namespace Edit

theorem unchanged_of_error {edit : Edit} {p p' : Program} {err : BuildError}
    (h : edit.run p = .error err p') : p' = p := by
  cases edit with
  | field name ty => exact onLayout_declare_error (map_error h)
  | declare name sig => exact declare_error (map_error h)
  | intern text => exact intern_error (map_error h)
  | define b => exact define_error (map_error h)

theorem step_of_ok {edit : Edit} {p p' : Program} {r : Receipt} (h : edit.run p = .ok r p') :
    Step p p' := by
  cases edit with
  | field name ty => obtain ⟨f, hf, -⟩ := map_ok h; exact .field hf
  | declare name sig => obtain ⟨f, hf, -⟩ := map_ok h; exact .declare hf
  | intern text => obtain ⟨t, ht, -⟩ := map_ok h; exact .intern ht
  | define b => obtain ⟨u, hu, -⟩ := map_ok h; exact .define hu

theorem leads_after (edit : Edit) (p : Program) : p.Leads (Build.after edit.run p) := by
  unfold Build.after
  split
  · rename_i r p' h
    exact .single (step_of_ok h)
  · rename_i err p' h
    rw [unchanged_of_error h]
    exact .refl

theorem granted_of_ok {edit : Edit} {p p' : Program} {r : Receipt} (hp : p.layout.Numbered)
    (h : edit.run p = .ok r p') : edit.Granted p' r := by
  cases edit with
  | field name ty =>
    obtain ⟨f, hf, rfl⟩ := map_ok h
    obtain ⟨l, hl, rfl⟩ := onLayout_ok hf
    exact Layout.declare_has hp hl
  | declare name sig =>
    obtain ⟨f, hf, rfl⟩ := map_ok h
    exact declare_decl hf
  | intern text =>
    obtain ⟨t, ht, rfl⟩ := map_ok h
    exact (intern_cases ht).1
  | define b =>
    obtain ⟨u, hu, rfl⟩ := map_ok h
    exact define_body hu

/-- What has been handed out keeps its meaning. -/
theorem Granted.mono {edit : Edit} {p p' : Program} {r : Receipt} (h : edit.Granted p r)
    (hext : p.Extends p') : edit.Granted p' r := by
  cases edit with
  | field name ty =>
    cases r with
    | field f => exact ⟨Layout.Has.mono h.1 hext.fields, h.2⟩
    | _ => exact h.elim
  | declare name sig =>
    cases r with
    | function f =>
      obtain ⟨d, hd, hname, hsig⟩ := h
      obtain ⟨d', hd', hname', hsig', -⟩ := hext.decls f d hd
      exact ⟨d', hd', hname'.trans hname, hsig'.trans hsig⟩
    | _ => exact h.elim
  | intern text =>
    cases r with
    | text t =>
      obtain ⟨hlt, htext⟩ := List.getElem?_eq_some_iff.1 h
      exact (List.prefix_iff_getElem?.1 hext.literals t.index hlt).trans (congrArg some htext)
    | _ => exact h.elim
  | define b =>
    cases r with
    | defined =>
      obtain ⟨d, hd, hbody⟩ := Option.bind_eq_some_iff.1 h
      obtain ⟨d', hd', -, -, hkeep⟩ := hext.decls b.id d hd
      exact Option.bind_eq_some_iff.2 ⟨d', hd', hkeep b hbody⟩
    | _ => exact h.elim

end Edit

theorem leads_edited (edits : List Edit) (p : Program) : p.Leads (edited edits p) := by
  induction edits generalizing p with
  | nil => exact .refl
  | cons edit rest ih => exact (edit.leads_after p).trans (ih _)

section Invariant

variable {p p' : Program}

theorem Step.literals (h : Step p p') : p'.literals = p.literals ∨
    ∃ text, '\x00' ∉ text.toList ∧ text ∉ p.literals ∧ p'.literals = p.literals ++ [text] := by
  cases h with
  | field h =>
    obtain ⟨l, -, rfl⟩ := onLayout_ok h
    exact .inl rfl
  | declare h => obtain ⟨-, rfl⟩ | ⟨-, -, rfl⟩ := declare_cases h <;> exact .inl rfl
  | @intern text t h =>
    unfold Program.intern at h
    split at h
    · simp at h
    rename_i hnul
    split at h
    · simp only [EStateM.Result.ok.injEq] at h
      exact .inl (by rw [h.2])
    · rename_i hnone
      simp only [EStateM.Result.ok.injEq] at h
      have hfresh : ∀ t ∈ p.literals, t ≠ text := by simpa using hnone
      exact .inr ⟨text, by simpa using hnul, fun hmem => hfresh text hmem rfl, by rw [← h.2]⟩
  | define h =>
    obtain ⟨-, d, -, -, -, -, rfl⟩ := define_cases h
    exact .inl rfl

theorem Reachable.texts (h : Reachable p) :
    p.literals.Nodup ∧ ∀ text ∈ p.literals, '\x00' ∉ text.toList := by
  induction h with
  | refl => simp
  | @tail q q' _ hs ih =>
    rcases hs.literals with hsame | ⟨text, hnul, hfresh, hadded⟩
    · rwa [hsame]
    · rw [hadded]
      refine ⟨List.nodup_append.2 ⟨ih.1, List.nodup_singleton _, ?_⟩, ?_⟩
      · intro a ha b hb
        obtain rfl := List.mem_singleton.1 hb
        exact fun heq => hfresh (heq ▸ ha)
      · intro t ht
        rcases List.mem_append.1 ht with hold | hnew
        · exact ih.2 t hold
        · obtain rfl := List.mem_singleton.1 hnew
          exact hnul

theorem Reachable.names (h : Reachable p) : (p.decls.map Decl.name).Nodup :=
  Leads.names_nodup h List.nodup_nil

/-- A function is found by its name, and only by it. -/
theorem lookup_iff (hnames : (p.decls.map Decl.name).Nodup) (name : String) (f : FuncId) :
    p.lookup name = some f ↔ ∃ d, p.decl? f = some d ∧ d.name = name := by
  constructor
  · intro h
    obtain ⟨i, hi, rfl⟩ := Option.map_eq_some_iff.1 h
    obtain ⟨hlt, hname, -⟩ := List.findIdx?_eq_some_iff_getElem.1 hi
    exact ⟨p.decls[i], List.getElem?_eq_getElem hlt, by simpa using hname⟩
  · rintro ⟨d, hd, hname⟩
    obtain ⟨hlt, hget⟩ := List.getElem?_eq_some_iff.1 hd
    have hfind : p.decls.findIdx? (fun d => d.name = name) = some f.index := by
      refine List.findIdx?_eq_some_iff_getElem.2 ⟨hlt, by simpa [hget] using hname, ?_⟩
      -- an earlier declaration of the name would be the same one
      intro j hj hsame
      have hj' : j < p.decls.length := Nat.lt_trans hj hlt
      have hagain : (p.decls.map Decl.name)[j]? = (p.decls.map Decl.name)[f.index]? := by
        have hj'' : p.decls[j].name = name := by simpa using hsame
        rw [List.getElem?_map, List.getElem?_map, List.getElem?_eq_getElem hj',
          List.getElem?_eq_getElem hlt, Option.map_some, Option.map_some, hj'', hget, hname]
      exact List.nodup_iff_getElem?_ne_getElem?.1 hnames j f.index hj (by simpa using hlt) hagain
    rw [lookup, hfind]
    rfl

/-- A body has the name and the signature that its function was declared with. -/
theorem Step.bodies_named (h : Step p p')
    (hp : ∀ f b, p.body? f = some b → ∃ d, p.decl? f = some d ∧ d.name = b.name ∧ d.sig = b.sig) :
    ∀ f b, p'.body? f = some b → ∃ d, p'.decl? f = some d ∧ d.name = b.name ∧ d.sig = b.sig := by
  intro f b hb
  have hdecl : ∃ d, p.decl? f = some d ∧ d.name = b.name ∧ d.sig = b.sig := by
    rcases h.body_cases hb with hold | ⟨rfl, hdefine⟩
    · exact hp f b hold
    · obtain ⟨-, d, hd, hsig, hname, -, -⟩ := define_cases hdefine
      exact ⟨d, hd, hname, hsig⟩
  obtain ⟨d, hd, hname, hsig⟩ := hdecl
  obtain ⟨d', hd', hname', hsig', -⟩ := h.extends.decls f d hd
  exact ⟨d', hd', hname'.trans hname, hsig'.trans hsig⟩

theorem Reachable.bodies_named (h : Reachable p) :
    ∀ f b, p.body? f = some b → ∃ d, p.decl? f = some d ∧ d.name = b.name ∧ d.sig = b.sig := by
  induction h with
  | refl =>
    intro f b hb
    simp [body?, decl?] at hb
  | tail _ hs ih => exact hs.bodies_named ih

theorem Reachable.sound (h : Reachable p) : p.Sound where
  fields := h.distinct
  numbered := h.numbered
  names := h.names
  lookup := lookup_iff h.names
  texts := h.texts.1
  closed := h.texts.2
  bodies f b hb := ⟨(h.bodies f b hb).2, (h.bodies f b hb).1, h.bodies_named f b hb⟩

end Invariant

/-- The tables agree after any edits, whether they were granted or refused. Further edits take
nothing back: a refused one leaves the program as it is, and what a granted one has handed out keeps
its meaning. Texts are refused for nothing but a NUL, and any other text can be read back. -/
theorem tables_sound (edits later : List Edit) :
    (edited edits {}).Sound ∧ (edited edits {}).Extends (edited later (edited edits {})) ∧
      (∀ edit : Edit,
        (∀ err p', edit.run (edited edits {}) = .error err p' → p' = edited edits {}) ∧
        ∀ r p', edit.run (edited edits {}) = .ok r p' →
          edit.Granted p' r ∧ edit.Granted (edited later p') r) ∧
      ∀ text : String, '\x00' ∉ text.toList ↔ ∃ t p', intern text (edited edits {}) = .ok t p' ∧
        p'.literal? t = some text ∧ (edited later p').literal? t = some text := by
  have hreachable : Reachable (edited edits {}) := leads_edited edits {}
  refine ⟨hreachable.sound, (leads_edited later _).extends, fun edit => ⟨?_, ?_⟩, fun text => ?_⟩
  · intro err p' h
    exact Edit.unchanged_of_error h
  · intro r p' h
    have hgranted := Edit.granted_of_ok hreachable.numbered h
    exact ⟨hgranted, hgranted.mono (leads_edited later p').extends⟩
  · rw [← intern_ok_iff (p := edited edits {})]
    constructor
    · rintro ⟨t, p', h⟩
      have hgranted : Edit.Granted p' (.intern text) (.text t) := (intern_cases h).1
      exact ⟨t, p', h, hgranted, hgranted.mono (leads_edited later p').extends⟩
    · rintro ⟨t, p', h, -⟩
      exact ⟨t, p', h⟩

end SpanTracking.Program
