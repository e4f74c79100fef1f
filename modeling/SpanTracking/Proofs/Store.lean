import SpanTracking.Abi
import SpanTracking.Proofs.Effects

set_option autoImplicit false

namespace SpanTracking

namespace Layout

def Numbered (l : Layout) : Prop := ∀ (i : Nat) (f : Field), l.fields[i]? = some f → f.id = ⟨i⟩

def Has (l : Layout) (f : Field) : Prop := l.get? f.id = some f

theorem Has.mono {l l' : Layout} {f : Field} (h : l.Has f) (hp : l.fields <+: l'.fields) :
    l'.Has f := by
  obtain ⟨rest, hr⟩ := hp
  have hi : f.id.index < l.fields.length := (List.getElem?_eq_some_iff.1 h).1
  change l'.fields[f.id.index]? = some f
  rw [← hr, List.getElem?_append_left hi]
  exact h

/-- One place holds one field, so that fields of different names are at different places. -/
theorem Has.id_ne {l : Layout} {f g : Field} (hf : l.Has f) (hg : l.Has g)
    (hn : f.name ≠ g.name) : f.id ≠ g.id := by
  intro he
  unfold Has at hf hg
  rw [he, hg] at hf
  exact hn (congrArg Field.name (Option.some.inj hf)).symm

theorem has_of_lookup {l : Layout} (hl : l.Numbered) {name : String} {f : Field}
    (h : l.lookup name = some f) : l.Has f ∧ f.name = name := by
  have hm : f ∈ l.fields := List.mem_of_find?_eq_some h
  obtain ⟨i, hi⟩ := List.getElem?_of_mem hm
  refine ⟨?_, by simpa using List.find?_some h⟩
  rw [Has, get?, hl i f hi]
  exact hi

/-- A field that is declared was there, with the same name and type, or is added at the end. -/
theorem declare_cases {name : String} {ty : Ty} {l l' : Layout} {f : Field}
    (h : declare name ty l = .ok f l') :
    (l.lookup name = some f ∧ f.ty = ty ∧ l' = l) ∨
      (l.lookup name = none ∧ f = ⟨⟨l.fields.length⟩, name, ty⟩ ∧ l' = ⟨l.fields ++ [f]⟩) := by
  unfold declare at h
  split at h
  · rename_i g hg
    split at h
    · rename_i ht
      simp only [EStateM.Result.ok.injEq] at h
      obtain ⟨rfl, rfl⟩ := h
      exact .inl ⟨hg, ht, rfl⟩
    · simp at h
  · rename_i hg
    simp only [EStateM.Result.ok.injEq] at h
    obtain ⟨rfl, rfl⟩ := h
    exact .inr ⟨hg, rfl, rfl⟩

theorem declare_prefix {name : String} {ty : Ty} {l l' : Layout} {f : Field}
    (h : declare name ty l = .ok f l') : l.fields <+: l'.fields := by
  obtain ⟨-, -, rfl⟩ | ⟨-, -, rfl⟩ := declare_cases h
  · exact List.prefix_rfl
  · exact List.prefix_append _ _

theorem declare_numbered {name : String} {ty : Ty} {l l' : Layout} {f : Field}
    (hl : l.Numbered) (h : declare name ty l = .ok f l') : l'.Numbered := by
  obtain ⟨-, -, rfl⟩ | ⟨-, rfl, rfl⟩ := declare_cases h
  · exact hl
  · intro i g hg
    rcases Nat.lt_or_ge i l.fields.length with hi | hi
    · exact hl i g (by rwa [List.getElem?_append_left hi] at hg)
    · rw [List.getElem?_append_right hi, List.getElem?_singleton] at hg
      split at hg
      · have hi' : i = l.fields.length := by omega
        rw [← Option.some.inj hg, hi']
      · simp at hg

def Distinct (l : Layout) : Prop := (l.fields.map Field.name).Nodup

theorem declare_distinct {name : String} {ty : Ty} {l l' : Layout} {f : Field} (hl : l.Distinct)
    (h : declare name ty l = .ok f l') : l'.Distinct := by
  obtain ⟨-, -, rfl⟩ | ⟨hnone, rfl, rfl⟩ := declare_cases h
  · exact hl
  · have hfresh : ∀ g ∈ l.fields, g.name ≠ name := by simpa [lookup] using hnone
    unfold Distinct
    rw [List.map_append, List.nodup_append]
    refine ⟨hl, by simp, ?_⟩
    intro a ha b hb
    obtain ⟨g, hg, rfl⟩ := List.mem_map.1 ha
    simp only [List.map_cons, List.map_nil, List.mem_singleton] at hb
    exact hb ▸ hfresh g hg

theorem Distinct.lookup {l : Layout} (hl : l.Distinct) {f : Field} (hf : l.Has f) :
    l.lookup f.name = some f := by
  have hmem : f ∈ l.fields := List.mem_of_getElem? hf
  have hsome : (l.lookup f.name).isSome := by
    simp only [Layout.lookup, List.find?_isSome]
    exact ⟨f, hmem, by simp⟩
  obtain ⟨g, hg⟩ := Option.isSome_iff_exists.1 hsome
  have hname : g.name = f.name := by simpa using List.find?_some hg
  rw [hg, List.inj_on_of_nodup_map hl (List.mem_of_find?_eq_some hg) hmem hname]

theorem declare_has {name : String} {ty : Ty} {l l' : Layout} {f : Field}
    (hl : l.Numbered) (h : declare name ty l = .ok f l') :
    l'.Has f ∧ f.name = name ∧ f.ty = ty := by
  obtain ⟨hf, ht, rfl⟩ | ⟨-, rfl, rfl⟩ := declare_cases h
  · exact ⟨(has_of_lookup hl hf).1, (has_of_lookup hl hf).2, ht⟩
  · exact ⟨by simp [Has, get?], rfl, rfl⟩

end Layout

namespace Program

inductive Step (p p' : Program) : Prop
  | field {name : String} {ty : Ty} {f : Field}
      (h : onLayout (Layout.declare name ty) p = .ok f p')
  | declare {name : String} {sig : Signature} {f : FuncId} (h : declare name sig p = .ok f p')
  | intern {text : String} {t : LiteralId} (h : intern text p = .ok t p')
  | define {b : Body} (h : define b p = .ok () p')

def Leads (p p' : Program) : Prop := Relation.ReflTransGen Step p p'

def Reachable (p : Program) : Prop := Leads {} p

structure Extends (p p' : Program) : Prop where
  fields : p.layout.fields <+: p'.layout.fields
  literals : p.literals <+: p'.literals
  decls : ∀ (f : FuncId) (d : Decl), p.decl? f = some d → ∃ d', p'.decl? f = some d' ∧
    d'.name = d.name ∧ d'.sig = d.sig ∧ ∀ b, d.body = some b → d'.body = some b

theorem Extends.refl (p : Program) : Extends p p :=
  ⟨List.prefix_rfl, List.prefix_rfl, fun _ d h => ⟨d, h, rfl, rfl, fun _ hb => hb⟩⟩

theorem Extends.trans {p q r : Program} (h : Extends p q) (h' : Extends q r) : Extends p r := by
  refine ⟨h.fields.trans h'.fields, h.literals.trans h'.literals, ?_⟩
  intro f d hd
  obtain ⟨d₁, hd₁, hn₁, hs₁, hb₁⟩ := h.decls f d hd
  obtain ⟨d₂, hd₂, hn₂, hs₂, hb₂⟩ := h'.decls f d₁ hd₁
  exact ⟨d₂, hd₂, hn₂.trans hn₁, hs₂.trans hs₁, fun b hb => hb₂ b (hb₁ b hb)⟩

theorem onLayout_ok {α : Type} {step : Build Layout α} {p p' : Program} {a : α}
    (h : onLayout step p = .ok a p') :
    ∃ l, step p.layout = .ok a l ∧ p' = { p with layout := l } := by
  unfold onLayout at h
  split at h
  · rename_i b l hl
    simp only [EStateM.Result.ok.injEq] at h
    obtain ⟨rfl, rfl⟩ := h
    exact ⟨l, hl, rfl⟩
  · simp at h

/-- A function that is declared was there with the same signature, or is added at the end. -/
theorem declare_cases {name : String} {sig : Signature} {p p' : Program} {f : FuncId}
    (h : declare name sig p = .ok f p') :
    ((∃ d, p.decl? f = some d ∧ d.name = name ∧ d.sig = sig) ∧ p' = p) ∨
      ((∀ d ∈ p.decls, d.name ≠ name) ∧ f = ⟨p.decls.length⟩ ∧
        p' = { p with decls := p.decls ++ [{ name, sig }] }) := by
  unfold declare at h
  split at h
  · rename_i i hi
    split at h
    · rename_i hs
      simp only [EStateM.Result.ok.injEq] at h
      obtain ⟨rfl, rfl⟩ := h
      obtain ⟨d, hd, hds⟩ := Option.map_eq_some_iff.1 hs
      obtain ⟨hlt, hn, -⟩ := List.findIdx?_eq_some_iff_getElem.1 hi
      have hd' : p.decls[i] = d := by
        rw [List.getElem?_eq_getElem hlt] at hd
        exact Option.some.inj hd
      exact .inl ⟨⟨d, hd, by simpa [hd'] using hn, hds⟩, rfl⟩
    · simp at h
  · rename_i hi
    simp only [EStateM.Result.ok.injEq] at h
    obtain ⟨rfl, rfl⟩ := h
    exact .inr ⟨by simpa using hi, rfl, rfl⟩

theorem declare_decl {name : String} {sig : Signature} {p p' : Program} {f : FuncId}
    (h : declare name sig p = .ok f p') :
    ∃ d, p'.decl? f = some d ∧ d.name = name ∧ d.sig = sig := by
  obtain ⟨hd, rfl⟩ | ⟨-, rfl, rfl⟩ := declare_cases h
  · exact hd
  · exact ⟨{ name, sig }, by simp [decl?], rfl, rfl⟩

theorem intern_cases {text : String} {p p' : Program} {t : LiteralId}
    (h : intern text p = .ok t p') : p'.literal? t = some text ∧
      (p' = p ∨ p' = { p with literals := p.literals ++ [text] }) := by
  unfold intern at h
  split at h
  · simp at h
  split at h
  · rename_i i hi
    simp only [EStateM.Result.ok.injEq] at h
    obtain ⟨rfl, rfl⟩ := h
    obtain ⟨hlt, hn, -⟩ := List.findIdx?_eq_some_iff_getElem.1 hi
    refine ⟨?_, .inl rfl⟩
    rw [literal?, List.getElem?_eq_getElem hlt]
    simpa using hn
  · simp only [EStateM.Result.ok.injEq] at h
    obtain ⟨rfl, rfl⟩ := h
    exact ⟨by simp [literal?], .inr rfl⟩

theorem intern_ok_iff {text : String} {p : Program} :
    (∃ t p', intern text p = .ok t p') ↔ '\x00' ∉ text.toList := by
  unfold intern
  by_cases hnul : '\x00' ∈ text.toList
  · simp [hnul]
  · cases p.literals.findIdx? (fun t => t = text) <;> simp [hnul]

/-- A body is given to a function that has none. -/
theorem define_cases {b : Body} {p p' : Program} (h : define b p = .ok () p') :
    b.verify = .ok () ∧ ∃ d, p.decl? b.id = some d ∧ d.sig = b.sig ∧ d.name = b.name ∧
      d.body = none ∧
      p' = { p with decls := p.decls.set b.id.index { d with body := some b } } := by
  unfold define at h
  split at h
  · simp at h
  rename_i hv
  split at h
  · simp at h
  rename_i d hd
  split at h
  · rename_i hs
    split at h
    · simp at h
    · rename_i hb
      simp only [EStateM.Result.ok.injEq, true_and] at h
      exact ⟨hv, d, hd, hs.1, hs.2, by simpa using hb, h.symm⟩
  · simp at h

theorem define_body {b : Body} {p p' : Program} (h : define b p = .ok () p') :
    p'.body? b.id = some b := by
  obtain ⟨-, d, hd, -, -, -, rfl⟩ := define_cases h
  have hi : b.id.index < p.decls.length := (List.getElem?_eq_some_iff.1 hd).1
  simp [body?, decl?, hi]

theorem Step.extends {p p' : Program} (h : Step p p') : Extends p p' := by
  cases h with
  | field h =>
    obtain ⟨l, hl, rfl⟩ := onLayout_ok h
    exact ⟨Layout.declare_prefix hl, List.prefix_rfl,
      fun _ d h => ⟨d, h, rfl, rfl, fun _ hb => hb⟩⟩
  | declare h =>
    obtain ⟨-, rfl⟩ | ⟨-, -, rfl⟩ := declare_cases h
    · exact .refl _
    · refine ⟨List.prefix_rfl, List.prefix_rfl, fun f d hd => ⟨d, ?_, rfl, rfl, fun _ hb => hb⟩⟩
      have hi : f.index < p.decls.length := (List.getElem?_eq_some_iff.1 hd).1
      exact (List.getElem?_append_left hi).trans hd
  | intern h =>
    obtain ⟨-, rfl | rfl⟩ := intern_cases h
    · exact .refl _
    · exact ⟨List.prefix_rfl, List.prefix_append _ _,
        fun _ d h => ⟨d, h, rfl, rfl, fun _ hb => hb⟩⟩
  | @define b h =>
    obtain ⟨-, d₀, hd₀, -, -, hb₀, rfl⟩ := define_cases h
    refine ⟨List.prefix_rfl, List.prefix_rfl, fun f d hd => ?_⟩
    by_cases hf : f = b.id
    · subst hf
      rw [hd₀] at hd
      obtain rfl := Option.some.inj hd
      have hi : b.id.index < p.decls.length := (List.getElem?_eq_some_iff.1 hd₀).1
      exact ⟨{ d₀ with body := some b }, by simp [decl?, hi], rfl, rfl, by simp [hb₀]⟩
    · have hne : b.id.index ≠ f.index := fun he => hf (by cases f; cases hb : b.id; simp_all)
      exact ⟨d, (List.getElem?_set_ne hne).trans hd, rfl, rfl, fun _ hb => hb⟩

theorem Leads.trans {p q r : Program} (h : Leads p q) (h' : Leads q r) : Leads p r :=
  Relation.ReflTransGen.trans h h'

theorem Leads.extends {p p' : Program} (h : Leads p p') : Extends p p' := by
  induction h with
  | refl => exact .refl _
  | tail _ hs ih => exact ih.trans hs.extends

theorem Step.layout {p p' : Program} (h : Step p p') :
    p'.layout = p.layout ∨ ∃ name ty f, Layout.declare name ty p.layout = .ok f p'.layout := by
  cases h with
  | @field name ty f h =>
    obtain ⟨l, hl, rfl⟩ := onLayout_ok h
    exact .inr ⟨name, ty, f, hl⟩
  | declare h => obtain ⟨-, rfl⟩ | ⟨-, -, rfl⟩ := declare_cases h <;> exact .inl rfl
  | intern h => obtain ⟨-, rfl | rfl⟩ := intern_cases h <;> exact .inl rfl
  | define h =>
    obtain ⟨-, d, -, -, -, -, rfl⟩ := define_cases h
    exact .inl rfl

theorem Step.numbered {p p' : Program} (h : Step p p') (hp : p.layout.Numbered) :
    p'.layout.Numbered := by
  rcases h.layout with hl | ⟨name, ty, f, hl⟩
  · rwa [hl]
  · exact Layout.declare_numbered hp hl

theorem Leads.numbered {p p' : Program} (h : Leads p p') (hp : p.layout.Numbered) :
    p'.layout.Numbered := by
  induction h with
  | refl => exact hp
  | tail _ hs ih => exact hs.numbered ih

theorem Step.names_nodup {p p' : Program} (h : Step p p') (hp : (p.decls.map Decl.name).Nodup) :
    (p'.decls.map Decl.name).Nodup := by
  cases h with
  | field h =>
    obtain ⟨l, -, rfl⟩ := onLayout_ok h
    exact hp
  | @declare name sig f h =>
    obtain ⟨-, rfl⟩ | ⟨hn, -, rfl⟩ := declare_cases h
    · exact hp
    · rw [List.map_append, List.nodup_append]
      refine ⟨hp, by simp, ?_⟩
      intro a ha b hb
      obtain ⟨d, hd, rfl⟩ := List.mem_map.1 ha
      simp only [List.map_cons, List.map_nil, List.mem_singleton] at hb
      exact hb ▸ hn d hd
  | intern h => obtain ⟨-, rfl | rfl⟩ := intern_cases h <;> exact hp
  | @define b h =>
    obtain ⟨-, d, hd, -, -, -, rfl⟩ := define_cases h
    obtain ⟨hi, hd⟩ := List.getElem?_eq_some_iff.1 hd
    have hsame : (p.decls.set b.id.index { d with body := some b }).map Decl.name =
        p.decls.map Decl.name := by
      have hi' : b.id.index < (p.decls.map Decl.name).length := by simpa using hi
      have hname : d.name = (p.decls.map Decl.name)[b.id.index] := by simp [hd]
      rw [List.map_set, hname, List.set_getElem_self]
    rwa [hsame]

theorem Leads.names_nodup {p p' : Program} (h : Leads p p') (hp : (p.decls.map Decl.name).Nodup) :
    (p'.decls.map Decl.name).Nodup := by
  induction h with
  | refl => exact hp
  | tail _ hs ih => exact hs.names_nodup ih

theorem Step.distinct {p p' : Program} (h : Step p p') (hp : p.layout.Distinct) :
    p'.layout.Distinct := by
  rcases h.layout with hl | ⟨name, ty, f, hl⟩
  · rwa [hl]
  · exact Layout.declare_distinct hp hl

theorem Reachable.distinct {p : Program} (h : Reachable p) : p.layout.Distinct := by
  induction h with
  | refl => exact List.nodup_nil
  | tail _ hs ih => exact hs.distinct ih

theorem Reachable.numbered {p : Program} (h : Reachable p) : p.layout.Numbered :=
  Leads.numbered h (by intro i f hf; simp at hf)

theorem Reachable.leads {p p' : Program} (h : Reachable p) (h' : Leads p p') : Reachable p' :=
  Relation.ReflTransGen.trans h h'

end Program

end SpanTracking
