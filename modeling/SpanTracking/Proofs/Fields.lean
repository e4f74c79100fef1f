import SpanTracking.Proofs.Acceptance

set_option autoImplicit false

namespace SpanTracking

namespace Build

variable {σ α : Type}

def result (step : Build σ α) (s : σ) : Except BuildError α :=
  match step s with
  | .ok a _ => .ok a
  | .error err _ => .error err

theorem attempt_run (step : Build σ α) (s : σ) :
    attempt step s = .ok (result step s) (after step s) := by
  unfold attempt result after
  cases step s <;> rfl

theorem objectionOf_result (step : Build σ α) (s : σ) :
    objectionOf (result step s) = objection step s := by
  unfold result objection
  cases step s <;> rfl

theorem settle_pure (a : α) : (settle (pure a) : Build σ α) = pure a := rfl

theorem settle_bind {β : Type} (found : Except BuildError α) (next : α → Except BuildError β) :
    (settle (found >>= next) : Build σ β) = settle found >>= fun a => settle (next a) := by
  cases found <;> rfl

end Build

namespace Layout

variable {l l' : Layout} {name : String} {ty : Ty} {ask : String × Ty} {asks : List (String × Ty)}

/-- The layout after fields have been asked for, some of which may have been refused. -/
def asked (l : Layout) (asks : List (String × Ty)) : Layout :=
  asks.foldl (fun l ask => Build.after (declare ask.1 ask.2) l) l

def Reachable (l : Layout) : Prop := ∃ asks, l = asked {} asks

/-- Those of the fields asked for that the layout lacks, numbered from its end on. -/
def missing (l : Layout) (asks : List (String × Ty)) : List Field :=
  (asks.filter fun ask => (l.lookup ask.1).isNone).mapIdx
    fun i ask => ⟨⟨l.fields.length + i⟩, ask.1, ask.2⟩

theorem conflict_eq_some {err : BuildError} : l.conflict name ty = some err ↔
    ∃ f, l.lookup name = some f ∧ f.ty ≠ ty ∧ err = .fieldTypeConflict name f.ty ty := by
  unfold conflict
  cases l.lookup name with
  | none => simp
  | some f => simp [eq_comm]

section Step

theorem declare_of_some {f : Field} (h : l.lookup name = some f) (ty : Ty) : declare name ty l =
    if f.ty = ty then .ok f l else .error (.fieldTypeConflict name f.ty ty) l := by
  simp [declare, h]

theorem declare_of_none (h : l.lookup name = none) (ty : Ty) : declare name ty l =
    .ok ⟨⟨l.fields.length⟩, name, ty⟩ ⟨l.fields ++ [⟨⟨l.fields.length⟩, name, ty⟩]⟩ := by
  simp [declare, h]

theorem after_declare_of_some {f : Field} (h : l.lookup name = some f) (ty : Ty) :
    Build.after (declare name ty) l = l := by
  rw [Build.after, declare_of_some h]
  split_ifs <;> rfl

theorem after_declare_of_none (h : l.lookup name = none) (ty : Ty) :
    Build.after (declare name ty) l = ⟨l.fields ++ [⟨⟨l.fields.length⟩, name, ty⟩]⟩ :=
  Build.after_of_ok (declare_of_none h ty)

theorem prefix_after_declare (l : Layout) (name : String) (ty : Ty) :
    l.fields <+: (Build.after (declare name ty) l).fields := by
  cases h : l.lookup name with
  | some f => rw [after_declare_of_some h]
  | none =>
    rw [after_declare_of_none h]
    exact List.prefix_append _ _

theorem numbered_after_declare (hl : l.Numbered) (name : String) (ty : Ty) :
    (Build.after (declare name ty) l).Numbered := by
  cases h : l.lookup name with
  | some f => rwa [after_declare_of_some h]
  | none =>
    rw [after_declare_of_none h]
    exact declare_numbered hl (declare_of_none h ty)

theorem lookup_after_declare_ne {other : String} (h : other ≠ name) (ty : Ty) :
    (Build.after (declare name ty) l).lookup other = l.lookup other := by
  cases hl : l.lookup name with
  | some f => rw [after_declare_of_some hl]
  | none =>
    rw [after_declare_of_none hl]
    simp [lookup, List.find?_append, h.symm]

theorem lookup_after_declare_of_none (h : l.lookup name = none) (ty : Ty) :
    (Build.after (declare name ty) l).lookup name = some ⟨⟨l.fields.length⟩, name, ty⟩ := by
  rw [after_declare_of_none h]
  unfold lookup at h ⊢
  rw [List.find?_append, h]
  simp

theorem lookup_after_declare_self (l : Layout) (name : String) (ty : Ty) :
    ∃ f, (Build.after (declare name ty) l).lookup name = some f := by
  cases h : l.lookup name with
  | some f => exact ⟨f, by rw [after_declare_of_some h, h]⟩
  | none => exact ⟨_, lookup_after_declare_of_none h ty⟩

theorem result_declare_of_prefix (h : (Build.after (declare name ty) l).fields <+: l'.fields) :
    Build.result (declare name ty) l' = Build.result (declare name ty) l := by
  unfold Build.result
  cases hl : l.lookup name with
  | some f =>
    rw [after_declare_of_some hl] at h
    have hl' := lookup_of_prefix h hl
    rw [declare_of_some hl, declare_of_some hl']
    split_ifs <;> rfl
  | none =>
    have hl' := lookup_of_prefix h (lookup_after_declare_of_none hl ty)
    rw [declare_of_none hl, declare_of_some hl', if_pos rfl]

end Step

section Run

theorem asked_cons (l : Layout) (ask : String × Ty) (asks : List (String × Ty)) :
    l.asked (ask :: asks) = (Build.after (declare ask.1 ask.2) l).asked asks := rfl

theorem asked_append (l : Layout) (asks asks' : List (String × Ty)) :
    l.asked (asks ++ asks') = (l.asked asks).asked asks' :=
  List.foldl_append

theorem prefix_asked (l : Layout) (asks : List (String × Ty)) :
    l.fields <+: (l.asked asks).fields := by
  induction asks generalizing l with
  | nil => exact List.prefix_rfl
  | cons ask asks ih => exact (prefix_after_declare l ask.1 ask.2).trans (ih _)

theorem numbered_asked (hl : l.Numbered) (asks : List (String × Ty)) : (l.asked asks).Numbered := by
  induction asks generalizing l with
  | nil => exact hl
  | cons ask asks ih => exact ih (numbered_after_declare hl ask.1 ask.2)

theorem Reachable.numbered (h : l.Reachable) : l.Numbered := by
  obtain ⟨asks, rfl⟩ := h
  exact numbered_asked (by intro i f hf; simp at hf) asks

theorem lookup_asked_of_not_mem (h : name ∉ asks.map Prod.fst) :
    (l.asked asks).lookup name = l.lookup name := by
  induction asks generalizing l with
  | nil => rfl
  | cons ask asks ih =>
    obtain ⟨hne, hrest⟩ := not_or.1 (List.mem_cons.not.1 h)
    rw [asked_cons, ih hrest, lookup_after_declare_ne hne]

theorem fields_asked (hnodup : (asks.map Prod.fst).Nodup) :
    (l.asked asks).fields = l.fields ++ l.missing asks := by
  induction asks generalizing l with
  | nil => simp [asked, missing]
  | cons ask asks ih =>
    obtain ⟨hnew, hnodup⟩ := List.nodup_cons.1 hnodup
    have hsame : (asks.filter fun other =>
        ((Build.after (declare ask.1 ask.2) l).lookup other.1).isNone) =
          asks.filter fun other => (l.lookup other.1).isNone := by
      refine List.filter_congr fun other hother => ?_
      have hne : other.1 ≠ ask.1 := fun heq => hnew (heq ▸ List.mem_map_of_mem hother)
      rw [lookup_after_declare_ne hne]
    rw [asked_cons, ih hnodup, missing, hsame]
    cases h : l.lookup ask.1 with
    | some f =>
      rw [after_declare_of_some h, missing, List.filter_cons_of_neg (by simp [h])]
    | none =>
      rw [after_declare_of_none h, missing, List.filter_cons_of_pos (by simp [h]),
        List.mapIdx_cons, List.append_assoc]
      simp [Nat.add_assoc, Nat.add_comm 1]

/-- Everything that was asked for is there, and asking again changes nothing. -/
theorem asked_of_some (h : ∀ ask ∈ asks, ∃ f, l.lookup ask.1 = some f) : l.asked asks = l := by
  induction asks with
  | nil => rfl
  | cons ask asks ih =>
    obtain ⟨⟨f, hf⟩, hrest⟩ := List.forall_mem_cons.1 h
    rw [asked_cons, after_declare_of_some hf]
    exact ih hrest

/-- What becomes of one request among others can be read off the layout in the end. -/
theorem result_declare_asked {before after : List (String × Ty)} (l : Layout)
    (h : asks = before ++ ask :: after) :
    Build.result (declare ask.1 ask.2) (l.asked asks) =
      Build.result (declare ask.1 ask.2) (l.asked before) := by
  rw [h, asked_append, asked_cons]
  exact result_declare_of_prefix (prefix_asked _ after)

theorem lookup_asked_of_mem (h : ask ∈ asks) : ∃ f, (l.asked asks).lookup ask.1 = some f := by
  obtain ⟨before, after, rfl⟩ := List.append_of_mem h
  obtain ⟨f, hf⟩ := lookup_after_declare_self (l.asked before) ask.1 ask.2
  rw [asked_append, asked_cons]
  exact ⟨f, lookup_of_prefix (prefix_asked _ after) hf⟩

/-- Requests for other fields do not speak against a field. -/
theorem objection_asked (hnodup : (asks.map Prod.fst).Nodup) (h : ask ∈ asks) :
    objectionOf (Build.result (declare ask.1 ask.2) (l.asked asks)) = l.conflict ask.1 ask.2 := by
  obtain ⟨before, after, rfl⟩ := List.append_of_mem h
  have hbefore : ask.1 ∉ before.map Prod.fst := by
    rw [List.map_append, List.nodup_append] at hnodup
    exact fun hmem => hnodup.2.2 _ hmem _ List.mem_cons_self rfl
  rw [result_declare_asked l rfl, Build.objectionOf_result, objection_declare,
    conflict_congr (lookup_asked_of_not_mem hbefore)]

end Run

theorem ids_nodup {fs : List Field} (h : ∀ f ∈ fs, l.Has f) (hnames : (fs.map Field.name).Nodup) :
    (fs.map Field.id).Nodup := by
  rw [List.Nodup, List.pairwise_map] at hnames ⊢
  exact hnames.imp_of_mem fun hf hg hne => (h _ hf).id_ne (h _ hg) hne

end Layout

namespace SharedFields

def fields (s : SharedFields) : List Field := [s.current, s.error, s.reason, s.errorPos]

theorem expected_nodup : (expected.map Prod.fst).Nodup := by decide

/-- Declaring the fields is asking for all of them and then collecting them. -/
theorem declare_eq_collect (l : Layout) : declare l = Build.settle
    (collect fun ask => Build.result (Layout.declare ask.1 ask.2) (l.asked expected))
      (l.asked expected) := by
  have hcurrent := l.result_declare_asked
    (show expected = [] ++ (currentName, parserSig.ptr) :: expected.drop 1 from rfl)
  have herror := l.result_declare_asked
    (show expected = expected.take 1 ++ (errorName, .i32) :: expected.drop 2 from rfl)
  have hreason := l.result_declare_asked
    (show expected = expected.take 2 ++ (reasonName, .bytes) :: expected.drop 3 from rfl)
  have hpos := l.result_declare_asked
    (show expected = expected.take 3 ++ [(errorPosName, .bytes)] from rfl)
  simp only [collect, Build.settle_bind, Build.settle_pure]
  rw [hcurrent, herror, hreason, hpos]
  exact andThen (Build.attempt_run _ _) <| andThen (Build.attempt_run _ _) <|
    andThen (Build.attempt_run _ _) <| andThen (Build.attempt_run _ _) rfl

theorem collect_mono {found found' : String × Ty → Except BuildError Field}
    (h : ∀ ask ∈ expected, ∀ f, found ask = .ok f → found' ask = .ok f) {s : SharedFields}
    (hs : collect found = .ok s) : collect found' = .ok s := by
  obtain ⟨hc, he, hr, hp, -⟩ : _ ∧ _ ∧ _ ∧ _ ∧ _ := by
    simpa only [expected, List.forall_mem_cons] using h
  rw [collect_eq_ok] at hs ⊢
  exact ⟨hc _ hs.1, he _ hs.2.1, hr _ hs.2.2.1, hp _ hs.2.2.2⟩

theorem after_declare (l : Layout) : Build.after declare l = l.asked expected := by
  rw [Build.after, declare_eq_collect]
  cases collect fun ask => Build.result (Layout.declare ask.1 ask.2) (l.asked expected) <;> rfl

theorem objection_declare (l : Layout) :
    Build.objection declare l = expected.findSome? fun ask => l.conflict ask.1 ask.2 := by
  have hcollect : Build.objection declare l = objectionOf
      (collect fun ask => Build.result (Layout.declare ask.1 ask.2) (l.asked expected)) := by
    rw [Build.objection, declare_eq_collect]
    cases collect fun ask => Build.result (Layout.declare ask.1 ask.2) (l.asked expected) <;> rfl
  rw [hcollect, objectionOf_collect]
  exact findSome?_congr fun ask hask => Layout.objection_asked expected_nodup hask

/-- A field that is there is found exactly if it can be declared. -/
theorem find_eq_ok_iff {l : Layout} {name : String} {g : Field} (hg : l.lookup name = some g)
    (ty : Ty) (f : Field) :
    find l name ty = .ok f ↔ Build.result (Layout.declare name ty) l = .ok f := by
  rw [Build.result, Layout.declare_of_some hg, find, hg]
  dsimp only
  split_ifs <;> simp

theorem resolve_of_declare {l l₁ : Layout} {s : SharedFields} (h : declare l = .ok s l₁) :
    resolve l₁ = .ok s := by
  rw [declare_eq_collect] at h
  obtain ⟨hs, rfl⟩ := Build.settle_ok h
  rw [resolve_eq_collect]
  refine collect_mono (fun ask hask f hf => ?_) hs
  obtain ⟨g, hg⟩ := Layout.lookup_asked_of_mem (l := l) hask
  exact (find_eq_ok_iff hg _ f).2 hf

theorem lookup_of_resolve {l : Layout} {s : SharedFields} (h : resolve l = .ok s) :
    ∀ ask ∈ expected, ∃ g, l.lookup ask.1 = some g := by
  intro ask hask
  have hnone := objectionOf_collect fun ask => find l ask.1 ask.2
  rw [← resolve_eq_collect, h, objectionOf, eq_comm, List.findSome?_eq_none_iff] at hnone
  cases hl : l.lookup ask.1 with
  | some g => exact ⟨g, rfl⟩
  | none => simpa [find, hl, objectionOf] using hnone ask hask

theorem declare_of_resolve {l : Layout} {s : SharedFields} (h : resolve l = .ok s) :
    declare l = .ok s l := by
  have hthere := lookup_of_resolve h
  rw [resolve_eq_collect] at h
  rw [declare_eq_collect, Layout.asked_of_some hthere]
  refine Build.check_of_ok (collect_mono (fun ask hask f hf => ?_) h)
  obtain ⟨g, hg⟩ := hthere ask hask
  exact (find_eq_ok_iff hg _ f).1 hf

theorem fields_of_resolve {l : Layout} {s : SharedFields} (hl : l.Numbered)
    (h : resolve l = .ok s) :
    (s.fields.map fun f => (f.name, f.ty)) = expected ∧ (s.fields.map Field.id).Nodup := by
  obtain ⟨hcurrent, herror, hreason, hpos⟩ := resolve_ok hl h
  have hexpected : (s.fields.map fun f => (f.name, f.ty)) = expected := by
    simp [fields, expected, hcurrent.name_eq, hcurrent.ty_eq, herror.name_eq, herror.ty_eq,
      hreason.name_eq, hreason.ty_eq, hpos.name_eq, hpos.ty_eq]
  refine ⟨hexpected, Layout.ids_nodup (l := l) ?_ ?_⟩
  · simpa [fields] using ⟨hcurrent.has, herror.has, hreason.has, hpos.has⟩
  · have hnames : s.fields.map Field.name = expected.map Prod.fst := by
      rw [← hexpected, List.map_map]
      rfl
    exact hnames ▸ expected_nodup

theorem declare_fails_iff {l : Layout} : (∃ err l₁, declare l = .error err l₁) ↔
    ∃ name ty f, (name, ty) ∈ expected ∧ l.lookup name = some f ∧ f.ty ≠ ty := by
  simp only [← Build.objection_eq_some, objection_declare, ← Option.isSome_iff_exists,
    List.findSome?_isSome_iff]
  constructor
  · rintro ⟨⟨name, ty⟩, hmem, hconflict⟩
    obtain ⟨err, herr⟩ := Option.isSome_iff_exists.1 hconflict
    obtain ⟨f, hf, hty, -⟩ := Layout.conflict_eq_some.1 herr
    exact ⟨name, ty, f, hmem, hf, hty⟩
  · rintro ⟨name, ty, f, hmem, hf, hty⟩
    have hconflict := Layout.conflict_eq_some.2 ⟨f, hf, hty, rfl⟩
    exact ⟨(name, ty), hmem, Option.isSome_iff_exists.2 ⟨_, hconflict⟩⟩

/-- The first name that belongs to a field of another type is reported. -/
theorem declare_error_iff {l : Layout} {err : BuildError} : (∃ l₁, declare l = .error err l₁) ↔
    ∃ before name ty after f, expected = before ++ (name, ty) :: after ∧
      l.lookup name = some f ∧ f.ty ≠ ty ∧ err = .fieldTypeConflict name f.ty ty ∧
      ∀ name' ty', (name', ty') ∈ before → ∀ g, l.lookup name' = some g → g.ty = ty' := by
  rw [← Build.objection_eq_some, objection_declare, List.findSome?_eq_some_iff]
  constructor
  · rintro ⟨before, ⟨name, ty⟩, after, hsplit, hconflict, hbefore⟩
    obtain ⟨f, hf, hty, herr⟩ := Layout.conflict_eq_some.1 hconflict
    exact ⟨before, name, ty, after, f, hsplit, hf, hty, herr,
      fun name' ty' hmem => Layout.conflict_eq_none.1 (hbefore _ hmem)⟩
  · rintro ⟨before, name, ty, after, f, hsplit, hf, hty, herr, hbefore⟩
    exact ⟨before, (name, ty), after, hsplit, Layout.conflict_eq_some.2 ⟨f, hf, hty, herr⟩,
      fun ask hask => Layout.conflict_eq_none.2 (hbefore ask.1 ask.2 hask)⟩

/-- Declaring the shared fields and finding them agree. Fields that were declared are found in every
later layout, as the same ones and under four different numbers, and fields that are found can be
declared without effect. Declaring them fails exactly if one of the names belongs to a field of
another type, and the first such name is reported. Even then those that were missing are added, in
their order. -/
theorem declared_and_found {l : Layout} (hl : l.Reachable) :
    (∀ s l₁, declare l = .ok s l₁ → (∀ later, resolve (l₁.asked later) = .ok s) ∧
      (s.fields.map fun f => (f.name, f.ty)) = expected ∧ (s.fields.map Field.id).Nodup) ∧
    (∀ s, resolve l = .ok s → declare l = .ok s l) ∧
    ((∃ err l₁, declare l = .error err l₁) ↔
      ∃ name ty f, (name, ty) ∈ expected ∧ l.lookup name = some f ∧ f.ty ≠ ty) ∧
    (∀ err, (∃ l₁, declare l = .error err l₁) ↔ ∃ before name ty after f,
      expected = before ++ (name, ty) :: after ∧ l.lookup name = some f ∧ f.ty ≠ ty ∧
        err = .fieldTypeConflict name f.ty ty ∧
        ∀ name' ty', (name', ty') ∈ before → ∀ g, l.lookup name' = some g → g.ty = ty') ∧
    (Build.after declare l).fields = l.fields ++ l.missing expected := by
  refine ⟨?_, fun s => declare_of_resolve, declare_fails_iff, fun err => declare_error_iff, ?_⟩
  · intro s l₁ h
    have hfound := resolve_of_declare h
    have hnumbered : l₁.Numbered := by
      rw [← Build.after_of_ok h, after_declare]
      exact Layout.numbered_asked hl.numbered expected
    exact ⟨fun later => resolve_of_prefix (l₁.prefix_asked later) hfound,
      fields_of_resolve hnumbered hfound⟩
  · rw [after_declare, Layout.fields_asked expected_nodup]

def occupied : Layout := .asked {} [(errorPosName, .i32), (reasonName, .bytes), (errorName, .bytes)]

def begun : Layout := .asked {} [(reasonName, .bytes), ("count", .i32)]

/-- The name that comes first is reported, though the other one was there before it. Later requests
for a declared field, with another type, are refused and change nothing. -/
theorem declared_and_found_begun : occupied.Reachable ∧ begun.Reachable ∧
    (∃ l₁, declare occupied = .error (.fieldTypeConflict errorName .bytes .i32) l₁) ∧
    (Build.after declare occupied).fields =
      occupied.fields ++ [⟨⟨3⟩, currentName, parserSig.ptr⟩] ∧
    ∃ s l₁, declare begun = .ok s l₁ ∧
      resolve (l₁.asked [(errorName, .bytes), ("more", .i32)]) = .ok s ∧
      s.fields.map Field.id = [⟨2⟩, ⟨3⟩, ⟨0⟩, ⟨4⟩] := by
  have hoccupied : occupied.Reachable := ⟨_, rfl⟩
  have hbegun : begun.Reachable := ⟨_, rfl⟩
  obtain ⟨-, -, -, hreported, hadded⟩ := declared_and_found hoccupied
  obtain ⟨hfound, -⟩ := declared_and_found hbegun
  refine ⟨hoccupied, hbegun, (hreported _).2 ?_, hadded, _, _, rfl, (hfound _ _ rfl).1 _, rfl⟩
  refine ⟨expected.take 1, errorName, .i32, expected.drop 2, ⟨⟨2⟩, errorName, .bytes⟩, rfl, rfl,
    by decide, rfl, ?_⟩
  intro name ty hmem g hg
  obtain ⟨rfl, rfl⟩ := Prod.mk.inj (List.mem_singleton.1 hmem)
  have hnone : occupied.lookup currentName = none := rfl
  simp [hnone] at hg

end SharedFields

end SpanTracking
