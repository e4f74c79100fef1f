import SpanTracking.Proofs.Coloring

set_option autoImplicit false

namespace SpanTracking.Coloring

/-- What is wrong with the member number `j` of the color number `i`, or with a color that has no
members. -/
inductive Flaw (spans : List SpanDecl) (colors : List (List SpanId)) :
    Nat → Nat → BuildError → Prop
  | empty {i : Nat} (h : colors[i]? = some []) : Flaw spans colors i 0 (.emptyColor i)
  | unknown {i j : Nat} {members : List SpanId} {s : SpanId} (hm : colors[i]? = some members)
      (hs : members[j]? = some s) (h : spans.length ≤ s.index) :
      Flaw spans colors i j (.unknownSpan s)
  | duplicate {i j : Nat} {members : List SpanId} {s : SpanId} {d : SpanDecl}
      (hm : colors[i]? = some members) (hs : members[j]? = some s)
      (hd : spans[s.index]? = some d) (h : s ∈ (colors.take i).flatten ++ members.take j) :
      Flaw spans colors i j (.duplicateSpan d.name)

def FirstFlaw (spans : List SpanDecl) (colors : List (List SpanId)) (err : BuildError) : Prop :=
  ∃ i j, Flaw spans colors i j err ∧
    ∀ i' j' err', Flaw spans colors i' j' err' → i < i' ∨ i = i' ∧ j ≤ j'

def FirstMissing (spans : List SpanDecl) (colors : List (List SpanId)) (err : BuildError) : Prop :=
  ∃ k d, spans[k]? = some d ∧ (⟨k⟩ : SpanId) ∉ colors.flatten ∧
    (∀ i < k, (⟨i⟩ : SpanId) ∈ colors.flatten) ∧ err = .uncoloredSpan d.name

section Flaws

variable {spans : List SpanDecl} {colors : List (List SpanId)} {i j : Nat} {err : BuildError}

theorem Flaw.unique {err' : BuildError} (h : Flaw spans colors i j err)
    (h' : Flaw spans colors i j err') : err = err' := by
  cases h with
  | empty he => cases h' <;> simp_all
  | unknown hm hs hge => cases h' <;> simp_all
  | duplicate hm hs hd hbefore => cases h' <;> simp_all

theorem FirstFlaw.unique {err' : BuildError} (h : FirstFlaw spans colors err)
    (h' : FirstFlaw spans colors err') : err = err' := by
  obtain ⟨i, j, hflaw, hfirst⟩ := h
  obtain ⟨i', j', hflaw', hfirst'⟩ := h'
  have hle := hfirst i' j' err' hflaw'
  have hge := hfirst' i j err hflaw
  obtain rfl : i = i' := by omega
  obtain rfl : j = j' := by omega
  exact hflaw.unique hflaw'

theorem Clean.not_flaw (h : Clean spans colors) : ¬ Flaw spans colors i j err := by
  obtain ⟨hne, hknown, hnodup⟩ := h
  intro hflaw
  cases hflaw with
  | empty he => exact hne [] (List.mem_of_getElem? he) rfl
  | unknown hm hs hge =>
    have hmem := List.mem_flatten.2 ⟨_, List.mem_of_getElem? hm, List.mem_of_getElem? hs⟩
    exact absurd (hknown _ hmem) (Nat.not_lt.2 hge)
  | duplicate hm hs hd hbefore =>
    obtain ⟨hi, rfl⟩ := List.getElem?_eq_some_iff.1 hm
    obtain ⟨hj, rfl⟩ := List.getElem?_eq_some_iff.1 hs
    -- The place splits all members into those before it and those from it on.
    have hsplit : colors.flatten = ((colors.take i).flatten ++ colors[i].take j) ++
        (colors[i].drop j ++ (colors.drop (i + 1)).flatten) := by
      conv_lhs => rw [← List.take_append_drop i colors, List.drop_eq_getElem_cons hi]
      rw [List.flatten_append, List.flatten_cons]
      conv_lhs => rw [← List.take_append_drop j colors[i]]
      simp only [List.append_assoc]
    rw [hsplit] at hnodup
    refine (List.nodup_append.1 hnodup).2.2 _ hbefore _ (List.mem_append_left _ ?_) rfl
    rw [List.drop_eq_getElem_cons hj]
    exact List.mem_cons_self

/-- A flaw depends only on what has been read: on the colors before it. -/
theorem Flaw.of_append {done rest : List (List SpanId)} (h : Flaw spans (done ++ rest) i j err)
    (hi : i < done.length) : Flaw spans done i j err := by
  cases h with
  | empty he => exact .empty (by rwa [List.getElem?_append_left hi] at he)
  | unknown hm hs hge => exact .unknown (by rwa [List.getElem?_append_left hi] at hm) hs hge
  | duplicate hm hs hd hbefore =>
    rw [List.getElem?_append_left hi] at hm
    rw [List.take_append_of_le_length hi.le] at hbefore
    exact .duplicate hm hs hd hbefore

/-- A flaw depends only on what has been read: on the members of its color before it. -/
theorem Flaw.of_append_members {done todo : List (List SpanId)} {before after : List SpanId}
    (h : Flaw spans (done ++ (before ++ after) :: todo) done.length j err)
    (hj : j < before.length) : Flaw spans (done ++ [before]) done.length j err := by
  have hcolor : ∀ (xs : List SpanId) (ys : List (List SpanId)),
      (done ++ xs :: ys)[done.length]? = some xs := by simp
  have htake : ∀ (xs : List SpanId) (ys : List (List SpanId)),
      (done ++ xs :: ys).take done.length = done := by simp
  cases h with
  | empty he =>
    rw [hcolor, Option.some.injEq, List.append_eq_nil_iff] at he
    simp [he.1] at hj
  | unknown hm hs hge =>
    obtain rfl := Option.some.inj ((hcolor _ _).symm.trans hm)
    rw [List.getElem?_append_left hj] at hs
    exact .unknown (hcolor before []) hs hge
  | duplicate hm hs hd hbefore =>
    obtain rfl := Option.some.inj ((hcolor _ _).symm.trans hm)
    rw [List.getElem?_append_left hj] at hs
    rw [htake, List.take_append_of_le_length hj.le] at hbefore
    exact .duplicate (hcolor before []) hs hd (by rwa [htake])

/-- Clean colors stay clean when one more is added whose members are new. -/
theorem Clean.concat {before : List SpanId} (h : Clean spans colors) (hne : before ≠ [])
    (hknown : ∀ s ∈ before, s.index < spans.length) (hfresh : ∀ s ∈ before, s ∉ colors.flatten)
    (hnodup : before.Nodup) : Clean spans (colors ++ [before]) := by
  refine ⟨?_, ?_, ?_⟩
  · exact List.forall_mem_append.2 ⟨h.nonempty, by simpa using hne⟩
  · rw [List.flatten_append, List.flatten_singleton]
    exact List.forall_mem_append.2 ⟨h.known, hknown⟩
  · rw [List.flatten_append, List.flatten_singleton, List.nodup_append]
    refine ⟨h.nodup, hnodup, ?_⟩
    rintro s hs _ ht rfl
    exact hfresh s ht hs

end Flaws

section Scan

variable {spans : List SpanDecl} {done colors : List (List SpanId)} {part members : List SpanId}
  {err : BuildError}

/-- Reading members stops at the first one that is unknown or was met before. -/
theorem scanMembers_error
    (h : scanMembers spans done.length (marks spans.length (done ++ [part])) members =
      .error err) :
    ∃ before s after, members = before ++ s :: after ∧
      (∀ t ∈ before, t.index < spans.length) ∧ (∀ t ∈ before, t ∉ done.flatten ++ part) ∧
      before.Nodup ∧
      (spans.length ≤ s.index ∧ err = .unknownSpan s ∨
        ∃ d, spans[s.index]? = some d ∧ s ∈ done.flatten ++ (part ++ before) ∧
          err = .duplicateSpan d.name) := by
  induction members generalizing part with
  | nil => simp [scanMembers] at h
  | cons s rest ih =>
    rw [scanMembers_cons] at h
    cases hs : spans[s.index]? with
    | none =>
      simp only [hs, Except.error.injEq] at h
      exact ⟨[], s, rest, rfl, by simp, by simp, by simp,
        .inl ⟨List.getElem?_eq_none_iff.1 hs, h.symm⟩⟩
    | some d =>
      by_cases hmem : s ∈ done.flatten ++ part
      · simp only [hs, hmem, ↓reduceIte, Except.error.injEq] at h
        exact ⟨[], s, rest, rfl, by simp, by simp, by simp,
          .inr ⟨d, hs, by simpa using hmem, h.symm⟩⟩
      · simp only [hs, hmem, ↓reduceIte] at h
        obtain ⟨before, t, after, rfl, hknown, hfresh, hnodup, hflaw⟩ := ih h
        rw [List.append_assoc, List.singleton_append] at hflaw
        refine ⟨s :: before, t, after, rfl, ?_, ?_, ?_, hflaw⟩
        · exact List.forall_mem_cons.2 ⟨(List.getElem?_eq_some_iff.1 hs).1, hknown⟩
        · refine List.forall_mem_cons.2 ⟨hmem, fun u hu hold => hfresh u hu ?_⟩
          rw [← List.append_assoc]
          exact List.mem_append_left _ hold
        · exact List.nodup_cons.2 ⟨fun hu => hfresh s hu (by simp), hnodup⟩

/-- Reading colors stops at the first one that is empty or whose members cannot be read. -/
theorem scanColors_error
    (h : scanColors spans (marks spans.length done) done.length colors = .error err) :
    ∃ read members todo, colors = read ++ members :: todo ∧
      (∃ table, scanColors spans (marks spans.length done) done.length read = .ok table) ∧
      (members = [] ∧ err = .emptyColor (done.length + read.length) ∨
        members ≠ [] ∧ scanMembers spans (done ++ read).length
          (marks spans.length (done ++ read ++ [[]])) members = .error err) := by
  induction colors generalizing done with
  | nil => simp [scanColors] at h
  | cons members rest ih =>
    by_cases hne : members = []
    · subst hne
      simp only [scanColors, Except.error.injEq] at h
      exact ⟨[], [], rest, rfl, ⟨_, rfl⟩, .inl ⟨rfl, h.symm⟩⟩
    rw [scanColors_cons hne] at h
    cases hmembers : scanMembers spans done.length (marks spans.length (done ++ [[]])) members with
    | error e =>
      obtain rfl : e = err := by simpa [hmembers, bind, Except.bind] using h
      exact ⟨[], members, rest, rfl, ⟨_, rfl⟩, .inr ⟨hne, by simpa using hmembers⟩⟩
    | ok table =>
      have htable := (scanMembers_eq_ok.1 hmembers).2.2.2
      rw [List.nil_append] at htable
      subst htable
      rw [hmembers] at h
      have hlen : done.length + 1 = (done ++ [members]).length := by simp
      have hrest : scanColors spans (marks spans.length (done ++ [members]))
          (done ++ [members]).length rest = .error err := hlen ▸ h
      obtain ⟨read, first, todo, rfl, ⟨table, hread⟩, hflaw⟩ := ih hrest
      have hnumber : (done ++ [members]).length + read.length =
          done.length + (members :: read).length := by simp; omega
      rw [hnumber, List.append_assoc done, List.singleton_append] at hflaw
      refine ⟨members :: read, first, todo, rfl, ⟨table, ?_⟩, hflaw⟩
      rw [scanColors_cons hne, hmembers, ← hread, ← hlen]
      rfl

/-- Reading that stops reports the first flaw. -/
theorem firstFlaw_of_scan
    (h : scanColors spans (List.replicate spans.length none) 0 colors = .error err) :
    FirstFlaw spans colors err := by
  have hscan : scanColors spans (marks spans.length []) ([] : List (List SpanId)).length colors =
      .error err := marks_nil ▸ h
  obtain ⟨done, members, todo, rfl, ⟨table, hread⟩, hflaw⟩ := scanColors_error hscan
  rw [marks_nil] at hread
  have hdone : Clean spans done := (scan_eq_ok.1 hread).1
  have hcolor : (done ++ members :: todo)[done.length]? = some members := by simp
  have htake : (done ++ members :: todo).take done.length = done := by simp
  -- No color that was read to its end is flawed.
  have hbelow : ∀ i j err', Flaw spans (done ++ members :: todo) i j err' → done.length ≤ i := by
    intro i j err' hother
    by_contra hlt
    exact hdone.not_flaw (hother.of_append (Nat.not_le.1 hlt))
  rcases hflaw with ⟨rfl, rfl⟩ | ⟨hne, hmembers⟩
  · refine ⟨done.length, 0, ?_, fun i j err' hother => ?_⟩
    · rw [List.length_nil, Nat.zero_add]
      exact .empty hcolor
    · have := hbelow i j err' hother
      omega
  · obtain ⟨before, s, after, rfl, hknown, hfresh, hnodup, hflaw⟩ := scanMembers_error hmembers
    simp only [List.nil_append, List.append_nil] at hfresh hflaw
    have hs : (before ++ s :: after)[before.length]? = some s := by simp
    refine ⟨done.length, before.length, ?_, fun i j err' hother => ?_⟩
    · rcases hflaw with ⟨hge, rfl⟩ | ⟨d, hd, hmem, rfl⟩
      · exact .unknown hcolor hs hge
      · exact .duplicate hcolor hs hd (by simpa [htake] using hmem)
    · have hle := hbelow i j err' hother
      by_contra hearlier
      obtain rfl : i = done.length := by omega
      have hj : j < before.length := by omega
      have hne : before ≠ [] := List.ne_nil_of_length_pos (by omega)
      exact (hdone.concat hne hknown hfresh hnodup).not_flaw (hother.of_append_members hj)

theorem collect_eq_error {spans : List SpanDecl} {table : List (Option Nat)}
    (h : collect spans table = .error err) :
    ∃ (k : Nat) (d : SpanDecl), spans[k]? = some d ∧ table[k]? = some none ∧
      (∀ i < k, table[i]? ≠ some none) ∧
      err = .uncoloredSpan d.name := by
  fun_induction collect spans table with
  | case1 d spans table =>
    obtain rfl := Except.error.inj h
    exact ⟨0, d, rfl, rfl, by simp, rfl⟩
  | case2 d spans color table ih =>
    cases hrest : collect spans table with
    | ok entries => simp [hrest, bind, Except.bind, pure, Except.pure] at h
    | error e =>
      obtain rfl : e = err := by simpa [hrest, bind, Except.bind] using h
      obtain ⟨k, d, hd, hnone, hbefore, rfl⟩ := ih hrest
      refine ⟨k + 1, d, hd, hnone, fun i hi => ?_, rfl⟩
      cases i with
      | zero => simp
      | succ i => exact hbefore i (by omega)
  | case3 => cases h

end Scan

section Outcome

variable {spans : List SpanDecl} {colors : List (List SpanId)} {err err' : BuildError}

theorem FirstMissing.unique (h : FirstMissing spans colors err)
    (h' : FirstMissing spans colors err') : err = err' := by
  obtain ⟨k, d, hd, hmissing, hbefore, rfl⟩ := h
  obtain ⟨k', d', hd', hmissing', hbefore', rfl⟩ := h'
  obtain rfl : k = k' := by
    rcases Nat.lt_trichotomy k k' with hlt | heq | hgt
    · exact absurd (hbefore' k hlt) hmissing
    · exact heq
    · exact absurd (hbefore k' hgt) hmissing'
  rw [Option.some.inj (hd.symm.trans hd')]

/-- A refusal names the first flaw, and if there is none, the first span without a color. -/
theorem cause_of_error (h : ofColors spans colors = .error err) :
    FirstFlaw spans colors err ∨
      (∀ i j err', ¬ Flaw spans colors i j err') ∧ FirstMissing spans colors err := by
  have htabulate : tabulate spans colors = .error err := by
    unfold ofColors at h
    split at h
    · rename_i htable
      rw [htable, Except.error.inj h]
    · cases h
  unfold tabulate at htabulate
  cases hscan : scanColors spans (List.replicate spans.length none) 0 colors with
  | error e =>
    obtain rfl : e = err := by simpa [hscan, bind, Except.bind] using htabulate
    exact .inl (firstFlaw_of_scan hscan)
  | ok table =>
    obtain ⟨hclean, rfl⟩ := scan_eq_ok.1 hscan
    rw [hscan] at htabulate
    obtain ⟨k, d, hd, hmissing, hbefore, rfl⟩ := collect_eq_error htabulate
    have hk : k < spans.length := (List.getElem?_eq_some_iff.1 hd).1
    refine .inr ⟨fun i j err' => hclean.not_flaw, k, d, hd,
      (getElem?_marks_eq_none (s := ⟨k⟩) hk).1 hmissing, fun i hi => ?_, rfl⟩
    by_contra habsent
    exact hbefore i hi ((getElem?_marks_eq_none (s := ⟨i⟩) (hi.trans hk)).2 habsent)

theorem IsPartition.not_firstMissing (h : IsPartition spans colors) :
    ¬ FirstMissing spans colors err := by
  rintro ⟨k, d, hd, hmissing, -⟩
  exact hmissing (h.covered k (List.getElem?_eq_some_iff.1 hd).1)

theorem ofColors_eq_error : ofColors spans colors = .error err ↔
    FirstFlaw spans colors err ∨
      (∀ i j err', ¬ Flaw spans colors i j err') ∧ FirstMissing spans colors err := by
  refine ⟨cause_of_error, fun hcause => ?_⟩
  cases houtcome : ofColors spans colors with
  | ok c =>
    -- A partition has neither a flaw nor a missing span.
    obtain ⟨rfl, rfl, hvalid⟩ := ofColors_eq_ok.1 houtcome
    rcases hcause with ⟨i, j, hflaw, -⟩ | ⟨-, hmissing⟩
    · exact absurd hflaw hvalid.not_flaw
    · exact absurd hmissing hvalid.not_firstMissing
  | error e =>
    rcases cause_of_error houtcome, hcause with ⟨hflaw | ⟨hclean, hmissing⟩,
      hflaw' | ⟨hclean', hmissing'⟩⟩
    · rw [hflaw.unique hflaw']
    · obtain ⟨i, j, hplace, -⟩ := hflaw
      exact absurd hplace (hclean' i j e)
    · obtain ⟨i, j, hplace, -⟩ := hflaw'
      exact absurd hplace (hclean i j err)
    · rw [hmissing.unique hmissing']

/-- A partition has every span once and nothing else. -/
theorem isPartition_iff_count : IsPartition spans colors ↔ (∀ members ∈ colors, members ≠ []) ∧
    ∀ s : SpanId, colors.flatten.count s = if s.index < spans.length then 1 else 0 := by
  constructor
  · intro h
    refine ⟨h.nonempty, fun s => ?_⟩
    split
    · rename_i hlt
      exact List.count_eq_one_of_mem h.nodup (h.covered s.index hlt)
    · rename_i hge
      exact List.count_eq_zero.2 fun hmem => hge (h.known s hmem)
  · rintro ⟨hne, hcount⟩
    refine ⟨⟨hne, fun s hs => ?_, List.nodup_iff_count_le_one.2 fun s => ?_⟩, fun i hi => ?_⟩
    · by_contra hge
      have hzero := hcount s
      rw [if_neg hge] at hzero
      exact List.count_eq_zero.1 hzero hs
    · rw [hcount s]
      split <;> omega
    · refine List.count_pos_iff.1 ?_
      rw [hcount, if_pos hi]
      exact Nat.one_pos

end Outcome

theorem Valid.colorOf_eq_none {c : Coloring} (h : c.Valid) {s : SpanId} :
    c.colorOf s = none ↔ c.spans.length ≤ s.index := by
  rw [colorOf, List.getElem?_eq_none_iff, h.tabled]

namespace Builder

inductive Request where
  | span (name : String) (callback : FuncId)
  | color (members : List SpanId)

namespace Request

def run : Request → StateM Builder Unit
  | span name callback => do
    let _ ← Builder.span name callback
    return ()
  | color members => Builder.color members

def span? : Request → Option SpanDecl
  | span name callback => some ⟨name, callback⟩
  | color _ => none

def color? : Request → Option (List SpanId)
  | span _ _ => none
  | color members => some members

end Request

def collected (requests : List Request) : Builder :=
  requests.foldl (fun b request => (request.run b).2) {}

/-- Spans and colors are kept apart and in order. -/
theorem collected_eq (requests : List Request) : collected requests =
    ⟨requests.filterMap Request.span?, requests.filterMap Request.color?⟩ := by
  induction requests using List.reverseRecOn with
  | nil => rfl
  | append_singleton requests request ih =>
    have hstep : collected (requests ++ [request]) = (request.run (collected requests)).2 := by
      simp [collected]
    rw [hstep, ih, List.filterMap_append, List.filterMap_append]
    cases request with
    | span name callback =>
      change (⟨_ ++ [_], _⟩ : Builder) = _
      simp [Request.span?, Request.color?]
    | color members =>
      change (⟨_, _ ++ [_]⟩ : Builder) = _
      simp [Request.span?, Request.color?]

end Builder

/-- The colors accepted are those that hold every span once and nothing else, and none of them is
empty. Then a span has the color of which it is a member. Otherwise the first flaw is reported, in
the order in which colors and members are read, and if there is none, the first span that has no
color. Colors of one span each are accepted, and a builder decides in the same way on what it has
collected. -/
theorem partitions_accepted (spans : List SpanDecl) (colors : List (List SpanId)) :
    ((∃ c, ofColors spans colors = .ok c) ↔ (∀ members ∈ colors, members ≠ []) ∧
      ∀ s : SpanId, colors.flatten.count s = if s.index < spans.length then 1 else 0) ∧
    (∀ c, ofColors spans colors = .ok c → c.spans = spans ∧ c.colors = colors ∧
      c.table.length = spans.length ∧
      (∀ (s : SpanId) (i : Nat), c.colorOf s = some i ↔
        ∃ members, c.colors[i]? = some members ∧ s ∈ members) ∧
      ∀ s : SpanId, c.colorOf s = none ↔ spans.length ≤ s.index) ∧
    (∀ err, ofColors spans colors = .error err ↔ FirstFlaw spans colors err ∨
      (∀ i j err', ¬ Flaw spans colors i j err') ∧ FirstMissing spans colors err) ∧
    ofColors spans ((List.range spans.length).map fun i => [⟨i⟩]) = .ok (separate spans) ∧
    ∀ requests : List Builder.Request,
      (∀ name callback, (Builder.span name callback (Builder.collected requests)).1 =
        ⟨(requests.filterMap Builder.Request.span?).length⟩) ∧
      (Builder.collected requests).build = ofColors (requests.filterMap Builder.Request.span?)
        (requests.filterMap Builder.Request.color?) := by
  refine ⟨?_, ?_, fun err => ofColors_eq_error, ?_, fun requests => ⟨?_, ?_⟩⟩
  · rw [← isPartition_iff_count]
    constructor
    · rintro ⟨c, hc⟩
      obtain ⟨rfl, rfl, hvalid⟩ := ofColors_eq_ok.1 hc
      exact hvalid.toIsPartition
    · exact IsPartition.exists_ofColors
  · intro c hc
    obtain ⟨rfl, rfl, hvalid⟩ := ofColors_eq_ok.1 hc
    exact ⟨rfl, rfl, hvalid.tabled, fun s i => hvalid.colorOf_eq_some,
      fun s => hvalid.colorOf_eq_none⟩
  · exact ofColors_eq_ok.2 ⟨rfl, rfl, separate_valid spans⟩
  · intro name callback
    rw [Builder.collected_eq]
    rfl
  · rw [Builder.collected_eq]
    rfl

-- The repeated member comes before the empty color, which comes before the unknown member.
example : ofColors [⟨"a", ⟨0⟩⟩, ⟨"b", ⟨1⟩⟩] [[⟨0⟩, ⟨0⟩], [], [⟨7⟩]] =
    .error (.duplicateSpan "a") := rfl

end SpanTracking.Coloring
