import SpanTracking.Proofs.Effects
import SpanTracking.Span.Coloring

set_option autoImplicit false

namespace SpanTracking.Coloring

structure Clean (spans : List SpanDecl) (colors : List (List SpanId)) : Prop where
  nonempty : ∀ members ∈ colors, members ≠ []
  known : ∀ s ∈ colors.flatten, s.index < spans.length
  nodup : colors.flatten.Nodup

/-- Every span belongs to exactly one color, and every color has a member. -/
structure IsPartition (spans : List SpanDecl) (colors : List (List SpanId)) : Prop
    extends Clean spans colors where
  covered : ∀ i < spans.length, (⟨i⟩ : SpanId) ∈ colors.flatten

structure Valid (c : Coloring) : Prop extends IsPartition c.spans c.colors where
  tabled : c.table.length = c.spans.length

def marks (n : Nat) (colors : List (List SpanId)) : List (Option Nat) :=
  (List.range n).map fun i => colors.findIdx? fun members => (⟨i⟩ : SpanId) ∈ members

section Marks

variable {n : Nat} {done colors : List (List SpanId)} {part : List SpanId} {s : SpanId}

@[simp] theorem length_marks : (marks n colors).length = n := by simp [marks]

theorem marks_nil : marks n [] = List.replicate n none := by
  refine List.ext_getElem (by simp) fun i hi hi' => ?_
  simp [marks]

theorem getElem?_marks (hs : s.index < n) :
    (marks n colors)[s.index]? = some (colors.findIdx? fun members => s ∈ members) := by
  simp [marks, hs]

theorem getElem?_marks_eq_none (hs : s.index < n) :
    (marks n colors)[s.index]? = some none ↔ s ∉ colors.flatten := by
  simp [getElem?_marks hs, List.findIdx?_eq_none_iff]

/-- The color that is being read has the number of the colors before it. -/
theorem marks_set (hs : s ∉ done.flatten) :
    (marks n (done ++ [part])).set s.index (some done.length) =
      marks n (done ++ [part ++ [s]]) := by
  refine List.ext_getElem (by simp) fun i hi hi' => ?_
  by_cases hi : s.index = i
  · subst hi
    have hdone : done.findIdx? (fun members => decide (s ∈ members)) = none := by
      simpa [List.findIdx?_eq_none_iff] using hs
    simp [marks, List.findIdx?_append, hdone]
  · have hne : (⟨i⟩ : SpanId) ≠ s := fun h => hi (congrArg SpanId.index h).symm
    simp [marks, hi, List.findIdx?_append, List.findIdx?_singleton, hne]

theorem marks_concat_nil : marks n (done ++ [[]]) = marks n done := by
  refine List.ext_getElem (by simp) fun i hi hi' => ?_
  simp [marks, List.findIdx?_append]

end Marks

section Scan

variable {spans : List SpanDecl} {done colors : List (List SpanId)} {part members : List SpanId}
  {table : List (Option Nat)}

theorem scanMembers_cons (s : SpanId) (rest : List SpanId) :
    scanMembers spans done.length (marks spans.length (done ++ [part])) (s :: rest) =
      match spans[s.index]? with
      | none => .error (.unknownSpan s)
      | some d =>
        if s ∈ done.flatten ++ part then .error (.duplicateSpan d.name)
        else scanMembers spans done.length (marks spans.length (done ++ [part ++ [s]])) rest := by
  have hflat : (done ++ [part]).flatten = done.flatten ++ part := by simp
  cases hs : spans[s.index]? with
  | none => simp [scanMembers, hs]
  | some d =>
    have hlt : s.index < spans.length := (List.getElem?_eq_some_iff.1 hs).1
    by_cases hmem : s ∈ done.flatten ++ part
    · have hne : (done ++ [part]).findIdx? (fun members => decide (s ∈ members)) ≠ none := fun h =>
        (getElem?_marks_eq_none hlt).1 ((getElem?_marks hlt).trans (by rw [h])) (by rwa [hflat])
      obtain ⟨i, hi⟩ := Option.ne_none_iff_exists'.1 hne
      simp [scanMembers, hs, getElem?_marks hlt, hi, hmem]
    · have hnone := (getElem?_marks_eq_none hlt).2 (by rwa [hflat] : s ∉ (done ++ [part]).flatten)
      rw [scanMembers, hs, hnone, ← marks_set fun h => hmem (List.mem_append_left _ h)]
      simp [hmem]

theorem scanMembers_eq_ok :
    scanMembers spans done.length (marks spans.length (done ++ [part])) members = .ok table ↔
      (∀ s ∈ members, s.index < spans.length) ∧ (∀ s ∈ members, s ∉ done.flatten ++ part) ∧
        members.Nodup ∧ table = marks spans.length (done ++ [part ++ members]) := by
  induction members generalizing part with
  | nil => simp [scanMembers, eq_comm]
  | cons s rest ih =>
    rw [scanMembers_cons]
    cases hs : spans[s.index]? with
    | none =>
      have hlt : ¬ s.index < spans.length := by simpa using hs
      simp [hlt]
    | some d =>
      have hlt : s.index < spans.length := (List.getElem?_eq_some_iff.1 hs).1
      by_cases hmem : s ∈ done.flatten ++ part
      · simp only [hmem, ↓reduceIte, reduceCtorEq, false_iff]
        exact fun h => h.2.1 s List.mem_cons_self hmem
      · simp only [hmem, ↓reduceIte, ih, List.append_assoc, List.singleton_append,
          List.forall_mem_cons, hlt, true_and, not_false_eq_true, List.nodup_cons]
        -- What is new to the longer list is new to the shorter one and not `s`.
        have hnew : (∀ t ∈ rest, t ∉ done.flatten ++ (part ++ [s])) ↔
            (∀ t ∈ rest, t ∉ done.flatten ++ part) ∧ s ∉ rest := by
          constructor
          · exact fun h => ⟨fun t ht hold => h t ht (by grind), fun hs => h s hs (by simp)⟩
          · rintro ⟨h, hs⟩ t ht hold
            grind
        rw [hnew]
        tauto

theorem scanColors_cons {rest : List (List SpanId)} (hne : members ≠ []) :
    scanColors spans (marks spans.length done) done.length (members :: rest) =
      (scanMembers spans done.length (marks spans.length (done ++ [[]])) members >>= fun table =>
        scanColors spans table (done.length + 1) rest) := by
  rw [marks_concat_nil, scanColors]
  exact hne

theorem scanColors_eq_ok :
    scanColors spans (marks spans.length done) done.length colors = .ok table ↔
      (∀ members ∈ colors, members ≠ []) ∧ (∀ s ∈ colors.flatten, s.index < spans.length) ∧
        (∀ s ∈ colors.flatten, s ∉ done.flatten) ∧ colors.flatten.Nodup ∧
          table = marks spans.length (done ++ colors) := by
  induction colors generalizing done with
  | nil => simp [scanColors, eq_comm]
  | cons members rest ih =>
    by_cases hne : members = []
    · subst hne
      simp [scanColors]
    have hstep : scanColors spans (marks spans.length done) done.length (members :: rest) =
          .ok table ↔
        ∃ mid, scanMembers spans done.length (marks spans.length (done ++ [[]])) members = .ok mid ∧
          scanColors spans mid (done.length + 1) rest = .ok table := by
      rw [scanColors_cons hne]
      constructor
      · exact except_ok
      · rintro ⟨mid, hm, hr⟩
        rw [hm]
        exact hr
    have ih' := @ih (done ++ [members])
    rw [List.length_append, List.length_singleton] at ih'
    simp only [hstep, scanMembers_eq_ok, List.append_nil, List.nil_append, List.forall_mem_cons,
      List.flatten_cons, List.forall_mem_append, List.nodup_append]
    constructor
    · rintro ⟨mid, ⟨hk, hn, hd, rfl⟩, hrest⟩
      obtain ⟨hne', hk', hn', hd', rfl⟩ := ih'.1 hrest
      refine ⟨⟨hne, hne'⟩, ⟨hk, hk'⟩, ⟨hn, fun t ht h => hn' t ht (by simp [h])⟩, ⟨hd, hd', ?_⟩,
        by simp⟩
      rintro t ht u hu rfl
      exact hn' t hu (by simp [ht])
    · rintro ⟨⟨-, hne'⟩, ⟨hk, hk'⟩, ⟨hn, hn'⟩, ⟨hd, hd', hdis⟩, rfl⟩
      refine ⟨_, ⟨hk, hn, hd, rfl⟩, ih'.2 ⟨hne', hk', ?_, hd', by simp⟩⟩
      intro t ht h
      rw [List.flatten_append, List.flatten_singleton, List.mem_append] at h
      rcases h with h | h
      · exact hn' t ht h
      · exact hdis t h t ht rfl

theorem scan_eq_ok :
    scanColors spans (List.replicate spans.length none) 0 colors = .ok table ↔
      Clean spans colors ∧ table = marks spans.length colors := by
  rw [← marks_nil, show 0 = ([] : List (List SpanId)).length from rfl, scanColors_eq_ok]
  constructor
  · rintro ⟨hne, hk, -, hd, rfl⟩
    exact ⟨⟨hne, hk, hd⟩, rfl⟩
  · rintro ⟨h, rfl⟩
    exact ⟨h.nonempty, h.known, by simp, h.nodup, rfl⟩

theorem collect_eq_ok {entries : List Nat} (hlen : table.length = spans.length) :
    collect spans table = .ok entries ↔ entries.map some = table := by
  fun_induction collect spans table generalizing entries with
  | case1 => cases entries <;> simp
  | case2 d spans color table ih =>
    have hlen' : table.length = spans.length := by simpa using hlen
    constructor
    · intro h
      obtain ⟨rest, hrest, h⟩ := except_ok h
      obtain rfl := Except.ok.inj h
      rw [List.map_cons, (ih hlen').1 hrest]
    · intro h
      obtain ⟨first, rest, rfl, hfirst, hrest⟩ := List.map_eq_cons_iff.1 h
      obtain rfl := Option.some.inj hfirst
      rw [(ih hlen').2 hrest]
      rfl
  | case3 spans table hnone hsome =>
    cases spans with
    | nil =>
      obtain rfl := List.eq_nil_of_length_eq_zero hlen
      cases entries <;> simp
    | cons d spans =>
      cases table with
      | nil => simp at hlen
      | cons entry table =>
        cases entry with
        | none => exact (hnone d spans table rfl rfl).elim
        | some color => exact (hsome d spans color table rfl rfl).elim

theorem tabulate_eq_ok {entries : List Nat} : tabulate spans colors = .ok entries ↔
    IsPartition spans colors ∧ entries.map some = marks spans.length colors := by
  have hstep : tabulate spans colors = .ok entries ↔
      ∃ table, scanColors spans (List.replicate spans.length none) 0 colors = .ok table ∧
        collect spans table = .ok entries := by
    constructor
    · exact except_ok
    · rintro ⟨table, hscan, hcollect⟩
      rw [tabulate, hscan]
      exact hcollect
  simp only [hstep, scan_eq_ok]
  constructor
  · rintro ⟨_, ⟨hclean, rfl⟩, hcollect⟩
    have hentries := (collect_eq_ok length_marks).1 hcollect
    refine ⟨⟨hclean, fun i hi => ?_⟩, hentries⟩
    by_contra hmissing
    have hnone := (getElem?_marks_eq_none (s := ⟨i⟩) hi).2 hmissing
    simp [← hentries] at hnone
  · rintro ⟨h, hentries⟩
    exact ⟨_, ⟨h.toClean, rfl⟩, (collect_eq_ok length_marks).2 hentries⟩

end Scan

section Accepted

variable {spans : List SpanDecl} {colors : List (List SpanId)} {c : Coloring} {s : SpanId}

theorem IsPartition.color_unique (h : IsPartition spans colors) {i j : Nat}
    {members members' : List SpanId} (hi : colors[i]? = some members) (hsi : s ∈ members)
    (hj : colors[j]? = some members') (hsj : s ∈ members') : j = i := by
  obtain ⟨hi', rfl⟩ := List.getElem?_eq_some_iff.1 hi
  obtain ⟨hj', rfl⟩ := List.getElem?_eq_some_iff.1 hj
  have hapart := List.pairwise_iff_getElem.1 (List.nodup_flatten.1 h.nodup).2
  rcases Nat.lt_trichotomy i j with hlt | heq | hgt
  · exact (hapart i j hi' hj' hlt hsi hsj).elim
  · exact heq.symm
  · exact (hapart j i hj' hi' hgt hsj hsi).elim

/-- The table and the lists of members agree. -/
theorem Valid.colorOf_eq_some (hc : c.Valid) {i : Nat} :
    c.colorOf s = some i ↔ ∃ members, c.colors[i]? = some members ∧ s ∈ members := by
  refine ⟨c.sound s i, ?_⟩
  rintro ⟨members, hm, hs⟩
  have hlt : s.index < c.table.length := by
    rw [hc.tabled]
    exact hc.known s (List.mem_flatten.2 ⟨members, List.mem_of_getElem? hm, hs⟩)
  have hentry : c.colorOf s = some c.table[s.index] := List.getElem?_eq_getElem hlt
  obtain ⟨members', hm', hs'⟩ := c.sound s _ hentry
  rw [hentry, hc.color_unique hm hs hm' hs']

theorem Valid.exists_color (hc : c.Valid) (hs : s.index < c.spans.length) :
    ∃ i, c.colorOf s = some i :=
  ⟨_, List.getElem?_eq_getElem (hc.tabled ▸ hs)⟩

theorem Valid.color_unique (hc : c.Valid) {i j : Nat} {members members' : List SpanId}
    (hi : c.colors[i]? = some members) (hsi : s ∈ members) (hj : c.colors[j]? = some members')
    (hsj : s ∈ members') : j = i :=
  hc.toIsPartition.color_unique hi hsi hj hsj

theorem Valid.colorOf_eq_findIdx? (hc : c.Valid) :
    c.colorOf s = c.colors.findIdx? fun members => s ∈ members := by
  refine Option.ext fun i => ?_
  rw [hc.colorOf_eq_some, List.findIdx?_eq_some_iff_getElem]
  constructor
  · rintro ⟨members, hm, hs⟩
    obtain ⟨hi, rfl⟩ := List.getElem?_eq_some_iff.1 hm
    refine ⟨hi, by simpa using hs, fun j hj hsj => ?_⟩
    have hj' : c.colors[j]? = some c.colors[j] := List.getElem?_eq_getElem (hj.trans hi)
    have := hc.color_unique hj' (by simpa using hsj) hm hs
    omega
  · rintro ⟨hi, hs, -⟩
    exact ⟨c.colors[i], List.getElem?_eq_getElem hi, by simpa using hs⟩

theorem Valid.map_table (hc : c.Valid) : c.table.map some = marks c.spans.length c.colors := by
  refine List.ext_getElem? fun k => ?_
  by_cases hk : k < c.spans.length
  · have hfind := hc.colorOf_eq_findIdx? (s := ⟨k⟩)
    obtain ⟨i, hi⟩ := hc.exists_color (s := ⟨k⟩) hk
    have htable : c.table[k]? = some i := hi
    rw [getElem?_marks (s := ⟨k⟩) hk, ← hfind, hi, List.getElem?_map, htable, Option.map_some]
  · have htable : (c.table.map some).length ≤ k := by simpa [hc.tabled] using hk
    have hmarks : (marks c.spans.length c.colors).length ≤ k := by simpa using hk
    rw [List.getElem?_eq_none htable, List.getElem?_eq_none hmarks]

/-- The colors accepted are the partitions of the spans. -/
theorem ofColors_eq_ok :
    ofColors spans colors = .ok c ↔ c.spans = spans ∧ c.colors = colors ∧ c.Valid := by
  constructor
  · intro h
    unfold ofColors at h
    split at h
    · cases h
    · rename_i table htable
      obtain rfl := Except.ok.inj h
      obtain ⟨hpartition, hmarks⟩ := tabulate_eq_ok.1 htable
      exact ⟨rfl, rfl, hpartition, by simpa using congrArg List.length hmarks⟩
  · rintro ⟨rfl, rfl, hc⟩
    have htable := tabulate_eq_ok.2 ⟨hc.toIsPartition, hc.map_table⟩
    unfold ofColors
    split
    · rename_i err herr
      simp [htable] at herr
    · rename_i table htable'
      obtain rfl := Except.ok.inj (htable.symm.trans htable')
      rfl

theorem ofColors_valid (h : ofColors spans colors = .ok c) : c.Valid := (ofColors_eq_ok.1 h).2.2

theorem IsPartition.exists_ofColors (h : IsPartition spans colors) :
    ∃ c, ofColors spans colors = .ok c := by
  have hall : marks spans.length colors ∈ Set.range (List.map (some : Nat → Option Nat)) := by
    rw [Set.range_list_map]
    intro mark hmark
    obtain ⟨i, hi, rfl⟩ := List.mem_map.1 hmark
    obtain ⟨members, hm, hs⟩ := List.mem_flatten.1 (h.covered i (List.mem_range.1 hi))
    have hsome : (colors.findIdx? fun members => decide (⟨i⟩ ∈ members)).isSome := by
      rw [List.findIdx?_isSome, List.any_eq_true]
      exact ⟨members, hm, by simpa using hs⟩
    exact ⟨_, Option.some_get hsome⟩
  obtain ⟨table, htable⟩ := hall
  have htabulate := tabulate_eq_ok.2 ⟨h, htable⟩
  refine ⟨⟨spans, colors, table, tabulate_sound htabulate⟩, ofColors_eq_ok.2 ⟨rfl, rfl, h, ?_⟩⟩
  simpa using congrArg List.length htable

theorem separate_colors_flatten (spans : List SpanDecl) :
    (separate spans).colors.flatten = (List.range spans.length).map SpanId.mk := by
  simp only [separate]
  induction List.range spans.length with
  | nil => rfl
  | cons i rest ih => simp [ih]

theorem separate_valid (spans : List SpanDecl) : (separate spans).Valid := by
  refine ⟨⟨⟨?_, ?_, ?_⟩, ?_⟩, List.length_range⟩
  · simp [separate]
  · intro s hs
    rw [separate_colors_flatten] at hs
    obtain ⟨i, hi, rfl⟩ := List.mem_map.1 hs
    exact List.mem_range.1 hi
  · rw [separate_colors_flatten]
    exact List.nodup_range.map fun i j h => congrArg SpanId.index h
  · intro i hi
    rw [separate_colors_flatten]
    exact List.mem_map_of_mem (List.mem_range.2 hi)

end Accepted

end SpanTracking.Coloring
