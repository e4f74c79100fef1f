import SpanTracking.Error

set_option autoImplicit false

namespace SpanTracking

structure SpanDecl where
  name : String
  /-- Called with the state record, the start and the end whenever the span is closed or flushed. -/
  callback : FuncId
deriving DecidableEq

/-- Spans that are never open at the same time may share storage: they are given one color. -/
structure Coloring where
  spans : List SpanDecl
  /-- The members of every color. -/
  colors : List (List SpanId)
  /-- The color of every span. -/
  table : List Nat
  sound : ∀ (s : SpanId) (i : Nat), table[s.index]? = some i →
    ∃ members, colors[i]? = some members ∧ s ∈ members
deriving DecidableEq

namespace Coloring

def span? (c : Coloring) (s : SpanId) : Option SpanDecl := c.spans[s.index]?

def colorOf (c : Coloring) (s : SpanId) : Option Nat := c.table[s.index]?

/-- Enters the members of one color in a table of the spans that have a color so far. -/
def scanMembers (spans : List SpanDecl) (color : Nat) (table : List (Option Nat)) :
    List SpanId → Except BuildError (List (Option Nat))
  | [] => .ok table
  | s :: rest =>
    match spans[s.index]?, table[s.index]? with
    | some _, some none => scanMembers spans color (table.set s.index (some color)) rest
    | some d, some (some _) => .error (.duplicateSpan d.name)
    | _, _ => .error (.unknownSpan s)

def scanColors (spans : List SpanDecl) (table : List (Option Nat)) (color : Nat) :
    List (List SpanId) → Except BuildError (List (Option Nat))
  | [] => .ok table
  | [] :: _ => .error (.emptyColor color)
  | members :: rest => do
    let table ← scanMembers spans color table members
    scanColors spans table (color + 1) rest

def collect : List SpanDecl → List (Option Nat) → Except BuildError (List Nat)
  | d :: _, none :: _ => .error (.uncoloredSpan d.name)
  | _ :: spans, some color :: table => do return color :: (← collect spans table)
  | _, _ => .ok []

def tabulate (spans : List SpanDecl) (colors : List (List SpanId)) :
    Except BuildError (List Nat) := do
  let table ← scanColors spans (List.replicate spans.length none) 0 colors
  collect spans table

section Sound

variable {spans : List SpanDecl} {table table' : List (Option Nat)} {color i k : Nat}

theorem scanMembers_entry {members : List SpanId}
    (h : scanMembers spans color table members = .ok table') (hi : table'[k]? = some (some i)) :
    table[k]? = some (some i) ∨ i = color ∧ (⟨k⟩ : SpanId) ∈ members := by
  induction members generalizing table with
  | nil =>
    obtain rfl : table = table' := by simpa [scanMembers] using h
    exact .inl hi
  | cons s rest ih =>
    rw [scanMembers] at h
    split at h
    · rcases ih h with hold | ⟨rfl, hmem⟩
      · rw [List.getElem?_set] at hold
        split at hold
        · rename_i hk
          subst hk
          simp only [Option.ite_none_right_eq_some, Option.some.injEq] at hold
          exact .inr ⟨hold.2.symm, List.mem_cons_self⟩
        · exact .inl hold
      · exact .inr ⟨rfl, List.mem_cons_of_mem _ hmem⟩
    · cases h
    · cases h

theorem scanColors_entry {colors : List (List SpanId)}
    (h : scanColors spans table color colors = .ok table') (hi : table'[k]? = some (some i)) :
    table[k]? = some (some i) ∨
      ∃ j members, i = color + j ∧ colors[j]? = some members ∧ (⟨k⟩ : SpanId) ∈ members := by
  fun_induction scanColors spans table color colors with
  | case1 table =>
    obtain rfl : table = table' := by simpa using h
    exact .inl hi
  | case2 => cases h
  | case3 table color members rest _ ih =>
    cases hm : scanMembers spans color table members with
    | error e => simp [hm, bind, Except.bind] at h
    | ok mid =>
      rw [hm] at h
      rcases ih mid h with hold | ⟨j, found, rfl, hj, hmem⟩
      · rcases scanMembers_entry hm hold with hold | ⟨rfl, hmem⟩
        · exact .inl hold
        · exact .inr ⟨0, members, rfl, rfl, hmem⟩
      · exact .inr ⟨j + 1, found, by omega, by simpa using hj, hmem⟩

theorem collect_entry {colors : List Nat} (h : collect spans table = .ok colors)
    (hi : colors[k]? = some i) : table[k]? = some (some i) := by
  fun_induction collect spans table generalizing colors k with
  | case1 => cases h
  | case2 d spans color table ih =>
    cases hc : collect spans table with
    | error e => simp [hc, bind, Except.bind] at h
    | ok rest =>
      obtain rfl : color :: rest = colors := by
        simpa [hc, bind, Except.bind, pure, Except.pure] using h
      cases k with
      | zero => simpa using hi
      | succ k => simpa using ih hc (by simpa using hi)
  | case3 =>
    obtain rfl : [] = colors := by simpa using h
    simp at hi

theorem tabulate_sound {colors : List (List SpanId)} {entries : List Nat}
    (h : tabulate spans colors = .ok entries) (s : SpanId) (i : Nat)
    (hi : entries[s.index]? = some i) : ∃ members, colors[i]? = some members ∧ s ∈ members := by
  unfold tabulate at h
  cases hs : scanColors spans (List.replicate spans.length none) 0 colors with
  | error e => simp [hs, bind, Except.bind] at h
  | ok table =>
    rw [hs] at h
    rcases scanColors_entry hs (collect_entry h hi) with hold | ⟨j, members, rfl, hj, hmem⟩
    · simp [List.getElem?_replicate] at hold
    · exact ⟨members, by simpa using hj, hmem⟩

end Sound

/-- Accepts the partitions of the spans into non-empty colors. -/
def ofColors (spans : List SpanDecl) (colors : List (List SpanId)) : Except BuildError Coloring :=
  match h : tabulate spans colors with
  | .error err => .error err
  | .ok table => .ok ⟨spans, colors, table, tabulate_sound h⟩

def separate (spans : List SpanDecl) : Coloring where
  spans
  colors := (List.range spans.length).map fun i => [⟨i⟩]
  table := List.range spans.length
  sound s i hi := by
    obtain ⟨hlt, rfl⟩ : s.index < spans.length ∧ s.index = i := by
      simpa [List.getElem?_eq_some_iff] using hi
    exact ⟨[s], by simp [hlt], List.mem_singleton_self s⟩

/-- Spans and colors, collected one by one. They are checked once all of them are there. -/
structure Builder where
  spans : List SpanDecl := []
  colors : List (List SpanId) := []
deriving DecidableEq

namespace Builder

def span (name : String) (callback : FuncId) : StateM Builder SpanId := fun b =>
  (⟨b.spans.length⟩, { b with spans := b.spans ++ [⟨name, callback⟩] })

def color (members : List SpanId) : StateM Builder Unit := fun b =>
  ((), { b with colors := b.colors ++ [members] })

def build (b : Builder) : Except BuildError Coloring := ofColors b.spans b.colors

end Builder

end Coloring

end SpanTracking
