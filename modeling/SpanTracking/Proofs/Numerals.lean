import Mathlib

set_option autoImplicit false

namespace SpanTracking

/-- What comes before the first of a separator is told apart from what comes after it. -/
theorem append_cons_inj {α : Type} {a : α} {xs xs' ys ys' : List α} (h : a ∉ xs) (h' : a ∉ xs')
    (heq : xs ++ a :: ys = xs' ++ a :: ys') : xs = xs' ∧ ys = ys' := by
  rcases List.append_eq_append_iff.1 heq with ⟨mid, rfl, hmid⟩ | ⟨mid, rfl, hmid⟩
  all_goals
    cases mid with
    | nil => simp_all
    | cons c mid =>
      obtain ⟨rfl, -⟩ := List.cons.inj hmid
      simp at h h'

theorem digits_inj {m n : Nat} : Nat.toDigits 10 m = Nat.toDigits 10 n ↔ m = n := by
  rw [← Nat.toList_repr, ← Nat.toList_repr, String.toList_inj, Nat.repr_inj]

theorem notMem_digits {c : Char} (hc : c.isDigit = false) (n : Nat) : c ∉ Nat.toDigits 10 n := by
  intro hmem
  simp [Nat.isDigit_of_mem_toDigits (by omega) (by omega) hmem] at hc

section Ends

variable {c : Char} {m n : Nat} {xs ys : List Char}

theorem digits_cons_inj (hc : c.isDigit = false)
    (h : Nat.toDigits 10 m ++ c :: xs = Nat.toDigits 10 n ++ c :: ys) : m = n ∧ xs = ys := by
  obtain ⟨hdigits, hrest⟩ := append_cons_inj (notMem_digits hc m) (notMem_digits hc n) h
  exact ⟨digits_inj.1 hdigits, hrest⟩

theorem reverse_digits_cons_inj (hc : c.isDigit = false)
    (h : (Nat.toDigits 10 m).reverse ++ c :: xs = (Nat.toDigits 10 n).reverse ++ c :: ys) :
    m = n ∧ xs = ys := by
  have hmem : ∀ k, c ∉ (Nat.toDigits 10 k).reverse := fun k hmem =>
    notMem_digits hc k (List.mem_reverse.1 hmem)
  obtain ⟨hdigits, hrest⟩ := append_cons_inj (hmem m) (hmem n) h
  exact ⟨digits_inj.1 (List.reverse_inj.1 hdigits), hrest⟩

end Ends

end SpanTracking
