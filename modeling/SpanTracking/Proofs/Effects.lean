import Mathlib
import SpanTracking.Machine.Exec

set_option autoImplicit false

namespace SpanTracking

section Sequence

variable {ε σ α β : Type} {x : EStateM ε σ α} {f : α → EStateM ε σ β} {s s' : σ}

theorem bind_eq (x : EStateM ε σ α) (f : α → EStateM ε σ β) (s : σ) :
    (x >>= f) s = match x s with
      | .ok a t => f a t
      | .error e t => .error e t := rfl

theorem bind_of_ok {a : α} {t : σ} (h : x s = .ok a t) : (x >>= f) s = f a t := by
  rw [bind_eq, h]

theorem andThen {a : α} {t : σ} {r : EStateM.Result ε σ β} (h : x s = .ok a t)
    (h' : f a t = r) : (x >>= f) s = r :=
  (bind_of_ok h).trans h'

theorem bind_of_error {e : ε} {t : σ} (h : x s = .error e t) : (x >>= f) s = .error e t := by
  rw [bind_eq, h]

theorem bind_ok {b : β} (h : (x >>= f) s = .ok b s') :
    ∃ a t, x s = .ok a t ∧ f a t = .ok b s' := by
  rw [bind_eq] at h
  cases hx : x s with
  | ok a t => exact ⟨a, t, rfl, by simpa only [hx] using h⟩
  | error e t => simp [hx] at h

@[simp] theorem pure_run (a : α) (s : σ) : (pure a : EStateM ε σ α) s = .ok a s := rfl

@[simp] theorem throw_run (e : ε) (s : σ) : (throw e : EStateM ε σ α) s = .error e s := rfl

theorem pure_ok {a b : α} (h : (pure a : EStateM ε σ α) s = .ok b s') : a = b ∧ s = s' := by
  simpa using h

end Sequence

namespace Build

variable {σ α : Type} {s s' : σ}

@[simp] theorem check_run (test : σ → Except BuildError α) (s : σ) :
    check test s = match test s with
      | .ok a => .ok a s
      | .error e => .error e s := rfl

theorem check_ok {test : σ → Except BuildError α} {a : α} (h : check test s = .ok a s') :
    test s = .ok a ∧ s' = s := by
  rw [check_run] at h
  split at h
  · rename_i b hb
    simp only [EStateM.Result.ok.injEq] at h
    exact ⟨h.1 ▸ hb, h.2.symm⟩
  · simp at h

theorem settle_ok {outcome : Except BuildError α} {a : α}
    (h : (settle outcome : Build σ α) s = .ok a s') : outcome = .ok a ∧ s' = s :=
  check_ok h

theorem check_of_ok {test : σ → Except BuildError α} {a : α} (h : test s = .ok a) :
    check test s = .ok a s := by
  rw [check_run, h]

end Build

theorem except_ok {ε α β : Type} {outcome : Except ε α} {next : α → Except ε β} {b : β}
    (h : outcome >>= next = .ok b) : ∃ a, outcome = .ok a ∧ next a = .ok b := by
  cases outcome with
  | ok a => exact ⟨a, rfl, h⟩
  | error e => simp [bind, Except.bind] at h

theorem forM_eq_ok {ε α : Type} {check : α → Except ε Unit} {items : List α} :
    items.forM check = .ok () ↔ ∀ a ∈ items, check a = .ok () := by
  induction items with
  | nil => simp [List.forM, pure, Except.pure]
  | cons a rest ih =>
    simp only [List.mem_cons, forall_eq_or_imp]
    constructor
    · intro h
      obtain ⟨u, ha, hr⟩ := except_ok h
      exact ⟨ha, ih.1 hr⟩
    · intro h
      change (check a >>= fun _ => rest.forM check) = .ok ()
      rw [h.1]
      exact ih.2 h.2

namespace Machine

variable {σ α : Type}

@[simp] theorem settle_run (outcome : Except Fault α) (w : World σ) :
    settle outcome w = match outcome with
      | .ok a => .ok a w
      | .error e => .error e w := rfl

end Machine

end SpanTracking
