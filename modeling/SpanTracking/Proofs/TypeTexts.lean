import SpanTracking.Abi
import SpanTracking.Proofs.Numerals

set_option autoImplicit false

namespace SpanTracking.Ty

mutual

def erased : Ty → Ty
  | void => void
  | int bits => int bits
  | state => state
  | ptr t => ptr t.erased
  | func ret params _ => func ret.erased (allErased params) .internal

def allErased : List Ty → List Ty
  | [] => []
  | t :: ts => t.erased :: allErased ts

end

mutual

theorem text_erased : ∀ t : Ty, t.erased.text = t.text
  | void => rfl
  | int _ => rfl
  | state => rfl
  | ptr t => by rw [erased, text, text, text_erased t]
  | func ret params conv => by
    rw [erased, text, text, text_erased ret, texts_allErased params]

theorem texts_allErased : ∀ ts : List Ty, texts (allErased ts) = texts ts
  | [] => rfl
  | t :: ts => by rw [allErased, texts, texts, text_erased t, texts_allErased ts]

end

theorem allErased_eq_map (ts : List Ty) : allErased ts = ts.map erased := by
  induction ts with
  | nil => rfl
  | cons t ts ih => rw [allErased, ih, List.map_cons]

theorem texts_eq_map (ts : List Ty) : texts ts = ts.map text := by
  induction ts with
  | nil => rfl
  | cons t ts ih => rw [texts, ih, List.map_cons]

def backwards (t : Ty) : List Char := t.text.toList.reverse

def paramsBackwards (ts : List Ty) : List Char := (", ".intercalate (texts ts)).toList.reverse

section Forms

theorem backwards_int (bits : Nat) :
    (int bits).backwards = (Nat.toDigits 10 bits).reverse ++ ['i'] := by
  simp [backwards, text]

theorem backwards_ptr (t : Ty) : (ptr t).backwards = '*' :: t.backwards := by
  simp [backwards, text]

theorem backwards_func (ret : Ty) (params : List Ty) (conv : CallConv) :
    (func ret params conv).backwards =
      ')' :: (paramsBackwards params ++ '(' :: ' ' :: ret.backwards) := by
  simp [backwards, paramsBackwards, text]

theorem paramsBackwards_nil : paramsBackwards [] = [] := by
  simp [paramsBackwards, texts]

def beforeLast : List Ty → List Char
  | [] => []
  | t :: ts => ' ' :: ',' :: paramsBackwards (t :: ts)

theorem paramsBackwards_concat (ts : List Ty) (t : Ty) :
    paramsBackwards (ts ++ [t]) = t.backwards ++ beforeLast ts := by
  cases ts with
  | nil => simp [paramsBackwards, texts, backwards, beforeLast]
  | cons first ts =>
    have hsplit : texts (first :: ts ++ [t]) = texts (first :: ts) ++ [t.text] := by
      simp [texts_eq_map]
    rw [paramsBackwards, hsplit, String.intercalate_append_of_ne_nil (by simp [texts]) (by simp)]
    simp [paramsBackwards, backwards, beforeLast]

def Ends : Ty → Char → Prop
  | void, c => c = 'd'
  | int _, c => c.isDigit = true
  | state, c => c = 'e'
  | ptr _, c => c = '*'
  | func .., c => c = ')'

theorem ends_of_backwards (t : Ty) : ∃ c rest, t.backwards = c :: rest ∧ t.Ends c := by
  cases t with
  | void => exact ⟨'d', ['i', 'o', 'v'], by simp [backwards, text], rfl⟩
  | int bits =>
    obtain ⟨c, rest, hdigits⟩ := List.exists_cons_of_ne_nil
      (List.reverse_ne_nil_iff.2 (Nat.toDigits_ne_nil (n := bits) (b := 10)))
    refine ⟨c, rest ++ ['i'], by rw [backwards_int, hdigits, List.cons_append], ?_⟩
    refine Nat.isDigit_of_mem_toDigits (b := 10) (n := bits) (by omega) (by omega) ?_
    exact List.mem_reverse.1 (hdigits ▸ List.mem_cons_self)
  | state => exact ⟨'e', ['t', 'a', 't', 's', '%'], by simp [backwards, text], rfl⟩
  | ptr t => exact ⟨'*', _, backwards_ptr t, rfl⟩
  | func ret params conv => exact ⟨')', _, backwards_func ret params conv, rfl⟩

/-- No text of a type ends like the beginning of a list of parameters. -/
theorem not_ends_paren (t : Ty) : ¬ t.Ends '(' := by
  cases t <;> simp [Ends, Char.isDigit]

/-- Texts that agree from their ends belong to types that end alike. -/
theorem ends_alike {t u : Ty} {r s : List Char} (h : t.backwards ++ r = u.backwards ++ s) :
    ∃ c, t.Ends c ∧ u.Ends c := by
  obtain ⟨c, rest, ht, hc⟩ := ends_of_backwards t
  obtain ⟨d, rest', hu, hd⟩ := ends_of_backwards u
  rw [ht, hu, List.cons_append, List.cons_append] at h
  obtain ⟨rfl, -⟩ := List.cons.inj h
  exact ⟨c, hc, hd⟩

end Forms

/-- Whatever comes before it, the text of the type is read from its end in one way. -/
def Readable (t : Ty) : Prop :=
  ∀ (u : Ty) (r s : List Char), t.backwards ++ r = u.backwards ++ s → t.erased = u.erased ∧ r = s

theorem readable_void : void.Readable := by
  intro u r s h
  obtain ⟨c, rfl, hu⟩ := ends_alike h
  cases u with
  | void => exact ⟨rfl, List.append_cancel_left h⟩
  | _ => simp [Ends, Char.isDigit] at hu

theorem readable_state : state.Readable := by
  intro u r s h
  obtain ⟨c, rfl, hu⟩ := ends_alike h
  cases u with
  | state => exact ⟨rfl, List.append_cancel_left h⟩
  | _ => simp [Ends, Char.isDigit] at hu

theorem readable_int (bits : Nat) : (int bits).Readable := by
  intro u r s h
  obtain ⟨c, hc, hu⟩ := ends_alike h
  cases u with
  | int bits' =>
    rw [backwards_int, backwards_int, List.append_assoc, List.append_assoc] at h
    obtain ⟨hbits, hrest⟩ := reverse_digits_cons_inj (by decide) h
    exact ⟨congrArg int hbits, hrest⟩
  | _ =>
    obtain rfl : c = _ := hu
    simp [Ends, Char.isDigit] at hc

theorem readable_ptr {t : Ty} (ht : t.Readable) : (ptr t).Readable := by
  intro u r s h
  obtain ⟨c, rfl, hu⟩ := ends_alike h
  cases u with
  | ptr u =>
    rw [backwards_ptr, backwards_ptr] at h
    obtain ⟨herased, hrest⟩ := ht u r s (List.cons.inj h).2
    exact ⟨congrArg ptr herased, hrest⟩
  | _ => simp [Ends, Char.isDigit] at hu

theorem paren_ne_params {ts : List Ty} {t : Ty} {x y : List Char} :
    '(' :: x ≠ paramsBackwards (ts ++ [t]) ++ y := by
  intro h
  obtain ⟨c, rest, ht, hc⟩ := ends_of_backwards t
  rw [paramsBackwards_concat, ht] at h
  obtain ⟨rfl, -⟩ := List.cons.inj h
  exact not_ends_paren t hc

/-- A list of parameters is read from its end up to the parenthesis before it. -/
theorem params_readable {ts us : List Ty} (hts : ∀ t ∈ ts, t.Readable) {x y : List Char}
    (h : paramsBackwards ts ++ '(' :: x = paramsBackwards us ++ '(' :: y) :
    ts.map erased = us.map erased ∧ x = y := by
  induction ts using List.reverseRecOn generalizing us with
  | nil =>
    rw [paramsBackwards_nil, List.nil_append] at h
    rcases List.eq_nil_or_concat' us with rfl | ⟨us, u, rfl⟩
    · rw [paramsBackwards_nil, List.nil_append] at h
      exact ⟨rfl, (List.cons.inj h).2⟩
    · exact absurd h paren_ne_params
  | append_singleton ts t ih =>
    rcases List.eq_nil_or_concat' us with rfl | ⟨us, u, rfl⟩
    · rw [paramsBackwards_nil, List.nil_append] at h
      exact absurd h.symm paren_ne_params
    rw [paramsBackwards_concat, paramsBackwards_concat, List.append_assoc, List.append_assoc] at h
    obtain ⟨hlast, hbefore⟩ := hts t (by simp) u _ _ h
    -- Either both lists begin with this parameter, or both have others before it.
    have hrest : ts.map erased = us.map erased ∧ x = y := by
      cases ts with
      | nil =>
        cases us with
        | nil => exact ⟨rfl, (List.cons.inj hbefore).2⟩
        | cons first us => simp [beforeLast] at hbefore
      | cons first ts =>
        cases us with
        | nil => simp [beforeLast] at hbefore
        | cons first' us =>
          exact ih (fun t ht => hts t (List.mem_append_left _ ht))
            (List.cons.inj (List.cons.inj hbefore).2).2
    exact ⟨by simp [hrest.1, hlast], hrest.2⟩

theorem readable_func {ret : Ty} {params : List Ty} (hret : ret.Readable)
    (hparams : ∀ t ∈ params, t.Readable) (conv : CallConv) : (func ret params conv).Readable := by
  intro u r s h
  obtain ⟨c, rfl, hu⟩ := ends_alike h
  cases u with
  | func ret' params' conv' =>
    rw [backwards_func, backwards_func] at h
    simp only [List.cons_append, List.append_assoc] at h
    obtain ⟨hall, hbefore⟩ := params_readable hparams (List.cons.inj h).2
    obtain ⟨herased, hrest⟩ := hret ret' r s (List.cons.inj hbefore).2
    refine ⟨?_, hrest⟩
    rw [erased, erased, allErased_eq_map, allErased_eq_map, hall, herased]
  | _ => simp [Ends, Char.isDigit] at hu

mutual

theorem readable : ∀ t : Ty, t.Readable
  | void => readable_void
  | int bits => readable_int bits
  | state => readable_state
  | ptr t => readable_ptr (readable t)
  | func ret params conv => readable_func (readable ret) (all_readable params) conv

theorem all_readable : ∀ ts : List Ty, ∀ t ∈ ts, t.Readable
  | [] => by simp
  | t :: ts => List.forall_mem_cons.2 ⟨readable t, all_readable ts⟩

end

/-- Two types have the same text if and only if they differ in nothing but calling conventions,
those of the functions pointed to and those of parameters and results included. -/
theorem text_eq_iff_erased_eq (t u : Ty) : t.text = u.text ↔ t.erased = u.erased := by
  constructor
  · intro h
    have hbackwards : t.backwards ++ [] = u.backwards ++ [] := by rw [backwards, backwards, h]
    exact (readable t u [] [] hbackwards).1
  · intro h
    calc t.text = t.erased.text := (text_erased t).symm
      _ = u.erased.text := by rw [h]
      _ = u.text := text_erased u

/-- What is said when a field has the type of a function that is called in another way. -/
example : parserSig.ptr ≠ (callbackSig .external).ptr ∧
    parserSig.ptr.text = (callbackSig .external).ptr.text := by decide

end SpanTracking.Ty
