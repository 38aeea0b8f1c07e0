import Mathlib.Algebra.Ring.Nat
import Mathlib.Data.List.Basic

/-!
This module contains what changes when one entry of a list does: the entries, and the number of
those with a property.
-/

namespace ListUpdate

variable {α : Type}

theorem modify_eq_set {xs : List α} {i : Nat} {x : α} (h : xs[i]? = some x) (f : α → α)
    : xs.modify i f = xs.set i (f x) := by
  apply List.ext_getElem?
  intro j
  rw [List.getElem?_modify, List.getElem?_set]
  grind

theorem forall_set {p : Nat → α → Prop} {xs : List α} {i : Nat} {y : α} (hself : p i y)
    (hother : ∀ j x, j ≠ i → xs[j]? = some x → p j x)
    : ∀ j x, (xs.set i y)[j]? = some x → p j x := by
  intro j x hx
  rw [List.getElem?_set] at hx
  by_cases h : i = j
  . subst h
    grind
  . apply hother
    . omega
    . simpa [h] using hx

theorem map_set_eq {β : Type} {f : α → β} {xs : List α} {i : Nat} {x : α} (h : xs[i]? = some x)
    {y : α} (hy : f y = f x)
    : (xs.set i y).map f = xs.map f := by
  apply List.ext_getElem?
  intro j
  rw [List.getElem?_map, List.getElem?_map, List.getElem?_set]
  grind

theorem sum_map_set_add (f : α → Nat) {xs : List α} {i : Nat} {x : α} (h : xs[i]? = some x) (y : α)
    : ((xs.set i y).map f).sum + f x = (xs.map f).sum + f y := by
  induction xs generalizing i with
  | nil => simp at h
  | cons x' xs ih =>
    cases i with
    | zero =>
      simp only [List.getElem?_cons_zero, Option.some.injEq] at h
      subst h
      simp only [List.set_cons_zero, List.map_cons, List.sum_cons]
      omega
    | succ i =>
      simp only [List.getElem?_cons_succ] at h
      have := ih h
      simp only [List.set_cons_succ, List.map_cons, List.sum_cons]
      omega

theorem countP_eq_sum (p : α → Bool) (xs : List α)
    : xs.countP p = (xs.map fun x => (p x).toNat).sum := by
  induction xs with
  | nil => rfl
  | cons x xs ih =>
    rw [List.countP_cons, ih, List.map_cons, List.sum_cons, Nat.add_comm]
    cases p x with
    | true => rfl
    | false => rfl

theorem countP_set_add {p : α → Bool} {xs : List α} {i : Nat} {x : α} (h : xs[i]? = some x) (y : α)
    : (xs.set i y).countP p + (p x).toNat = xs.countP p + (p y).toNat := by
  rw [countP_eq_sum, countP_eq_sum]
  apply sum_map_set_add _ h

theorem countP_lt_length {p : α → Bool} {xs : List α} {i : Nat} {x : α} (h : xs[i]? = some x)
    (hx : p x = false)
    : xs.countP p < xs.length := by
  have hlen := xs.length_eq_countP_add_countP p
  have hpos : 0 < xs.countP fun x => decide ¬ p x = true := by
    rw [List.countP_pos_iff]
    exact ⟨x, List.mem_of_getElem? h, by simp [hx]⟩
  omega

end ListUpdate
