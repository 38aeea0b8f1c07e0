import Mathlib.Order.Lattice
import Mathlib.Order.Iterate

/-!
This module contains delays that grow from one attempt to the next and are kept between two bounds.
-/

namespace Backoff

variable {α : Type} [LinearOrder α]

def next (f : α → α) (lo hi cur : α) : α :=
  min (max (f cur) lo) hi

theorem next_le (f : α → α) (lo hi cur : α) : next f lo hi cur ≤ hi := by
  apply min_le_right

/--
If `f` never makes a delay shorter and the first one is the lower bound, the bounds matter only at
the end: the delays are those of `f`, cut off at the upper bound.
-/
theorem iterate_next {f : α → α} (hf : ∀ x, x ≤ f x) {start lo : α} (hstart : f start ≤ lo)
    (hi : α) (k : Nat)
    : (next f lo hi)^[k + 1] start = min (f^[k] lo) hi := by
  induction k with
  | zero =>
    rw [Function.iterate_succ_apply', Function.iterate_zero_apply, Function.iterate_zero_apply]
    unfold next
    rw [max_eq_right hstart]
  | succ k ih =>
    rw [Function.iterate_succ_apply', ih, Function.iterate_succ_apply']
    have hlo : lo ≤ f^[k] lo := Function.id_le_iterate_of_id_le hf k lo
    unfold next
    cases le_total (f^[k] lo) hi with
    | inl h =>
      rw [min_eq_left h, max_eq_left (hlo.trans (hf _))]
    | inr h =>
      rw [min_eq_right h, min_eq_right ((hf hi).trans (le_max_left _ _)),
        min_eq_right (h.trans (hf _))]

end Backoff
