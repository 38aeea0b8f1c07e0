import NetDemo.Lib.ListUpdate
import Mathlib.Algebra.BigOperators.Group.List.Basic
import Mathlib.Order.Nat
import Mathlib.Algebra.Order.BigOperators.Group.List
import Mathlib.Algebra.Order.Group.Nat
import Mathlib.Data.Int.CardIntervalMod

/-!
This module contains two ways to spread units over places: in turn, or by giving each new unit to a
least loaded place. For the latter it has the scan for such a place, and how many units it takes until
the loads are even.
-/

namespace Balance

open ListUpdate

section InTurn

-- The place after `i` of the `n` places.
def next (n i : Nat) : Nat :=
  if i + 1 ≥ n then 0 else i + 1

theorem next_lt {n : Nat} (hn : 0 < n) (i : Nat) : next n i < n := by
  unfold next
  split
  . exact hn
  . omega

theorem next_mod {n : Nat} (hn : 0 < n) (a : Nat) : next n (a % n) = (a + 1) % n := by
  have hlt := Nat.mod_lt a hn
  unfold next
  rw [Nat.add_mod_eq_ite]
  split
  . next hge =>
    have hone : a % n + 1 % n = n ∨ n = 1 := by
      by_cases h : n = 1
      . exact .inr h
      . rw [Nat.mod_eq_of_lt (by omega : 1 < n)]
        omega
    cases hone with
    | inl h => rw [if_pos h.ge, h, Nat.sub_self]
    | inr h =>
      subst h
      simp [Nat.mod_one]
  . next hlt' =>
    rw [Nat.mod_eq_of_lt (by omega : 1 < n), if_neg hlt']

theorem mod_eq_iff_modEq {n w : Nat} (hw : w < n) (start j : Nat)
    : (start + j) % n = w ↔ j ≡ w + (n - start % n) [MOD n] := by
  have hlt : start % n < n := Nat.mod_lt start (by omega)
  have hround : start + (w + (n - start % n)) = w + n * (start / n + 1) := by
    have := Nat.div_add_mod start n
    rw [Nat.mul_add, Nat.mul_one]
    omega
  have hstart : start + (w + (n - start % n)) ≡ w [MOD n] := by
    rw [hround]
    exact Nat.add_mul_mod_self_left w n _
  constructor
  . intro h
    apply Nat.ModEq.add_left_cancel' start
    apply Nat.ModEq.trans _ hstart.symm
    unfold Nat.ModEq
    rw [h, Nat.mod_eq_of_lt hw]
  . intro h
    have := (h.add_left start).trans hstart
    unfold Nat.ModEq at this
    rwa [Nat.mod_eq_of_lt hw] at this

/--
Of `m` turns each of the `n` places gets `m / n` or one more, wherever the turns start.
-/
theorem count_turns {n w : Nat} (hw : w < n) (start m : Nat)
    : m / n ≤ Nat.count (fun j => (start + j) % n = w) m ∧
        Nat.count (fun j => (start + j) % n = w) m ≤ m / n + 1 := by
  have hcount : Nat.count (fun j => (start + j) % n = w) m =
      Nat.count (fun j => j ≡ w + (n - start % n) [MOD n]) m := by
    simp only [mod_eq_iff_modEq hw]
  rw [hcount, Nat.count_modEq_card m (by omega)]
  split
  . omega
  . omega

end InTurn

section Scan

variable {α : Type} [LT α] [DecidableLT α]

-- `best` is the value at `idx`, the best one so far, and `i` the index of the first of `xs`.
def scan (best : α) (idx i : Nat) (xs : List α) : Nat :=
  match xs with
  | [] => idx
  | x :: xs => if x < best then scan x i (i + 1) xs else scan best idx (i + 1) xs

def least (xs : List α) : Nat :=
  match xs with
  | [] => 0
  | x :: xs => scan x 0 1 xs

theorem scan_map {β : Type} [LT β] [DecidableLT β] {f : α → β} (hf : ∀ x y, f x < f y ↔ x < y)
    (xs : List α) (best : α) (idx i : Nat)
    : scan (f best) idx i (xs.map f) = scan best idx i xs := by
  induction xs generalizing best idx i with
  | nil => rfl
  | cons x xs ih =>
    simp only [List.map_cons, scan, hf]
    split
    . apply ih
    . apply ih

theorem least_map {β : Type} [LT β] [DecidableLT β] {f : α → β} (hf : ∀ x y, f x < f y ↔ x < y)
    (xs : List α)
    : least (xs.map f) = least xs := by
  cases xs with
  | nil => rfl
  | cons x xs => apply scan_map hf

end Scan

section Order

variable {α : Type} [LinearOrder α]

-- `x` is at `idx` and is the first of the least elements.
structure FirstLeast (xs : List α) (idx : Nat) (x : α) : Prop where
  found : xs[idx]? = some x
  le : ∀ y, y ∈ xs → x ≤ y
  first : ∀ j y, j < idx → xs[j]? = some y → x < y

theorem firstLeast_scan
    : ∀ (xs before : List α) (best : α) (idx : Nat), FirstLeast before idx best →
        ∃ x, FirstLeast (before ++ xs) (scan best idx before.length xs) x := by
  intro xs
  induction xs with
  | nil =>
    intro before best idx h
    exact ⟨best, by simpa [scan] using h⟩
  | cons x xs ih =>
    intro before best idx h
    have hidx : idx < before.length := (List.getElem?_eq_some_iff.mp h.found).1
    have hlength : before.length + 1 = (before ++ [x]).length := by simp
    unfold scan
    rw [List.append_cons, hlength]
    split
    . next hlt =>
      apply ih
      constructor
      . simp
      . intro y hy
        rw [List.mem_append, List.mem_singleton] at hy
        cases hy with
        | inl hy => exact hlt.le.trans (h.le y hy)
        | inr hy => exact hy.ge
      . intro j y hj hy
        rw [List.getElem?_append_left hj] at hy
        exact hlt.trans_le (h.le y (List.mem_of_getElem? hy))
    . next hle =>
      apply ih
      constructor
      . rw [List.getElem?_append_left hidx]
        exact h.found
      . intro y hy
        rw [List.mem_append, List.mem_singleton] at hy
        cases hy with
        | inl hy => exact h.le y hy
        | inr hy => exact hy ▸ not_lt.mp hle
      . intro j y hj hy
        rw [List.getElem?_append_left (hj.trans hidx)] at hy
        exact h.first j y hj hy

/--
The scan finds the first of the least elements.
-/
theorem firstLeast_least {xs : List α} (h : xs ≠ []) : ∃ x, FirstLeast xs (least xs) x := by
  cases xs with
  | nil => exact absurd rfl h
  | cons x xs =>
    apply firstLeast_scan xs [x] x 0
    constructor
    . rfl
    . simp
    . intro j y hj
      omega

end Order

-- One unit for the first of the least loaded places.
def add (loads : List Nat) : List Nat :=
  loads.modify (least loads) (· + 1)

-- No load is more than `d` above another one.
def Within (d : Nat) (loads : List Nat) : Prop :=
  ∀ x, x ∈ loads → ∀ y, y ∈ loads → x ≤ y + d

-- What is missing until all loads are `top`.
def deficit (top : Nat) (loads : List Nat) : Nat :=
  (loads.map fun x => top - x).sum

theorem add_nil : add [] = [] := by
  rfl

theorem add_eq_set {loads : List Nat} {x : Nat} (h : FirstLeast loads (least loads) x)
    : add loads = loads.set (least loads) (x + 1) := by
  unfold add
  exact modify_eq_set h.found _

theorem mem_add {loads : List Nat} {x : Nat} (h : FirstLeast loads (least loads) x) {y : Nat}
    (hy : y ∈ add loads)
    : y = x + 1 ∨ y ∈ loads := by
  rw [add_eq_set h] at hy
  cases List.mem_or_eq_of_mem_set hy with
  | inl hy => exact .inr hy
  | inr hy => exact .inl hy

theorem Within.add {d : Nat} {loads : List Nat} (hd : 0 < d) (hwithin : Within d loads)
    : Within d (add loads) := by
  by_cases hnil : loads = []
  . rw [hnil, add_nil, ← hnil]
    exact hwithin
  . rcases firstLeast_least hnil with ⟨x, h⟩
    have hmem := List.mem_of_getElem? h.found
    intro y hy z hz
    cases mem_add h hy with
    | inl hy =>
      cases mem_add h hz with
      | inl hz => omega
      | inr hz =>
        have := h.le z hz
        omega
    | inr hy =>
      cases mem_add h hz with
      | inl hz =>
        have := hwithin y hy x hmem
        omega
      | inr hz => exact hwithin y hy z hz

theorem Within.set_pred {d : Nat} {loads : List Nat} {i x : Nat} (hwithin : Within d loads)
    (h : loads[i]? = some (x + 1))
    : Within (d + 1) (loads.set i x) := by
  have hmem := List.mem_of_getElem? h
  have hcases : ∀ y, y ∈ loads.set i x → y = x ∨ y ∈ loads :=
    fun y hy => (List.mem_or_eq_of_mem_set hy).symm
  intro y hy z hz
  cases hcases y hy with
  | inl hy =>
    cases hcases z hz with
    | inl hz => omega
    | inr hz =>
      have := hwithin (x + 1) hmem z hz
      omega
  | inr hy =>
    cases hcases z hz with
    | inl hz =>
      have := hwithin y hy (x + 1) hmem
      omega
    | inr hz =>
      have := hwithin y hy z hz
      omega

theorem deficit_add {top : Nat} {loads : List Nat} {x : Nat}
    (h : FirstLeast loads (least loads) x) (hlt : x < top)
    : deficit top (add loads) + 1 = deficit top loads := by
  have hsum := sum_map_set_add (fun x => top - x) h.found (x + 1)
  unfold deficit
  rw [add_eq_set h]
  omega

theorem deficit_set_pred {top : Nat} {loads : List Nat} {i x : Nat}
    (h : loads[i]? = some (x + 1))
    : deficit top (loads.set i x) ≤ deficit top loads + 1 := by
  have hsum := sum_map_set_add (fun x => top - x) h x
  unfold deficit
  omega

theorem within_of_deficit_eq_zero {top : Nat} {loads : List Nat} (hle : ∀ x, x ∈ loads → x ≤ top)
    (h : deficit top loads = 0)
    : Within 0 loads := by
  have hall : ∀ x, x ∈ loads → top - x = 0 := by
    intro x hx
    apply List.sum_eq_zero_iff.mp h
    exact List.mem_map_of_mem hx
  intro x hx y hy
  have := hall y hy
  have := hle x hx
  omega

theorem Within.mono {d d' : Nat} {loads : List Nat} (h : Within d loads) (hd : d ≤ d')
    : Within d' loads := by
  intro x hx y hy
  have := h x hx y hy
  omega

/--
What is true when `n` units have been added and `m` removed since the loads were at most `top` and `d`
was missing: they are level up to what was removed, or so much is still missing.
-/
def Levelling (top d n m : Nat) (loads : List Nat) : Prop :=
  Within (1 + m) loads ∨ (∀ x, x ∈ loads → x ≤ top) ∧ deficit top loads + n ≤ d + m

theorem Levelling.add {top d n m : Nat} {loads : List Nat} (h : Levelling top d n m loads)
    : Levelling top d (n + 1) m (add loads) := by
  cases h with
  | inl h => exact .inl (h.add (by omega))
  | inr h =>
    have ⟨hle, hdeficit⟩ := h
    by_cases hzero : deficit top loads = 0
    . have hlevel : Within (1 + m) loads :=
        (within_of_deficit_eq_zero hle hzero).mono (Nat.zero_le _)
      exact .inl (hlevel.add (by omega))
    . have hnil : loads ≠ [] := by
        intro hnil
        apply hzero
        simp [hnil, deficit]
      rcases firstLeast_least hnil with ⟨x, hleast⟩
      have hlt : x < top := by
        by_contra hge
        apply hzero
        unfold deficit
        rw [List.sum_eq_zero_iff]
        intro y hy
        rcases List.mem_map.mp hy with ⟨z, hz, heq⟩
        have := hleast.le z hz
        omega
      apply Or.inr
      constructor
      . intro y hy
        cases mem_add hleast hy with
        | inl hy => omega
        | inr hy => exact hle y hy
      . have := deficit_add hleast hlt
        omega

theorem Levelling.set_pred {top d n m : Nat} {loads : List Nat} {i x : Nat}
    (h : Levelling top d n m loads) (hx : loads[i]? = some (x + 1))
    : Levelling top d n (m + 1) (loads.set i x) := by
  cases h with
  | inl h => exact .inl (h.set_pred hx)
  | inr h =>
    have ⟨hle, hdeficit⟩ := h
    apply Or.inr
    constructor
    . intro y hy
      cases List.mem_or_eq_of_mem_set hy with
      | inl hy => exact hle y hy
      | inr hy =>
        have := hle (x + 1) (List.mem_of_getElem? hx)
        omega
    . have hpred : deficit top (loads.set i x) ≤ deficit top loads + 1 := deficit_set_pred hx
      omega

theorem Levelling.within {top d n m : Nat} {loads : List Nat} (h : Levelling top d n m loads)
    (hn : d + m ≤ n)
    : Within (1 + m) loads := by
  cases h with
  | inl h => exact h
  | inr h =>
    apply (within_of_deficit_eq_zero h.left (by omega)).mono
    omega

end Balance
