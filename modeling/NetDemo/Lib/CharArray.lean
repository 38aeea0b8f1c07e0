import Mathlib.Data.List.TakeWhile

/-!
This module contains character arrays of a fixed length that are used as C strings: overwriting
their first bytes, `memset` and the string that a `char *` to the first byte stands for.
-/

structure CharArray (n : Nat) where
  bytes : List UInt8
  length_bytes : bytes.length = n
  deriving DecidableEq

namespace CharArray

variable {n : Nat}

def zero (n : Nat) : CharArray n where
  bytes := List.replicate n 0
  length_bytes := List.length_replicate

-- Overwrites the bytes from the first one on, as far as the array goes.
def write (a : CharArray n) (chunk : List UInt8) : CharArray n where
  bytes := chunk.take n ++ a.bytes.drop chunk.length
  length_bytes := by
    have := a.length_bytes
    rw [List.length_append, List.length_take, List.length_drop]
    omega

-- memset(a, 0, k)
def clear (a : CharArray n) (k : Nat) : CharArray n :=
  a.write (List.replicate k 0)

def text (bytes : List UInt8) : List UInt8 :=
  bytes.takeWhile (· != 0)

/--
The string that starts at the first byte. Without a NUL in the array it goes on `beyond` its end.
-/
def cString (a : CharArray n) (beyond : List UInt8) : List UInt8 :=
  text (a.bytes ++ beyond)

def Terminated (a : CharArray n) : Prop :=
  ∃ i, i < n ∧ a.bytes[i]? = some 0

-- Whatever is written in front of the last byte, the array stays terminated.
def LastZero (a : CharArray n) : Prop :=
  a.bytes[n - 1]? = some 0

instance (a : CharArray n) : Decidable a.LastZero :=
  inferInstanceAs (Decidable (_ = _))

theorem terminated_iff_mem (a : CharArray n) : a.Terminated ↔ 0 ∈ a.bytes := by
  unfold Terminated
  rw [List.mem_iff_getElem?]
  constructor
  . intro h
    rcases h with ⟨i, _, hi⟩
    exact ⟨i, hi⟩
  . intro h
    rcases h with ⟨i, hi⟩
    have := (List.getElem?_eq_some_iff.mp hi).1
    rw [a.length_bytes] at this
    exact ⟨i, this, hi⟩

instance (a : CharArray n) : Decidable a.Terminated :=
  decidable_of_iff _ a.terminated_iff_mem.symm

theorem text_append_of_mem {xs ys : List UInt8} (h : 0 ∈ xs) : text (xs ++ ys) = text xs := by
  unfold text
  rw [List.takeWhile_append]
  split
  . next hall =>
    have hmem : (0 : UInt8) ∈ xs.takeWhile (· != 0) := by
      rw [(List.takeWhile_prefix _).eq_of_length hall]
      exact h
    simpa using List.mem_takeWhile_imp hmem
  . rfl

theorem text_append_zeros (xs : List UInt8) (k : Nat)
    : text (xs ++ List.replicate k 0) = text xs := by
  unfold text
  rw [List.takeWhile_append]
  split
  . next hall =>
    have hzeros : (List.replicate k (0 : UInt8)).takeWhile (· != 0) = [] := by
      cases k with
      | zero => rfl
      | succ k => rfl
    rw [hzeros, List.append_nil, (List.takeWhile_prefix _).eq_of_length hall]
  . rfl

theorem text_eq_self_iff (xs : List UInt8) : text xs = xs ↔ 0 ∉ xs := by
  unfold text
  rw [List.takeWhile_eq_self_iff]
  constructor
  . intro h hmem
    simpa using h 0 hmem
  . intro h x hx
    have : x ≠ 0 := fun heq => h (heq ▸ hx)
    simpa using this

theorem cString_of_terminated {a : CharArray n} (h : a.Terminated) (beyond : List UInt8)
    : a.cString beyond = text a.bytes := by
  unfold cString
  apply text_append_of_mem
  rw [← terminated_iff_mem]
  exact h

theorem clear_all (a : CharArray n) : a.clear n = zero n := by
  have hdrop : a.bytes.drop n = [] := by
    apply List.drop_eq_nil_of_le
    rw [a.length_bytes]
  simp [clear, write, zero, hdrop]

@[simp]
theorem bytes_write_zero (chunk : List UInt8)
    : ((zero n).write chunk).bytes = chunk.take n ++ List.replicate (n - chunk.length) 0 := by
  simp [write, zero]

-- An array of zeros shows exactly what was written to it, up to the first NUL.
theorem cString_write_zero {chunk : List UInt8} (h : chunk.length < n) (beyond : List UInt8)
    : ((zero n).write chunk).cString beyond = text chunk := by
  have hmem : 0 ∈ ((zero n).write chunk).bytes := by
    rw [bytes_write_zero, List.mem_append]
    right
    rw [List.mem_replicate]
    exact ⟨by omega, rfl⟩
  rw [cString_of_terminated ((terminated_iff_mem _).mpr hmem), bytes_write_zero,
    text_append_zeros, List.take_of_length_le (Nat.le_of_lt h)]

@[simp]
theorem cString_zero (beyond : List UInt8) : (zero (n + 1)).cString beyond = [] := by
  rfl

theorem lastZero_zero (h : 0 < n) : (zero n).LastZero := by
  unfold LastZero zero
  rw [List.getElem?_replicate]
  rw [if_pos]
  omega

theorem LastZero.terminated {a : CharArray n} (ha : a.LastZero) : a.Terminated := by
  rw [terminated_iff_mem]
  exact List.mem_of_getElem? ha

theorem LastZero.write {a : CharArray n} (ha : a.LastZero) {chunk : List UInt8}
    (h : chunk.length < n)
    : (a.write chunk).LastZero := by
  unfold LastZero CharArray.write
  dsimp only
  rw [List.take_of_length_le (Nat.le_of_lt h), List.getElem?_append_right (by omega),
    List.getElem?_drop, Nat.add_sub_cancel' (by omega)]
  exact ha

theorem terminated_write_iff {a : CharArray n} (ha : a.LastZero) {chunk : List UInt8}
    (h : chunk.length ≤ n)
    : (a.write chunk).Terminated ↔ chunk.length < n ∨ 0 ∈ chunk := by
  cases Nat.lt_or_eq_of_le h with
  | inl hlt => simp [hlt, (ha.write hlt).terminated]
  | inr heq =>
    have hdrop : a.bytes.drop n = [] := by
      apply List.drop_eq_nil_of_le
      rw [a.length_bytes]
    rw [terminated_iff_mem]
    simp [CharArray.write, heq, hdrop, List.take_of_length_le h]

end CharArray
