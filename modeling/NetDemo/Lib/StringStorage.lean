import Mathlib.Data.List.Basic

/-!
This module contains the storage behind a mutable string whose bytes others have borrowed: an
assignment writes in place if the new contents fit and moves to another block otherwise.
-/

structure StringStorage (α : Type) where
  block : Nat
  -- The terminator and what lies behind it included.
  bytes : List α
  size : Nat
  deriving DecidableEq, Repr

namespace StringStorage

variable {α : Type}

def empty (terminator : α) : StringStorage α where
  block := 0
  bytes := [terminator]
  size := 0

-- `slack` is the capacity that a new block has beyond what is asked for.
def assign (terminator : α) (s : StringStorage α) (contents : List α) (slack : Nat)
    : StringStorage α :=
  if contents.length + 1 ≤ s.bytes.length then
    { s with
      bytes := contents ++ [terminator] ++ s.bytes.drop (contents.length + 1)
      size := contents.length }
  else
    { block := s.block + 1
      bytes := contents ++ List.replicate (slack + 1) terminator
      size := contents.length }

-- What a borrower reads, which can be anything (`stale`) once its block was given up.
def read (s : StringStorage α) (block start n : Nat) (stale : List α) : List α :=
  if block = s.block then
    (s.bytes.drop start).take n
  else
    stale

variable {terminator : α} (s : StringStorage α) (contents : List α) (slack : Nat)

@[simp]
theorem size_assign : (assign terminator s contents slack).size = contents.length := by
  unfold assign
  split
  . rfl
  . rfl

@[simp]
theorem take_bytes_assign
    : (assign terminator s contents slack).bytes.take contents.length = contents := by
  unfold assign
  split
  . simp
  . simp

theorem length_le_length_bytes_assign
    : contents.length ≤ (assign terminator s contents slack).bytes.length := by
  unfold assign
  split
  . simp only [List.length_append, List.length_singleton]
    omega
  . simp

theorem take_drop_append_take_drop (xs : List α) (start n size : Nat) (h : start + n ≤ size)
    : (xs.drop start).take n ++ (xs.take size).drop (start + n) = (xs.take size).drop start := by
  rw [List.drop_take, List.drop_take, ← List.drop_drop]
  have hsize : size - start = n + (size - (start + n)) := by omega
  rw [hsize, List.take_add]

end StringStorage
