import Mathlib.Data.Finset.Card

/-!
This module contains the abstract allocator of numbered slots that adds a slot only when it has to:
what it may do, and how large that makes it.
-/

structure SlotAllocator where
  cap : Nat
  held : Finset Nat
  held_lt : ∀ i, i ∈ held → i < cap

namespace SlotAllocator

inductive Action where
  | acquire (i : Nat)
  | release (i : Nat)

def init (cap : Nat) : SlotAllocator where
  cap := cap
  held := ∅
  held_lt := by simp

def acquire (alloc : SlotAllocator) (i : Nat) (hi : i < alloc.cap) : SlotAllocator where
  cap := alloc.cap
  held := insert i alloc.held
  held_lt := by
    intro j hj
    cases Finset.mem_insert.mp hj with
    | inl heq => omega
    | inr hold => exact alloc.held_lt j hold

def grow (alloc : SlotAllocator) : SlotAllocator where
  cap := alloc.cap + 1
  held := insert alloc.cap alloc.held
  held_lt := by
    intro j hj
    cases Finset.mem_insert.mp hj with
    | inl heq => omega
    | inr hold =>
      have := alloc.held_lt j hold
      omega

def release (alloc : SlotAllocator) (i : Nat) : SlotAllocator where
  cap := alloc.cap
  held := alloc.held.erase i
  held_lt := by
    intro j hj
    exact alloc.held_lt j (Finset.mem_of_mem_erase hj)

inductive Step (alloc : SlotAllocator) : Action → SlotAllocator → Prop
  | acquire (i : Nat) (hi : i < alloc.cap) (hfree : i ∉ alloc.held)
      : Step alloc (.acquire i) (alloc.acquire i hi)
  | grow (hfull : ∀ i, i < alloc.cap → i ∈ alloc.held) : Step alloc (.acquire alloc.cap) alloc.grow
  | release (i : Nat) (hi : i ∈ alloc.held) : Step alloc (.release i) (alloc.release i)

variable {alloc next : SlotAllocator}

theorem card_held_le (alloc : SlotAllocator) : alloc.held.card ≤ alloc.cap := by
  have hsub : alloc.held ⊆ Finset.range alloc.cap := by
    intro i hi
    exact Finset.mem_range.mpr (alloc.held_lt i hi)
  simpa using Finset.card_le_card hsub

theorem card_held_of_full (hfull : ∀ i, i < alloc.cap → i ∈ alloc.held)
    : alloc.held.card = alloc.cap := by
  apply Nat.le_antisymm
  . apply card_held_le
  . have hsub : Finset.range alloc.cap ⊆ alloc.held := by
      intro i hi
      exact hfull i (Finset.mem_range.mp hi)
    simpa using Finset.card_le_card hsub

theorem Step.not_mem_held {i : Nat} (h : alloc.Step (.acquire i) next) : i ∉ alloc.held := by
  cases h with
  | acquire i hi hfree => exact hfree
  | grow hfull =>
    intro hmem
    have := alloc.held_lt _ hmem
    omega

theorem Step.held_acquire {i : Nat} (h : alloc.Step (.acquire i) next)
    : next.held = insert i alloc.held := by
  cases h with
  | acquire i hi hfree => rfl
  | grow hfull => rfl

theorem Step.held_release {i : Nat} (h : alloc.Step (.release i) next)
    : next.held = alloc.held.erase i := by
  cases h with
  | release i hi => rfl

theorem Step.cap_acquire {i : Nat} (h : alloc.Step (.acquire i) next)
    : (∀ j, j < alloc.cap → j ∈ alloc.held) ∧ next.cap = alloc.cap + 1 ∨
        (∃ j, j < alloc.cap ∧ j ∉ alloc.held) ∧ next.cap = alloc.cap := by
  cases h with
  | acquire i hi hfree => exact .inr ⟨⟨i, hi, hfree⟩, rfl⟩
  | grow hfull => exact .inl ⟨hfull, rfl⟩

/--
The capacity is the initial one or the largest number of slots held at a time, whichever is larger.
-/
theorem Step.cap_eq_max {action : Action} {initial peak : Nat} (h : alloc.Step action next)
    (hcap : alloc.cap = max initial peak)
    : next.cap = max initial (max peak next.held.card) := by
  have hle := card_held_le next
  cases h with
  | acquire i hi hfree =>
    have : (alloc.acquire i hi).cap = alloc.cap := rfl
    omega
  | grow hfull =>
    have hcard : alloc.grow.held.card = alloc.held.card + 1 := by
      apply Finset.card_insert_of_notMem
      intro hmem
      have := alloc.held_lt _ hmem
      omega
    have hfull := card_held_of_full hfull
    have : alloc.grow.cap = alloc.cap + 1 := rfl
    omega
  | release i hi =>
    have : (alloc.release i).cap = alloc.cap := rfl
    omega

end SlotAllocator
