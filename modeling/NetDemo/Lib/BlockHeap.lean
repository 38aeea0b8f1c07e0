import Mathlib.Data.List.Basic
import Mathlib.Data.List.Nodup

/-!
This module contains a heap of blocks: allocation, release and access of single elements, where every
misuse of a block is a fault.
-/

inductive HeapFault where
  | badAlloc
  | doubleFree
  | useAfterFree
  | outOfBounds
  deriving DecidableEq, Repr

structure BlockHeap (α : Type) where
  -- `none` is a block that was released. A reference is an index.
  blocks : List (Option (List α))
  -- The releases so far.
  freed : List Nat
  deriving DecidableEq

namespace BlockHeap

variable {α : Type}

def empty : BlockHeap α where
  blocks := []
  freed := []

def contents (h : BlockHeap α) (b : Nat) : Option (List α) :=
  h.blocks[b]?.join

-- The new block has the first reference that was not given out yet.
def alloc (h : BlockHeap α) (xs : List α) : BlockHeap α :=
  { h with blocks := h.blocks ++ [some xs] }

def put (h : BlockHeap α) (b : Nat) (xs : List α) : BlockHeap α :=
  { h with blocks := h.blocks.set b (some xs) }

def release (h : BlockHeap α) (b : Nat) : BlockHeap α where
  blocks := h.blocks.set b none
  freed := h.freed ++ [b]

def free (h : BlockHeap α) (b : Nat) : Except HeapFault (BlockHeap α) :=
  match h.contents b with
  | some _ => .ok (h.release b)
  | none => .error .doubleFree

def read (h : BlockHeap α) (b i : Nat) : Except HeapFault α :=
  match h.contents b with
  | some xs =>
    match xs[i]? with
    | some x => .ok x
    | none => .error .outOfBounds
  | none => .error .useAfterFree

def write (h : BlockHeap α) (b i : Nat) (x : α) : Except HeapFault (BlockHeap α) :=
  match h.contents b with
  | some xs => if i < xs.length then .ok (h.put b (xs.set i x)) else .error .outOfBounds
  | none => .error .useAfterFree

variable {h : BlockHeap α} {b : Nat} {xs : List α}

theorem lt_length_of_contents (hb : h.contents b = some xs) : b < h.blocks.length := by
  unfold contents at hb
  cases hget : h.blocks[b]? with
  | none => simp [hget] at hb
  | some block => exact (List.getElem?_eq_some_iff.mp hget).1

theorem contents_eq_none (hb : h.blocks.length ≤ b) : h.contents b = none := by
  unfold contents
  rw [List.getElem?_eq_none hb]
  rfl

@[simp]
theorem contents_empty (b : Nat) : (empty : BlockHeap α).contents b = none := by
  rfl

@[simp]
theorem length_alloc (ys : List α) : (h.alloc ys).blocks.length = h.blocks.length + 1 := by
  simp [alloc]

@[simp]
theorem length_release (b : Nat) : (h.release b).blocks.length = h.blocks.length := by
  simp [release]

theorem contents_alloc (ys : List α) (b : Nat)
    : (h.alloc ys).contents b = if b = h.blocks.length then some ys else h.contents b := by
  unfold contents alloc
  dsimp only
  rw [List.getElem?_append]
  split
  . next hlt =>
    rw [if_neg]
    omega
  . next hge =>
    split
    . next heq =>
      subst heq
      simp
    . next hne =>
      rw [List.getElem?_eq_none, List.getElem?_eq_none]
      . omega
      . rw [List.length_singleton]
        omega

theorem contents_alloc_self (ys : List α)
    : (h.alloc ys).contents h.blocks.length = some ys := by
  rw [contents_alloc, if_pos rfl]

theorem contents_set (block : Option (List α)) (hb : b < h.blocks.length) (b' : Nat)
    (freed : List Nat)
    : (BlockHeap.mk (h.blocks.set b block) freed).contents b' =
        if b' = b then block else h.contents b' := by
  unfold contents
  dsimp only
  rw [List.getElem?_set]
  split
  . next heq =>
    subst heq
    simp
  . next hne =>
    rw [if_neg]
    omega

theorem contents_put (hb : h.contents b = some xs) (ys : List α) (b' : Nat)
    : (h.put b ys).contents b' = if b' = b then some ys else h.contents b' := by
  apply contents_set
  exact lt_length_of_contents hb

theorem contents_release (hb : h.contents b = some xs) (b' : Nat)
    : (h.release b).contents b' = if b' = b then none else h.contents b' := by
  apply contents_set
  exact lt_length_of_contents hb

theorem contents_release_self (hb : h.contents b = some xs) : (h.release b).contents b = none := by
  rw [contents_release hb, if_pos rfl]

theorem free_of_contents (hb : h.contents b = some xs) : h.free b = .ok (h.release b) := by
  unfold free
  rw [hb]

theorem free_of_released (hb : h.contents b = none) : h.free b = .error .doubleFree := by
  unfold free
  rw [hb]

theorem read_of_contents {i : Nat} {x : α} (hb : h.contents b = some xs) (hi : xs[i]? = some x)
    : h.read b i = .ok x := by
  unfold read
  rw [hb]
  dsimp only
  rw [hi]

theorem read_of_released (hb : h.contents b = none) (i : Nat)
    : h.read b i = .error .useAfterFree := by
  unfold read
  rw [hb]

theorem write_of_contents {i : Nat} (hb : h.contents b = some xs) (hi : i < xs.length) (x : α)
    : h.write b i x = .ok (h.put b (xs.set i x)) := by
  unfold write
  rw [hb]
  dsimp only
  rw [if_pos hi]

theorem put_alloc (ys zs : List α) : (h.alloc ys).put h.blocks.length zs = h.alloc zs := by
  simp [put, alloc]

theorem put_put (ys zs : List α) : (h.put b ys).put b zs = h.put b zs := by
  simp [put]

theorem put_self (hb : h.contents b = some xs) : h.put b xs = h := by
  have hlt := lt_length_of_contents hb
  have hget : h.blocks[b] = some xs := by
    unfold contents at hb
    rw [List.getElem?_eq_getElem hlt] at hb
    simpa using hb
  unfold put
  rw [← hget, List.set_getElem_self]

-- What an element-wise copy has written after `i` elements.
theorem set_take_append_drop {ys : List α} {i : Nat} (hx : i < xs.length) (hy : i < ys.length)
    : (xs.take i ++ ys.drop i).set i xs[i] = xs.take (i + 1) ++ ys.drop (i + 1) := by
  have hlength : (xs.take i).length = i := by
    rw [List.length_take]
    omega
  rw [List.set_append_right _ _ (by omega), hlength, Nat.sub_self, List.drop_eq_getElem_cons hy,
    List.set_cons_zero, List.take_succ_eq_append_getElem hx, List.append_assoc]
  rfl

/--
No block was released twice, and what was released is not a block any more.
-/
structure FreedOnce (h : BlockHeap α) : Prop where
  nodup : h.freed.Nodup
  gone : ∀ b, b ∈ h.freed → b < h.blocks.length ∧ h.contents b = none

theorem freedOnce_empty : (empty : BlockHeap α).FreedOnce where
  nodup := List.nodup_nil
  gone := by simp [empty]

theorem FreedOnce.alloc (hh : h.FreedOnce) (ys : List α) : (h.alloc ys).FreedOnce where
  nodup := hh.nodup
  gone := by
    intro b hb
    rcases hh.gone b hb with ⟨hlt, hnone⟩
    constructor
    . rw [length_alloc]
      omega
    . rw [contents_alloc, if_neg (by omega)]
      exact hnone

theorem FreedOnce.release (hh : h.FreedOnce) (hb : h.contents b = some xs)
    : (h.release b).FreedOnce where
  nodup := by
    unfold BlockHeap.release
    rw [List.nodup_append]
    refine ⟨hh.nodup, by simp, ?_⟩
    intro b₁ h₁ b₂ h₂ heq
    rw [List.mem_singleton] at h₂
    rw [heq, h₂] at h₁
    have := (hh.gone b h₁).right
    rw [hb] at this
    simp at this
  gone := by
    intro b' hb'
    have hlt := lt_length_of_contents hb
    simp only [BlockHeap.release, List.mem_append, List.mem_singleton] at hb'
    rw [contents_release hb]
    simp only [BlockHeap.release, List.length_set]
    split
    . next heq => exact ⟨heq ▸ hlt, rfl⟩
    . next hne => exact hh.gone b' (hb'.resolve_right hne)

end BlockHeap
