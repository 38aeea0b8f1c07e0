import NetDemo.Array.Basic

/-!
This module says once what the members of `Array` do to the heap and the objects.
-/

namespace Arrays

open ExceptState

-- A new object owns a new block.
def added (s : Arrays) (xs : List Int32) : Arrays where
  heap := s.heap.alloc xs
  objects := s.objects ++ [some ⟨s.heap.blocks.length, xs.length⟩]

-- The object `a` gives up the block `old` for a new one.
def reassigned (s : Arrays) (a old : Nat) (xs : List Int32) : Arrays where
  heap := (s.heap.release old).alloc xs
  objects := s.objects.set a (some ⟨s.heap.blocks.length, xs.length⟩)

-- What an assignment leaves whose `new` throws: the block is gone, `size_` is the new one.
def halfAssigned (s : Arrays) (a old size : Nat) : Arrays where
  heap := s.heap.release old
  objects := s.objects.set a (some ⟨old, size⟩)

def destroyed (s : Arrays) (a old : Nat) : Arrays where
  heap := s.heap.release old
  objects := s.objects.set a none

def placed (s : Arrays) (a : Nat) (array : IntArray) : Arrays :=
  { s with objects := s.objects.set a (some array) }

def allocated (s : Arrays) (xs : List Int32) : Arrays :=
  { s with heap := s.heap.alloc xs }

def released (s : Arrays) (data : Nat) : Arrays :=
  { s with heap := s.heap.release data }

def withBlock (s : Arrays) (data : Nat) (xs : List Int32) : Arrays :=
  { s with heap := s.heap.put data xs }

section Object

variable {s : Arrays} {a : Nat} {array : IntArray}

theorem lt_length_of_object? (h : s.object? a = some array) : a < s.objects.length := by
  unfold object? at h
  cases hget : s.objects[a]? with
  | none => simp [hget] at h
  | some object => exact (List.getElem?_eq_some_iff.mp hget).1

theorem object?_set (h : s.object? a = some array) (object : Option IntArray)
    (heap : BlockHeap Int32) (k : Nat)
    : (Arrays.mk heap (s.objects.set a object)).object? k =
        if k = a then object else s.object? k := by
  have hlt := lt_length_of_object? h
  unfold object?
  dsimp only
  rw [List.getElem?_set]
  split
  . next heq =>
    subst heq
    simp
  . next hne =>
    rw [if_neg]
    omega

theorem object?_added (xs : List Int32) (k : Nat)
    : (s.added xs).object? k =
        if k = s.objects.length then some ⟨s.heap.blocks.length, xs.length⟩ else s.object? k := by
  unfold object? added
  dsimp only
  rw [List.getElem?_append]
  split
  . next hlt =>
    rw [if_neg]
    omega
  . next hge =>
    split
    . next heq =>
      subst heq
      simp
    . next hne =>
      rw [List.getElem?_eq_none, List.getElem?_eq_none]
      . omega
      . rw [List.length_singleton]
        omega

theorem object?_added_self (xs : List Int32)
    : (s.added xs).object? s.objects.length = some ⟨s.heap.blocks.length, xs.length⟩ := by
  rw [object?_added, if_pos rfl]

theorem object?_reassigned (h : s.object? a = some array) (old : Nat) (xs : List Int32) (k : Nat)
    : (s.reassigned a old xs).object? k =
        if k = a then some ⟨s.heap.blocks.length, xs.length⟩ else s.object? k := by
  apply object?_set h

theorem object?_reassigned_self (h : s.object? a = some array) (old : Nat) (xs : List Int32)
    : (s.reassigned a old xs).object? a = some ⟨s.heap.blocks.length, xs.length⟩ := by
  rw [object?_reassigned h, if_pos rfl]

theorem object?_halfAssigned (h : s.object? a = some array) (old size k : Nat)
    : (s.halfAssigned a old size).object? k = if k = a then some ⟨old, size⟩ else s.object? k := by
  apply object?_set h

theorem object?_halfAssigned_self (h : s.object? a = some array) (old size : Nat)
    : (s.halfAssigned a old size).object? a = some ⟨old, size⟩ := by
  rw [object?_halfAssigned h, if_pos rfl]

theorem object?_destroyed (h : s.object? a = some array) (old k : Nat)
    : (s.destroyed a old).object? k = if k = a then none else s.object? k := by
  apply object?_set h

theorem object?_placed (h : s.object? a = some array) (array' : IntArray) (k : Nat)
    : (s.placed a array').object? k = if k = a then some array' else s.object? k := by
  apply object?_set h

theorem contents_reassigned {old : Nat} {ys : List Int32} (h : s.heap.contents old = some ys)
    (a : Nat) (xs : List Int32) (d : Nat)
    : (s.reassigned a old xs).heap.contents d =
        if d = s.heap.blocks.length then some xs
        else if d = old then none
        else s.heap.contents d := by
  unfold reassigned
  rw [BlockHeap.contents_alloc, BlockHeap.length_release, BlockHeap.contents_release h]

theorem contents_reassigned_self {old : Nat} {ys : List Int32} (h : s.heap.contents old = some ys)
    (a : Nat) (xs : List Int32)
    : (s.reassigned a old xs).heap.contents s.heap.blocks.length = some xs := by
  rw [contents_reassigned h, if_pos rfl]

end Object

section Exec

variable {s : Arrays} {a b : Nat} {array : IntArray} {xs ys : List Int32}

theorem exec_object (h : s.object? a = some array) : exec (object a) s = (.ok array, s) := by
  unfold object
  simp [h]

theorem exec_deleteInts (h : s.heap.contents b = some xs)
    : exec (deleteInts b) s = (.ok (), s.released b) := by
  unfold deleteInts
  simp [BlockHeap.free_of_contents h, released]

theorem exec_deleteInts_of_released (h : s.heap.contents b = none)
    : exec (deleteInts b) s = (.error .doubleFree, s) := by
  unfold deleteInts
  simp [BlockHeap.free_of_released h]

theorem exec_readInt {i : Nat} {x : Int32} (h : s.heap.contents b = some xs) (hi : xs[i]? = some x)
    : exec (readInt b i) s = (.ok x, s) := by
  unfold readInt
  simp [BlockHeap.read_of_contents h hi]

theorem exec_writeInt {i : Nat} (h : s.heap.contents b = some xs) (hi : i < xs.length) (x : Int32)
    : exec (writeInt b i x) s = (.ok (), s.withBlock b (xs.set i x)) := by
  unfold writeInt
  simp [BlockHeap.write_of_contents h hi, withBlock]

theorem exec_setObject (a : Nat) (array : IntArray)
    : exec (setObject a array) s = (.ok (), s.placed a array) := by
  rfl

theorem exec_newInts (garbage : Nat → Int32) (n : Nat)
    : exec (newInts (some garbage) n) s =
        (.ok s.heap.blocks.length, s.allocated ((List.range n).map garbage)) := by
  rfl

theorem exec_newInts_none (n : Nat) : exec (newInts none n) s = (.error .badAlloc, s) := by
  rfl

theorem exec_copyElement {data i : Nat} {x : Int32} (hb : s.object? b = some array)
    (hsrc : s.heap.contents array.data = some xs) (hx : xs[i]? = some x)
    (hdst : s.heap.contents data = some ys) (hi : i < ys.length)
    : exec (copyElement b data i) s =
        (.ok (), s.withBlock data (ys.set i x)) := by
  unfold copyElement
  simp only [exec_bind, exec_object hb, exec_readInt hsrc hx, exec_writeInt hdst hi]

/--
The elements that a copy of the array has. Nothing is read if there are none.
-/
def Elements (s : Arrays) (array : IntArray) (xs : List Int32) : Prop :=
  xs.length = array.size ∧ (xs = [] ∨ s.heap.contents array.data = some xs)

/--
The copy loop leaves the elements of the source in the block `data`, which may be the block of the
source itself.
-/
theorem exec_copyLoop {data : Nat} (body : Nat → ArrayM Unit)
    (hbody : ∀ i ws, exec (body i) (s.withBlock data ws) =
      exec (copyElement b data i) (s.withBlock data ws))
    (hb : s.object? b = some array) (hxs : s.Elements array xs)
    (hdst : s.heap.contents data = some ys) (hlength : ys.length = xs.length)
    : exec (forLoop xs.length body) s = (.ok (), s.withBlock data xs) := by
  have hstart : s.withBlock data (xs.take 0 ++ ys.drop 0) = s := by
    simp [withBlock, BlockHeap.put_self hdst]
  have hend : xs.take xs.length ++ ys.drop xs.length = xs := by
    rw [List.take_length, ← hlength, List.drop_length, List.append_nil]
  have hloop := exec_forLoop (fun i => s.withBlock data (xs.take i ++ ys.drop i)) body xs.length
  rw [hstart, hend] at hloop
  apply hloop
  intro i hi
  have hsrc : s.heap.contents array.data = some xs := by
    apply hxs.right.resolve_left
    intro hnil
    simp [hnil] at hi
  have hwrite : (s.withBlock data (xs.take i ++ ys.drop i)).heap.contents data =
      some (xs.take i ++ ys.drop i) := by
    rw [withBlock, BlockHeap.contents_put hdst, if_pos rfl]
  have hlt : i < (xs.take i ++ ys.drop i).length := by
    rw [List.length_append, List.length_take, List.length_drop]
    omega
  -- What is read is `xs[i]`, also if the block is its own source.
  have hread : ∃ zs, (s.withBlock data (xs.take i ++ ys.drop i)).heap.contents array.data =
      some zs ∧ zs[i]? = some xs[i] := by
    by_cases heq : array.data = data
    . rw [heq, hdst] at hsrc
      simp only [Option.some.injEq] at hsrc
      subst hsrc
      rw [heq]
      refine ⟨_, hwrite, ?_⟩
      rw [List.take_append_drop, List.getElem?_eq_getElem hi]
    . refine ⟨xs, ?_, List.getElem?_eq_getElem hi⟩
      rw [withBlock, BlockHeap.contents_put hdst, if_neg heq]
      exact hsrc
  rcases hread with ⟨zs, hzs, hx⟩
  have hobject : (s.withBlock data (xs.take i ++ ys.drop i)).object? b = some array := hb
  rw [hbody, exec_copyElement hobject hzs hx hwrite hlt,
    BlockHeap.set_take_append_drop hi (by omega)]
  simp only [withBlock, BlockHeap.put_put]

theorem exec_construct (size : Nat) (garbage : Nat → Int32)
    : exec (construct size (some garbage)) s =
        (.ok (), s.added ((List.range size).map garbage)) := by
  simp [construct, exec_newInts, addObject, added, allocated]

theorem exec_construct_none (size : Nat)
    : exec (construct size none) s = (.error .badAlloc, s) := by
  simp [construct, exec_newInts_none]

theorem contents_allocated (hknown : b < s.heap.blocks.length) (ys : List Int32)
    : (s.allocated ys).heap.contents b = s.heap.contents b := by
  rw [allocated, BlockHeap.contents_alloc, if_neg]
  omega

theorem exec_copyConstruct (hb : s.object? b = some array)
    (hknown : array.data < s.heap.blocks.length) (hxs : s.Elements array xs)
    (garbage : Nat → Int32)
    : exec (copyConstruct b (some garbage)) s = (.ok (), s.added xs) := by
  have hxs' : (s.allocated ((List.range array.size).map garbage)).Elements array xs := by
    unfold Elements
    rw [contents_allocated hknown]
    exact hxs
  have hdst : (s.allocated ((List.range array.size).map garbage)).heap.contents
      s.heap.blocks.length = some ((List.range array.size).map garbage) := by
    apply BlockHeap.contents_alloc_self
  have hloop := exec_copyLoop (s := s.allocated ((List.range array.size).map garbage))
    (fun i => copyElement b s.heap.blocks.length i) (fun _ _ => rfl) hb hxs' hdst
    (by simp [hxs.left])
  rw [hxs.left] at hloop
  unfold copyConstruct
  simp only [exec_bind, exec_object hb, exec_newInts, hloop]
  simp [addObject, added, withBlock, allocated, BlockHeap.put_alloc, hxs.left]

theorem exec_copyConstruct_none (hb : s.object? b = some array)
    : exec (copyConstruct b none) s = (.error .badAlloc, s) := by
  simp [copyConstruct, exec_object hb, exec_newInts_none]

-- The source has lost its block and has elements all the same.
theorem exec_copyElement_of_released {data : Nat} (hb : s.object? b = some array)
    (hsrc : s.heap.contents array.data = none) (i : Nat)
    : exec (copyElement b data i) s = (.error .useAfterFree, s) := by
  unfold copyElement readInt
  simp [exec_object hb, BlockHeap.read_of_released hsrc]

theorem exec_copyConstruct_of_released (hb : s.object? b = some array)
    (hknown : array.data < s.heap.blocks.length) (hsrc : s.heap.contents array.data = none)
    (hsize : 0 < array.size) (garbage : Nat → Int32)
    : (exec (copyConstruct b (some garbage)) s).1 = .error .useAfterFree := by
  have hsrc' : (s.allocated ((List.range array.size).map garbage)).heap.contents array.data =
      none := by
    rw [contents_allocated hknown]
    exact hsrc
  have hfirst : exec (copyElement b s.heap.blocks.length 0)
      (s.allocated ((List.range array.size).map garbage)) =
      (.error .useAfterFree, s.allocated ((List.range array.size).map garbage)) := by
    apply exec_copyElement_of_released _ hsrc'
    exact hb
  have hloop := exec_forLoop_error hfirst hsize
  unfold copyConstruct
  simp only [exec_bind, exec_object hb, exec_newInts]
  rw [hloop]

section Assign

variable {arrayA arrayB : IntArray} {old : List Int32}

-- What `operator=` does in front of its loop: `a` has a new block with some contents.
theorem exec_assign_eq (ha : s.object? a = some arrayA) (hb : s.object? b = some arrayB)
    (hold : s.heap.contents arrayA.data = some old) (garbage : Nat → Int32)
    : exec (assign a b (some garbage)) s =
        exec (forLoop arrayB.size fun i => do copyElement b (← object a).data i)
          (s.reassigned a arrayA.data ((List.range arrayB.size).map garbage)) := by
  let resized := (s.released arrayA.data).placed a ⟨arrayA.data, arrayB.size⟩
  let garbled := (List.range arrayB.size).map garbage
  have ha' : (s.released arrayA.data).object? a = some arrayA := ha
  have hb' : (s.released arrayA.data).object? b = some arrayB := hb
  have hresized : resized.object? a = some ⟨arrayA.data, arrayB.size⟩ := by
    rw [object?_placed ha', if_pos rfl]
  have hallocated : (resized.allocated garbled).object? a =
      some ⟨arrayA.data, arrayB.size⟩ := hresized
  have hnew : resized.heap.blocks.length = s.heap.blocks.length := by
    apply BlockHeap.length_release
  have hready : (resized.allocated garbled).placed a ⟨s.heap.blocks.length, arrayB.size⟩ =
      s.reassigned a arrayA.data garbled := by
    simp [reassigned, resized, allocated, placed, released, garbled]
  have hobject : (s.reassigned a arrayA.data garbled).object? a =
      some ⟨s.heap.blocks.length, garbled.length⟩ := by
    apply object?_reassigned_self ha
  have hlength : garbled.length = arrayB.size := by simp [garbled]
  unfold assign
  simp only [exec_bind, exec_object ha, exec_deleteInts hold, exec_object ha', exec_object hb',
    exec_setObject]
  rw [show (s.released arrayA.data).placed a ⟨arrayA.data, arrayB.size⟩ = resized from rfl]
  simp only [exec_object hresized, exec_newInts, hnew]
  rw [show (List.range arrayB.size).map garbage = garbled from rfl]
  simp only [exec_object hallocated, hready, exec_object hobject, hlength]

theorem exec_assign_body (ha : s.object? a = some arrayA) (d : Nat) (zs : List Int32) (b i : Nat)
    (ws : List Int32)
    : exec (do copyElement b (← object a).data i) ((s.reassigned a d zs).withBlock
        s.heap.blocks.length ws) =
        exec (copyElement b s.heap.blocks.length i) ((s.reassigned a d zs).withBlock
          s.heap.blocks.length ws) := by
  have hobject : ((s.reassigned a d zs).withBlock s.heap.blocks.length ws).object? a =
      some ⟨s.heap.blocks.length, zs.length⟩ := by
    exact object?_reassigned_self ha d zs
  rw [exec_bind, exec_object hobject]

theorem withBlock_reassigned (a d : Nat) {zs ws : List Int32} (h : ws.length = zs.length)
    : (s.reassigned a d zs).withBlock s.heap.blocks.length ws = s.reassigned a d ws := by
  have hput := BlockHeap.put_alloc (h := s.heap.release d) zs ws
  rw [BlockHeap.length_release] at hput
  simp [withBlock, reassigned, hput, h]

-- Assigned to itself, the object reads its new block.
theorem exec_assign_self (ha : s.object? a = some arrayA)
    (hold : s.heap.contents arrayA.data = some old) (garbage : Nat → Int32)
    : exec (assign a a (some garbage)) s =
        (.ok (), s.reassigned a arrayA.data ((List.range arrayA.size).map garbage)) := by
  let garbled := (List.range arrayA.size).map garbage
  have hlength : garbled.length = arrayA.size := by simp [garbled]
  have hobject := object?_reassigned_self ha arrayA.data garbled
  have hdst := contents_reassigned_self hold a garbled
  have hloop := exec_copyLoop _ (exec_assign_body ha arrayA.data garbled a) hobject
    ⟨rfl, .inr hdst⟩ hdst rfl
  rw [hlength, withBlock_reassigned _ _ rfl] at hloop
  rw [exec_assign_eq ha ha hold]
  exact hloop

theorem object?_source (ha : s.object? a = some arrayA) (hb : s.object? b = some arrayB)
    (hne : a ≠ b) (d : Nat) (zs : List Int32)
    : (s.reassigned a d zs).object? b = some arrayB := by
  rw [object?_reassigned ha, if_neg fun h => hne h.symm]
  exact hb

theorem contents_source (hold : s.heap.contents arrayA.data = some old)
    (hdata : arrayA.data ≠ arrayB.data) (hknown : arrayB.data < s.heap.blocks.length) (a : Nat)
    (zs : List Int32)
    : (s.reassigned a arrayA.data zs).heap.contents arrayB.data =
        s.heap.contents arrayB.data := by
  rw [contents_reassigned hold, if_neg (by omega), if_neg fun h => hdata h.symm]

section Other

variable (ha : s.object? a = some arrayA) (hb : s.object? b = some arrayB)
  (hold : s.heap.contents arrayA.data = some old) (hne : a ≠ b)
  (hdata : arrayA.data ≠ arrayB.data) (hknown : arrayB.data < s.heap.blocks.length)
include ha hb hold hne hdata hknown

theorem exec_assign_other (hxs : s.Elements arrayB xs) (garbage : Nat → Int32)
    : exec (assign a b (some garbage)) s = (.ok (), s.reassigned a arrayA.data xs) := by
  let garbled := (List.range arrayB.size).map garbage
  have hlength : garbled.length = xs.length := by simp [garbled, hxs.left]
  have hobject := object?_source ha hb hne arrayA.data garbled
  have hxs' : (s.reassigned a arrayA.data garbled).Elements arrayB xs := by
    unfold Elements
    rw [contents_source hold hdata hknown]
    exact hxs
  have hdst := contents_reassigned_self hold a garbled
  have hloop := exec_copyLoop _ (exec_assign_body ha arrayA.data garbled b) hobject hxs' hdst
    hlength
  rw [withBlock_reassigned _ _ hlength.symm, hxs.left] at hloop
  rw [exec_assign_eq ha hb hold]
  exact hloop

theorem exec_assign_other_of_released (hsrc : s.heap.contents arrayB.data = none)
    (hsize : 0 < arrayB.size) (garbage : Nat → Int32)
    : (exec (assign a b (some garbage)) s).1 = .error .useAfterFree := by
  let garbled := (List.range arrayB.size).map garbage
  have hobject := object?_source ha hb hne arrayA.data garbled
  have hsrc' := (contents_source hold hdata hknown a garbled).trans hsrc
  have hself := object?_reassigned_self ha arrayA.data garbled
  have hfirst : exec (do copyElement b (← object a).data 0) (s.reassigned a arrayA.data garbled) =
      (.error .useAfterFree, s.reassigned a arrayA.data garbled) := by
    rw [exec_bind, exec_object hself]
    exact exec_copyElement_of_released hobject hsrc' 0
  rw [exec_assign_eq ha hb hold, exec_forLoop_error hfirst hsize]

end Other

theorem exec_assign_none (ha : s.object? a = some arrayA) (hb : s.object? b = some arrayB)
    (hold : s.heap.contents arrayA.data = some old)
    : exec (assign a b none) s =
        (.error .badAlloc, s.halfAssigned a arrayA.data arrayB.size) := by
  have ha' : (s.released arrayA.data).object? a = some arrayA := ha
  have hb' : (s.released arrayA.data).object? b = some arrayB := hb
  have hresized := (object?_placed ha' ⟨arrayA.data, arrayB.size⟩ a).trans (if_pos rfl)
  unfold assign
  simp only [exec_bind, exec_object ha, exec_deleteInts hold, exec_object ha', exec_object hb',
    exec_setObject, exec_object hresized, exec_newInts_none]
  rfl

theorem exec_assign_of_released (ha : s.object? a = some arrayA)
    (hold : s.heap.contents arrayA.data = none) (b : Nat) (allocation : Allocation)
    : exec (assign a b allocation) s = (.error .doubleFree, s) := by
  unfold assign
  simp only [exec_bind, exec_object ha, exec_deleteInts_of_released hold]

end Assign

theorem exec_destroy (ha : s.object? a = some array) (hold : s.heap.contents array.data = some xs)
    : exec (destroy a) s = (.ok (), s.destroyed a array.data) := by
  simp [destroy, exec_object ha, exec_deleteInts hold, released, destroyed]

theorem exec_destroy_of_released (ha : s.object? a = some array)
    (hold : s.heap.contents array.data = none)
    : exec (destroy a) s = (.error .doubleFree, s) := by
  simp [destroy, exec_object ha, exec_deleteInts_of_released hold]

end Exec

end Arrays
