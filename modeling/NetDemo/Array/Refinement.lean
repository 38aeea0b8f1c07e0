import NetDemo.Array.Ownership

/-!
This module contains what a client of `Array` sees: a list of integers for each object, and no heap.
The class refines this as long as assignments get their blocks. The lists are not those of a type with
values, since an assignment of an object to itself loses its elements.
-/

-- The elements of each object, `none` once its lifetime has ended.
abbrev ArrayValues := List (Option (List Int32))

namespace ArrayValues

def elements? (v : ArrayValues) (a : Nat) : Option (List Int32) :=
  v[a]?.join

/--
What the operations mean. An object that is assigned to itself gets the garbage of its new block.
-/
def step (v : ArrayValues) (op : ArrayOp) : Option ArrayValues :=
  match op with
  | .construct size (some garbage) => some (v ++ [some ((List.range size).map garbage)])
  | .construct _ none => some v
  | .copyConstruct tempArray allocation =>
    match v.elements? tempArray with
    | some xs => some (if allocation.isSome then v ++ [some xs] else v)
    | none => none
  | .assign this tempArray (some garbage) =>
    match v.elements? this, v.elements? tempArray with
    | some _, some xs =>
      some (v.set this (some (if this = tempArray then (List.range xs.length).map garbage else xs)))
    | _, _ => none
  | .assign _ _ none => none
  | .destroy this =>
    match v.elements? this with
    | some _ => some (v.set this none)
    | none => none

end ArrayValues

namespace Arrays

open ExceptState Transition

def contents? (s : Arrays) (a : Nat) : Option (List Int32) :=
  (s.object? a).bind fun array => s.heap.contents array.data

def values (s : Arrays) : ArrayValues :=
  (List.range s.objects.length).map s.contents?

variable {s t : Arrays} {op : ArrayOp} {a b k : Nat} {array : IntArray} {old : List Int32}

theorem contents?_of_length_le (h : s.objects.length ≤ k) : s.contents? k = none := by
  simp [contents?, object?, List.getElem?_eq_none h]

theorem getElem?_values (s : Arrays) (k : Nat)
    : s.values[k]? = if k < s.objects.length then some (s.contents? k) else none := by
  unfold values
  rw [List.getElem?_map]
  split
  . next hlt => rw [List.getElem?_range hlt, Option.map_some]
  . next hge => rw [List.getElem?_eq_none (by simpa using hge), Option.map_none]

theorem elements?_values (s : Arrays) (k : Nat) : s.values.elements? k = s.contents? k := by
  unfold ArrayValues.elements?
  rw [getElem?_values]
  split
  . rfl
  . next hge => exact (contents?_of_length_le (Nat.le_of_not_lt hge)).symm

theorem values_set (hlength : t.objects.length = s.objects.length) (x : Option (List Int32))
    (hcontents : ∀ k, t.contents? k = if k = a then x else s.contents? k)
    : t.values = s.values.set a x := by
  apply List.ext_getElem?
  intro k
  have hvalues : s.values.length = s.objects.length := by simp [values]
  rw [List.getElem?_set, getElem?_values, getElem?_values, hcontents, hlength, hvalues]
  grind

theorem Tidy.values_added (hs : s.Tidy) (xs : List Int32)
    : (s.added xs).values = s.values ++ [some xs] := by
  have hlength : (s.added xs).objects.length = s.objects.length + 1 := by
    simp [Arrays.added]
  have hvalues : s.values.length = s.objects.length := by simp [values]
  have hcontents : ∀ k, (s.added xs).contents? k =
      if k = s.objects.length then some xs else s.contents? k := by
    intro k
    unfold contents?
    rw [object?_added]
    split
    . apply BlockHeap.contents_alloc_self
    . cases hk : s.object? k with
      | none => rfl
      | some array => exact (hs.frame_added hk xs).right
  apply List.ext_getElem?
  intro k
  rw [List.getElem?_append, getElem?_values, getElem?_values, hcontents, hlength, hvalues]
  grind

theorem Tidy.values_reassigned (hs : s.Tidy) (ha : s.object? a = some array)
    (hold : s.heap.contents array.data = some old) (xs : List Int32)
    : (s.reassigned a array.data xs).values = s.values.set a (some xs) := by
  apply values_set
  . simp [Arrays.reassigned]
  . intro k
    unfold contents?
    rw [object?_reassigned ha]
    split
    . apply contents_reassigned_self hold
    . next hne =>
      cases hk : s.object? k with
      | none => rfl
      | some arrayK =>
        have hknown := hs.known k arrayK hk
        apply (contents_reassigned hold _ _ _).trans
        rw [if_neg (by omega), if_neg (hs.data_ne hk ha hne)]
        rfl

theorem Tidy.values_destroyed (hs : s.Tidy) (ha : s.object? a = some array)
    (hold : s.heap.contents array.data = some old)
    : (s.destroyed a array.data).values = s.values.set a none := by
  apply values_set
  . simp [Arrays.destroyed]
  . intro k
    unfold contents?
    rw [object?_destroyed ha]
    split
    . rfl
    . next hne =>
      cases hk : s.object? k with
      | none => rfl
      | some arrayK =>
        apply (BlockHeap.contents_release hold _).trans
        rw [if_neg (hs.data_ne hk ha hne)]
        rfl

-- In an intact state the contents are the elements.
theorem Tidy.contents?_eq (hs : s.Tidy) (hi : s.Intact) (ha : s.object? a = some array)
    : ∃ xs, s.contents? a = some xs ∧ s.heap.contents array.data = some xs ∧
        xs.length = array.size := by
  rcases hi a (live_of_object? ha) with ⟨array', xs, ha', hxs⟩
  rw [ha, Option.some.injEq] at ha'
  subst ha'
  refine ⟨xs, ?_, hxs, hs.sized a array xs ha hxs⟩
  rw [contents?, ha, Option.bind_some, hxs]

theorem Tidy.eq_of_elements (hs : s.Tidy) {xs ys : List Int32} (ha : s.object? a = some array)
    (hxs : s.heap.contents array.data = some xs) (hys : s.Elements array ys)
    : ys = xs := by
  rcases hys.right with hnil | hcontents
  . have := hs.sized a array xs ha hxs
    have := hys.left
    subst hnil
    symm
    apply List.eq_nil_of_length_eq_zero
    simp only [List.length_nil] at *
    omega
  . rw [hxs, Option.some.injEq] at hcontents
    exact hcontents.symm

-- An assignment gets its block.
def GetsBlock (op : ArrayOp) : Prop :=
  match op with
  | .assign _ _ allocation => allocation.isSome
  | .construct _ _ | .copyConstruct _ _ | .destroy _ => True

theorem exec_object_of_dead (h : s.object? a = none)
    : exec (object a) s = (.error .useAfterFree, s) := by
  unfold object
  simp [h]

theorem object?_of_not_live (h : ¬ s.Live a) : s.object? a = none := by
  simpa [Live] using h

theorem contents?_of_not_live (h : ¬ s.Live a) : s.contents? a = none := by
  rw [contents?, object?_of_not_live h, Option.bind_none]

/--
An operation on an object that does not exist has no meaning, and the class gets stuck on it.
-/
theorem step_of_not_applies (h : ¬ s.Applies op)
    : step s op = none ∧ ArrayValues.step s.values op = none := by
  cases op with
  | construct size allocation => exact absurd trivial h
  | copyConstruct b allocation =>
    have hb := object?_of_not_live h
    have hcontents := contents?_of_not_live h
    constructor
    . simp [step, perform, copyConstruct, exec_object_of_dead hb]
    . simp [ArrayValues.step, elements?_values, hcontents]
  | assign a b allocation =>
    constructor
    . cases ha : s.object? a with
      | none => simp [step, perform, assign, exec_object_of_dead ha]
      | some array =>
        have hb : s.object? b = none := by
          apply object?_of_not_live
          intro hb
          exact h ⟨live_of_object? ha, hb⟩
        cases hold : s.heap.contents array.data with
        | none =>
          simp [step, perform, assign, exec_object ha, exec_deleteInts_of_released hold]
        | some old =>
          have ha' : (s.released array.data).object? a = some array := ha
          have hb' : (s.released array.data).object? b = none := hb
          simp [step, perform, assign, exec_object ha, exec_deleteInts hold, exec_object ha',
            exec_object_of_dead hb']
    . cases allocation with
      | none => rfl
      | some garbage =>
        by_cases ha : s.Live a
        . have hb := contents?_of_not_live fun hb => h ⟨ha, hb⟩
          simp only [ArrayValues.step, elements?_values, hb]
          cases s.contents? a with
          | none => rfl
          | some xs => rfl
        . simp [ArrayValues.step, elements?_values, contents?_of_not_live ha]
  | destroy a =>
    have ha := object?_of_not_live h
    have hcontents := contents?_of_not_live h
    constructor
    . simp [step, perform, destroy, exec_object_of_dead ha]
    . simp [ArrayValues.step, elements?_values, hcontents]

theorem Tidy.values_of_effect (hs : s.Tidy) (hi : s.Intact) (hop : s.Proper op)
    (h : Effect s op t)
    : ArrayValues.step s.values op = some t.values := by
  cases h with
  | constructed size garbage => rw [hs.values_added, ArrayValues.step]
  | notConstructed size => rfl
  | copied b array xs garbage hb hxs =>
    rcases hs.contents?_eq hi hb with ⟨ys, hys, hblock, _⟩
    rw [hs.eq_of_elements hb hblock hxs, hs.values_added]
    simp [ArrayValues.step, elements?_values, hys]
  | notCopied b =>
    rcases Live.exists_object hop with ⟨array, hb⟩
    rcases hs.contents?_eq hi hb with ⟨ys, hys, _⟩
    simp [ArrayValues.step, elements?_values, hys]
  | assigned a b arrayA arrayB old xs garbage ha hb hold hself hxs =>
    rcases hs.contents?_eq hi ha with ⟨ysA, hysA, _⟩
    rcases hs.contents?_eq hi hb with ⟨ys, hys, hblock, hsize⟩
    rw [hs.values_reassigned ha hold]
    simp only [ArrayValues.step, elements?_values, hysA, hys]
    split
    . next heq => rw [hself heq, hsize]
    . next hne => rw [hs.eq_of_elements hb hblock (hxs hne)]
  | broken a b arrayA arrayB old ha hb hold => exact absurd hop.right.right (by simp)
  | destroyed a array old ha hold =>
    rcases hs.contents?_eq hi ha with ⟨ys, hys, _⟩
    rw [hs.values_destroyed ha hold]
    simp [ArrayValues.step, elements?_values, hys]

theorem Applies.proper (hop : s.Applies op) (hblock : GetsBlock op) : s.Proper op := by
  cases op with
  | construct size allocation => trivial
  | copyConstruct b allocation => exact hop
  | assign a b allocation => exact ⟨hop.left, hop.right, hblock⟩
  | destroy a => exact hop

theorem Tidy.values_of_step (hs : s.Tidy) (hi : s.Intact) (hblock : GetsBlock op)
    : (step s op).map values = ArrayValues.step s.values op := by
  by_cases hop : s.Applies op
  . have hproper := hop.proper hblock
    rcases hs.exists_step hi hproper with ⟨t, ht⟩
    rw [ht, hs.values_of_effect hi hproper (hs.effect hop ht), Option.map_some]
  . have ⟨hstep, hvalues⟩ := step_of_not_applies hop
    rw [hstep, hvalues, Option.map_none]

/--
A program that uses the class cannot tell it from lists of integers, of which an assignment to itself
leaves what the new block contains: it gets stuck in the same places and ends with the same elements,
as long as its assignments get their blocks.
-/
theorem values_of_run (ops : List ArrayOp) (hblocks : ∀ op, op ∈ ops → GetsBlock op)
    : (run step empty ops).map values = run ArrayValues.step [] ops := by
  have hempty : empty.Tidy ∧ empty.Intact := by
    refine ⟨tidy_empty, ?_⟩
    intro a ha
    simp [Live, empty, object?] at ha
  have hstep : ∀ {s : Arrays} {op : ArrayOp}, s.Tidy ∧ s.Intact → GetsBlock op →
      (step s op).map values = ArrayValues.step s.values op := by
    intro s op hs hblock
    exact hs.left.values_of_step hs.right hblock
  have hkeep : ∀ {s : Arrays} {op : ArrayOp} {t : Arrays}, s.Tidy ∧ s.Intact → GetsBlock op →
      step s op = some t → t.Tidy ∧ t.Intact := by
    intro s op t hs hblock hstep
    by_cases hop : s.Applies op
    . have heffect := hs.left.effect hop hstep
      exact ⟨hs.left.of_effect heffect, hs.right.of_effect hs.left (hop.proper hblock) heffect⟩
    . rw [(step_of_not_applies hop).left] at hstep
      simp at hstep
  apply run_map hstep hkeep hempty hblocks

theorem values_of_run_getArr
    : (run step empty (getArr 0 (fun _ => 7) ++ [.assign 2 2 (some fun _ => 8)])).map values =
        some [none, none, some [8, 8, 8, 8, 8]] := by
  rw [values_of_run]
  . decide +kernel
  . simp [getArr, GetsBlock]

end Arrays
