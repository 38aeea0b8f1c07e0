import NetDemo.Array.Ownership

/-!
This module contains what `Array` means as a value: what an assignment or a copy makes of the sizes
and the elements of all arrays, and when that is what value semantics asks for.
-/

namespace Arrays

open ExceptState Transition

-- The elements that `data_` and `size_` give access to, `none` if they are gone.
def elements? (s : Arrays) (array : IntArray) : Option (List Int32) :=
  if array.size = 0 then some [] else s.heap.contents array.data

-- `size_` and the elements.
def value (s : Arrays) (a : Nat) : Option (Nat × Option (List Int32)) :=
  (s.object? a).map fun array => (array.size, s.elements? array)

variable {s t : Arrays} {op : ArrayOp} {a b k : Nat} {array : IntArray} {xs : List Int32}

theorem Elements.elements? (h : s.Elements array xs) : s.elements? array = some xs := by
  unfold Arrays.elements?
  split
  . next hzero =>
    have hnil : xs = [] := by
      apply List.eq_nil_of_length_eq_zero
      exact h.left.trans hzero
    rw [hnil]
  . next hne =>
    apply h.right.resolve_left
    intro hnil
    apply hne
    rw [← h.left, hnil]
    rfl

theorem value_eq_some (ha : s.object? a = some array) (hxs : s.Elements array xs)
    : s.value a = some (xs.length, some xs) := by
  unfold value
  rw [ha, Option.map_some, hxs.elements?, hxs.left]

theorem live_of_value {v : Nat × Option (List Int32)} (h : s.value a = some v) : s.Live a := by
  unfold value at h
  cases ha : s.object? a with
  | none => simp [ha] at h
  | some array => exact live_of_object? ha

theorem value_congr (hobject : t.object? a = s.object? a)
    (hcontents : ∀ array, s.object? a = some array →
      t.heap.contents array.data = s.heap.contents array.data)
    : t.value a = s.value a := by
  unfold value elements?
  rw [hobject]
  cases ha : s.object? a with
  | none => rfl
  | some array => rw [Option.map_some, Option.map_some, hcontents array ha]

theorem Tidy.value_of_effect (hs : s.Tidy) (h : Effect s op t) (hk : s.Live k)
    (hne : op.target? ≠ some k)
    : t.value k = s.value k := by
  rcases hk.exists_object with ⟨array, hk⟩
  have hframe := hs.frame h hk hne
  apply value_congr
  . rw [hframe.left, hk]
  . intro array' hk'
    rw [hk, Option.some.injEq] at hk'
    rw [← hk']
    exact hframe.right

theorem value_added (s : Arrays) (xs : List Int32)
    : (s.added xs).value s.objects.length = some (xs.length, some xs) := by
  apply value_eq_some (object?_added_self xs)
  refine ⟨rfl, .inr ?_⟩
  apply BlockHeap.contents_alloc_self

theorem value_reassigned {old : List Int32} (ha : s.object? a = some array)
    (hold : s.heap.contents array.data = some old) (xs : List Int32)
    : (s.reassigned a array.data xs).value a = some (xs.length, some xs) := by
  apply value_eq_some (object?_reassigned_self ha _ xs)
  refine ⟨rfl, .inr ?_⟩
  apply contents_reassigned_self hold

/--
`a = b` gives `a` the value that `b` had, whatever is in the fresh block, and no other array another
value.
-/
def AssignsValue (s : Arrays) (a b : Nat) : Prop :=
  ∀ garbage, ∃ t, step s (.assign a b (some garbage)) = some t ∧ t.value a = s.value b ∧
    ∀ k, s.Live k → k ≠ a → t.value k = s.value k

-- Operations on other objects. They may read the two.
def Spares (b new : Nat) (s : Arrays) (op : ArrayOp) : Prop :=
  s.Applies op ∧ op.target? ≠ some b ∧ op.target? ≠ some new

/--
The copy has the value of its source, and both keep it until one of them is assigned to or destroyed.
-/
def CopiesValue (s : Arrays) (b : Nat) : Prop :=
  ∀ garbage, ∃ t, step s (.copyConstruct b (some garbage)) = some t ∧
    ∀ ops u, Meets step (Spares b s.objects.length) t ops → run step t ops = some u →
      u.value s.objects.length = s.value b ∧ u.value b = s.value b

def ValueSemantics (s : Arrays) (a b : Nat) : Prop :=
  s.AssignsValue a b ∧ s.CopiesValue b

theorem size_of_value (ha : s.object? a = some array) {n : Nat} {ys : Option (List Int32)}
    (h : s.value a = some (n, ys))
    : array.size = n := by
  unfold value at h
  rw [ha, Option.map_some, Option.some.injEq, Prod.mk.injEq] at h
  exact h.left

theorem Tidy.assignsValue (hs : s.Tidy) (ha : s.HasBlock a) (hb : s.Readable b)
    (hself : a = b → s.value b = some (0, some []))
    : s.AssignsValue a b := by
  intro garbage
  rcases hs.exists_assign ha hb garbage with ⟨t, ht⟩
  have hop : s.Applies (.assign a b (some garbage)) := ⟨ha.live, hb.live⟩
  have heffect := hs.effect hop ht
  refine ⟨t, ht, ?_, ?_⟩
  . cases heffect with
    | assigned _ _ arrayA arrayB old xs _ ha hb hold hfresh hxs =>
      rw [value_reassigned ha hold]
      by_cases heq : a = b
      . have hsize := size_of_value hb (hself heq)
        rw [hself heq, hfresh heq, hsize]
        rfl
      . exact (value_eq_some hb (hxs heq)).symm
  . intro k hk hne
    apply hs.value_of_effect heffect hk
    simp only [ArrayOp.target?, ne_eq, Option.some.injEq]
    omega

theorem Readable.value (hb : s.Readable b) : (s.value b).isSome := by
  rcases hb with ⟨array, xs, hb, hxs⟩
  rw [value_eq_some hb hxs]
  rfl

theorem Spares.keeps {new : Nat} {v : Nat × Option (List Int32)} (hop : Spares b new s op)
    (hinv : s.Tidy ∧ s.value new = some v ∧ s.value b = some v) (hstep : step s op = some t)
    : t.Tidy ∧ t.value new = some v ∧ t.value b = some v := by
  rcases hinv with ⟨hs, hnew, hb⟩
  rcases hop with ⟨happlies, hneb, hnenew⟩
  have heffect := hs.effect happlies hstep
  refine ⟨hs.of_effect heffect, ?_, ?_⟩
  . rw [hs.value_of_effect heffect (live_of_value hnew) hnenew]
    exact hnew
  . rw [hs.value_of_effect heffect (live_of_value hb) hneb]
    exact hb

theorem Tidy.copiesValue (hs : s.Tidy) (hb : s.Readable b) : s.CopiesValue b := by
  intro garbage
  rcases hs.exists_copyConstruct hb garbage with ⟨t, ht⟩
  have hop : s.Applies (.copyConstruct b (some garbage)) := hb.live
  have heffect := hs.effect hop ht
  have hcopied : t.value s.objects.length = s.value b := by
    cases heffect with
    | copied _ array xs _ hb hxs =>
      rw [value_added]
      exact (value_eq_some hb hxs).symm
  have hsource : t.value b = s.value b := by
    apply hs.value_of_effect heffect hb.live
    simp [ArrayOp.target?]
  rcases Option.isSome_iff_exists.mp hb.value with ⟨v, hv⟩
  refine ⟨t, ht, ?_⟩
  intro ops u hops hrun
  have hu : u.Tidy ∧ u.value s.objects.length = some v ∧ u.value b = some v := by
    apply inv_of_run (fun hinv hop hstep => Spares.keeps hop hinv hstep) _ hops hrun
    refine ⟨hs.of_effect heffect, ?_, ?_⟩
    . rw [hcopied, hv]
    . rw [hsource, hv]
  rw [hv]
  exact hu.right

theorem AssignsValue.hasBlock (hs : s.Tidy) (ha : s.Live a) (hb : s.Live b)
    (h : s.AssignsValue a b)
    : s.HasBlock a := by
  rcases h (fun _ => 0) with ⟨t, ht, _⟩
  have hop : s.Applies (.assign a b (some fun _ => 0)) := ⟨ha, hb⟩
  have heffect := hs.effect hop ht
  cases heffect with
  | assigned _ _ arrayA arrayB old xs _ ha hb hold hfresh hxs => exact ⟨arrayA, old, ha, hold⟩

theorem CopiesValue.readable (hs : s.Tidy) (hb : s.Live b) (h : s.CopiesValue b)
    : s.Readable b := by
  rcases h (fun _ => 0) with ⟨t, ht, _⟩
  have hop : s.Applies (.copyConstruct b (some fun _ => 0)) := hb
  have heffect := hs.effect hop ht
  cases heffect with
  | copied _ array xs _ hb hxs => exact ⟨array, xs, hb, hxs⟩

-- Assigned to itself, an array takes over what is in the fresh block, which may be anything.
theorem AssignsValue.empty_of_self (hs : s.Tidy) (ha : s.HasBlock a) (h : s.AssignsValue a a)
    : s.value a = some (0, some []) := by
  rcases ha with ⟨array, old, ha, hold⟩
  have hlength := hs.sized a array old ha hold
  have hvalue := value_eq_some ha ⟨hlength, .inr hold⟩
  cases old with
  | nil => exact hvalue
  | cons x xs =>
    let other : Int32 := if x = 0 then 1 else 0
    have hother : x ≠ other := by
      unfold other
      split
      . next hzero =>
        rw [hzero]
        decide
      . assumption
    rcases h (fun _ => other) with ⟨t, ht, hassigned, _⟩
    simp only [step, perform, exec_assign_self ha hold, Option.some.injEq] at ht
    rw [← ht, value_reassigned ha hold, hvalue] at hassigned
    simp only [Option.some.injEq, Prod.mk.injEq] at hassigned
    have hx : x ∈ (List.range array.size).map fun _ => other := by
      rw [hassigned.right]
      apply List.mem_cons_self
    rcases List.mem_map.mp hx with ⟨i, _, heq⟩
    exact absurd heq.symm hother

/--
An assignment and a copy of `b` do what value semantics asks for just when the array is not assigned
to itself, unless it is empty. Apart from that `a` must still have its block, and `b` the block that
its elements are in: an earlier assignment that got no block may have lost it.
-/
theorem value_semantics_iff {ops : List ArrayOp} {s : Arrays} (hops : Meets step Applies empty ops)
    (hrun : run step empty ops = some s) {a b : Nat} (ha : s.Live a) (hb : s.Live b)
    : s.ValueSemantics a b ↔
        s.HasBlock a ∧ s.Readable b ∧ (a = b → s.value b = some (0, some [])) := by
  have hs := tidy_of_run tidy_empty hops hrun
  constructor
  . intro h
    have hblock := h.left.hasBlock hs ha hb
    refine ⟨hblock, h.right.readable hs hb, ?_⟩
    intro heq
    subst heq
    exact h.left.empty_of_self hs hblock
  . intro h
    constructor
    . exact hs.assignsValue h.left h.right.left h.right.right
    . exact hs.copiesValue h.right.left

theorem value_semantics_of_two
    : ∃ s, run step empty [.construct 2 (some fun _ => 5), .construct 3 (some fun _ => 6)] = some s ∧
        s.ValueSemantics 1 0 := by
  let s : Arrays := (empty.added [5, 5]).added [6, 6, 6]
  have hrun : run step empty [.construct 2 (some fun _ => 5), .construct 3 (some fun _ => 6)] =
      some s := by
    decide +kernel
  refine ⟨s, hrun, ?_⟩
  rw [value_semantics_iff (by decide +kernel) hrun (by decide) (by decide)]
  refine ⟨⟨⟨1, 3⟩, [6, 6, 6], by decide, by decide⟩, ⟨⟨0, 2⟩, [5, 5], by decide, ?_⟩, by simp⟩
  exact ⟨by decide, .inr (by decide)⟩

-- An array of one element that is assigned to itself.
theorem not_value_semantics_of_self
    : ∃ s, run step empty [.construct 1 (some fun _ => 5)] = some s ∧ s.Live 0 ∧
        ¬ s.ValueSemantics 0 0 := by
  refine ⟨empty.added [5], by decide, by decide, ?_⟩
  intro h
  rcases h.left (fun _ => 7) with ⟨t, ht, hvalue, _⟩
  have hstep : step (empty.added [5]) (.assign 0 0 (some fun _ => 7)) =
      some ((empty.added [5]).reassigned 0 0 [7]) := by
    decide +kernel
  rw [hstep, Option.some.injEq] at ht
  rw [← ht] at hvalue
  exact absurd hvalue (by decide)

end Arrays
