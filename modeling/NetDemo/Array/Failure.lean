import NetDemo.Array.Value

/-!
This module contains what is left of the arrays after an assignment whose `new` throws.
-/

namespace Arrays

open ExceptState Transition

-- `size_`, `data_` and the elements of every object.
def Unchanged (s t : Arrays) : Prop :=
  ∀ k, t.object? k = s.object? k ∧ t.value k = s.value k

-- Not even if every later assignment gets its block.
def NeverFaults (s : Arrays) : Prop :=
  ∀ ops, Meets step Proper s ops → ∃ t, run step s ops = some t

/--
The assignment throws, nothing has changed, and whatever follows, no block is released twice and none
is read after its release.
-/
def SurvivesFailure (s : Arrays) (a b : Nat) : Prop :=
  ∃ t, step s (.assign a b none) = some t ∧ Unchanged s t ∧ t.NeverFaults

variable {s t : Arrays} {a b : Nat} {array : IntArray}

theorem value_of_size_eq_zero (ha : s.object? a = some array) (hsize : array.size = 0)
    : s.value a = some (0, some []) := by
  have hxs : s.Elements array [] := ⟨hsize.symm, .inl rfl⟩
  exact value_eq_some ha hxs

theorem value_of_released (ha : s.object? a = some array)
    (hgone : s.heap.contents array.data = none) (hsize : array.size ≠ 0)
    : s.value a = some (array.size, none) := by
  unfold value elements?
  rw [ha, Option.map_some, if_neg hsize, hgone]

section HalfAssigned

variable {arrayA arrayB : IntArray} {old : List Int32}

theorem contents_halfAssigned (hold : s.heap.contents arrayA.data = some old) (a size : Nat)
    : (s.halfAssigned a arrayA.data size).heap.contents arrayA.data = none := by
  apply BlockHeap.contents_release_self hold

-- The destructor releases the block that `operator=` has released already.
theorem exec_destroy_halfAssigned (ha : s.object? a = some arrayA)
    (hold : s.heap.contents arrayA.data = some old) (size : Nat)
    : (exec (destroy a) (s.halfAssigned a arrayA.data size)).1 = .error .doubleFree := by
  have hobject := object?_halfAssigned_self ha arrayA.data size
  rw [exec_destroy_of_released hobject (contents_halfAssigned hold a size)]

theorem Tidy.unchanged_halfAssigned_iff (hs : s.Tidy) (ha : s.object? a = some arrayA)
    (hb : s.object? b = some arrayB) (hold : s.heap.contents arrayA.data = some old)
    : Unchanged s (s.halfAssigned a arrayA.data arrayB.size) ↔
        arrayA.size = 0 ∧ arrayB.size = 0 := by
  have hself := object?_halfAssigned_self ha arrayA.data arrayB.size
  have hgone := contents_halfAssigned hold a arrayB.size
  constructor
  . intro h
    have hobject := (h a).left
    have hvalue := (h a).right
    rw [hself, ha, Option.some.injEq] at hobject
    have hsize : arrayB.size = arrayA.size := by rw [← hobject]
    have hvalueA := value_eq_some ha ⟨hs.sized a arrayA old ha hold, .inr hold⟩
    have hzero : arrayB.size = 0 := by
      by_contra hne
      rw [value_of_released hself hgone hne, hvalueA] at hvalue
      simp at hvalue
    omega
  . intro h k
    have heffect := Effect.broken a b arrayA arrayB old ha hb hold
    have hobject := object?_halfAssigned ha arrayA.data arrayB.size k
    by_cases hka : k = a
    . subst hka
      rw [hself, ha, value_of_size_eq_zero hself h.right, value_of_size_eq_zero ha h.left,
        h.right, ← h.left]
      exact ⟨rfl, rfl⟩
    . rw [if_neg hka] at hobject
      refine ⟨hobject, value_congr hobject ?_⟩
      intro array hk
      have htarget : (ArrayOp.assign a b none).target? ≠ some k := by
        simp only [ArrayOp.target?, ne_eq, Option.some.injEq]
        omega
      exact (hs.frame heffect hk htarget).right

end HalfAssigned

theorem not_neverFaults_of_destroy (ha : t.Live a)
    (hfault : (exec (destroy a) t).1 = .error .doubleFree)
    : ¬ t.NeverFaults := by
  intro h
  rcases h [.destroy a] (meets_singleton.mpr ha) with ⟨u, hu⟩
  rcases (run_cons_eq_some _ _ _ _).mp hu with ⟨v, hv, _⟩
  rw [step_eq_none (.destroy a) hfault (by simp)] at hv
  simp at hv

/--
No assignment survives that its `new` throws: the destructor of `a` releases the block of `a` once
more. Nothing has changed before that only if there were no elements to lose.
-/
theorem failure_never_survived {ops : List ArrayOp} {s : Arrays}
    (hops : Meets step Applies empty ops) (hrun : run step empty ops = some s) {a b : Nat}
    (ha : s.Live a) (hb : s.Live b)
    : ¬ s.SurvivesFailure a b ∧
        ∀ t, step s (.assign a b none) = some t →
          (exec (destroy a) t).1 = .error .doubleFree ∧
            (Unchanged s t ↔ s.value a = some (0, some []) ∧ s.value b = some (0, some [])) := by
  have hs := tidy_of_run tidy_empty hops hrun
  have hbroken : ∀ t, step s (.assign a b none) = some t → t.Live a ∧
      (exec (destroy a) t).1 = .error .doubleFree ∧
        (Unchanged s t ↔ s.value a = some (0, some []) ∧ s.value b = some (0, some [])) := by
    intro t ht
    have hop : s.Applies (.assign a b none) := ⟨ha, hb⟩
    have heffect := hs.effect hop ht
    cases heffect with
    | broken _ _ arrayA arrayB old ha hb hold =>
      have hlive : (s.halfAssigned a arrayA.data arrayB.size).Live a := by
        apply live_of_object?
        exact object?_halfAssigned_self ha arrayA.data arrayB.size
      refine ⟨hlive, exec_destroy_halfAssigned ha hold arrayB.size, ?_⟩
      rw [hs.unchanged_halfAssigned_iff ha hb hold]
      constructor
      . intro h
        exact ⟨value_of_size_eq_zero ha h.left, value_of_size_eq_zero hb h.right⟩
      . intro h
        exact ⟨size_of_value ha h.left, size_of_value hb h.right⟩
  constructor
  . intro h
    rcases h with ⟨t, ht, _, hsafe⟩
    rcases hbroken t ht with ⟨hlive, hfault, _⟩
    exact not_neverFaults_of_destroy hlive hfault hsafe
  . intro t ht
    exact (hbroken t ht).right

theorem failure_never_survived_of_two
    : ∃ s, run step empty [.construct 1 (some fun _ => 5), .construct 2 (some fun _ => 6)] = some s ∧
        ¬ s.SurvivesFailure 0 1 ∧
          ∀ t, step s (.assign 0 1 none) = some t →
            (exec (destroy 0) t).1 = .error .doubleFree ∧
              (Unchanged s t ↔ s.value 0 = some (0, some []) ∧ s.value 1 = some (0, some [])) := by
  let s : Arrays := (empty.added [5]).added [6, 6]
  have hrun : run step empty [.construct 1 (some fun _ => 5), .construct 2 (some fun _ => 6)] =
      some s := by
    decide +kernel
  refine ⟨s, hrun, ?_⟩
  apply failure_never_survived (by decide +kernel) hrun
  . decide
  . decide

-- `new` throws in `a = b`, then `a` is destroyed.
theorem not_survivesFailure_of_destroy
    : ∃ s, run step empty [.construct 1 (some fun _ => 5), .construct 2 (some fun _ => 6)] = some s ∧
        s.Live 0 ∧ s.Live 1 ∧ ¬ s.SurvivesFailure 0 1 := by
  let s : Arrays := (empty.added [5]).added [6, 6]
  refine ⟨s, by decide +kernel, by decide, by decide, ?_⟩
  intro h
  rcases h with ⟨t, ht, _, hsafe⟩
  have hstep : step s (.assign 0 1 none) = some (s.halfAssigned 0 0 2) := by
    decide +kernel
  rw [hstep, Option.some.injEq] at ht
  subst ht
  rcases hsafe [.destroy 0] (by decide +kernel) with ⟨u, hu⟩
  have hfault : run step (s.halfAssigned 0 0 2) [.destroy 0] = none := by
    decide +kernel
  rw [hfault] at hu
  simp at hu

end Arrays
