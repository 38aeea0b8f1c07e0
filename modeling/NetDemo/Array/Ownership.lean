import NetDemo.Array.Lemmas
import NetDemo.Lib.Transition

/-!
This module contains who owns which block: what every run keeps, also one in which allocations fail,
and what is true in addition if assignments get their blocks.
-/

namespace Arrays

open ExceptState Transition

/--
Every object knows a block of its own, which may be gone, and every block belongs to an object.
-/
structure Tidy (s : Arrays) : Prop where
  known : ∀ a array, s.object? a = some array → array.data < s.heap.blocks.length
  sized : ∀ a array xs, s.object? a = some array → s.heap.contents array.data = some xs →
    xs.length = array.size
  unique : ∀ a b arrayA arrayB, s.object? a = some arrayA → s.object? b = some arrayB →
    arrayA.data = arrayB.data → a = b
  owner : ∀ d xs, s.heap.contents d = some xs →
    ∃ a array, s.object? a = some array ∧ array.data = d
  freedOnce : s.heap.FreedOnce

/--
Every object owns a live block of just its size, no two objects share one, every live block belongs
to an object, and no block was released twice.
-/
structure Owned (s : Arrays) : Prop where
  block : ∀ a array, s.object? a = some array →
    ∃ xs, s.heap.contents array.data = some xs ∧ xs.length = array.size
  unique : ∀ a b arrayA arrayB, s.object? a = some arrayA → s.object? b = some arrayB →
    arrayA.data = arrayB.data → a = b
  owner : ∀ d xs, s.heap.contents d = some xs →
    ∃ a array, s.object? a = some array ∧ array.data = d
  freedOnce : s.heap.FreedOnce

-- The object lives, and its block does too.
def HasBlock (s : Arrays) (a : Nat) : Prop :=
  ∃ array xs, s.object? a = some array ∧ s.heap.contents array.data = some xs

-- The object can be copied.
def Readable (s : Arrays) (b : Nat) : Prop :=
  ∃ array xs, s.object? b = some array ∧ s.Elements array xs

/--
What an operation that ends, or throws `bad_alloc`, makes of a tidy state.
-/
inductive Effect (s : Arrays) : ArrayOp → Arrays → Prop
  | constructed (size : Nat) (garbage : Nat → Int32)
      : Effect s (.construct size (some garbage)) (s.added ((List.range size).map garbage))
  | notConstructed (size : Nat) : Effect s (.construct size none) s
  | copied (b : Nat) (array : IntArray) (xs : List Int32) (garbage : Nat → Int32)
      (hb : s.object? b = some array) (hxs : s.Elements array xs)
      : Effect s (.copyConstruct b (some garbage)) (s.added xs)
  | notCopied (b : Nat) : Effect s (.copyConstruct b none) s
  | assigned (a b : Nat) (arrayA arrayB : IntArray) (old xs : List Int32) (garbage : Nat → Int32)
      (ha : s.object? a = some arrayA) (hb : s.object? b = some arrayB)
      (hold : s.heap.contents arrayA.data = some old)
      (hself : a = b → xs = (List.range arrayB.size).map garbage)
      (hxs : a ≠ b → s.Elements arrayB xs)
      : Effect s (.assign a b (some garbage)) (s.reassigned a arrayA.data xs)
  | broken (a b : Nat) (arrayA arrayB : IntArray) (old : List Int32)
      (ha : s.object? a = some arrayA) (hb : s.object? b = some arrayB)
      (hold : s.heap.contents arrayA.data = some old)
      : Effect s (.assign a b none) (s.halfAssigned a arrayA.data arrayB.size)
  | destroyed (a : Nat) (array : IntArray) (old : List Int32) (ha : s.object? a = some array)
      (hold : s.heap.contents array.data = some old)
      : Effect s (.destroy a) (s.destroyed a array.data)

-- The objects that an operation is applied to exist.
def Applies (s : Arrays) (op : ArrayOp) : Prop :=
  match op with
  | .construct _ _ => True
  | .copyConstruct tempArray _ => s.Live tempArray
  | .assign this tempArray _ => s.Live this ∧ s.Live tempArray
  | .destroy this => s.Live this

instance (s : Arrays) (op : ArrayOp) : Decidable (s.Applies op) :=
  match op with
  | .construct _ _ => isTrue trivial
  | .copyConstruct _ _ => inferInstanceAs (Decidable (_ = true))
  | .assign _ _ _ => inferInstanceAs (Decidable (_ ∧ _))
  | .destroy _ => inferInstanceAs (Decidable (_ = true))

variable {s t : Arrays} {op : ArrayOp}

theorem live_of_object? {a : Nat} {array : IntArray} (ha : s.object? a = some array)
    : s.Live a := by
  unfold Live
  rw [ha]
  rfl

theorem Live.exists_object {a : Nat} (ha : s.Live a) : ∃ array, s.object? a = some array := by
  exact Option.isSome_iff_exists.mp ha

theorem step_eq_none (op : ArrayOp) {fault : HeapFault} (h : (exec (perform op) s).1 = .error fault)
    (hfault : fault ≠ .badAlloc)
    : step s op = none := by
  unfold step
  split
  . next heq => simp [heq] at h
  . next heq =>
    simp only [heq, Except.error.injEq] at h
    exact absurd h.symm hfault
  . rfl

theorem Tidy.elements_or_released (hs : s.Tidy) {b : Nat} {array : IntArray}
    (hb : s.object? b = some array)
    : (∃ xs, s.Elements array xs) ∨ s.heap.contents array.data = none ∧ 0 < array.size := by
  cases hsrc : s.heap.contents array.data with
  | some xs => exact .inl ⟨xs, hs.sized b array xs hb hsrc, .inr hsrc⟩
  | none =>
    cases Nat.eq_zero_or_pos array.size with
    | inl hzero => exact .inl ⟨[], hzero.symm, .inl rfl⟩
    | inr hpos => exact .inr ⟨rfl, hpos⟩

theorem Tidy.data_ne (hs : s.Tidy) {a b : Nat} {arrayA arrayB : IntArray}
    (ha : s.object? a = some arrayA) (hb : s.object? b = some arrayB) (hne : a ≠ b)
    : arrayA.data ≠ arrayB.data := by
  intro hdata
  exact hne (hs.unique a b arrayA arrayB ha hb hdata)

theorem Tidy.effect_copyConstruct (hs : s.Tidy) {b : Nat} {array : IntArray}
    {allocation : Allocation} (hb : s.object? b = some array)
    (hstep : step s (.copyConstruct b allocation) = some t)
    : Effect s (.copyConstruct b allocation) t := by
  have hknown := hs.known b array hb
  cases allocation with
  | none =>
    simp only [step, perform, exec_copyConstruct_none hb, Option.some.injEq] at hstep
    exact hstep ▸ .notCopied b
  | some garbage =>
    cases hs.elements_or_released hb with
    | inl h =>
      rcases h with ⟨xs, hxs⟩
      simp only [step, perform, exec_copyConstruct hb hknown hxs, Option.some.injEq] at hstep
      exact hstep ▸ .copied b array xs garbage hb hxs
    | inr h =>
      have hfault := exec_copyConstruct_of_released hb hknown h.left h.right garbage
      rw [step_eq_none (.copyConstruct b (some garbage)) hfault (by simp)] at hstep
      simp at hstep

section Assign

variable {a b : Nat} {arrayA arrayB : IntArray} {old : List Int32}

theorem Tidy.effect_assign_other (hs : s.Tidy) (ha : s.object? a = some arrayA)
    (hb : s.object? b = some arrayB) (hold : s.heap.contents arrayA.data = some old) (hne : a ≠ b)
    {garbage : Nat → Int32} (hstep : step s (.assign a b (some garbage)) = some t)
    : Effect s (.assign a b (some garbage)) t := by
  have hknown := hs.known b arrayB hb
  have hdata := hs.data_ne ha hb hne
  cases hs.elements_or_released hb with
  | inl h =>
    rcases h with ⟨xs, hxs⟩
    have hexec := exec_assign_other ha hb hold hne hdata hknown hxs garbage
    simp only [step, perform, hexec, Option.some.injEq] at hstep
    subst hstep
    apply Effect.assigned a b arrayA arrayB old xs garbage ha hb hold
    . intro heq
      exact absurd heq hne
    . intro _
      exact hxs
  | inr h =>
    have hfault := exec_assign_other_of_released ha hb hold hne hdata hknown h.left h.right garbage
    rw [step_eq_none (.assign a b (some garbage)) hfault (by simp)] at hstep
    simp at hstep

theorem Tidy.effect_assign (hs : s.Tidy) {allocation : Allocation} (ha : s.object? a = some arrayA)
    (hb : s.object? b = some arrayB) (hstep : step s (.assign a b allocation) = some t)
    : Effect s (.assign a b allocation) t := by
  cases hold : s.heap.contents arrayA.data with
  | none => simp [step, perform, exec_assign_of_released ha hold] at hstep
  | some old =>
    cases allocation with
    | none =>
      simp only [step, perform, exec_assign_none ha hb hold, Option.some.injEq] at hstep
      exact hstep ▸ .broken a b arrayA arrayB old ha hb hold
    | some garbage =>
      by_cases heq : a = b
      . subst heq
        simp only [step, perform, exec_assign_self ha hold, Option.some.injEq] at hstep
        subst hstep
        apply Effect.assigned a a arrayA arrayA old _ garbage ha ha hold
        . intro _
          rfl
        . intro hne
          exact absurd rfl hne
      . exact hs.effect_assign_other ha hb hold heq hstep

end Assign

theorem Tidy.effect (hs : s.Tidy) (hop : s.Applies op) (hstep : step s op = some t)
    : Effect s op t := by
  cases op with
  | construct size allocation =>
    cases allocation with
    | some garbage =>
      simp only [step, perform, exec_construct, Option.some.injEq] at hstep
      exact hstep ▸ .constructed size garbage
    | none =>
      simp only [step, perform, exec_construct_none, Option.some.injEq] at hstep
      exact hstep ▸ .notConstructed size
  | copyConstruct b allocation =>
    rcases Live.exists_object hop with ⟨array, hb⟩
    exact hs.effect_copyConstruct hb hstep
  | assign a b allocation =>
    rcases hop.left.exists_object with ⟨arrayA, ha⟩
    rcases hop.right.exists_object with ⟨arrayB, hb⟩
    exact hs.effect_assign ha hb hstep
  | destroy a =>
    rcases Live.exists_object hop with ⟨array, ha⟩
    cases hold : s.heap.contents array.data with
    | some old =>
      simp only [step, perform, exec_destroy ha hold, Option.some.injEq] at hstep
      exact hstep ▸ .destroyed a array old ha hold
    | none => simp [step, perform, exec_destroy_of_released ha hold] at hstep

theorem tidy_empty : empty.Tidy where
  known := by simp [empty, object?]
  sized := by simp [empty, object?]
  unique := by simp [empty, object?]
  owner := by simp [empty]
  freedOnce := BlockHeap.freedOnce_empty

section Tidy

variable {a d : Nat} {array : IntArray} {old : List Int32}

theorem Tidy.added (hs : s.Tidy) (xs : List Int32) : (s.added xs).Tidy := by
  have hlength : (s.added xs).heap.blocks.length = s.heap.blocks.length + 1 := by
    apply BlockHeap.length_alloc
  have hcontents : ∀ d, (s.added xs).heap.contents d =
      if d = s.heap.blocks.length then some xs else s.heap.contents d := by
    intro d
    apply BlockHeap.contents_alloc
  constructor
  case known =>
    intro b arrayB hb
    rw [object?_added] at hb
    rw [hlength]
    split at hb
    . simp only [Option.some.injEq] at hb
      rw [← hb]
      dsimp only
      omega
    . have := hs.known b arrayB hb
      omega
  case sized =>
    intro b arrayB ys hb hys
    rw [object?_added] at hb
    rw [hcontents] at hys
    split at hb
    . simp only [Option.some.injEq] at hb
      subst hb
      simp only [if_true, Option.some.injEq] at hys
      rw [hys]
    . have := hs.known b arrayB hb
      rw [if_neg (by omega)] at hys
      exact hs.sized b arrayB ys hb hys
  case unique =>
    intro b c arrayB arrayC hb hc hdata
    rw [object?_added] at hb hc
    split at hb
    . split at hc
      . omega
      . have := hs.known c arrayC hc
        simp only [Option.some.injEq] at hb
        rw [← hb] at hdata
        dsimp only at hdata
        omega
    . have := hs.known b arrayB hb
      split at hc
      . simp only [Option.some.injEq] at hc
        rw [← hc] at hdata
        dsimp only at hdata
        omega
      . exact hs.unique b c arrayB arrayC hb hc hdata
  case owner =>
    intro d ys hys
    rw [hcontents] at hys
    split at hys
    . next heq =>
      refine ⟨s.objects.length, ⟨s.heap.blocks.length, xs.length⟩, ?_, heq.symm⟩
      rw [object?_added, if_pos rfl]
    . rcases hs.owner d ys hys with ⟨b, arrayB, hb, hdata⟩
      refine ⟨b, arrayB, ?_, hdata⟩
      have := lt_length_of_object? hb
      rw [object?_added, if_neg (by omega)]
      exact hb
  case freedOnce => exact hs.freedOnce.alloc xs

/--
An object that gives up its block may keep the reference to it or get a fresh block.
-/
theorem Tidy.replaced (hs : s.Tidy) (ha : s.object? a = some array) (fresh : Option (List Int32))
    (hothers : ∀ k, k ≠ a → t.object? k = s.object? k)
    (hblocks : ∀ d, t.heap.contents d =
      if d = s.heap.blocks.length then fresh
      else if d = array.data then none
      else s.heap.contents d)
    (hlength : s.heap.blocks.length ≤ t.heap.blocks.length)
    (hself : ∀ array', t.object? a = some array' → array'.data = array.data ∨
      array'.data = s.heap.blocks.length ∧ s.heap.blocks.length < t.heap.blocks.length ∧
        ∀ xs, fresh = some xs → xs.length = array'.size)
    (hfresh : ∀ xs, fresh = some xs →
      ∃ array', t.object? a = some array' ∧ array'.data = s.heap.blocks.length)
    (hfreed : t.heap.FreedOnce)
    : t.Tidy := by
  have haknown := hs.known a array ha
  have hapart : ∀ k arrayK, k ≠ a → s.object? k = some arrayK → arrayK.data ≠ array.data := by
    intro k arrayK hne hk
    exact hs.data_ne hk ha hne
  constructor
  case known =>
    intro b arrayB hb
    by_cases hba : b = a
    . subst hba
      rcases hself arrayB hb with hdata | ⟨hdata, hlt, _⟩
      . omega
      . omega
    . rw [hothers b hba] at hb
      have := hs.known b arrayB hb
      omega
  case sized =>
    intro b arrayB xs hb hxs
    rw [hblocks] at hxs
    by_cases hba : b = a
    . subst hba
      rcases hself arrayB hb with hdata | ⟨hdata, _, hsize⟩
      . rw [if_neg (by omega), if_pos hdata] at hxs
        simp at hxs
      . rw [if_pos hdata] at hxs
        exact hsize xs hxs
    . rw [hothers b hba] at hb
      have := hs.known b arrayB hb
      rw [if_neg (by omega), if_neg (hapart b arrayB hba hb)] at hxs
      exact hs.sized b arrayB xs hb hxs
  case unique =>
    intro b c arrayB arrayC hb hc hdata
    have hmixed : ∀ k arrayK array', k ≠ a → t.object? k = some arrayK →
        t.object? a = some array' → arrayK.data ≠ array'.data := by
      intro k arrayK array' hne hk ha'
      rw [hothers k hne] at hk
      have := hs.known k arrayK hk
      have := hapart k arrayK hne hk
      rcases hself array' ha' with hdata | ⟨hdata, _⟩
      . omega
      . omega
    by_cases hba : b = a
    . by_cases hca : c = a
      . rw [hba, hca]
      . rw [hba] at hb
        exact absurd hdata.symm (hmixed c arrayC arrayB hca hc hb)
    . by_cases hca : c = a
      . rw [hca] at hc
        exact absurd hdata (hmixed b arrayB arrayC hba hb hc)
      . rw [hothers b hba] at hb
        rw [hothers c hca] at hc
        exact hs.unique b c arrayB arrayC hb hc hdata
  case owner =>
    intro d xs hxs
    rw [hblocks] at hxs
    split at hxs
    . next heq =>
      rcases hfresh xs hxs with ⟨array', ha', hdata⟩
      exact ⟨a, array', ha', by rw [hdata, heq]⟩
    . split at hxs
      . simp at hxs
      . next hne =>
        rcases hs.owner d xs hxs with ⟨b, arrayB, hb, hdata⟩
        have hba : b ≠ a := by
          intro heq
          rw [heq, ha] at hb
          simp only [Option.some.injEq] at hb
          rw [hb] at hne
          exact hne hdata.symm
        exact ⟨b, arrayB, by rw [hothers b hba]; exact hb, hdata⟩
  case freedOnce => exact hfreed

theorem Tidy.reassigned (hs : s.Tidy) (ha : s.object? a = some array)
    (hold : s.heap.contents array.data = some old) (xs : List Int32)
    : (s.reassigned a array.data xs).Tidy := by
  have hself := object?_reassigned_self ha array.data xs
  have hlength : (s.reassigned a array.data xs).heap.blocks.length = s.heap.blocks.length + 1 := by
    simp [Arrays.reassigned]
  apply hs.replaced ha (some xs)
  . intro k hne
    rw [object?_reassigned ha, if_neg hne]
  . exact contents_reassigned hold a xs
  . omega
  . intro array' ha'
    rw [hself] at ha'
    simp only [Option.some.injEq] at ha'
    subst ha'
    right
    refine ⟨rfl, by omega, ?_⟩
    intro ys hys
    simp only [Option.some.injEq] at hys
    rw [hys]
  . intro ys _
    exact ⟨_, hself, rfl⟩
  . exact (hs.freedOnce.release hold).alloc xs

theorem contents_release_of_own (hold : s.heap.contents array.data = some old) (d : Nat)
    : (s.heap.release array.data).contents d =
        if d = s.heap.blocks.length then none
        else if d = array.data then none
        else s.heap.contents d := by
  rw [BlockHeap.contents_release hold]
  split
  . simp
  . split
    . next heq => exact BlockHeap.contents_eq_none (by omega)
    . rfl

theorem Tidy.destroyed (hs : s.Tidy) (ha : s.object? a = some array)
    (hold : s.heap.contents array.data = some old)
    : (s.destroyed a array.data).Tidy := by
  have hself := (object?_destroyed ha array.data a).trans (if_pos rfl)
  apply hs.replaced ha none
  . intro k hne
    rw [object?_destroyed ha, if_neg hne]
  . exact contents_release_of_own hold
  . exact Nat.le_of_eq (BlockHeap.length_release array.data).symm
  . intro array' ha'
    rw [hself] at ha'
    simp at ha'
  . simp
  . exact hs.freedOnce.release hold

theorem Tidy.halfAssigned (hs : s.Tidy) (ha : s.object? a = some array)
    (hold : s.heap.contents array.data = some old) (size : Nat)
    : (s.halfAssigned a array.data size).Tidy := by
  have hself := object?_halfAssigned_self ha array.data size
  apply hs.replaced ha none
  . intro k hne
    rw [object?_halfAssigned ha, if_neg hne]
  . exact contents_release_of_own hold
  . exact Nat.le_of_eq (BlockHeap.length_release array.data).symm
  . intro array' ha'
    rw [hself] at ha'
    simp only [Option.some.injEq] at ha'
    rw [← ha']
    exact .inl rfl
  . simp
  . exact hs.freedOnce.release hold

theorem Tidy.of_effect (hs : s.Tidy) (h : Effect s op t) : t.Tidy := by
  cases h with
  | constructed size garbage => apply hs.added
  | notConstructed size => exact hs
  | copied b array xs garbage hb hxs => apply hs.added
  | notCopied b => exact hs
  | assigned a b arrayA arrayB old xs garbage ha hb hold hself hxs =>
    exact hs.reassigned ha hold xs
  | broken a b arrayA arrayB old ha hb hold => exact hs.halfAssigned ha hold arrayB.size
  | destroyed a array old ha hold => exact hs.destroyed ha hold

theorem tidy_of_run {s t : Arrays} (hs : s.Tidy) {ops : List ArrayOp}
    (hops : Meets step Applies s ops) (hrun : run step s ops = some t)
    : t.Tidy := by
  apply inv_of_run (c := Applies) _ hs hops hrun
  intro s op t hs hop hstep
  exact hs.of_effect (hs.effect hop hstep)

end Tidy

section Frame

variable {k : Nat} {array : IntArray}

theorem Tidy.frame_added (hs : s.Tidy) (hk : s.object? k = some array) (xs : List Int32)
    : (s.added xs).object? k = some array ∧
        (s.added xs).heap.contents array.data = s.heap.contents array.data := by
  have hlt := lt_length_of_object? hk
  have hknown := hs.known k array hk
  constructor
  . rw [object?_added, if_neg (by omega)]
    exact hk
  . apply (BlockHeap.contents_alloc _ _).trans
    rw [if_neg (by omega)]

/--
An object that is not the target of an operation keeps its members and its block.
-/
theorem Tidy.frame (hs : s.Tidy) (h : Effect s op t) (hk : s.object? k = some array)
    (hne : op.target? ≠ some k)
    : t.object? k = some array ∧ t.heap.contents array.data = s.heap.contents array.data := by
  have hapart : ∀ a arrayA, op.target? = some a → s.object? a = some arrayA →
      k ≠ a ∧ array.data ≠ arrayA.data := by
    intro a arrayA htarget ha
    have hka : k ≠ a := by
      intro heq
      rw [heq] at hne
      exact hne htarget
    exact ⟨hka, hs.data_ne hk ha hka⟩
  have hknown := hs.known k array hk
  cases h with
  | constructed size garbage => exact hs.frame_added hk _
  | notConstructed size => exact ⟨hk, rfl⟩
  | copied b arrayB xs garbage hb hxs => exact hs.frame_added hk xs
  | notCopied b => exact ⟨hk, rfl⟩
  | assigned a b arrayA arrayB old xs garbage ha hb hold hself hxs =>
    rcases hapart a arrayA rfl ha with ⟨hka, hdata⟩
    rw [object?_reassigned ha, if_neg hka, contents_reassigned hold, if_neg (by omega),
      if_neg hdata]
    exact ⟨hk, rfl⟩
  | broken a b arrayA arrayB old ha hb hold =>
    rcases hapart a arrayA rfl ha with ⟨hka, hdata⟩
    rw [object?_halfAssigned ha, if_neg hka]
    refine ⟨hk, (BlockHeap.contents_release hold _).trans ?_⟩
    rw [if_neg hdata]
  | destroyed a arrayA old ha hold =>
    rcases hapart a arrayA rfl ha with ⟨hka, hdata⟩
    rw [object?_destroyed ha, if_neg hka]
    refine ⟨hk, (BlockHeap.contents_release hold _).trans ?_⟩
    rw [if_neg hdata]

theorem HasBlock.of_effect (hs : s.Tidy) (h : Effect s op t) (hk : s.HasBlock k)
    (hne : op.target? ≠ some k)
    : t.HasBlock k := by
  rcases hk with ⟨array, xs, hk, hxs⟩
  rcases hs.frame h hk hne with ⟨hobject, hcontents⟩
  exact ⟨array, xs, hobject, hcontents.trans hxs⟩

end Frame

section Step

variable {a b : Nat}

theorem Readable.live (hb : s.Readable b) : s.Live b := by
  rcases hb with ⟨array, xs, hb, hxs⟩
  exact live_of_object? hb

theorem HasBlock.live (ha : s.HasBlock a) : s.Live a := by
  rcases ha with ⟨array, xs, ha, hxs⟩
  exact live_of_object? ha

theorem HasBlock.readable (hs : s.Tidy) (hb : s.HasBlock b) : s.Readable b := by
  rcases hb with ⟨array, xs, hb, hxs⟩
  exact ⟨array, xs, hb, hs.sized b array xs hb hxs, .inr hxs⟩

theorem Tidy.exists_copyConstruct (hs : s.Tidy) (hb : s.Readable b) (garbage : Nat → Int32)
    : ∃ t, step s (.copyConstruct b (some garbage)) = some t := by
  rcases hb with ⟨array, xs, hb, hxs⟩
  simp [step, perform, exec_copyConstruct hb (hs.known b array hb) hxs]

theorem Tidy.exists_assign (hs : s.Tidy) (ha : s.HasBlock a) (hb : s.Readable b)
    (garbage : Nat → Int32)
    : ∃ t, step s (.assign a b (some garbage)) = some t := by
  rcases ha with ⟨arrayA, old, ha, hold⟩
  rcases hb with ⟨arrayB, xs, hb, hxs⟩
  by_cases heq : a = b
  . subst heq
    simp [step, perform, exec_assign_self ha hold]
  . have hdata := hs.data_ne ha hb heq
    simp [step, perform, exec_assign_other ha hb hold heq hdata (hs.known b arrayB hb) hxs]

theorem HasBlock.exists_destroy (ha : s.HasBlock a) : ∃ t, step s (.destroy a) = some t := by
  rcases ha with ⟨array, xs, ha, hxs⟩
  simp [step, perform, exec_destroy ha hxs]

end Step

def Intact (s : Arrays) : Prop :=
  ∀ a, s.Live a → s.HasBlock a

theorem Tidy.owned (hs : s.Tidy) (hi : s.Intact) : s.Owned where
  block := by
    intro a array ha
    rcases hi a (live_of_object? ha) with ⟨array', xs, ha', hxs⟩
    rw [ha, Option.some.injEq] at ha'
    subst ha'
    exact ⟨xs, hxs, hs.sized a array xs ha hxs⟩
  unique := hs.unique
  owner := hs.owner
  freedOnce := hs.freedOnce

theorem Proper.applies (hop : s.Proper op) : s.Applies op := by
  cases op with
  | construct size allocation => trivial
  | copyConstruct b allocation => exact hop
  | assign a b allocation => exact ⟨hop.left, hop.right.left⟩
  | destroy a => exact hop

-- With its block, every operation that applies comes to its end.
theorem Tidy.exists_step (hs : s.Tidy) (hi : s.Intact) (hop : s.Proper op)
    : ∃ t, step s op = some t := by
  cases op with
  | construct size allocation =>
    cases allocation with
    | some garbage => simp [step, perform, exec_construct]
    | none => simp [step, perform, exec_construct_none]
  | copyConstruct b allocation =>
    cases allocation with
    | some garbage =>
      apply hs.exists_copyConstruct
      exact (hi b hop).readable hs
    | none =>
      rcases Live.exists_object hop with ⟨array, hb⟩
      simp [step, perform, exec_copyConstruct_none hb]
  | assign a b allocation =>
    rcases Option.isSome_iff_exists.mp hop.right.right with ⟨garbage, hgarbage⟩
    subst hgarbage
    apply hs.exists_assign
    . exact hi a hop.left
    . exact (hi b hop.right.left).readable hs
  | destroy a =>
    apply HasBlock.exists_destroy
    exact hi a hop

theorem hasBlock_added (s : Arrays) (xs : List Int32)
    : (s.added xs).HasBlock s.objects.length := by
  refine ⟨_, xs, object?_added_self xs, ?_⟩
  apply BlockHeap.contents_alloc_self

theorem hasBlock_reassigned {a : Nat} {array : IntArray} {old : List Int32}
    (ha : s.object? a = some array) (hold : s.heap.contents array.data = some old)
    (xs : List Int32)
    : (s.reassigned a array.data xs).HasBlock a := by
  refine ⟨_, xs, object?_reassigned_self ha _ xs, ?_⟩
  apply contents_reassigned_self hold

theorem Intact.added (hs : s.Tidy) (hi : s.Intact) (xs : List Int32) : (s.added xs).Intact := by
  intro k hk
  by_cases hnew : k = s.objects.length
  . rw [hnew]
    exact hasBlock_added s xs
  . unfold Live at hk
    rw [object?_added, if_neg hnew] at hk
    rcases hi k hk with ⟨array, ys, hobject, hys⟩
    rcases hs.frame_added hobject xs with ⟨hobject', hcontents⟩
    exact ⟨array, ys, hobject', hcontents.trans hys⟩

-- Only an assignment that gets no block leaves an object without one.
theorem Intact.of_effect (hs : s.Tidy) (hi : s.Intact) (hop : s.Proper op) (h : Effect s op t)
    : t.Intact := by
  have hkept : ∀ k, op.target? ≠ some k → s.Live k → t.HasBlock k := by
    intro k hne hlive
    exact (hi k hlive).of_effect hs h hne
  cases h with
  | constructed size garbage => apply hi.added hs
  | notConstructed size => exact hi
  | copied b array xs garbage hb hxs => apply hi.added hs
  | notCopied b => exact hi
  | assigned a b arrayA arrayB old xs garbage ha hb hold hself hxs =>
    intro k hk
    by_cases hka : k = a
    . rw [hka]
      exact hasBlock_reassigned ha hold xs
    . apply hkept
      . simp only [ArrayOp.target?, ne_eq, Option.some.injEq]
        omega
      . unfold Live at hk
        rw [object?_reassigned ha, if_neg hka] at hk
        exact hk
  | broken a b arrayA arrayB old ha hb hold => exact absurd hop.right.right (by simp)
  | destroyed a array old ha hold =>
    intro k hk
    unfold Live at hk
    rw [object?_destroyed ha] at hk
    by_cases hka : k = a
    . rw [if_pos hka] at hk
      simp at hk
    . rw [if_neg hka] at hk
      apply hkept
      . simp only [ArrayOp.target?, ne_eq, Option.some.injEq]
        omega
      . exact hk

/--
As long as assignments get their blocks, no operation on live arrays goes wrong, and every array
owns a block of its own.
-/
theorem ownership (ops : List ArrayOp) (hops : Meets step Proper empty ops)
    : ∃ s, run step empty ops = some s ∧ s.Owned := by
  have hempty : empty.Tidy ∧ empty.Intact := by
    refine ⟨tidy_empty, ?_⟩
    intro a ha
    simp [Live, empty, object?] at ha
  have hrun : ∃ s, run step empty ops = some s ∧ s.Tidy ∧ s.Intact := by
    apply exists_run (I := fun s => s.Tidy ∧ s.Intact) _ hempty hops
    intro s op hs hop
    rcases hs.left.exists_step hs.right hop with ⟨t, ht⟩
    have heffect := hs.left.effect hop.applies ht
    exact ⟨t, ht, hs.left.of_effect heffect, hs.right.of_effect hs.left hop heffect⟩
  rcases hrun with ⟨s, hrun, hs, hi⟩
  exact ⟨s, hrun, hs.owned hi⟩

theorem ownership_of_getArr
    : ∃ s, run step empty (getArr 0 (fun _ => 7) ++ [.assign 2 2 (some fun _ => 8)]) = some s ∧
        s.Owned := by
  apply ownership
  decide +kernel

end Arrays
