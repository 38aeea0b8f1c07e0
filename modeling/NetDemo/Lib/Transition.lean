import Mathlib.Logic.Relation

/-!
This module contains the vocabulary for runs of a machine that is given by a partial step function:
what a run is, what it means that a condition holds along one, and the invariant and simulation
rules that the machines of the development use.
-/

namespace Transition

variable {σ ε α : Type}

/--
Execute the events in order, `none` as soon as one of them is not enabled.
-/
def run (step : σ → ε → Option σ) (s : σ) (es : List ε) : Option σ :=
  match es with
  | [] => some s
  | e :: es =>
    match step s e with
    | some t => run step t es
    | none => none

/--
Every event meets `c` in the state in which it is up.
-/
def Meets (step : σ → ε → Option σ) (c : σ → ε → Prop) (s : σ) (es : List ε) : Prop :=
  match es with
  | [] => True
  | e :: es =>
    c s e ∧
      match step s e with
      | some t => Meets step c t es
      | none => True

/--
`p` holds in every state that is visited.
-/
def Along (step : σ → ε → Option σ) (p : σ → Prop) (s : σ) (es : List ε) : Prop :=
  match es with
  | [] => p s
  | e :: es =>
    p s ∧
      match step s e with
      | some t => Along step p t es
      | none => True

def peak (step : σ → ε → Option σ) (f : σ → Nat) (s : σ) (es : List ε) : Nat :=
  match es with
  | [] => f s
  | e :: es =>
    match step s e with
    | some t => max (f s) (peak step f t es)
    | none => f s

instance Meets.decidable (step : σ → ε → Option σ) (c : σ → ε → Prop) [∀ s e, Decidable (c s e)]
    : ∀ (s : σ) (es : List ε), Decidable (Meets step c s es)
  | _, [] => isTrue trivial
  | s, e :: es =>
    match h : step s e with
    | some t =>
      have := Meets.decidable step c t es
      decidable_of_iff (c s e ∧ Meets step c t es) (by simp [Meets, h])
    | none => decidable_of_iff (c s e) (by simp [Meets, h])

variable {step : σ → ε → Option σ}

@[simp]
theorem run_nil (s : σ) : run step s [] = some s := by
  rfl

theorem run_cons_eq_some (s u : σ) (e : ε) (es : List ε)
    : run step s (e :: es) = some u ↔ ∃ t, step s e = some t ∧ run step t es = some u := by
  cases h : step s e with
  | none => simp [run, h]
  | some t => simp [run, h]

theorem meets_cons {c : σ → ε → Prop} {s t : σ} {e : ε} {es : List ε} (h : step s e = some t)
    : Meets step c s (e :: es) ↔ c s e ∧ Meets step c t es := by
  simp [Meets, h]

theorem along_cons {p : σ → Prop} {s t : σ} {e : ε} {es : List ε} (h : step s e = some t)
    : Along step p s (e :: es) ↔ p s ∧ Along step p t es := by
  simp [Along, h]

theorem peak_cons {f : σ → Nat} {s t : σ} {e : ε} {es : List ε} (h : step s e = some t)
    : peak step f s (e :: es) = max (f s) (peak step f t es) := by
  simp [peak, h]

theorem Meets.head {c : σ → ε → Prop} {s : σ} {e : ε} {es : List ε} (h : Meets step c s (e :: es))
    : c s e := by
  unfold Meets at h
  exact h.left

theorem meets_singleton {c : σ → ε → Prop} {s : σ} {e : ε} : Meets step c s [e] ↔ c s e := by
  cases h : step s e with
  | none => simp [Meets, h]
  | some t => simp [Meets, h]

theorem Along.head {p : σ → Prop} {s : σ} {es : List ε} (h : Along step p s es) : p s := by
  cases es with
  | nil => exact h
  | cons e es =>
    unfold Along at h
    exact h.left

theorem Along.meets {p : σ → Prop}
    : ∀ {es : List ε} {s : σ}, Along step p s es → Meets step (fun s _ => p s) s es := by
  intro es
  induction es with
  | nil => simp [Meets]
  | cons e es ih =>
    intro s halong
    cases h : step s e with
    | none => simp [Meets, h, halong.head]
    | some t =>
      rw [along_cons h] at halong
      rw [meets_cons h]
      exact ⟨halong.left, ih halong.right⟩

theorem le_peak (f : σ → Nat) (s : σ) (es : List ε) : f s ≤ peak step f s es := by
  cases es with
  | nil => simp [peak]
  | cons e es =>
    cases h : step s e with
    | none => simp [peak, h]
    | some t =>
      rw [peak_cons h]
      omega

theorem Meets.of_forall {c : σ → ε → Prop} (h : ∀ s e, c s e)
    : ∀ (es : List ε) (s : σ), Meets step c s es := by
  intro es
  induction es with
  | nil => simp [Meets]
  | cons e es ih =>
    intro s
    cases hstep : step s e with
    | none => simp [Meets, hstep, h]
    | some t =>
      rw [meets_cons hstep]
      exact ⟨h s e, ih t⟩

theorem Meets.of_forall_mem {c : σ → ε → Prop}
    : ∀ {es : List ε} {s : σ}, (∀ e, e ∈ es → ∀ s, c s e) → Meets step c s es := by
  intro es
  induction es with
  | nil => simp [Meets]
  | cons e es ih =>
    intro s h
    have hhead : c s e := h e List.mem_cons_self s
    cases hstep : step s e with
    | none => simp [Meets, hstep, hhead]
    | some t =>
      rw [meets_cons hstep]
      exact ⟨hhead, ih fun e he => h e (List.mem_cons_of_mem _ he)⟩

theorem meets_concat {c : σ → ε → Prop} {e : ε} {es : List ε}
    : ∀ {s t : σ}, run step s es = some t →
        (Meets step c s (es ++ [e]) ↔ Meets step c s es ∧ c t e) := by
  induction es with
  | nil =>
    intro s t hrun
    simp only [run_nil, Option.some.injEq] at hrun
    simp [Meets, hrun, List.nil_append, meets_singleton]
  | cons e' es ih =>
    intro s t hrun
    obtain ⟨u, hu, hrun⟩ := (run_cons_eq_some _ _ _ _).mp hrun
    rw [List.cons_append, meets_cons hu, meets_cons hu, ih hrun, and_assoc]

theorem Meets.and {c d : σ → ε → Prop}
    : ∀ {es : List ε} {s : σ}, Meets step c s es → Meets step d s es →
        Meets step (fun s e => c s e ∧ d s e) s es := by
  intro es
  induction es with
  | nil => simp [Meets]
  | cons e es ih =>
    intro s hc hd
    have hhead : c s e ∧ d s e := ⟨hc.head, hd.head⟩
    cases h : step s e with
    | none => simp [Meets, h, hhead]
    | some t =>
      rw [meets_cons h] at hc hd ⊢
      exact ⟨hhead, ih hc.right hd.right⟩

/--
The invariant rule: what every event that meets `c` keeps holds at the end of every run whose
events meet `c`.
-/
theorem inv_of_run {c : σ → ε → Prop} {I : σ → Prop}
    (hstep : ∀ {s e t}, I s → c s e → step s e = some t → I t)
    : ∀ {es : List ε} {s t : σ}, I s → Meets step c s es → run step s es = some t → I t := by
  intro es
  induction es with
  | nil =>
    intro s t hs _ hrun
    simp only [run_nil, Option.some.injEq] at hrun
    exact hrun ▸ hs
  | cons e es ih =>
    intro s t hs hmeets hrun
    obtain ⟨u, hu, hrun⟩ := (run_cons_eq_some _ _ _ _).mp hrun
    rw [meets_cons hu] at hmeets
    exact ih (hstep hs hmeets.left hu) hmeets.right hrun

/--
The progress rule: where every event that meets `c` is enabled, a run of such events never gets
stuck.
-/
theorem exists_run {c : σ → ε → Prop} {I : σ → Prop}
    (hstep : ∀ {s e}, I s → c s e → ∃ t, step s e = some t ∧ I t)
    : ∀ {es : List ε} {s : σ}, I s → Meets step c s es → ∃ t, run step s es = some t ∧ I t := by
  intro es
  induction es with
  | nil =>
    intro s hs _
    exact ⟨s, rfl, hs⟩
  | cons e es ih =>
    intro s hs hmeets
    obtain ⟨t, ht, hinv⟩ := hstep hs hmeets.head
    rw [meets_cons ht] at hmeets
    obtain ⟨u, hu, hinv⟩ := ih hinv hmeets.right
    exact ⟨u, (run_cons_eq_some _ _ _ _).mpr ⟨t, ht, hu⟩, hinv⟩

theorem run_append (es fs : List ε)
    : ∀ (s : σ), run step s (es ++ fs) = (run step s es).bind fun t => run step t fs := by
  induction es with
  | nil => simp
  | cons e es ih =>
    intro s
    cases h : step s e with
    | none => simp [run, h]
    | some t => simp [run, h, ih]

/--
The rule for runs that are built in rounds.
-/
theorem exists_run_of_rounds {p : Nat → σ → Prop} {n : Nat}
    (hround : ∀ {i s}, i < n → p i s → ∃ es t, run step s es = some t ∧ p (i + 1) t) {s : σ}
    (hs : p 0 s)
    : ∃ es t, run step s es = some t ∧ p n t := by
  induction n with
  | zero => exact ⟨[], s, rfl, hs⟩
  | succ n ih =>
    have hround' : ∀ {i s}, i < n → p i s → ∃ es t, run step s es = some t ∧ p (i + 1) t := by
      intro i s hi
      apply hround
      omega
    obtain ⟨es, t, hrun, ht⟩ := ih hround'
    obtain ⟨fs, u, hrun', hu⟩ := hround (Nat.lt_succ_self n) ht
    refine ⟨es ++ fs, u, ?_, hu⟩
    rw [run_append, hrun, Option.bind_some, hrun']

/--
The termination rule: what every event decreases bounds the length of a run.
-/
theorem length_add_le_of_run {c : σ → ε → Prop} {I : σ → Prop} {f : σ → Nat}
    (hkeep : ∀ {s e t}, I s → c s e → step s e = some t → I t)
    (hless : ∀ {s e t}, I s → c s e → step s e = some t → f t < f s)
    : ∀ {es : List ε} {s t : σ}, I s → Meets step c s es → run step s es = some t →
        es.length + f t ≤ f s := by
  intro es
  induction es with
  | nil =>
    intro s t _ _ hrun
    simp only [run_nil, Option.some.injEq] at hrun
    simp [hrun]
  | cons e es ih =>
    intro s t hs hmeets hrun
    rcases (run_cons_eq_some _ _ _ _).mp hrun with ⟨u, hu, hrun⟩
    rw [meets_cons hu] at hmeets
    have hlt := hless hs hmeets.left hu
    have hle := ih (hkeep hs hmeets.left hu) hmeets.right hrun
    rw [List.length_cons]
    omega

/--
Where every state that is not an end has an event that decreases `f`, an end can be reached.
-/
theorem exists_run_to_end {c : σ → ε → Prop} {I p : σ → Prop} {f : σ → Nat}
    (hstep : ∀ {s}, I s → ¬ p s → ∃ e t, c s e ∧ step s e = some t ∧ I t ∧ f t < f s)
    {s : σ} (hs : I s)
    : ∃ es t, Meets step c s es ∧ run step s es = some t ∧ I t ∧ p t := by
  induction hf : f s using Nat.strongRecOn generalizing s with
  | ind k ih =>
    by_cases hp : p s
    . exact ⟨[], s, trivial, rfl, hs, hp⟩
    . rcases hstep hs hp with ⟨e, u, hc, hu, hinv, hlt⟩
      rcases ih (f u) (hf ▸ hlt) hinv rfl with ⟨es, t, hmeets, hrun, ht⟩
      refine ⟨e :: es, t, ?_, ?_, ht⟩
      . rw [meets_cons hu]
        exact ⟨hc, hmeets⟩
      . rw [run_cons_eq_some]
        exact ⟨u, hu, hrun⟩

/--
The invariant rule with a history: the invariant may speak about the largest value that `f` has
taken so far.
-/
theorem inv_peak_of_run {c : σ → ε → Prop} {f : σ → Nat} {I : σ → Nat → Prop}
    (hstep : ∀ {s e t m}, I s m → c s e → step s e = some t → I t (max m (f t)))
    {es : List ε} {s t : σ} (hs : I s (f s)) (hmeets : Meets step c s es)
    (hrun : run step s es = some t)
    : I t (peak step f s es) := by
  -- the peak is taken from the front of the run, the invariant is kept from the back
  have aux : ∀ (es : List ε) (s : σ) (m : Nat), f s ≤ m → I s m → Meets step c s es →
      run step s es = some t → I t (max m (peak step f s es)) := by
    intro es
    induction es with
    | nil =>
      intro s m hm hs _ hrun
      simp only [run_nil, Option.some.injEq] at hrun
      subst hrun
      simpa [peak, hm] using hs
    | cons e es ih =>
      intro s m hm hs hmeets hrun
      obtain ⟨u, hu, hrun⟩ := (run_cons_eq_some _ _ _ _).mp hrun
      rw [meets_cons hu] at hmeets
      have hinv := ih u (max m (f u)) (by omega) (hstep hs hmeets.left hu) hmeets.right hrun
      have hle : f u ≤ peak step f u es := le_peak f u es
      have hmax : max (max m (f u)) (peak step f u es) = max m (peak step f s (e :: es)) := by
        rw [peak_cons hu]
        omega
      rwa [hmax] at hinv
  have h := aux es s (f s) (Nat.le_refl _) hs hmeets hrun
  rwa [Nat.max_eq_right (le_peak f s es)] at h

theorem along_of_meets {c : σ → ε → Prop} {I p : σ → Prop} (hp : ∀ {s}, I s → p s)
    (hkeep : ∀ {s e t}, I s → c s e → step s e = some t → I t)
    : ∀ {es : List ε} {s : σ}, I s → Meets step c s es → Along step p s es := by
  intro es
  induction es with
  | nil =>
    intro s hs _
    exact hp hs
  | cons e es ih =>
    intro s hs hmeets
    cases h : step s e with
    | none => simp [Along, h, hp hs]
    | some t =>
      rw [meets_cons h] at hmeets
      rw [along_cons h]
      exact ⟨hp hs, ih (hkeep hs hmeets.left h) hmeets.right⟩

theorem meets_congr {c d : σ → ε → Prop} {I : σ → Prop}
    (hkeep : ∀ {s e t}, I s → c s e → step s e = some t → I t)
    (hiff : ∀ {s e t}, I s → step s e = some t → (c s e ↔ d s e))
    : ∀ {es : List ε} {s t : σ}, I s → run step s es = some t →
        (Meets step c s es ↔ Meets step d s es) := by
  intro es
  induction es with
  | nil => simp [Meets]
  | cons e es ih =>
    intro s t hs hrun
    rcases (run_cons_eq_some _ _ _ _).mp hrun with ⟨u, hu, hrun⟩
    rw [meets_cons hu, meets_cons hu, ← hiff hs hu]
    apply and_congr_right
    intro hc
    exact ih (hkeep hs hc hu) hrun

theorem meets_congr_of_meets {b c d : σ → ε → Prop} {I : σ → Prop}
    (hkeep : ∀ {s e t}, I s → b s e → c s e → step s e = some t → I t)
    (hiff : ∀ {s e}, I s → b s e → (c s e ↔ d s e))
    : ∀ {es : List ε} {s : σ}, I s → Meets step b s es →
        (Meets step c s es ↔ Meets step d s es) := by
  intro es
  induction es with
  | nil => simp [Meets]
  | cons e es ih =>
    intro s hs hmeets
    have hhead := hiff hs hmeets.head
    cases h : step s e with
    | none => simp [Meets, h, hhead]
    | some t =>
      rw [meets_cons h] at hmeets
      rw [meets_cons h, meets_cons h, ← hhead]
      apply and_congr_right
      intro hc
      exact ih (hkeep hs hmeets.left hc h) hmeets.right

/--
When `c` is exactly what keeps `p` true from one state to the next, a run visits only states with
`p` if and only if its events meet `c`.
-/
theorem along_iff_meets {c : σ → ε → Prop} {I p : σ → Prop} (hp : ∀ {s}, I s → p s)
    (hkeep : ∀ {s e t}, I s → c s e → step s e = some t → I t)
    (hneed : ∀ {s e t}, I s → step s e = some t → p t → c s e)
    : ∀ {es : List ε} {s t : σ}, I s → run step s es = some t →
        (Along step p s es ↔ Meets step c s es) := by
  intro es
  induction es with
  | nil =>
    intro s t hs _
    simp [Along, Meets, hp hs]
  | cons e es ih =>
    intro s t hs hrun
    obtain ⟨u, hu, hrun⟩ := (run_cons_eq_some _ _ _ _).mp hrun
    rw [along_cons hu, meets_cons hu]
    constructor
    . intro h
      have hc : c s e := hneed hs hu h.right.head
      exact ⟨hc, (ih (hkeep hs hc hu) hrun).mp h.right⟩
    . intro h
      exact ⟨hp hs, (ih (hkeep hs h.left hu) hrun).mpr h.right⟩

/--
The simulation rule: if every event that meets `c` is matched by steps of an abstract machine, every
run of such events is.
-/
theorem simulates_of_run {c : σ → ε → Prop} {rel : σ → α → Prop} {astep : α → α → Prop}
    (hstep : ∀ {s e t a}, rel s a → c s e → step s e = some t →
      ∃ b, Relation.ReflTransGen astep a b ∧ rel t b)
    : ∀ {es : List ε} {s t : σ} {a : α}, rel s a → Meets step c s es → run step s es = some t →
        ∃ b, Relation.ReflTransGen astep a b ∧ rel t b := by
  intro es
  induction es with
  | nil =>
    intro s t a hs _ hrun
    simp only [run_nil, Option.some.injEq] at hrun
    exact ⟨a, .refl, hrun ▸ hs⟩
  | cons e es ih =>
    intro s t a hs hmeets hrun
    obtain ⟨u, hu, hrun⟩ := (run_cons_eq_some _ _ _ _).mp hrun
    rw [meets_cons hu] at hmeets
    obtain ⟨b, hab, hb⟩ := hstep hs hmeets.left hu
    obtain ⟨d, hbd, hd⟩ := ih hb hmeets.right hrun
    exact ⟨d, hab.trans hbd, hd⟩

/--
The refinement rule: an abstraction that takes every step to a step of an abstract machine takes every
run to a run, also where one of them gets stuck.
-/
theorem run_map {τ : Type} {f : σ → τ} {astep : τ → ε → Option τ} {c : ε → Prop} {I : σ → Prop}
    (hstep : ∀ {s e}, I s → c e → (step s e).map f = astep (f s) e)
    (hkeep : ∀ {s e t}, I s → c e → step s e = some t → I t)
    : ∀ {es : List ε} {s : σ}, I s → (∀ e, e ∈ es → c e) →
        (run step s es).map f = run astep (f s) es := by
  intro es
  induction es with
  | nil => simp
  | cons e es ih =>
    intro s hs hc
    have he := hc e (by simp)
    have hnext := hstep hs he
    cases h : step s e with
    | none =>
      rw [h, Option.map_none] at hnext
      simp [run, h, ← hnext]
    | some t =>
      rw [h, Option.map_some] at hnext
      simp only [run, h, ← hnext]
      apply ih (hkeep hs he h)
      intro e he
      exact hc e (List.mem_cons_of_mem _ he)

end Transition
