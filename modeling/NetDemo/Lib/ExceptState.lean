import Mathlib.Data.List.Basic

/-!
This module contains the program logic for computations that can throw and whose effects up to the
throw stay in the state.
-/

namespace ExceptState

variable {ε σ α β : Type}

def exec (x : ExceptT ε (StateM σ) α) (s : σ) : Except ε α × σ :=
  StateT.run (ExceptT.run x) s

-- for (i = 0; i < n; i++) body(i)
def forLoop (n : Nat) (body : Nat → ExceptT ε (StateM σ) Unit) : ExceptT ε (StateM σ) Unit :=
  match n with
  | 0 => pure ()
  | n + 1 => do
    forLoop n body
    body n

@[simp]
theorem exec_pure (a : α) (s : σ) : exec (ε := ε) (pure a) s = (.ok a, s) := by
  rfl

@[simp]
theorem exec_get (s : σ) : exec (ε := ε) get s = (.ok s, s) := by
  rfl

@[simp]
theorem exec_modify (f : σ → σ) (s : σ) : exec (ε := ε) (modify f) s = (.ok ⟨⟩, f s) := by
  rfl

@[simp]
theorem exec_modifyGet (f : σ → α × σ) (s : σ)
    : exec (ε := ε) (modifyGet f) s = (.ok (f s).1, (f s).2) := by
  rfl

@[simp]
theorem exec_throw (e : ε) (s : σ)
    : exec (throw e : ExceptT ε (StateM σ) α) s = (.error e, s) := by
  rfl

@[simp]
theorem exec_bind (x : ExceptT ε (StateM σ) α) (f : α → ExceptT ε (StateM σ) β) (s : σ)
    : exec (x >>= f) s =
        match exec x s with
        | (.ok a, t) => exec (f a) t
        | (.error e, t) => (.error e, t) := by
  unfold exec
  rw [ExceptT.run_bind, StateT.run_bind]
  rcases StateT.run (ExceptT.run x) s with ⟨_ | _, _⟩
  . rfl
  . rfl

@[simp]
theorem exec_map (f : α → β) (x : ExceptT ε (StateM σ) α) (s : σ)
    : exec (f <$> x) s =
        match exec x s with
        | (.ok a, t) => (.ok (f a), t)
        | (.error e, t) => (.error e, t) := by
  rw [map_eq_pure_bind, exec_bind]
  rfl

/--
If every iteration leads from one snapshot to the next, the loop leads from the first to the last.
-/
theorem exec_forLoop (snapshot : Nat → σ) (body : Nat → ExceptT ε (StateM σ) Unit) (n : Nat)
    (hbody : ∀ i, i < n → exec (body i) (snapshot i) = (.ok (), snapshot (i + 1)))
    : exec (forLoop n body) (snapshot 0) = (.ok (), snapshot n) := by
  induction n with
  | zero => rfl
  | succ n ih =>
    unfold forLoop
    rw [exec_bind]
    rw [ih]
    . apply hbody
      omega
    . intro i hi
      apply hbody
      omega

theorem exec_forLoop_error {body : Nat → ExceptT ε (StateM σ) Unit} {n : Nat} {e : ε} {s : σ}
    (h : exec (body 0) s = (.error e, s)) (hn : 0 < n)
    : exec (forLoop n body) s = (.error e, s) := by
  induction n with
  | zero => omega
  | succ n ih =>
    unfold forLoop
    rw [exec_bind]
    cases n with
    | zero => simp [forLoop, h]
    | succ n => rw [ih (by omega)]

end ExceptState
