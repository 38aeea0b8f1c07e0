import NetDemo.IoServicePool.Stop

/-!
This module contains the pool when its growth can fail: `create_io_service` throws at some place,
the caller survives it and the pool is used again as the exception has left it.
-/

inductive FallibleCall where
  -- The place at which this call throws should it come there.
  | getIoService (failure : Option GrowStep)
  | threadQuit (i : Nat)
  deriving DecidableEq, Repr

namespace Growth

open ExceptState IoServicePool Transition

def failsAt (failure : Option GrowStep) : GrowStep → Bool :=
  fun place => some place == failure

-- An access that is out of range is not an exception: there is no state to go on from.
def step (pool : IoServicePool) (call : FallibleCall) : Option IoServicePool :=
  match call with
  | .getIoService failure =>
    match exec (getIoService (failsAt failure)) pool with
    | (.error .outOfRange, _) => none
    | (_, pool) => some pool
  | .threadQuit i =>
    match exec (threadQuit i) pool with
    | (.ok (), pool) => some pool
    | (.error _, _) => none

structure SameFields (pool pool' : IoServicePool) : Prop where
  ioServices : pool'.arrIoServices = pool.arrIoServices
  work : pool'.arrWork = pool.arrWork
  threads : pool'.arrThreads = pool.arrThreads
  status : pool'.arrThreadStatus = pool.arrThreadStatus
  next : pool'.nextIoService = pool.nextIoService

def Atomic (pool : IoServicePool) (call : FallibleCall) : Prop :=
  match call with
  | .getIoService failure =>
    ∀ fault pool', exec (getIoService (failsAt failure)) pool = (.error fault, pool') →
      SameFields pool pool'
  | .threadQuit _ => True

-- What the next call does, wherever its growth throws.
def Sound (pool : IoServicePool) : Prop :=
  ∀ failure, match exec (getIoService (failsAt failure)) pool with
    | (.ok (_, ref), pool') => ref ∈ pool'.threads
    | (.error fault, _) => fault ≠ .outOfRange

-- A growth that throws does so before the first `push_back` has taken effect.
def FailsEarly (pool : IoServicePool) (call : FallibleCall) : Prop :=
  match call with
  | .getIoService failure =>
    Stopping.MustGrow pool →
      failure ∈ [none, some .newIoService, some .newWork, some .pushIoService]
  | .threadQuit _ => True

instance (pool : IoServicePool) (call : FallibleCall) : Decidable (FailsEarly pool call) :=
  match call with
  | .getIoService _ => inferInstanceAs (Decidable (_ → _))
  | .threadQuit _ => isTrue trivial

-- The pool that a growth leaves behind when it throws at `place`.
def partlyGrown (pool : IoServicePool) (place : GrowStep) : IoServicePool :=
  match place with
  | .newIoService => pool
  | .newWork | .pushIoService => { pool with ioServices := pool.ioServices ++ [⟨false⟩] }
  | .pushWork => { pool.grown with
      threads := pool.threads
      arrWork := pool.arrWork
      arrThreads := pool.arrThreads
      arrThreadStatus := pool.arrThreadStatus
      nextIoService := pool.nextIoService }
  | .newThread => { pool.grown with
      threads := pool.threads
      arrThreads := pool.arrThreads
      arrThreadStatus := pool.arrThreadStatus
      nextIoService := pool.nextIoService }
  | .pushThreadStatus => { pool.grown with
      arrThreads := pool.arrThreads
      arrThreadStatus := pool.arrThreadStatus
      nextIoService := pool.nextIoService }
  | .pushThread => { pool.grown with
      arrThreads := pool.arrThreads
      nextIoService := pool.nextIoService }

variable {pool pool' : IoServicePool}

theorem failsAt_none : failsAt none = noFailure := by
  rfl

theorem exec_createIoService_failsAt (place : GrowStep)
    (hnext : pool.nextIoService = pool.arrIoServices.length)
    : exec (createIoService (failsAt (some place))) pool =
        (.error place.fault, partlyGrown pool place) := by
  cases place with
  | newIoService => simp [createIoService, attempt, failsAt, partlyGrown]
  | newWork =>
    simp [createIoService, attempt, failsAt, newIoService, partlyGrown]
  | pushIoService =>
    simp [createIoService, attempt, failsAt, newIoService, partlyGrown]
  | pushWork =>
    simp [createIoService, attempt, failsAt, newIoService, pushIoService, partlyGrown, grown]
  | newThread =>
    simp [createIoService, attempt, failsAt, newIoService, pushIoService, pushWork, index,
      partlyGrown, grown, hnext]
  | pushThreadStatus =>
    simp [createIoService, attempt, failsAt, newIoService, pushIoService, pushWork, index,
      newThread, partlyGrown, grown, hnext]
  | pushThread =>
    simp [createIoService, attempt, failsAt, newIoService, pushIoService, pushWork, index,
      newThread, pushThreadStatus, partlyGrown, grown, hnext]

theorem exec_getIoService_failsAt (place : GrowStep) (hgrow : Stopping.MustGrow pool)
    : exec (getIoService (failsAt (some place))) pool =
        (.error place.fault, partlyGrown pool place) := by
  rcases Stopping.mustGrow_iff.mp hgrow with ⟨hnext, hfull⟩
  unfold getIoService
  simp only [exec_bind, exec_get, hnext, if_true, exec_checkIdleIOService_none hfull,
    exec_createIoService_failsAt place hnext]

-- Only a growth can fail.
theorem exec_getIoService_of_not_mustGrow (failure : Option GrowStep)
    (hgrow : ¬ Stopping.MustGrow pool)
    : exec (getIoService (failsAt failure)) pool = exec (getIoService noFailure) pool := by
  rw [Stopping.mustGrow_iff] at hgrow
  unfold getIoService
  by_cases hnext : pool.nextIoService = pool.arrIoServices.length
  . cases hidle : pool.arrThreadStatus.findIdx? (· == 0) with
    | none => exact absurd ⟨hnext, hidle⟩ hgrow
    | some i => simp [hnext, exec_checkIdleIOService_some hidle]
  . simp [hnext]

theorem sameFields_partlyGrown_iff (place : GrowStep)
    : SameFields pool (partlyGrown pool place) ↔
        place ∈ [.newIoService, .newWork, .pushIoService] := by
  constructor
  . intro h
    have hio := h.ioServices
    cases place with
    | newIoService | newWork | pushIoService => simp
    | pushWork | newThread | pushThreadStatus | pushThread => simp [partlyGrown, grown] at hio
  . intro h
    cases place with
    | newIoService | newWork | pushIoService => exact ⟨rfl, rfl, rfl, rfl, rfl⟩
    | pushWork | newThread | pushThreadStatus | pushThread => simp at h

theorem atomic_iff_failsEarly (hpool : pool.Lockstep) (call : FallibleCall)
    : Atomic pool call ↔ FailsEarly pool call := by
  cases call with
  | threadQuit i => simp [Atomic, FailsEarly]
  | getIoService failure =>
    simp only [Atomic, FailsEarly]
    by_cases hgrow : Stopping.MustGrow pool
    . cases failure with
      | none =>
        rcases exec_getIoService hpool with ⟨sn, ref, pool', hexec, _⟩
        rw [failsAt_none, hexec]
        simp
      | some place =>
        rw [exec_getIoService_failsAt place hgrow]
        simp [hgrow, sameFields_partlyGrown_iff]
    . rcases exec_getIoService hpool with ⟨sn, ref, pool', hexec, _⟩
      rw [exec_getIoService_of_not_mustGrow failure hgrow, hexec]
      simp [hgrow]

theorem lockstep_partlyGrown (hpool : pool.Lockstep) (place : GrowStep)
    (hearly : place ∈ [.newIoService, .newWork, .pushIoService])
    : (partlyGrown pool place).Lockstep := by
  have halive : ∀ ref, ref ∈ pool.arrIoServices →
      ref < (pool.ioServices ++ [(⟨false⟩ : IoService)]).length := by
    intro ref href
    have := hpool.alive ref href
    rw [List.length_append]
    exact Nat.lt_add_right _ this
  cases place with
  | newIoService => exact hpool
  | newWork | pushIoService => exact { hpool with alive := halive }
  | pushWork | newThread | pushThreadStatus | pushThread => simp at hearly

theorem lockstep_of_step (hpool : pool.Lockstep) {call : FallibleCall}
    (hearly : FailsEarly pool call) (hstep : step pool call = some pool')
    : pool'.Lockstep := by
  cases call with
  | threadQuit i =>
    cases Nat.lt_or_ge i pool.arrThreadStatus.length with
    | inl hlt =>
      simp only [step, exec_threadQuit hlt, Option.some.injEq] at hstep
      subst hstep
      apply hpool.withStatus
    | inr hge =>
      simp [step, IoServicePool.threadQuit, setThreadStatus, index,
        List.getElem?_eq_none hge] at hstep
  | getIoService failure =>
    rcases exec_getIoService hpool with ⟨sn, ref, pool'', hexec, hgrants⟩
    have hgranted := hgrants.lockstep hpool
    by_cases hgrow : Stopping.MustGrow pool
    . cases failure with
      | none =>
        simp only [step, failsAt_none, hexec, Option.some.injEq] at hstep
        exact hstep ▸ hgranted
      | some place =>
        have hplace := hearly hgrow
        simp only [List.mem_cons, Option.some.injEq, reduceCtorEq, false_or] at hplace
        have hkept := lockstep_partlyGrown hpool place (by simpa using hplace)
        simp only [step, exec_getIoService_failsAt place hgrow] at hstep
        cases place with
        | newIoService | newWork | pushIoService =>
          simp only [GrowStep.fault, Option.some.injEq] at hstep
          exact hstep ▸ hkept
        | pushWork | newThread | pushThreadStatus | pushThread => simp at hplace
    . simp only [step, exec_getIoService_of_not_mustGrow failure hgrow, hexec,
        Option.some.injEq] at hstep
      exact hstep ▸ hgranted

theorem sound_of_lockstep (hpool : pool.Lockstep) : Sound pool := by
  intro failure
  rcases exec_getIoService hpool with ⟨sn, ref, pool', hexec, hgrants⟩
  have hruns : ref ∈ pool'.threads := by
    rcases (hgrants.lockstep hpool).runs sn ref hgrants.getElem?_arrIoServices
      with ⟨thread, _, hthread⟩
    exact List.mem_of_getElem? hthread
  by_cases hgrow : Stopping.MustGrow pool
  . cases failure with
    | none =>
      rw [failsAt_none, hexec]
      exact hruns
    | some place =>
      rw [exec_getIoService_failsAt place hgrow]
      cases place with
      | newIoService | newWork | pushIoService | pushWork | newThread | pushThreadStatus
      | pushThread => simp [GrowStep.fault]
  . rw [exec_getIoService_of_not_mustGrow failure hgrow, hexec]
    exact hruns

/--
In a run in which growth may fail, every failure leaves the fields as they were and every later call
is served by a running thread, if and only if no failure comes after the first `push_back`.
-/
theorem atomic_and_sound_iff (poolSize : Nat) (calls : List FallibleCall)
    : Meets step Atomic (new poolSize) calls ∧ Along step Sound (new poolSize) calls ↔
        Meets step FailsEarly (new poolSize) calls := by
  have hnew := lockstep_new poolSize
  have hatomic : Meets step Atomic (new poolSize) calls ↔
      Meets step FailsEarly (new poolSize) calls := by
    apply meets_congr_of_meets (b := fun _ _ => True) (I := Lockstep) _ _ hnew
    . apply Meets.of_forall
      simp
    . intro pool call pool' hpool _ hcall hstep
      exact lockstep_of_step hpool ((atomic_iff_failsEarly hpool call).mp hcall) hstep
    . intro pool call hpool _
      exact atomic_iff_failsEarly hpool call
  constructor
  . intro h
    exact hatomic.mp h.left
  . intro h
    refine ⟨hatomic.mpr h, ?_⟩
    apply along_of_meets (I := Lockstep) sound_of_lockstep _ hnew h
    intro pool call pool' hpool hcall hstep
    exact lockstep_of_step hpool hcall hstep

-- The thread cannot be created: the service stays in the vector, and the next call takes it for a
-- free one although it has no status and no thread.
theorem not_atomic_of_thread_failure
    : (run step (new 0) [.getIoService (some .newThread)]).isSome ∧
        ¬ Meets step Atomic (new 0) [.getIoService (some .newThread)] ∧
        ¬ Along step Sound (new 0) [.getIoService (some .newThread)] := by
  have hstep : step (new 0) (.getIoService (some .newThread)) =
      some (partlyGrown (new 0) .newThread) := by
    decide
  refine ⟨by decide, ?_, ?_⟩
  . intro h
    have hlate := (atomic_iff_failsEarly (lockstep_new 0) _).mp h.head
    exact absurd hlate (by decide)
  . intro h
    rw [along_cons hstep] at h
    have hsound := h.right.head none
    exact hsound rfl

end Growth
