import NetDemo.IoServicePool.Clients

/-!
This module contains the pool while it is being stopped: the rounds of `stop` interleave with calls
of the pool, such as that of an `accept_handler` that was dispatched before.
-/

inductive StopLoop where
  | before
  | at (i : Nat)
  | done
  deriving DecidableEq, Repr

structure Stopping where
  pool : IoServicePool
  loop : StopLoop
  deriving DecidableEq, Repr

inductive StopEvent where
  | call (call : Call)
  | stop
  deriving DecidableEq, Repr

namespace Stopping

open ExceptState IoServicePool Transition

def init (poolSize : Nat) : Stopping where
  pool := IoServicePool.new poolSize
  loop := .before

def step (s : Stopping) (event : StopEvent) : Option Stopping :=
  match event with
  | .call .getIoService =>
    match exec (getIoService noFailure) s.pool with
    | (.ok _, pool) => some ⟨pool, s.loop⟩
    | (.error _, _) => none
  | .call (.threadQuit i) =>
    match exec (threadQuit i) s.pool with
    | (.ok (), pool) => some ⟨pool, s.loop⟩
    | (.error _, _) => none
  | .stop =>
    match s.loop with
    | .before => some ⟨s.pool, .at 0⟩
    | .at i =>
      match exec (stopRound i) s.pool with
      | (.ok true, pool) => some ⟨pool, .at (i + 1)⟩
      | (.ok false, pool) => some ⟨pool, .done⟩
      | (.error _, _) => none
    | .done => none

def AllStopped (s : Stopping) : Prop :=
  s.loop = .done →
    (∀ ref, ref ∈ s.pool.arrIoServices → s.pool.ioServices[ref]? = some ⟨true⟩) ∧
      ∀ thread, ¬ s.pool.WaitsFor thread

def MustGrow (pool : IoServicePool) : Prop :=
  pool.nextIoService = pool.arrIoServices.length ∧
    ∀ status, status ∈ pool.arrThreadStatus → status ≠ 0

def NoLateGrowth (s : Stopping) (event : StopEvent) : Prop :=
  event = .call .getIoService → s.loop = .done → ¬ MustGrow s.pool

instance (pool : IoServicePool) : Decidable (MustGrow pool) :=
  inferInstanceAs (Decidable (_ ∧ _))

instance (s : Stopping) (event : StopEvent) : Decidable (NoLateGrowth s event) :=
  inferInstanceAs (Decidable (_ → _ → _))

def StoppedBelow (pool : IoServicePool) (i : Nat) : Prop :=
  ∀ (j : Nat) (ref : ServiceRef), j < i → pool.arrIoServices[j]? = some ref →
    pool.ioServices[ref]? = some ⟨true⟩

structure Inv (s : Stopping) : Prop where
  lockstep : s.pool.Lockstep
  reached : ∀ i, s.loop = .at i → i ≤ s.pool.arrIoServices.length ∧ StoppedBelow s.pool i
  done : s.loop = .done → StoppedBelow s.pool s.pool.arrIoServices.length

theorem inv_init (poolSize : Nat) : (init poolSize).Inv where
  lockstep := lockstep_new poolSize
  reached := by simp [init]
  done := by simp [init]

theorem mustGrow_iff {pool : IoServicePool}
    : MustGrow pool ↔ pool.nextIoService = pool.arrIoServices.length ∧
        pool.arrThreadStatus.findIdx? (· == 0) = none := by
  unfold MustGrow
  rw [List.findIdx?_eq_none_iff]
  simp

theorem StoppedBelow.grown {pool : IoServicePool} {i : Nat} (h : StoppedBelow pool i)
    (hpool : pool.Lockstep) (hi : i ≤ pool.arrIoServices.length)
    : StoppedBelow pool.grown i := by
  intro j ref hj href
  simp only [IoServicePool.grown] at href ⊢
  rw [List.getElem?_append_left] at href
  . rw [List.getElem?_append_left]
    . exact h j ref hj href
    . exact hpool.alive ref (List.mem_of_getElem? href)
  . omega

theorem StoppedBelow.stop {pool : IoServicePool} {i : Nat} {ref : ServiceRef}
    (h : StoppedBelow pool i) (href : pool.arrIoServices[i]? = some ref)
    (halive : ref < pool.ioServices.length)
    : StoppedBelow { pool with ioServices := pool.ioServices.set ref ⟨true⟩ } (i + 1) := by
  intro j ref' hj href'
  dsimp only at href' ⊢
  rw [List.getElem?_set]
  split
  . next heq =>
    subst heq
    simp
  . next hne =>
    have hji : j ≠ i := by
      intro heq
      subst heq
      rw [href] at href'
      simp only [Option.some.injEq] at href'
      exact hne href'
    exact h j ref' (by omega) href'

theorem Inv.allStopped {s : Stopping} (hs : s.Inv) : s.AllStopped := by
  intro hdone
  have hstopped : ∀ ref, ref ∈ s.pool.arrIoServices → s.pool.ioServices[ref]? = some ⟨true⟩ := by
    intro ref href
    rcases List.getElem?_of_mem href with ⟨j, hj⟩
    exact hs.done hdone j ref (List.getElem?_eq_some_iff.mp hj).1 hj
  refine ⟨hstopped, ?_⟩
  intro thread hwaits
  rcases hwaits with ⟨ref, _, _, hwork, hrunning⟩
  rw [hs.lockstep.work] at hwork
  rw [hstopped ref hwork] at hrunning
  simp at hrunning

theorem exec_stopRound_lt {pool : IoServicePool} {i : Nat} {ref : ServiceRef}
    (href : pool.arrIoServices[i]? = some ref)
    : exec (stopRound i) pool =
        (.ok true, { pool with ioServices := pool.ioServices.set ref ⟨true⟩ }) := by
  have hi := (List.getElem?_eq_some_iff.mp href).1
  unfold stopRound
  simp [hi, exec_index href]

theorem exec_stopRound_ge {pool : IoServicePool} {i : Nat} (hi : pool.arrIoServices.length ≤ i)
    : exec (stopRound i) pool = (.ok false, pool) := by
  have : ¬ (i < pool.arrIoServices.length) := by omega
  unfold stopRound
  simp [this]

theorem step_getIoService {s : Stopping} (hpool : s.pool.Lockstep)
    : ∃ sn ref pool, s.pool.Grants sn ref pool ∧
        step s (.call .getIoService) = some ⟨pool, s.loop⟩ := by
  rcases exec_getIoService hpool with ⟨sn, ref, pool, hexec, hgrants⟩
  refine ⟨sn, ref, pool, hgrants, ?_⟩
  simp only [step]
  rw [hexec]

theorem Inv.getIoService {s : Stopping} {sn : Nat} {ref : ServiceRef} {pool : IoServicePool}
    (hs : s.Inv) (hgrants : s.pool.Grants sn ref pool)
    (hlate : s.loop = .done → ¬ MustGrow s.pool)
    : Inv ⟨pool, s.loop⟩ := by
  have hlockstep := hgrants.lockstep hs.lockstep
  cases hgrants with
  | fresh ref hnext href => exact ⟨hlockstep, hs.reached, hs.done⟩
  | idle i ref hnext hidle href => exact ⟨hlockstep, hs.reached, hs.done⟩
  | grow hnext hfull =>
    constructor
    case lockstep => exact hlockstep
    case reached =>
      intro i hloop
      rcases hs.reached i hloop with ⟨hi, hbelow⟩
      refine ⟨?_, hbelow.grown hs.lockstep hi⟩
      simp only [IoServicePool.grown, List.length_append, List.length_singleton]
      omega
    case done =>
      intro hloop
      exact absurd (mustGrow_iff.mpr ⟨hnext, hfull⟩) (hlate hloop)

theorem Inv.threadQuit {s t : Stopping} {i : Nat} (hs : s.Inv)
    (hstep : step s (.call (.threadQuit i)) = some t)
    : t.Inv := by
  cases Nat.lt_or_ge i s.pool.arrThreadStatus.length with
  | inl hlt =>
    simp only [step] at hstep
    rw [exec_threadQuit hlt] at hstep
    simp only [Option.some.injEq] at hstep
    subst hstep
    exact ⟨hs.lockstep.withStatus i 0, hs.reached, hs.done⟩
  | inr hge =>
    have : exec (IoServicePool.threadQuit i) s.pool = (.error .outOfRange, s.pool) := by
      simp [IoServicePool.threadQuit, setThreadStatus, index, List.getElem?_eq_none hge]
    simp only [step] at hstep
    rw [this] at hstep
    simp at hstep

theorem Inv.stop {s t : Stopping} (hs : s.Inv) (hstep : step s .stop = some t) : t.Inv := by
  cases hloop : s.loop with
  | before =>
    simp only [step, hloop, Option.some.injEq] at hstep
    subst hstep
    constructor
    case lockstep => exact hs.lockstep
    case reached =>
      intro i hi
      simp only [StopLoop.at.injEq] at hi
      subst hi
      exact ⟨Nat.zero_le _, by intro j ref hj; omega⟩
    case done => simp
  | «at» i =>
    rcases hs.reached i hloop with ⟨hi, hbelow⟩
    cases Nat.lt_or_ge i s.pool.arrIoServices.length with
    | inl hlt =>
      have href := List.getElem?_eq_getElem hlt
      simp only [step, hloop] at hstep
      rw [exec_stopRound_lt href] at hstep
      simp only [Option.some.injEq] at hstep
      subst hstep
      have halive := hs.lockstep.alive _ (List.getElem_mem hlt)
      constructor
      case lockstep =>
        refine { hs.lockstep with alive := ?_ }
        intro ref href
        simp only [List.length_set]
        exact hs.lockstep.alive ref href
      case reached =>
        intro k hk
        simp only [StopLoop.at.injEq] at hk
        subst hk
        exact ⟨hlt, hbelow.stop href halive⟩
      case done => simp
    | inr hge =>
      simp only [step, hloop] at hstep
      rw [exec_stopRound_ge hge] at hstep
      simp only [Option.some.injEq] at hstep
      subst hstep
      refine ⟨hs.lockstep, by simp, ?_⟩
      intro _ j ref hj
      exact hbelow j ref (Nat.lt_of_lt_of_le hj hge)
  | done => simp [step, hloop] at hstep

theorem Inv.step {s t : Stopping} {event : StopEvent} (hs : s.Inv) (hevent : NoLateGrowth s event)
    (hstep : Stopping.step s event = some t)
    : t.Inv := by
  cases event with
  | call call =>
    cases call with
    | getIoService =>
      rcases step_getIoService hs.lockstep with ⟨sn, ref, pool, hgrants, hstep'⟩
      rw [hstep] at hstep'
      simp only [Option.some.injEq] at hstep'
      rw [hstep']
      exact hs.getIoService hgrants (hevent rfl)
    | threadQuit i => exact hs.threadQuit hstep
  | stop => exact hs.stop hstep

theorem noLateGrowth_of_allStopped {s t : Stopping} {event : StopEvent}
    (hstep : Stopping.step s event = some t) (ht : t.AllStopped)
    : NoLateGrowth s event := by
  intro hevent hdone hgrow
  subst hevent
  rw [mustGrow_iff] at hgrow
  simp only [Stopping.step] at hstep
  rw [exec_getIoService_grow hgrow.left hgrow.right] at hstep
  simp only [Option.some.injEq] at hstep
  subst hstep
  have := (ht hdone).left s.pool.ioServices.length (by simp [IoServicePool.grown])
  simp [IoServicePool.grown] at this

/--
However the rounds of `stop` interleave with the calls, every service is stopped from the end of
`stop` on if and only if no call after that end has to create a service.
-/
theorem allStopped_iff (poolSize : Nat) (events : List StopEvent) (s : Stopping)
    (hrun : run step (init poolSize) events = some s)
    : Along step AllStopped (init poolSize) events ↔
        Meets step NoLateGrowth (init poolSize) events := by
  refine along_iff_meets Inv.allStopped Inv.step ?_ (inv_init poolSize) hrun
  intro s event t _
  apply noLateGrowth_of_allStopped

theorem allStopped_of_growth_in_loop
    : Along step AllStopped (init 1) [.call .getIoService, .stop, .stop, .call .getIoService, .stop,
        .stop, .call (.threadQuit 0), .call .getIoService] := by
  cases hrun : run step (init 1) [.call .getIoService, .stop, .stop, .call .getIoService, .stop,
    .stop, .call (.threadQuit 0), .call .getIoService] with
  | none => exact absurd hrun (by decide)
  | some s => exact (allStopped_iff 1 _ s hrun).mpr (by decide)

-- The only slot is taken, `stop` runs to its end, and then an `accept_handler` asks for one more.
theorem not_allStopped_of_late_growth
    : ¬ ∀ (poolSize : Nat) (events : List StopEvent) (s : Stopping),
        run step (init poolSize) events = some s → s.AllStopped := by
  intro h
  have hrun : run step (init 1) [.call .getIoService, .stop, .stop, .stop, .call .getIoService] =
      some
        { pool :=
            { ioServices := [⟨true⟩, ⟨false⟩]
              threads := [0, 1]
              arrIoServices := [0, 1]
              arrWork := [0, 1]
              arrThreads := [0, 1]
              arrThreadStatus := [1, 1]
              nextIoService := 2 }
          loop := .done } := by
    decide
  have hstopped := (h _ _ _ hrun rfl).left 1 (by decide)
  exact absurd hstopped (by decide)

end Stopping
