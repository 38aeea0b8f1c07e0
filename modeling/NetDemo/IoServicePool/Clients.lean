import NetDemo.IoServicePool.Lemmas
import NetDemo.Lib.Transition
import Mathlib.Data.Finset.Basic

/-!
This module contains the pool together with its callers: what the calls have granted and what has
not been given back since.
-/

structure Clients where
  pool : IoServicePool
  held : Finset Nat
  granted : Finset Nat

inductive Call where
  | getIoService
  | threadQuit (threadNum : Nat)
  deriving DecidableEq, Repr

namespace Clients

open ExceptState IoServicePool Transition

def init (poolSize : Nat) : Clients where
  pool := IoServicePool.new poolSize
  held := ∅
  granted := ∅

def step (s : Clients) (call : Call) : Option Clients :=
  match call with
  | .getIoService =>
    match exec (getIoService noFailure) s.pool with
    | (.ok (sn, _), pool) => some ⟨pool, insert sn s.held, insert sn s.granted⟩
    | (.error _, _) => none
  | .threadQuit i =>
    match exec (threadQuit i) s.pool with
    | (.ok (), pool) => some ⟨pool, s.held.erase i, s.granted⟩
    | (.error _, _) => none

def QuitsHeld (s : Clients) (call : Call) : Prop :=
  match call with
  | .getIoService => True
  | .threadQuit i => i ∈ s.held

-- Only what was granted at some time is given back, possibly more than once.
def QuitsGranted (s : Clients) (call : Call) : Prop :=
  match call with
  | .getIoService => True
  | .threadQuit i => i ∈ s.granted

instance (s : Clients) (call : Call) : Decidable (QuitsHeld s call) :=
  match call with
  | .getIoService => isTrue trivial
  | .threadQuit i => inferInstanceAs (Decidable (i ∈ s.held))

instance (s : Clients) (call : Call) : Decidable (QuitsGranted s call) :=
  match call with
  | .getIoService => isTrue trivial
  | .threadQuit i => inferInstanceAs (Decidable (i ∈ s.granted))

theorem step_getIoService {s : Clients} (hpool : s.pool.Lockstep)
    : ∃ sn ref pool, s.pool.Grants sn ref pool ∧
        exec (getIoService noFailure) s.pool = (.ok (sn, ref), pool) ∧
        step s .getIoService = some ⟨pool, insert sn s.held, insert sn s.granted⟩ := by
  rcases exec_getIoService hpool with ⟨sn, ref, pool, hexec, hgrants⟩
  refine ⟨sn, ref, pool, hgrants, hexec, ?_⟩
  simp only [step]
  rw [hexec]

theorem step_threadQuit {s : Clients} {i : Nat} (hi : i < s.pool.arrThreadStatus.length)
    : step s (.threadQuit i) = some ⟨s.pool.withStatus i 0, s.held.erase i, s.granted⟩ := by
  simp only [step]
  rw [exec_threadQuit hi]

structure Sound (s : Clients) : Prop where
  lockstep : s.pool.Lockstep
  granted : ∀ i, i ∈ s.granted → i < s.pool.arrIoServices.length

theorem sound_init (poolSize : Nat) : (init poolSize).Sound where
  lockstep := lockstep_new poolSize
  granted := by simp [init]

theorem Sound.step {s : Clients} {call : Call} (hs : s.Sound) (hcall : QuitsGranted s call)
    : ∃ t, Clients.step s call = some t ∧ t.Sound := by
  cases call with
  | getIoService =>
    rcases step_getIoService hs.lockstep with ⟨sn, ref, pool, hgrants, _, hstep⟩
    refine ⟨_, hstep, hgrants.lockstep hs.lockstep, ?_⟩
    intro i hi
    cases Finset.mem_insert.mp hi with
    | inl heq => exact heq ▸ hgrants.lt_length
    | inr hold => exact Nat.lt_of_lt_of_le (hs.granted i hold) hgrants.length_le
  | threadQuit i =>
    have hi : i < s.pool.arrThreadStatus.length := by
      rw [hs.lockstep.status]
      exact hs.granted i hcall
    exact ⟨_, step_threadQuit hi, hs.lockstep.withStatus i 0, hs.granted⟩

/--
Whatever is called in whatever order, as long as only granted serial numbers are given back, the
four vectors stay parallel, thread `j` runs service `j`, which no other thread runs, and no access is
out of range.
-/
theorem vectors_lockstep (poolSize : Nat) (calls : List Call)
    (hcalls : Meets step QuitsGranted (init poolSize) calls)
    : ∃ s L, run step (init poolSize) calls = some s ∧
        s.pool.arrIoServices.length = L ∧ s.pool.arrWork.length = L ∧
        s.pool.arrThreads.length = L ∧ s.pool.arrThreadStatus.length = L ∧
        s.pool.nextIoService ≤ L ∧
        (∀ j, j < L → ∃ ref thread, s.pool.arrIoServices[j]? = some ref ∧
          s.pool.arrThreads[j]? = some thread ∧ s.pool.threads[thread]? = some ref) ∧
        s.pool.arrIoServices.Nodup ∧
        (∀ ref, ref ∈ s.pool.arrIoServices → ref < s.pool.ioServices.length) ∧
        (∃ sn ref pool, exec (getIoService noFailure) s.pool = (.ok (sn, ref), pool) ∧
          pool.arrIoServices[sn]? = some ref) ∧
        (∀ i, i ∈ s.granted → ∃ pool, exec (threadQuit i) s.pool = (.ok (), pool)) := by
  rcases exists_run Sound.step (sound_init poolSize) hcalls with ⟨s, hrun, hs⟩
  have hpool := hs.lockstep
  refine ⟨s, s.pool.arrIoServices.length, hrun, rfl, ?_, hpool.threads, hpool.status, hpool.next,
    ?_, hpool.distinct, hpool.alive, ?_, ?_⟩
  . rw [hpool.work]
  . intro j hj
    have href := List.getElem?_eq_getElem hj
    rcases hpool.runs j _ href with ⟨thread, hthread, hruns⟩
    exact ⟨_, thread, href, hthread, hruns⟩
  . rcases exec_getIoService hpool with ⟨sn, ref, pool, hexec, hgrants⟩
    exact ⟨sn, ref, pool, hexec, hgrants.getElem?_arrIoServices⟩
  . intro i hi
    refine ⟨_, exec_threadQuit ?_⟩
    rw [hpool.status]
    exact hs.granted i hi

theorem vectors_lockstep_of_growth
    : ∃ s L, run step (init 1) [.getIoService, .threadQuit 0, .threadQuit 0, .getIoService,
          .getIoService] = some s ∧
        s.pool.arrIoServices.length = L ∧ s.pool.arrWork.length = L ∧
        s.pool.arrThreads.length = L ∧ s.pool.arrThreadStatus.length = L := by
  rcases vectors_lockstep 1 [.getIoService, .threadQuit 0, .threadQuit 0, .getIoService,
    .getIoService] (by decide) with ⟨s, L, hrun, hservices, hwork, hthreads, hstatus, _⟩
  exact ⟨s, L, hrun, hservices, hwork, hthreads, hstatus⟩

end Clients
