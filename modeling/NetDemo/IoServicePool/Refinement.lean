import NetDemo.IoServicePool.Clients
import NetDemo.Lib.SlotAllocator

/-!
This module relates the pool to the abstract slot allocator: as long as callers give back only what
they hold, the status vector and the watermark together are the set of held slots.
-/

open ExceptState

structure Refines (pool : IoServicePool) (alloc : SlotAllocator) : Prop where
  lockstep : pool.Lockstep
  cap : alloc.cap = pool.arrIoServices.length
  held : ∀ i, i ∈ alloc.held ↔ pool.InUse i
  watermark : ∀ i, i ∈ alloc.held → i < pool.nextIoService

namespace Refines

open IoServicePool

variable {pool pool' : IoServicePool} {alloc : SlotAllocator} {sn : Nat} {ref : ServiceRef}

theorem init (poolSize : Nat) : Refines (new poolSize) (SlotAllocator.init poolSize) where
  lockstep := lockstep_new poolSize
  cap := by simp [SlotAllocator.init]
  held := by
    intro i
    simp [SlotAllocator.init, not_inUse_new]
  watermark := by simp [SlotAllocator.init]

theorem not_inUse_of_next_le (h : Refines pool alloc) (i : Nat) (hi : pool.nextIoService ≤ i)
    : ¬ pool.InUse i := by
  intro hinUse
  have := h.watermark i ((h.held i).mpr hinUse)
  omega

theorem held_iff_of_grants (h : Refines pool alloc) (hgrants : pool.Grants sn ref pool') (i : Nat)
    : i ∈ insert sn alloc.held ↔ pool'.InUse i := by
  rw [Finset.mem_insert, hgrants.inUse_iff h.lockstep, h.held]

theorem watermark_of_grants (h : Refines pool alloc) (hgrants : pool.Grants sn ref pool') (i : Nat)
    (hi : i ∈ insert sn alloc.held)
    : i < pool'.nextIoService := by
  cases Finset.mem_insert.mp hi with
  | inl heq => exact heq ▸ hgrants.lt_next
  | inr hold => exact Nat.lt_of_lt_of_le (h.watermark i hold) hgrants.next_le

theorem getIoService (h : Refines pool alloc) (hgrants : pool.Grants sn ref pool')
    : ∃ next, alloc.Step (.acquire sn) next ∧ Refines pool' next := by
  have hlockstep := hgrants.lockstep h.lockstep
  have hheld := h.held_iff_of_grants hgrants
  have hwatermark := h.watermark_of_grants hgrants
  have hfree : sn ∉ alloc.held := by
    rw [h.held]
    apply hgrants.not_inUse h.lockstep
    exact h.not_inUse_of_next_le
  cases hgrants with
  | fresh ref hnext href =>
    have hlt : pool.nextIoService < alloc.cap := by
      rw [h.cap]
      exact (List.getElem?_eq_some_iff.mp href).1
    exact ⟨_, .acquire _ hlt hfree, hlockstep, h.cap, hheld, hwatermark⟩
  | idle i ref hnext hidle href =>
    have hlt : sn < alloc.cap := by
      rw [h.cap]
      exact (List.getElem?_eq_some_iff.mp href).1
    exact ⟨_, .acquire _ hlt hfree, hlockstep, h.cap, hheld, hwatermark⟩
  | grow hnext hfull =>
    have hall : ∀ i, i < alloc.cap → i ∈ alloc.held := by
      intro i hi
      rw [h.held]
      apply inUse_of_full h.lockstep hfull
      rwa [← h.cap]
    have hsn : pool.nextIoService = alloc.cap := by rw [hnext, h.cap]
    rw [hsn] at hheld hwatermark ⊢
    refine ⟨_, .grow hall, hlockstep, ?_, hheld, hwatermark⟩
    simp [SlotAllocator.grow, IoServicePool.grown, h.cap]

theorem threadQuit {i : Nat} (h : Refines pool alloc) (hi : i ∈ alloc.held)
    : i < pool.arrThreadStatus.length ∧
        ∃ next, alloc.Step (.release i) next ∧ Refines (pool.withStatus i 0) next := by
  have hlt : i < pool.arrThreadStatus.length := by
    rw [h.lockstep.status, ← h.cap]
    exact alloc.held_lt i hi
  refine ⟨hlt, _, .release i hi, ?_⟩
  constructor
  case lockstep => exact h.lockstep.withStatus i 0
  case cap => exact h.cap
  case held =>
    intro j
    rw [inUse_withStatus j i 0 hlt]
    by_cases heq : j = i
    . simp [SlotAllocator.release, heq]
    . simp [SlotAllocator.release, heq, h.held]
  case watermark =>
    intro j hj
    exact h.watermark j (Finset.mem_of_mem_erase hj)

theorem length_of_grants (h : Refines pool alloc) (hgrants : pool.Grants sn ref pool')
    : (∀ i, i < pool.arrIoServices.length → i ∈ alloc.held) ∧
          pool'.arrIoServices.length = pool.arrIoServices.length + 1 ∨
        (∃ i, i < pool.arrIoServices.length ∧ i ∉ alloc.held) ∧
          pool'.arrIoServices.length = pool.arrIoServices.length := by
  rcases h.getIoService hgrants with ⟨next, hstep, hnext⟩
  rw [← h.cap, ← hnext.cap]
  exact hstep.cap_acquire

end Refines

namespace Clients

open IoServicePool Transition

-- The allocator that the clients see, with the slots that they hold.
def Sees (s : Clients) (alloc : SlotAllocator) : Prop :=
  Refines s.pool alloc ∧ alloc.held = s.held ∧ ∀ i, i ∈ s.granted → i < s.pool.nextIoService

theorem sees_init (poolSize : Nat) : (init poolSize).Sees (SlotAllocator.init poolSize) := by
  refine ⟨Refines.init poolSize, rfl, ?_⟩
  simp [init]

theorem Sees.step {s : Clients} {alloc : SlotAllocator} {call : Call} (hs : s.Sees alloc)
    (hcall : QuitsHeld s call)
    : ∃ t, Clients.step s call = some t ∧ ∃ action next, alloc.Step action next ∧ t.Sees next := by
  rcases hs with ⟨hrefines, hheld, hgranted⟩
  cases call with
  | getIoService =>
    rcases step_getIoService hrefines.lockstep with ⟨sn, ref, pool, hgrants, _, hstep⟩
    rcases hrefines.getIoService hgrants with ⟨next, hacquire, hnext⟩
    refine ⟨_, hstep, _, next, hacquire, hnext, ?_, ?_⟩
    . rw [hacquire.held_acquire, hheld]
    . intro i hi
      cases Finset.mem_insert.mp hi with
      | inl heq => exact heq ▸ hgrants.lt_next
      | inr hold => exact Nat.lt_of_lt_of_le (hgranted i hold) hgrants.next_le
  | threadQuit i =>
    have hi : i ∈ alloc.held := hheld ▸ hcall
    rcases hrefines.threadQuit hi with ⟨hlt, next, hrelease, hnext⟩
    refine ⟨_, step_threadQuit hlt, _, next, hrelease, hnext, ?_, hgranted⟩
    rw [hrelease.held_release, hheld]

/--
Every run of the pool whose callers give back only what they hold is a run of the slot allocator.
-/
theorem refines_slotAllocator (poolSize : Nat) (calls : List Call) (s : Clients)
    (hcalls : Meets step QuitsHeld (init poolSize) calls)
    (hrun : run step (init poolSize) calls = some s)
    : ∃ alloc, Relation.ReflTransGen (fun a b => ∃ action, SlotAllocator.Step a action b)
        (SlotAllocator.init poolSize) alloc ∧ s.Sees alloc := by
  apply simulates_of_run (c := QuitsHeld) _ (sees_init poolSize) hcalls hrun
  intro s call t alloc hs hcall hstep
  rcases hs.step hcall with ⟨t', hstep', action, next, hnext, hsees⟩
  rw [hstep] at hstep'
  simp only [Option.some.injEq] at hstep'
  subst hstep'
  exact ⟨next, .single ⟨action, hnext⟩, hsees⟩

theorem exists_sees (poolSize : Nat) (calls : List Call)
    (hcalls : Meets step QuitsHeld (init poolSize) calls)
    : ∃ s, run step (init poolSize) calls = some s ∧ ∃ alloc, s.Sees alloc := by
  apply exists_run (c := QuitsHeld) _ ⟨_, sees_init poolSize⟩ hcalls
  intro s call hs hcall
  rcases hs with ⟨alloc, hs⟩
  rcases hs.step hcall with ⟨t, hstep, _, next, _, hsees⟩
  exact ⟨t, hstep, next, hsees⟩

/--
The status vector marks exactly the held serial numbers, none is granted ahead of the watermark, and
no call grants a serial number that is still held.
-/
theorem slot_exclusivity (poolSize : Nat) (calls : List Call)
    (hcalls : Meets step QuitsHeld (init poolSize) calls)
    : ∃ s, run step (init poolSize) calls = some s ∧
        (∀ i : Nat, (∃ status, s.pool.arrThreadStatus[i]? = some status ∧ status ≠ 0) ↔
          i ∈ s.held) ∧
        (∀ i, s.pool.nextIoService ≤ i → i ∉ s.granted) ∧
        ∃ sn ref pool, exec (getIoService noFailure) s.pool = (.ok (sn, ref), pool) ∧
          sn ∉ s.held := by
  rcases exists_sees poolSize calls hcalls with ⟨s, hrun, alloc, hrefines, hheld, hgranted⟩
  refine ⟨s, hrun, ?_, ?_, ?_⟩
  . intro i
    rw [← hheld]
    exact (hrefines.held i).symm
  . intro i hi hmem
    have := hgranted i hmem
    omega
  . rcases exec_getIoService hrefines.lockstep with ⟨sn, ref, pool, hexec, hgrants⟩
    rcases hrefines.getIoService hgrants with ⟨next, hstep, _⟩
    refine ⟨sn, ref, pool, hexec, ?_⟩
    rw [← hheld]
    exact hstep.not_mem_held

theorem slot_exclusivity_of_reuse
    : ∃ s, run step (init 1) [.getIoService, .getIoService, .threadQuit 0, .getIoService] = some s ∧
        ∃ sn ref pool, exec (getIoService noFailure) s.pool = (.ok (sn, ref), pool) ∧
          sn ∉ s.held := by
  rcases slot_exclusivity 1 [.getIoService, .getIoService, .threadQuit 0, .getIoService]
    (by decide) with ⟨s, hrun, _, _, hnext⟩
  exact ⟨s, hrun, hnext⟩

/--
The pool has as many services and threads as it was made with, or as the largest number of slots held
at a time, and it grows exactly when a slot is asked for while all of them are held.
-/
theorem size_eq_max_peak (poolSize : Nat) (calls : List Call)
    (hcalls : Meets step QuitsHeld (init poolSize) calls)
    : ∃ s, run step (init poolSize) calls = some s ∧
        s.pool.arrIoServices.length =
          max poolSize (peak step (fun s => s.held.card) (init poolSize) calls) ∧
        s.pool.arrThreads.length = s.pool.arrIoServices.length ∧
        ∀ sn ref pool, exec (getIoService noFailure) s.pool = (.ok (sn, ref), pool) →
          (∀ i, i < s.pool.arrIoServices.length → i ∈ s.held) ∧
              pool.arrIoServices.length = s.pool.arrIoServices.length + 1 ∨
            (∃ i, i < s.pool.arrIoServices.length ∧ i ∉ s.held) ∧
              pool.arrIoServices.length = s.pool.arrIoServices.length := by
  rcases exists_sees poolSize calls hcalls with ⟨s, hrun, alloc, hrefines, hheld, _⟩
  refine ⟨s, hrun, ?_, hrefines.lockstep.threads, ?_⟩
  . have hinv : ∃ alloc, s.Sees alloc ∧
        alloc.cap = max poolSize (peak step (fun s => s.held.card) (init poolSize) calls) := by
      apply inv_peak_of_run (c := QuitsHeld)
        (I := fun s peak => ∃ alloc, s.Sees alloc ∧ alloc.cap = max poolSize peak) _ _ hcalls hrun
      . intro s call t peak hs hcall hstep
        rcases hs with ⟨alloc, hs, hcap⟩
        rcases hs.step hcall with ⟨t', hstep', action, next, hnext, hsees⟩
        rw [hstep] at hstep'
        simp only [Option.some.injEq] at hstep'
        subst hstep'
        refine ⟨next, hsees, ?_⟩
        rw [← hsees.right.left]
        exact hnext.cap_eq_max hcap
      . exact ⟨_, sees_init poolSize, by simp [SlotAllocator.init, init]⟩
    rcases hinv with ⟨alloc, hsees, hcap⟩
    rw [← hsees.left.cap, hcap]
  . intro sn ref pool hexec
    rcases exec_getIoService hrefines.lockstep with ⟨sn', ref', pool', hexec', hgrants⟩
    rw [hexec] at hexec'
    simp only [Prod.mk.injEq, Except.ok.injEq] at hexec'
    rcases hexec' with ⟨⟨hsn, href⟩, hpool⟩
    subst hsn href hpool
    rw [← hheld]
    exact hrefines.length_of_grants hgrants

theorem size_eq_max_peak_of_growth
    : ∃ s, run step (init 1) [.getIoService, .getIoService, .threadQuit 0, .getIoService] = some s ∧
        s.pool.arrIoServices.length =
          max 1 (peak step (fun s => s.held.card) (init 1)
            [.getIoService, .getIoService, .threadQuit 0, .getIoService]) := by
  rcases size_eq_max_peak 1 [.getIoService, .getIoService, .threadQuit 0, .getIoService]
    (by decide) with ⟨s, hrun, hsize, _⟩
  exact ⟨s, hrun, hsize⟩

end Clients
