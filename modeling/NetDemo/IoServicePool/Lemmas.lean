import NetDemo.IoServicePool.Basic

/-!
This module says once what the pool operations do when nothing throws: the vectors stay in lockstep,
`get_io_service` grants a slot in one of three ways and `threadQuit` gives one back.
-/

namespace IoServicePool

open ExceptState

structure Lockstep (pool : IoServicePool) : Prop where
  work : pool.arrWork = pool.arrIoServices
  threads : pool.arrThreads.length = pool.arrIoServices.length
  status : pool.arrThreadStatus.length = pool.arrIoServices.length
  next : pool.nextIoService ≤ pool.arrIoServices.length
  alive : ∀ ref, ref ∈ pool.arrIoServices → ref < pool.ioServices.length
  distinct : pool.arrIoServices.Nodup
  runs : ∀ (j : Nat) (ref : ServiceRef), pool.arrIoServices[j]? = some ref →
    ∃ thread, pool.arrThreads[j]? = some thread ∧ pool.threads[thread]? = some ref

def InUse (pool : IoServicePool) (i : Nat) : Prop :=
  ∃ status, pool.arrThreadStatus[i]? = some status ∧ status ≠ 0

def withStatus (pool : IoServicePool) (i : Nat) (status : Int) : IoServicePool :=
  { pool with arrThreadStatus := pool.arrThreadStatus.set i status }

def grown (pool : IoServicePool) : IoServicePool where
  ioServices := pool.ioServices ++ [⟨false⟩]
  threads := pool.threads ++ [pool.ioServices.length]
  arrIoServices := pool.arrIoServices ++ [pool.ioServices.length]
  arrWork := pool.arrWork ++ [pool.ioServices.length]
  arrThreads := pool.arrThreads ++ [pool.threads.length]
  arrThreadStatus := pool.arrThreadStatus ++ [1]
  nextIoService := pool.nextIoService + 1

/--
The three ways in which `get_io_service` grants a serial number and a service.
-/
inductive Grants (pool : IoServicePool) : Nat → ServiceRef → IoServicePool → Prop
  | fresh (ref : ServiceRef) (hnext : pool.nextIoService ≠ pool.arrIoServices.length)
      (href : pool.arrIoServices[pool.nextIoService]? = some ref)
      : Grants pool pool.nextIoService ref
          { pool.withStatus pool.nextIoService 1 with nextIoService := pool.nextIoService + 1 }
  | idle (i : Nat) (ref : ServiceRef) (hnext : pool.nextIoService = pool.arrIoServices.length)
      (hidle : pool.arrThreadStatus.findIdx? (· == 0) = some i)
      (href : pool.arrIoServices[i]? = some ref)
      : Grants pool i ref (pool.withStatus i 1)
  | grow (hnext : pool.nextIoService = pool.arrIoServices.length)
      (hfull : pool.arrThreadStatus.findIdx? (· == 0) = none)
      : Grants pool pool.nextIoService pool.ioServices.length pool.grown

section Exec

variable {pool : IoServicePool}

theorem exec_index {xs : List α} {i : Nat} {x : α} (h : xs[i]? = some x)
    : exec (index xs i) pool = (.ok x, pool) := by
  unfold index
  rw [h]
  rfl

@[simp]
theorem exec_attempt_noFailure (place : GrowStep)
    : exec (attempt noFailure place) pool = (.ok (), pool) := by
  rfl

theorem exec_setThreadStatus {i : Nat} (status : Int) (h : i < pool.arrThreadStatus.length)
    : exec (setThreadStatus i status) pool = (.ok (), pool.withStatus i status) := by
  unfold setThreadStatus
  simp [exec_index (List.getElem?_eq_getElem h), withStatus]

theorem exec_threadQuit {i : Nat} (h : i < pool.arrThreadStatus.length)
    : exec (threadQuit i) pool = (.ok (), pool.withStatus i 0) := by
  unfold threadQuit
  apply exec_setThreadStatus
  exact h

theorem findIdx?_status_eq_some {i : Nat} (h : pool.arrThreadStatus.findIdx? (· == 0) = some i)
    : pool.arrThreadStatus[i]? = some 0 := by
  have := List.findIdx?_eq_some_iff_getElem.mp h
  rcases this with ⟨hi, hzero, _⟩
  rw [List.getElem?_eq_getElem hi]
  simpa using hzero

theorem exec_checkIdleIOService_some {i : Nat}
    (h : pool.arrThreadStatus.findIdx? (· == 0) = some i)
    : exec checkIdleIOService pool = (.ok (some i), pool.withStatus i 1) := by
  have hi := (List.getElem?_eq_some_iff.mp (findIdx?_status_eq_some h)).1
  unfold checkIdleIOService
  simp [h, exec_setThreadStatus 1 hi]

theorem exec_checkIdleIOService_none (h : pool.arrThreadStatus.findIdx? (· == 0) = none)
    : exec checkIdleIOService pool = (.ok none, pool) := by
  unfold checkIdleIOService
  simp [h]

-- The service at the watermark is the one just pushed, because the caller found the two equal.
theorem exec_createIoService (hnext : pool.nextIoService = pool.arrIoServices.length)
    : exec (createIoService noFailure) pool =
        (.ok pool.nextIoService, { pool.grown with nextIoService := pool.nextIoService }) := by
  simp [createIoService, newIoService, newThread, pushIoService, pushWork, pushThread,
    pushThreadStatus, index, grown, hnext]

theorem exec_getIoService_fresh {ref : ServiceRef} (hpool : pool.Lockstep)
    (hnext : pool.nextIoService ≠ pool.arrIoServices.length)
    (href : pool.arrIoServices[pool.nextIoService]? = some ref)
    : exec (getIoService noFailure) pool =
        (.ok (pool.nextIoService, ref),
          { pool.withStatus pool.nextIoService 1 with
            nextIoService := pool.nextIoService + 1 }) := by
  have hlt : pool.nextIoService < pool.arrThreadStatus.length := by
    have := hpool.next
    rw [hpool.status]
    omega
  unfold getIoService
  simp [hnext, exec_index href, exec_setThreadStatus 1 hlt, incNext, withStatus]

theorem exec_getIoService_idle {i : Nat} {ref : ServiceRef}
    (hnext : pool.nextIoService = pool.arrIoServices.length)
    (hidle : pool.arrThreadStatus.findIdx? (· == 0) = some i)
    (href : pool.arrIoServices[i]? = some ref)
    : exec (getIoService noFailure) pool = (.ok (i, ref), pool.withStatus i 1) := by
  have href' : (pool.withStatus i 1).arrIoServices[i]? = some ref := href
  unfold getIoService
  simp [hnext, exec_checkIdleIOService_some hidle, exec_index href']

theorem exec_getIoService_grow (hnext : pool.nextIoService = pool.arrIoServices.length)
    (hfull : pool.arrThreadStatus.findIdx? (· == 0) = none)
    : exec (getIoService noFailure) pool =
        (.ok (pool.nextIoService, pool.ioServices.length), pool.grown) := by
  unfold getIoService
  simp [exec_checkIdleIOService_none hfull, exec_createIoService hnext, incNext, grown, index,
    hnext]

theorem exec_getIoService (hpool : pool.Lockstep)
    : ∃ sn ref pool', exec (getIoService noFailure) pool = (.ok (sn, ref), pool') ∧
        pool.Grants sn ref pool' := by
  by_cases hnext : pool.nextIoService = pool.arrIoServices.length
  . cases hidle : pool.arrThreadStatus.findIdx? (· == 0) with
    | none =>
      refine ⟨_, _, _, exec_getIoService_grow hnext hidle, ?_⟩
      exact .grow hnext hidle
    | some i =>
      have hi := (List.getElem?_eq_some_iff.mp (findIdx?_status_eq_some hidle)).1
      rw [hpool.status] at hi
      have href := List.getElem?_eq_getElem hi
      refine ⟨_, _, _, exec_getIoService_idle hnext hidle href, ?_⟩
      exact .idle i _ hnext hidle href
  . have hlt : pool.nextIoService < pool.arrIoServices.length := by
      have := hpool.next
      omega
    have href := List.getElem?_eq_getElem hlt
    refine ⟨_, _, _, exec_getIoService_fresh hpool hnext href, ?_⟩
    exact .fresh _ hnext href

end Exec

section Grants

variable {pool pool' : IoServicePool} {sn : Nat} {ref : ServiceRef}

theorem Lockstep.withStatus (hpool : pool.Lockstep) (i : Nat) (status : Int)
    : (pool.withStatus i status).Lockstep where
  work := hpool.work
  threads := hpool.threads
  status := Eq.trans List.length_set hpool.status
  next := hpool.next
  alive := hpool.alive
  distinct := hpool.distinct
  runs := hpool.runs

theorem Lockstep.grown (hpool : pool.Lockstep)
    (hnext : pool.nextIoService = pool.arrIoServices.length)
    : pool.grown.Lockstep where
  work := by simp [IoServicePool.grown, hpool.work]
  threads := by simp [IoServicePool.grown, hpool.threads]
  status := by simp [IoServicePool.grown, hpool.status]
  next := by simp [IoServicePool.grown, hnext]
  alive := by
    intro ref href
    simp only [IoServicePool.grown, List.mem_append, List.mem_singleton, List.length_append,
      List.length_singleton] at href ⊢
    cases href with
    | inl hold => exact Nat.lt_succ_of_lt (hpool.alive ref hold)
    | inr hnew => exact hnew ▸ Nat.lt_succ_self _
  distinct := by
    simp only [IoServicePool.grown]
    rw [List.nodup_append]
    refine ⟨hpool.distinct, by simp, ?_⟩
    intro ref href new hnew
    rw [List.mem_singleton.mp hnew]
    exact Nat.ne_of_lt (hpool.alive ref href)
  runs := by
    intro j ref href
    have hthreads := hpool.threads
    simp only [IoServicePool.grown] at href ⊢
    cases Nat.lt_or_ge j pool.arrIoServices.length with
    | inl hlt =>
      rw [List.getElem?_append_left hlt] at href
      rcases hpool.runs j ref href with ⟨thread, hthread, hruns⟩
      refine ⟨thread, ?_, ?_⟩
      . rw [List.getElem?_append_left]
        . exact hthread
        . omega
      . rw [List.getElem?_append_left]
        . exact hruns
        . exact (List.getElem?_eq_some_iff.mp hruns).1
    | inr hge =>
      rw [List.getElem?_append_right hge] at href
      have hj : j - pool.arrIoServices.length = 0 := by
        have := (List.getElem?_eq_some_iff.mp href).1
        simpa using this
      rw [hj] at href
      have hj' : j - pool.arrThreads.length = 0 := by omega
      refine ⟨pool.threads.length, ?_, ?_⟩
      . rw [List.getElem?_append_right]
        . simp [hj']
        . omega
      . simpa using href

theorem Grants.lockstep (h : pool.Grants sn ref pool') (hpool : pool.Lockstep)
    : pool'.Lockstep := by
  cases h with
  | fresh ref hnext href =>
    have hlt := (List.getElem?_eq_some_iff.mp href).1
    exact { hpool.withStatus pool.nextIoService 1 with next := hlt }
  | idle i ref hnext hidle href => exact hpool.withStatus sn 1
  | grow hnext hfull => exact hpool.grown hnext

theorem Grants.getElem?_arrIoServices (h : pool.Grants sn ref pool')
    : pool'.arrIoServices[sn]? = some ref := by
  cases h with
  | fresh ref hnext href => exact href
  | idle i ref hnext hidle href => exact href
  | grow hnext hfull => simp [IoServicePool.grown, hnext]

theorem Grants.lt_length (h : pool.Grants sn ref pool') : sn < pool'.arrIoServices.length :=
  (List.getElem?_eq_some_iff.mp h.getElem?_arrIoServices).1

theorem Grants.length_le (h : pool.Grants sn ref pool')
    : pool.arrIoServices.length ≤ pool'.arrIoServices.length := by
  cases h with
  | fresh ref hnext href => exact Nat.le_refl _
  | idle i ref hnext hidle href => exact Nat.le_refl _
  | grow hnext hfull => simp [IoServicePool.grown]

theorem Grants.lt_next (h : pool.Grants sn ref pool') : sn < pool'.nextIoService := by
  cases h with
  | fresh ref hnext href => simp
  | idle i ref hnext hidle href =>
    have hlt := (List.getElem?_eq_some_iff.mp href).1
    simp only [IoServicePool.withStatus]
    omega
  | grow hnext hfull => simp [IoServicePool.grown]

theorem Grants.next_le (h : pool.Grants sn ref pool')
    : pool.nextIoService ≤ pool'.nextIoService := by
  cases h with
  | fresh ref hnext href => simp
  | idle i ref hnext hidle href => simp [IoServicePool.withStatus]
  | grow hnext hfull => simp [IoServicePool.grown]

theorem inUse_withStatus (i j : Nat) (status : Int) (hj : j < pool.arrThreadStatus.length)
    : (pool.withStatus j status).InUse i ↔ if i = j then status ≠ 0 else pool.InUse i := by
  unfold InUse IoServicePool.withStatus
  dsimp
  rw [List.getElem?_set]
  split
  . next heq =>
    subst heq
    simp
  . next hne =>
    have : ¬ (i = j) := fun h => hne h.symm
    rw [if_neg this]

theorem InUse.lt_length {i : Nat} (h : pool.InUse i) (hpool : pool.Lockstep)
    : i < pool.arrIoServices.length := by
  rcases h with ⟨status, hget, _⟩
  rw [← hpool.status]
  exact (List.getElem?_eq_some_iff.mp hget).1

theorem inUse_grown (i : Nat) (hpool : pool.Lockstep)
    : pool.grown.InUse i ↔ i = pool.arrIoServices.length ∨ pool.InUse i := by
  have hlen := hpool.status
  unfold InUse IoServicePool.grown
  dsimp
  cases Nat.lt_or_ge i pool.arrThreadStatus.length with
  | inl hlt =>
    rw [List.getElem?_append_left hlt]
    have : ¬ (i = pool.arrIoServices.length) := by omega
    simp [this]
  | inr hge =>
    rw [List.getElem?_append_right hge, List.getElem?_eq_none hge]
    cases Nat.eq_or_lt_of_le hge with
    | inl heq => simp [← heq, hlen]
    | inr hlt =>
      have h1 : ¬ (i = pool.arrIoServices.length) := by omega
      have h2 : ∃ k, i - pool.arrThreadStatus.length = k + 1 :=
        ⟨i - pool.arrThreadStatus.length - 1, by omega⟩
      rcases h2 with ⟨k, hk⟩
      simp [hk, h1]

-- Whichever way it was granted, the slot is in use afterwards and the others are as before.
theorem Grants.inUse_iff (h : pool.Grants sn ref pool') (hpool : pool.Lockstep) (i : Nat)
    : pool'.InUse i ↔ i = sn ∨ pool.InUse i := by
  have hstatus := hpool.status
  cases h with
  | fresh ref hnext href =>
    have hlt := (List.getElem?_eq_some_iff.mp href).1
    apply Iff.trans (inUse_withStatus i pool.nextIoService 1 (by omega))
    split
    . next heq => simp [heq]
    . next hne => simp [hne]
  | idle i' ref hnext hidle href =>
    have hlt := (List.getElem?_eq_some_iff.mp href).1
    rw [inUse_withStatus i sn 1 (by omega)]
    split
    . next heq => simp [heq]
    . next hne => simp [hne]
  | grow hnext hfull =>
    rw [inUse_grown i hpool, hnext]

theorem inUse_of_full (hpool : pool.Lockstep)
    (hfull : pool.arrThreadStatus.findIdx? (· == 0) = none) {i : Nat}
    (hi : i < pool.arrIoServices.length)
    : pool.InUse i := by
  rw [← hpool.status] at hi
  refine ⟨pool.arrThreadStatus[i], List.getElem?_eq_getElem hi, ?_⟩
  have := List.findIdx?_eq_none_iff.mp hfull pool.arrThreadStatus[i] (List.getElem_mem hi)
  simpa using this

theorem not_inUse_of_idle {i : Nat} (hidle : pool.arrThreadStatus.findIdx? (· == 0) = some i)
    : ¬ pool.InUse i := by
  intro h
  rcases h with ⟨status, hget, hne⟩
  rw [findIdx?_status_eq_some hidle] at hget
  simp only [Option.some.injEq] at hget
  exact hne hget.symm

-- The slots from the watermark on must be free for this, see `Refines` for why they are.
theorem Grants.not_inUse (h : pool.Grants sn ref pool') (hpool : pool.Lockstep)
    (hfree : ∀ i, pool.nextIoService ≤ i → ¬ pool.InUse i)
    : ¬ pool.InUse sn := by
  cases h with
  | fresh ref hnext href => exact hfree pool.nextIoService (Nat.le_refl _)
  | idle i ref hnext hidle href => exact not_inUse_of_idle hidle
  | grow hnext hfull =>
    intro h
    have := h.lt_length hpool
    omega

end Grants

section New

-- The pool after `k` rounds of the first loop of the constructor.
private def services (k : Nat) : IoServicePool where
  ioServices := List.replicate k ⟨false⟩
  threads := []
  arrIoServices := List.range k
  arrWork := List.range k
  arrThreads := []
  arrThreadStatus := []
  nextIoService := 0

-- The pool after `k` rounds of its second loop.
private def started (poolSize k : Nat) : IoServicePool :=
  { services poolSize with
    threads := List.range k
    arrThreads := List.range k
    arrThreadStatus := List.replicate k 0 }

theorem exec_construct (poolSize : Nat)
    : exec (construct poolSize) empty = (.ok (), started poolSize poolSize) := by
  unfold construct
  rw [exec_bind]
  have hservices := exec_forLoop services
    (fun _ => do
      let ioService ← newIoService
      let work := ioService
      pushIoService ioService
      pushWork work) poolSize (by
        intro i hi
        simp [newIoService, pushIoService, pushWork, services, List.range_succ,
          List.replicate_succ'])
  rw [show empty = services 0 from rfl, hservices]
  dsimp only
  rw [exec_bind, exec_get]
  dsimp only
  have hlen : (services poolSize).arrIoServices.length = poolSize := by simp [services]
  rw [hlen, show services poolSize = started poolSize 0 from rfl]
  apply exec_forLoop
  intro i hi
  simp [newThread, pushThread, pushThreadStatus, started, services, index, hi, List.range_succ,
    List.replicate_succ']

theorem new_eq (poolSize : Nat)
    : new poolSize =
        { ioServices := List.replicate poolSize ⟨false⟩
          threads := List.range poolSize
          arrIoServices := List.range poolSize
          arrWork := List.range poolSize
          arrThreads := List.range poolSize
          arrThreadStatus := List.replicate poolSize 0
          nextIoService := 0 } := by
  unfold new
  rw [exec_construct]
  rfl

theorem lockstep_new (poolSize : Nat) : (new poolSize).Lockstep := by
  rw [new_eq]
  constructor
  case work => rfl
  case threads => rfl
  case status => simp
  case next => simp
  case alive => simp
  case distinct => exact List.nodup_range
  case runs =>
    intro j ref href
    have hj := (List.getElem?_eq_some_iff.mp href).1
    simp only [List.length_range] at hj
    have hrange : (List.range poolSize)[j]? = some j := List.getElem?_range hj
    dsimp only at href ⊢
    rw [hrange] at href
    simp only [Option.some.injEq] at href
    subst href
    exact ⟨j, hrange, hrange⟩

@[simp]
theorem length_new (poolSize : Nat) : (new poolSize).arrIoServices.length = poolSize := by
  simp [new_eq]

@[simp]
theorem next_new (poolSize : Nat) : (new poolSize).nextIoService = 0 := by
  simp [new_eq]

theorem not_inUse_new (poolSize i : Nat) : ¬ (new poolSize).InUse i := by
  rw [new_eq]
  intro h
  rcases h with ⟨status, hget, hne⟩
  dsimp only at hget
  have := List.mem_of_getElem? hget
  have := List.eq_of_mem_replicate this
  exact hne this

end New

end IoServicePool
