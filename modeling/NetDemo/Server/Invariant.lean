import NetDemo.Server.Lemmas

/-!
This module contains what is true of the server after every run, whatever the events were.
-/

namespace IoServicePool

-- No slot from the watermark on is in use. This holds even if slots are given back twice.
structure Regular (pool : IoServicePool) : Prop where
  lockstep : pool.Lockstep
  free : ∀ i, pool.nextIoService ≤ i → ¬ pool.InUse i

variable {pool pool' : IoServicePool} {sn : Nat} {ref : ServiceRef}

theorem regular_new (poolSize : Nat) : (new poolSize).Regular where
  lockstep := lockstep_new poolSize
  free := by
    intro i _
    apply not_inUse_new

theorem Grants.regular (h : pool.Grants sn ref pool') (hpool : pool.Regular) : pool'.Regular where
  lockstep := h.lockstep hpool.lockstep
  free := by
    intro i hi hinUse
    have hlt := h.lt_next
    have hle := h.next_le
    rw [h.inUse_iff hpool.lockstep] at hinUse
    cases hinUse with
    | inl heq => omega
    | inr hold => exact hpool.free i (by omega) hold

theorem inUse_release {i : Nat} (hi : i < pool.arrThreadStatus.length) (j : Nat)
    : (pool.withStatus i 0).InUse j ↔ j ≠ i ∧ pool.InUse j := by
  rw [inUse_withStatus j i 0 hi]
  by_cases heq : j = i
  . simp [heq]
  . simp [heq]

theorem Regular.withStatus_zero (hpool : pool.Regular) {i : Nat}
    (hi : i < pool.arrThreadStatus.length)
    : (pool.withStatus i 0).Regular where
  lockstep := hpool.lockstep.withStatus i 0
  free := by
    intro j hj hinUse
    rw [inUse_release hi] at hinUse
    exact hpool.free j hj hinUse.right

theorem Grants.not_inUse_of_regular (h : pool.Grants sn ref pool') (hpool : pool.Regular)
    : ¬ pool.InUse sn := by
  apply h.not_inUse hpool.lockstep
  exact hpool.free

theorem Grants.eq_zero (h : pool.Grants sn ref pool') (hnext : pool.nextIoService = 0)
    : sn = 0 := by
  cases h with
  | fresh ref hne href => exact hnext
  | idle i ref heq hidle href =>
    have := (List.getElem?_eq_some_iff.mp href).1
    omega
  | grow heq hfull => exact hnext

end IoServicePool

namespace Server

open ExceptState IoServicePool Transition

structure Wf (s : Server) : Prop where
  pool : s.pool.Regular
  one : s.accepting.length ≤ 1
  pending : ∀ k, k ∈ s.accepting → ∃ session, s.sessions[k]? = some session ∧
    session.accepted = false
  broadcast : ∀ k, k ∈ s.arrSessions ↔ ∃ session, s.sessions[k]? = some session ∧
    session.accepted = true
  nodup : s.arrSessions.Nodup
  silent : ∀ (k : SessionRef) (session : Session), s.sessions[k]? = some session →
    session.accepted = false →
      session.started = false ∧ session.writes = [] ∧ session.completed = []

variable {s t : Server} {k : SessionRef} {session session' : Session}

theorem Wf.accepting_eq (hs : s.Wf) {i : Nat} (hi : s.accepting[i]? = some k)
    : s.accepting = [k] ∧ s.accepting.eraseIdx i = [] := by
  have hone := hs.one
  cases hacc : s.accepting with
  | nil => simp [hacc] at hi
  | cons k' ks =>
    cases ks with
    | nil =>
      rw [hacc] at hi
      cases i with
      | zero =>
        simp only [List.getElem?_cons_zero, Option.some.injEq] at hi
        simp [hi]
      | succ i => simp at hi
    | cons k'' ks => simp [hacc] at hone

theorem Wf.not_accepted (hs : s.Wf) {i : Nat} (hi : s.accepting[i]? = some k)
    (hk : s.sessions[k]? = some session)
    : session.accepted = false := by
  rcases hs.pending k (List.mem_of_getElem? hi) with ⟨_, hk', hnot⟩
  rw [hk] at hk'
  simp only [Option.some.injEq] at hk'
  rwa [hk']

theorem Wf.not_mem_accepting (hs : s.Wf) (hk : s.sessions[k]? = some session)
    (haccepted : session.accepted = true)
    : k ∉ s.accepting := by
  intro hpending
  rcases hs.pending k hpending with ⟨_, hk', hnot⟩
  rw [hk] at hk'
  simp only [Option.some.injEq] at hk'
  simp [← hk', haccepted] at hnot

theorem Wf.accepted_of_write (hs : s.Wf) {w : Nat} {write : AsyncWrite}
    (hk : s.sessions[k]? = some session) (hwrite : session.writes[w]? = some write)
    : session.accepted = true := by
  by_contra hnot
  have hsilent := hs.silent k session hk (by simpa using hnot)
  simp [hsilent.right.left] at hwrite

theorem Wf.refused (hs : s.Wf) (i : Nat) : Wf { s with accepting := s.accepting.eraseIdx i } where
  pool := hs.pool
  one := by
    have hle := List.length_eraseIdx_le s.accepting i
    exact Nat.le_trans hle hs.one
  pending := by
    intro k hk
    exact hs.pending k (List.mem_of_mem_eraseIdx hk)
  broadcast := hs.broadcast
  nodup := hs.nodup
  silent := hs.silent

theorem Wf.admitted (hs : s.Wf) {i : Nat} (hi : s.accepting[i]? = some k)
    (hk : s.sessions[k]? = some session) (haccepted : session'.accepted = true)
    : (s.admitted i k session').Wf := by
  have hempty := (hs.accepting_eq hi).right
  have hnot := hs.not_accepted hi hk
  constructor
  case pool => exact hs.pool
  case one => simp [Server.admitted, hempty]
  case pending => simp [Server.admitted, hempty]
  case broadcast =>
    intro j
    simp only [Server.admitted, List.mem_append, List.mem_singleton, lookup_set hk]
    by_cases hj : j = k
    . simp [hj, haccepted]
    . simp [hj, hs.broadcast]
  case nodup =>
    simp only [Server.admitted]
    rw [List.nodup_append]
    refine ⟨hs.nodup, by simp, ?_⟩
    intro j hj k' hk' heq
    rw [List.mem_singleton] at hk'
    subst heq hk'
    rcases (hs.broadcast j).mp hj with ⟨_, hget, htrue⟩
    rw [hk] at hget
    simp only [Option.some.injEq] at hget
    subst hget
    simp [hnot] at htrue
  case silent =>
    intro j x hx hfalse
    simp only [Server.admitted, lookup_set hk] at hx
    split at hx
    . simp only [Option.some.injEq] at hx
      subst hx
      simp [haccepted] at hfalse
    . exact hs.silent j x hx hfalse

theorem Wf.armed (hs : s.Wf) (hempty : s.accepting = []) {sn : Nat} {ref : ServiceRef}
    {pool : IoServicePool} (hgrants : s.pool.Grants sn ref pool)
    : (s.armed sn ref pool).Wf := by
  constructor
  case pool => exact hgrants.regular hs.pool
  case one => simp [Server.armed, hempty]
  case pending =>
    intro j hj
    simp only [Server.armed, hempty, List.nil_append, List.mem_singleton] at hj
    subst hj
    refine ⟨.new ref sn, ?_, rfl⟩
    rw [lookup_armed, if_pos rfl]
  case broadcast =>
    intro j
    rw [lookup_armed]
    apply Iff.trans (hs.broadcast j)
    by_cases hj : j = s.sessions.length
    . simp [hj, Session.new]
    . simp [hj]
  case nodup => exact hs.nodup
  case silent =>
    intro j x hx hfalse
    rw [lookup_armed] at hx
    split at hx
    . simp only [Option.some.injEq] at hx
      subst hx
      exact ⟨rfl, rfl, rfl⟩
    . exact hs.silent j x hx hfalse

theorem Wf.sendData (hs : s.Wf) (msg : Bytes) (slack : List Nat) : (s.sendData msg slack).Wf where
  pool := hs.pool
  one := hs.one
  pending := by
    intro k hk
    rcases hs.pending k hk with ⟨session, hsession, hnot⟩
    refine ⟨session, ?_, hnot⟩
    have hmem : k ∉ s.arrSessions := by
      rw [hs.broadcast]
      simp [hsession, hnot]
    rw [lookup_sendData hs.nodup, hsession]
    simp [hmem]
  broadcast := by
    intro k
    rw [lookup_sendData hs.nodup]
    apply Iff.trans (hs.broadcast k)
    cases s.sessions[k]? with
    | none => simp
    | some session =>
      simp only [Option.map_some, Option.some.injEq, exists_eq_left']
      split
      . rfl
      . rfl
  nodup := hs.nodup
  silent := by
    intro k x hx hfalse
    rw [lookup_sendData hs.nodup, Option.map_eq_some_iff] at hx
    rcases hx with ⟨session, hsession, heq⟩
    split at heq
    . next hmem =>
      rcases (hs.broadcast k).mp hmem with ⟨_, hget, htrue⟩
      rw [hsession] at hget
      simp only [Option.some.injEq] at hget
      subst hget heq
      simp [Session.sendData, htrue] at hfalse
    . subst heq
      exact hs.silent k session hsession hfalse

theorem Wf.replaced (hs : s.Wf) (hk : s.sessions[k]? = some session)
    (haccepted : session.accepted = true) (haccepted' : session'.accepted = true)
    {pool : IoServicePool} (hpool : pool.Regular)
    : (s.replaced k session' pool).Wf := by
  constructor
  case pool => exact hpool
  case one => exact hs.one
  case pending =>
    intro j hj
    rcases hs.pending j hj with ⟨x, hx, hnot⟩
    refine ⟨x, ?_, hnot⟩
    have hne : j ≠ k := by
      intro heq
      subst heq
      exact hs.not_mem_accepting hk haccepted hj
    simp only [Server.replaced, lookup_set hk, if_neg hne]
    exact hx
  case broadcast =>
    intro j
    simp only [Server.replaced, lookup_set hk]
    apply Iff.trans (hs.broadcast j)
    by_cases hj : j = k
    . simp [hj, hk, haccepted, haccepted']
    . simp [hj]
  case nodup => exact hs.nodup
  case silent =>
    intro j x hx hfalse
    simp only [Server.replaced, lookup_set hk] at hx
    split at hx
    . simp only [Option.some.injEq] at hx
      subst hx
      simp [haccepted'] at hfalse
    . exact hs.silent j x hx hfalse

theorem Wf.steps {event : ServerEvent} (hs : s.Wf) (h : Steps s event t) : t.Wf := by
  cases h with
  | refused i error localEndpoint hi herror => exact hs.refused i
  | thrown i k error localEndpoint session hi hk herror hstart => exact hs.admitted hi hk rfl
  | armed i k error session sn ref pool hi hk herror hgrants =>
    apply (hs.admitted hi hk rfl).armed (hs.accepting_eq hi).right
    exact hgrants
  | sendData msg slack => exact hs.sendData msg slack
  | transfer k w n stale session session' hk h =>
    rcases Session.transfer_eq_some h with ⟨write, hwrite, _, _, heq⟩
    have haccepted := hs.accepted_of_write hk hwrite
    have haccepted' : session'.accepted = true := by rw [heq, haccepted]
    exact hs.replaced hk haccepted haccepted' hs.pool
  | kept k w error session session' hk h herror =>
    rcases Session.complete_eq_some h with ⟨write, hwrite, _, heq⟩
    have haccepted := hs.accepted_of_write hk hwrite
    have haccepted' : session'.accepted = true := by rw [heq, haccepted]
    exact hs.replaced hk haccepted haccepted' hs.pool
  | released k w error session session' hk h herror hslot =>
    rcases Session.complete_eq_some h with ⟨write, hwrite, _, heq⟩
    have haccepted := hs.accepted_of_write hk hwrite
    have haccepted' : session'.accepted = true := by rw [heq, haccepted]
    exact hs.replaced hk haccepted haccepted' (hs.pool.withStatus_zero hslot)

theorem Wf.step {event : ServerEvent} (hs : s.Wf) (h : Server.step s event = some t)
    : Steps s event t ∧ t.Wf := by
  have hsteps := steps_of_step hs.pool.lockstep h
  exact ⟨hsteps, hs.steps hsteps⟩

def bare (ioService : ServiceRef) (pool : IoServicePool) : Server where
  pool := pool
  acceptorService := ioService
  serialNum := 0
  sessions := []
  accepting := []
  arrSessions := []

theorem wf_bare (ioService : ServiceRef) {pool : IoServicePool} (hpool : pool.Regular)
    : (bare ioService pool).Wf := by
  constructor
  case pool => exact hpool
  all_goals simp [bare]

/--
The constructor takes the first slot for the acceptor and another one for the first session.
-/
theorem new_eq (threadCnt : Nat)
    : ∃ ref pool sn ref' pool', (IoServicePool.new threadCnt).Grants 0 ref pool ∧
        pool.Grants sn ref' pool' ∧ new threadCnt = some ((bare ref pool).armed sn ref' pool') := by
  rcases exec_getIoService (lockstep_new threadCnt) with ⟨sn, ref, pool, hexec, hgrants⟩
  have hzero := hgrants.eq_zero (next_new threadCnt)
  subst hzero
  have hlockstep := hgrants.lockstep (lockstep_new threadCnt)
  rcases exec_getIoService hlockstep with ⟨sn, ref', pool', hexec', hgrants'⟩
  refine ⟨ref, pool, sn, ref', pool', hgrants, hgrants', ?_⟩
  unfold new
  simp only [hexec, start, hexec']
  rfl

theorem wf_of_run {threadCnt : Nat} {events : List ServerEvent} (hnew : new threadCnt = some s)
    (hrun : run Server.step s events = some t)
    : t.Wf := by
  rcases new_eq threadCnt with ⟨ref, pool, sn, ref', pool', hgrants, hgrants', heq⟩
  rw [hnew] at heq
  simp only [Option.some.injEq] at heq
  subst heq
  have hpool := hgrants.regular (regular_new threadCnt)
  have hinit := (wf_bare ref hpool).armed rfl hgrants'
  refine inv_of_run (c := fun _ _ => True) ?_ hinit ?_ hrun
  . intro s event t hs _ hstep
    exact (hs.step hstep).right
  . apply Meets.of_forall
    simp

section Progress

def SerialsInRange (s : Server) : Prop :=
  ∀ (k : SessionRef) (session : Session), s.sessions[k]? = some session →
    session.serialNum < s.pool.arrIoServices.length

-- What boost can deliver: the completion of a pending accept, some more bytes or the end of a write
-- in flight. The demo itself can always broadcast.
def Possible (s : Server) (event : ServerEvent) : Prop :=
  match event with
  | .accept i _ _ => i < s.accepting.length
  | .sendData _ _ => True
  | .transfer k w n stale =>
    ∃ session session', s.sessions[k]? = some session ∧ session.transfer w n stale = some session'
  | .written k w error =>
    ∃ session session', s.sessions[k]? = some session ∧ session.complete w error = some session'

theorem SerialsInRange.set (hs : s.SerialsInRange) (hk : s.sessions[k]? = some session)
    (hserial : session'.serialNum = session.serialNum) (j : SessionRef) (x : Session)
    (hx : (s.sessions.set k session')[j]? = some x)
    : x.serialNum < s.pool.arrIoServices.length := by
  rw [lookup_set hk] at hx
  split at hx
  . simp only [Option.some.injEq] at hx
    rw [← hx, hserial]
    exact hs k session hk
  . exact hs j x hx

theorem SerialsInRange.armed (hs : s.SerialsInRange) {sn : Nat} {ref : ServiceRef}
    {pool : IoServicePool} (hgrants : s.pool.Grants sn ref pool)
    : (s.armed sn ref pool).SerialsInRange := by
  intro j x hx
  rw [lookup_armed] at hx
  split at hx
  . simp only [Option.some.injEq] at hx
    rw [← hx]
    exact hgrants.lt_length
  . exact Nat.lt_of_lt_of_le (hs j x hx) hgrants.length_le

theorem SerialsInRange.steps {event : ServerEvent} (hs : s.SerialsInRange) (hwf : s.Wf)
    (h : Steps s event t)
    : t.SerialsInRange := by
  cases h with
  | refused i error localEndpoint hi herror => exact hs
  | thrown i k error localEndpoint session hi hk herror hstart => exact hs.set hk rfl
  | armed i k error session sn ref pool hi hk herror hgrants =>
    have hadmitted : (s.admitted i k (started session)).SerialsInRange := hs.set hk rfl
    exact hadmitted.armed hgrants
  | sendData msg slack =>
    intro j x hx
    rw [lookup_sendData hwf.nodup, Option.map_eq_some_iff] at hx
    rcases hx with ⟨y, hy, heq⟩
    split at heq
    . rw [← heq]
      exact hs j y hy
    . rw [← heq]
      exact hs j y hy
  | transfer k w n stale session session' hk h =>
    rcases Session.transfer_eq_some h with ⟨_, _, _, _, heq⟩
    exact hs.set hk (by rw [heq])
  | kept k w error session session' hk h herror =>
    rcases Session.complete_eq_some h with ⟨_, _, _, heq⟩
    exact hs.set hk (by rw [heq])
  | released k w error session session' hk h herror hslot =>
    rcases Session.complete_eq_some h with ⟨_, _, _, heq⟩
    exact hs.set hk (by rw [heq])

theorem start_isSome (hpool : s.pool.Lockstep) : ∃ t, s.start = some t := by
  rcases exec_getIoService hpool with ⟨sn, ref, pool, hexec, _⟩
  unfold start
  simp [hexec]

theorem Wf.step_accept_isSome (hs : s.Wf) {i : Nat} (hi : i < s.accepting.length)
    (error : ErrorCode) (localEndpoint : Option IpAddress)
    : ∃ t, Server.step s (.accept i error localEndpoint) = some t := by
  have hget := List.getElem?_eq_getElem hi
  rcases hs.pending _ (List.mem_of_getElem? hget) with ⟨session, hk, _⟩
  simp only [Server.step, hget, acceptHandler, hk]
  cases error.failed with
  | true => simp
  | false =>
    simp only [Bool.false_eq_true, if_false]
    cases localEndpoint with
    | none => exact ⟨_, rfl⟩
    | some address =>
      cases address with
      | v4 =>
        rw [exec_start_v4]
        apply start_isSome
        exact hs.pool.lockstep
      | v6 => exact ⟨_, rfl⟩

theorem Wf.step_written_isSome (hs : s.Wf) (hserials : s.SerialsInRange) {w : Nat}
    {error : ErrorCode} (hk : s.sessions[k]? = some session)
    (hcomplete : session.complete w error = some session')
    : ∃ t, Server.step s (.written k w error) = some t := by
  simp only [Server.step, written, hk, hcomplete]
  by_cases herror : error.value = 2
  . rcases Session.complete_eq_some hcomplete with ⟨_, _, _, heq⟩
    have hslot : session'.serialNum < s.pool.arrThreadStatus.length := by
      rw [heq, hs.pool.lockstep.status]
      exact hserials k session hk
    rw [exec_initHandler_eq herror, exec_threadQuit hslot]
    exact ⟨_, rfl⟩
  . rw [exec_initHandler_ne herror]
    exact ⟨_, rfl⟩

/--
The model has a step for every event that can happen: the pool always has a slot to grant, and every
slot that is given back is one of the pool's.
-/
theorem step_isSome_iff_possible {threadCnt : Nat} {events : List ServerEvent} {event : ServerEvent}
    (hnew : new threadCnt = some s) (hrun : run Server.step s events = some t)
    : (∃ u, Server.step t event = some u) ↔ t.Possible event := by
  have hinit : s.Wf ∧ s.SerialsInRange := by
    refine ⟨wf_of_run hnew (run_nil s), ?_⟩
    rcases new_eq threadCnt with ⟨ref, pool, sn, ref', pool', _, hgrants', heq⟩
    rw [hnew] at heq
    simp only [Option.some.injEq] at heq
    subst heq
    have hbare : (bare ref pool).SerialsInRange := by simp [SerialsInRange, bare]
    exact hbare.armed hgrants'
  have ht : t.Wf ∧ t.SerialsInRange := by
    refine inv_of_run (c := fun _ _ => True) (I := fun s => s.Wf ∧ s.SerialsInRange) ?_ hinit ?_
      hrun
    . intro s event t hs _ hstep
      rcases hs.left.step hstep with ⟨hsteps, ht⟩
      exact ⟨ht, hs.right.steps hs.left hsteps⟩
    . apply Meets.of_forall
      simp
  constructor
  . intro h
    rcases h with ⟨u, hu⟩
    cases (ht.left.step hu).left with
    | refused i error localEndpoint hi herror => exact hi
    | thrown i k error localEndpoint session hi hk herror hstart =>
      exact (List.getElem?_eq_some_iff.mp hi).1
    | armed i k error session sn ref pool hi hk herror hgrants =>
      exact (List.getElem?_eq_some_iff.mp hi).1
    | sendData msg slack => trivial
    | transfer k w n stale session session' hk h => exact ⟨session, session', hk, h⟩
    | kept k w error session session' hk h herror => exact ⟨session, session', hk, h⟩
    | released k w error session session' hk h herror hslot => exact ⟨session, session', hk, h⟩
  . intro h
    cases event with
    | accept i error localEndpoint => exact ht.left.step_accept_isSome h error localEndpoint
    | sendData msg slack => exact ⟨_, rfl⟩
    | transfer k w n stale =>
      rcases h with ⟨session, session', hk, htransfer⟩
      simp [Server.step, transfer, hk, htransfer]
    | written k w error =>
      rcases h with ⟨session, session', hk, hcomplete⟩
      exact ht.left.step_written_isSome ht.right hk hcomplete

end Progress

end Server
