import NetDemo.Server.Basic

/-!
This module says once what an event does to the server, and what is true of the server after every
run whatever the events were.
-/

namespace Server

open ExceptState IoServicePool Transition

-- The updates that the events are made of.
def accepted (session : Session) : Session :=
  { session with accepted := true }

def started (session : Session) : Session :=
  { session with accepted := true, started := true }

def admitted (s : Server) (i : Nat) (k : SessionRef) (session : Session) : Server :=
  { s with
    accepting := s.accepting.eraseIdx i
    arrSessions := s.arrSessions ++ [k]
    sessions := s.sessions.set k session }

def armed (s : Server) (sn : Nat) (ref : ServiceRef) (pool : IoServicePool) : Server :=
  { s with
    pool := pool
    sessions := s.sessions ++ [.new ref sn]
    accepting := s.accepting ++ [s.sessions.length] }

def replaced (s : Server) (k : SessionRef) (session : Session) (pool : IoServicePool) : Server :=
  { s with pool := pool, sessions := s.sessions.set k session }

/--
What the events do to the server. An accept completion is refused (it reports an error), thrown
(`Session::start` does not return) or armed (it ends with the next `async_accept`).
-/
inductive Steps (s : Server) : ServerEvent → Server → Prop
  | refused (i : Nat) (error : ErrorCode) (localEndpoint : Option IpAddress)
      (hi : i < s.accepting.length) (herror : error.failed = true)
      : Steps s (.accept i error localEndpoint) { s with accepting := s.accepting.eraseIdx i }
  | thrown (i : Nat) (k : SessionRef) (error : ErrorCode) (localEndpoint : Option IpAddress)
      (session : Session) (hi : s.accepting[i]? = some k) (hk : s.sessions[k]? = some session)
      (herror : error.failed = false) (hstart : localEndpoint ≠ some .v4)
      : Steps s (.accept i error localEndpoint) (s.admitted i k (accepted session))
  | armed (i : Nat) (k : SessionRef) (error : ErrorCode) (session : Session) (sn : Nat)
      (ref : ServiceRef) (pool : IoServicePool) (hi : s.accepting[i]? = some k)
      (hk : s.sessions[k]? = some session) (herror : error.failed = false)
      (hgrants : s.pool.Grants sn ref pool)
      : Steps s (.accept i error (some .v4)) ((s.admitted i k (started session)).armed sn ref pool)
  | sendData (msg : Bytes) (slack : List Nat)
      : Steps s (.sendData msg slack) (s.sendData msg slack)
  | transfer (k : SessionRef) (w n : Nat) (stale : Bytes) (session session' : Session)
      (hk : s.sessions[k]? = some session) (h : session.transfer w n stale = some session')
      : Steps s (.transfer k w n stale) (s.replaced k session' s.pool)
  | kept (k : SessionRef) (w : Nat) (error : ErrorCode) (session session' : Session)
      (hk : s.sessions[k]? = some session) (h : session.complete w error = some session')
      (herror : error.value ≠ 2)
      : Steps s (.written k w error) (s.replaced k session' s.pool)
  | released (k : SessionRef) (w : Nat) (error : ErrorCode) (session session' : Session)
      (hk : s.sessions[k]? = some session) (h : session.complete w error = some session')
      (herror : error.value = 2) (hslot : session.serialNum < s.pool.arrThreadStatus.length)
      : Steps s (.written k w error)
          (s.replaced k session' (s.pool.withStatus session.serialNum 0))

theorem start_eq_some {s t : Server} (hpool : s.pool.Lockstep) (h : s.start = some t)
    : ∃ sn ref pool, s.pool.Grants sn ref pool ∧ t = s.armed sn ref pool := by
  rcases exec_getIoService hpool with ⟨sn, ref, pool, hexec, hgrants⟩
  unfold start at h
  rw [hexec] at h
  simp only [Option.some.injEq] at h
  exact ⟨sn, ref, pool, hgrants, h.symm⟩

theorem exec_initHandler_ne {session : Session} {error : ErrorCode} {pool : IoServicePool}
    (h : error.value ≠ 2)
    : exec (session.initHandler error) pool = (.ok (), pool) := by
  unfold Session.initHandler
  rw [if_neg h]
  rfl

theorem exec_start_v4 (session : Session) (pool : IoServicePool)
    : exec (session.start (some .v4)) pool = (.ok (), pool) := by
  apply exec_initHandler_ne
  decide

theorem exec_initHandler_eq {session : Session} {error : ErrorCode} {pool : IoServicePool}
    (h : error.value = 2)
    : exec (session.initHandler error) pool = exec (threadQuit session.serialNum) pool := by
  unfold Session.initHandler
  rw [if_pos h]

theorem exec_threadQuit_ge {pool : IoServicePool} {i : Nat} (h : pool.arrThreadStatus.length ≤ i)
    : exec (threadQuit i) pool = (.error .outOfRange, pool) := by
  simp [threadQuit, setThreadStatus, index, List.getElem?_eq_none h]

theorem steps_accept {s t : Server} {i : Nat} {error : ErrorCode} {localEndpoint : Option IpAddress}
    (hpool : s.pool.Lockstep) (h : step s (.accept i error localEndpoint) = some t)
    : Steps s (.accept i error localEndpoint) t := by
  simp only [step] at h
  split at h
  . next k hi =>
    unfold acceptHandler at h
    cases herror : error.failed with
    | true =>
      simp only [herror, if_true, Option.some.injEq] at h
      subst h
      exact .refused i error localEndpoint (List.getElem?_eq_some_iff.mp hi).1 herror
    | false =>
      simp only [herror, Bool.false_eq_true, if_false] at h
      split at h
      . next session hk =>
        cases localEndpoint with
        | none =>
          have hthrow : exec (session.start none) s.pool = (.error .systemError, s.pool) := rfl
          simp only [hthrow, Option.some.injEq] at h
          subst h
          exact .thrown i k error none session hi hk herror (by simp)
        | some address =>
          cases address with
          | v4 =>
            simp only [exec_start_v4, List.set_set] at h
            have hpool' : (s.admitted i k (started session)).pool.Lockstep := hpool
            rcases start_eq_some hpool' h with ⟨sn, ref, pool, hgrants, ht⟩
            subst ht
            exact .armed i k error session sn ref pool hi hk herror hgrants
          | v6 =>
            have hthrow : exec (session.start (some .v6)) s.pool =
                (.error .badAddressCast, s.pool) := rfl
            simp only [hthrow, Option.some.injEq] at h
            subst h
            exact .thrown i k error (some .v6) session hi hk herror (by simp)
      . simp at h
  . simp at h

theorem steps_written {s t : Server} {k : SessionRef} {w : Nat} {error : ErrorCode}
    (h : step s (.written k w error) = some t)
    : Steps s (.written k w error) t := by
  simp only [step, written] at h
  split at h
  . next session hk =>
    split at h
    . next session' hcomplete =>
      by_cases herror : error.value = 2
      . rcases Session.complete_eq_some hcomplete with ⟨_, _, _, heq⟩
        have hserial : session'.serialNum = session.serialNum := by rw [heq]
        rw [exec_initHandler_eq herror, hserial] at h
        cases Nat.lt_or_ge session.serialNum s.pool.arrThreadStatus.length with
        | inl hlt =>
          rw [exec_threadQuit hlt] at h
          simp only [Option.some.injEq] at h
          subst h
          exact .released k w error session session' hk hcomplete herror hlt
        | inr hge =>
          rw [exec_threadQuit_ge hge] at h
          simp at h
      . rw [exec_initHandler_ne herror] at h
        simp only [Option.some.injEq] at h
        subst h
        exact .kept k w error session session' hk hcomplete herror
    . simp at h
  . simp at h

theorem steps_of_step {s t : Server} {event : ServerEvent} (hpool : s.pool.Lockstep)
    (h : step s event = some t)
    : Steps s event t := by
  cases event with
  | accept i error localEndpoint => exact steps_accept hpool h
  | sendData msg slack =>
    simp only [step, Option.some.injEq] at h
    subst h
    exact .sendData msg slack
  | transfer k w n stale =>
    simp only [step, transfer] at h
    split at h
    . next session hk =>
      split at h
      . next session' htransfer =>
        simp only [Option.some.injEq] at h
        subst h
        exact .transfer k w n stale session session' hk htransfer
      . simp at h
    . simp at h
  | written k w error => exact steps_written h

section Lookup

variable {s : Server} {k : SessionRef} {session : Session}

theorem lookup_set (hk : s.sessions[k]? = some session) (session' : Session) (j : SessionRef)
    : (s.sessions.set k session')[j]? = if j = k then some session' else s.sessions[j]? := by
  have hlt := (List.getElem?_eq_some_iff.mp hk).1
  rw [List.getElem?_set]
  by_cases h : k = j
  . rw [if_pos h, if_pos hlt, if_pos h.symm]
  . rw [if_neg h, if_neg (Ne.symm h)]

theorem lookup_armed (sn : Nat) (ref : ServiceRef) (pool : IoServicePool) (j : SessionRef)
    : (s.armed sn ref pool).sessions[j]? =
        if j = s.sessions.length then some (.new ref sn) else s.sessions[j]? := by
  simp only [armed]
  rcases Nat.lt_trichotomy j s.sessions.length with hj | hj | hj
  . rw [List.getElem?_append_left hj, if_neg (Nat.ne_of_lt hj)]
  . rw [if_pos hj, hj, List.getElem?_concat_length]
  . rw [if_neg (Nat.ne_of_gt hj), List.getElem?_eq_none (Nat.le_of_lt hj)]
    apply List.getElem?_eq_none
    simp only [List.length_append, List.length_singleton]
    exact hj

theorem getElem?_foldl_modify (f : SessionRef → Session → Session) (j : SessionRef)
    : ∀ (ks : List SessionRef) (sessions : List Session), ks.Nodup →
        (ks.foldl (fun sessions k => sessions.modify k (f k)) sessions)[j]? =
          (sessions[j]?).map fun session => if j ∈ ks then f j session else session := by
  intro ks
  induction ks with
  | nil => simp
  | cons k ks ih =>
    intro sessions hnodup
    rw [List.nodup_cons] at hnodup
    rw [List.foldl_cons, ih _ hnodup.right, List.getElem?_modify]
    by_cases h : k = j
    . subst h
      simp [hnodup.left, Function.comp_def]
    . have hj : ¬ j = k := Ne.symm h
      simp [h, hj]

theorem lookup_sendData (hnodup : s.arrSessions.Nodup) (msg : Bytes) (slack : List Nat)
    (j : SessionRef)
    : (s.sendData msg slack).sessions[j]? =
        (s.sessions[j]?).map fun session =>
          if j ∈ s.arrSessions then session.sendData msg (slack.getD j 0) else session := by
  unfold sendData
  apply getElem?_foldl_modify
  exact hnodup

end Lookup

end Server
