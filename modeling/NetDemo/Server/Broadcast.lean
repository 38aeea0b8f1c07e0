import NetDemo.Server.Invariant
import Mathlib.Data.List.Nodup

/-!
This module contains the targets of a broadcast.
-/

namespace Server

open Transition

variable {s : Server} {k : SessionRef} {session : Session}

def StartsWrite (session session' : Session) (msg : Bytes) : Prop :=
  ∃ write, session'.writes = session.writes ++ [write] ∧ write.size = msg.length ∧
    write.sent = 0 ∧ session'.asked = session.asked ++ [msg]

theorem startsWrite_sendData (session : Session) (msg : Bytes) (slack : Nat)
    : StartsWrite session (session.sendData msg slack) msg := by
  refine ⟨_, rfl, ?_, rfl, rfl⟩
  simp

theorem Wf.mem_arrSessions_iff (hs : s.Wf) (hk : s.sessions[k]? = some session)
    : k ∈ s.arrSessions ↔ session.accepted = true := by
  rw [hs.broadcast, hk]
  simp

theorem Wf.accepted_of_started (hs : s.Wf) (hk : s.sessions[k]? = some session)
    (hstarted : session.started = true)
    : session.accepted = true := by
  by_contra hnot
  have hsilent := hs.silent k session hk (by simpa using hnot)
  simp [hstarted] at hsilent

theorem Wf.sendData_accepted (hs : s.Wf) (hk : s.sessions[k]? = some session)
    (haccepted : session.accepted = true) (msg : Bytes) (slack : List Nat)
    : ∃ session', (s.sendData msg slack).sessions[k]? = some session' ∧
        StartsWrite session session' msg := by
  refine ⟨session.sendData msg (slack.getD k 0), ?_, startsWrite_sendData session msg _⟩
  have hmem := (hs.mem_arrSessions_iff hk).mpr haccepted
  simp [lookup_sendData hs.nodup, hk, hmem]

theorem Wf.sendData_not_accepted (hs : s.Wf) (hk : s.sessions[k]? = some session)
    (hnot : session.accepted = false) (msg : Bytes) (slack : List Nat)
    : (s.sendData msg slack).sessions[k]? = some session := by
  have hmem : k ∉ s.arrSessions := by
    rw [hs.mem_arrSessions_iff hk]
    simp [hnot]
  simp [lookup_sendData hs.nodup, hk, hmem]

/--
A session whose accept has been a success is a target once, also if `Session::start` has thrown.
-/
theorem targets_of_accepted {threadCnt : Nat} {events : List ServerEvent} {s t : Server}
    (hnew : new threadCnt = some s) (hrun : run step s events = some t)
    (hk : t.sessions[k]? = some session) (haccepted : session.accepted = true) (msg : Bytes)
    (slack : List Nat)
    : t.arrSessions.count k = 1 ∧
        ∃ session', (t.sendData msg slack).sessions[k]? = some session' ∧
          StartsWrite session session' msg := by
  have ht := wf_of_run hnew hrun
  refine ⟨?_, ht.sendData_accepted hk haccepted msg slack⟩
  apply List.count_eq_one_of_mem ht.nodup
  exact (ht.mem_arrSessions_iff hk).mpr haccepted

/--
A broadcast starts exactly one write on every session whose `Session::start` has returned, whatever
became of its earlier writes, and none on a session whose accept has not been a success.
-/
theorem sendData_targets (threadCnt : Nat) (events : List ServerEvent) (s t : Server)
    (hnew : new threadCnt = some s) (hrun : run step s events = some t) (msg : Bytes)
    (slack : List Nat)
    : (∀ (k : SessionRef) (session : Session), t.sessions[k]? = some session →
          session.started = true →
            t.arrSessions.count k = 1 ∧
              ∃ session', (t.sendData msg slack).sessions[k]? = some session' ∧
                StartsWrite session session' msg) ∧
        (∀ (k : SessionRef) (session : Session), t.sessions[k]? = some session →
          session.accepted = false →
            k ∉ t.arrSessions ∧ (t.sendData msg slack).sessions[k]? = some session) ∧
        ∀ k, k ∈ t.arrSessions → ∃ session, t.sessions[k]? = some session ∧
          session.accepted = true := by
  have ht := wf_of_run hnew hrun
  refine ⟨?_, ?_, ?_⟩
  . intro k session hk hstarted
    exact targets_of_accepted hnew hrun hk (ht.accepted_of_started hk hstarted) msg slack
  . intro k session hk hnot
    refine ⟨?_, ht.sendData_not_accepted hk hnot msg slack⟩
    rw [ht.mem_arrSessions_iff hk]
    simp [hnot]
  . intro k hk
    exact (ht.broadcast k).mp hk

theorem sendData_targets_of_failed
    : ∃ s t session, new 1 = some s ∧
        run step s [.accept 0 .success (some .v4), .sendData [1] [], .written 0 0 ⟨10054⟩] =
          some t ∧
        t.sessions[0]? = some session ∧ session.hasFailed = true ∧ t.arrSessions.count 0 = 1 := by
  have hnew : new 1 = some ((new 1).get (by decide)) := by simp
  have hrun : run step ((new 1).get (by decide))
      [.accept 0 .success (some .v4), .sendData [1] [], .written 0 0 ⟨10054⟩] =
        some ((run step ((new 1).get (by decide))
          [.accept 0 .success (some .v4), .sendData [1] [], .written 0 0 ⟨10054⟩]).get
            (by decide)) := by
    simp
  refine ⟨_, _, _, hnew, hrun, (Option.some_get ?_).symm, ?_, ?_⟩
  . decide
  . decide
  . refine ((sendData_targets 1 _ _ _ hnew hrun [2] []).left 0 _ (Option.some_get ?_).symm ?_).left
    . decide
    . decide

-- A broadcast to a session whose write has failed, and one to a session that `start` never left.
theorem sendData_to_failed_and_unstarted
    : ∃ s, new 1 = some s ∧
        (∃ t session session', run step s
            [.accept 0 .success (some .v4), .sendData [1] [], .written 0 0 ⟨10054⟩] = some t ∧
          t.sessions[0]? = some session ∧ session.hasFailed = true ∧
          (t.sendData [2] []).sessions[0]? = some session' ∧ session.writes = [] ∧
          session'.writes.length = 1) ∧
        ∃ t session session', run step s [.accept 0 .success none] = some t ∧
          t.sessions[0]? = some session ∧ session.started = false ∧
          (t.sendData [2] []).sessions[0]? = some session' ∧ session.writes = [] ∧
          session'.writes.length = 1 := by
  have hnew : new 1 = some ((new 1).get (by decide)) := by simp
  refine ⟨_, hnew, ?_, ?_⟩
  . refine ⟨_, _, _, (Option.some_get ?_).symm, (Option.some_get ?_).symm, ?_,
      (Option.some_get ?_).symm, ?_, ?_⟩
    all_goals decide
  . refine ⟨_, _, _, (Option.some_get ?_).symm, (Option.some_get ?_).symm, ?_,
      (Option.some_get ?_).symm, ?_, ?_⟩
    all_goals decide

end Server
