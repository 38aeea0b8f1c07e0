import NetDemo.Session.Basic
import NetDemo.IoServicePool.Lemmas
import NetDemo.Lib.Transition

/-!
This module contains the `Server` of the asio demo: the accept loop, the broadcast and the
completions of the writes that broadcasts have started. A reference to a session is an index, and
every allocation succeeds.
-/

abbrev SessionRef := Nat

structure Server where
  pool : IoServicePool
  acceptorService : ServiceRef
  serialNum : Nat
  sessions : List Session
  accepting : List SessionRef
  arrSessions : List SessionRef
  deriving DecidableEq, Repr

-- `i` is a pending accept, `w` a write of the session `k` that has not completed.
inductive ServerEvent where
  | accept (i : Nat) (error : ErrorCode) (localEndpoint : Option IpAddress)
  | sendData (msg : Bytes) (slack : List Nat)
  | transfer (k : SessionRef) (w n : Nat) (stale : Bytes)
  | written (k : SessionRef) (w : Nat) (error : ErrorCode)
  deriving DecidableEq, Repr

namespace Server

open ExceptState IoServicePool

def start (s : Server) : Option Server :=
  match exec (getIoService noFailure) s.pool with
  | (.ok (sn, ioService), pool) =>
    some
      { s with
        pool := pool
        sessions := s.sessions ++ [.new ioService sn]
        accepting := s.accepting ++ [s.sessions.length] }
  | (.error _, _) => none

-- `acceptor_` is declared before `serial_num_`, so its slot is reported into `serial_num_` before
-- `serial_num_(0)` runs. The slot is 0, see `new_eq`.
def new (threadCnt : Nat) : Option Server :=
  match exec (getIoService noFailure) (IoServicePool.new threadCnt) with
  | (.ok (_, ioService), pool) =>
    start
      { pool := pool
        acceptorService := ioService
        serialNum := 0
        sessions := []
        accepting := []
        arrSessions := [] }
  | (.error _, _) => none

def acceptHandler (s : Server) (k : SessionRef) (error : ErrorCode)
    (localEndpoint : Option IpAddress)
    : Option Server :=
  if error.failed then
    some s
  else
    match s.sessions[k]? with
    | some session =>
      let s :=
        { s with
          arrSessions := s.arrSessions ++ [k]
          sessions := s.sessions.set k { session with accepted := true } }
      match exec (session.start localEndpoint) s.pool with
      | (.ok (), pool) =>
        start
          { s with
            pool := pool
            sessions := s.sessions.set k { session with accepted := true, started := true } }
      | (.error .outOfRange, _) => none
      -- catch (...) { return; }
      | (.error _, pool) => some { s with pool := pool }
    | none => none

def sendData (s : Server) (msg : Bytes) (slack : List Nat) : Server :=
  { s with
    sessions := s.arrSessions.foldl
      (fun sessions k =>
        sessions.modify k fun session => session.sendData msg (slack.getD k 0)) s.sessions }

def transfer (s : Server) (k : SessionRef) (w n : Nat) (stale : Bytes) : Option Server :=
  match s.sessions[k]? with
  | some session =>
    match session.transfer w n stale with
    | some session => some { s with sessions := s.sessions.set k session }
    | none => none
  | none => none

def written (s : Server) (k : SessionRef) (w : Nat) (error : ErrorCode) : Option Server :=
  match s.sessions[k]? with
  | some session =>
    match session.complete w error with
    | some session =>
      match exec (session.initHandler error) s.pool with
      | (.ok (), pool) => some { s with pool := pool, sessions := s.sessions.set k session }
      | (.error _, _) => none
    | none => none
  | none => none

def step (s : Server) (event : ServerEvent) : Option Server :=
  match event with
  | .accept i error localEndpoint =>
    match s.accepting[i]? with
    | some k =>
      acceptHandler { s with accepting := s.accepting.eraseIdx i } k error localEndpoint
    | none => none
  | .sendData msg slack => some (s.sendData msg slack)
  | .transfer k w n stale => s.transfer k w n stale
  | .written k w error => s.written k w error

end Server
