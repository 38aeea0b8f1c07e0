import NetDemo.Libhv.EventLoopThread

/-!
This module contains `TcpServer::start`: the thread that calls it makes the worker threads and the
acceptor thread, which run at the same time, and no thread stops any of them.
-/

namespace Libhv

inductive PoolPre where
  | pre
  deriving DecidableEq, Repr

inductive AcceptorFunctor where
  | startAccept
  deriving DecidableEq, Repr

/--
Where the thread that calls `TcpServer::start` is:
- `spawning i`: in `EventLoopThreadPool::start`, about to make the thread `i`
- `pushing i`: it has started the thread `i`, which is not in `loop_threads_` yet
- `waitingPool`: at the end of `EventLoopThreadPool::start`
- `posting`: before `acceptor_loop->runInLoop`
- `startingAcceptor`: before `EventLoopThread::start`
- `waitingAcceptor`: at the end of it
-/
inductive StartAt where
  | begin
  | spawning (i : Nat)
  | pushing (i : Nat)
  | waitingPool
  | posting
  | startingAcceptor
  | waitingAcceptor
  | returned
  deriving DecidableEq, Repr

structure ServerStart where
  poolStatus : KStatus
  startedCnt : Nat
  workers : List (EventLoopThread PoolPre)
  -- How many workers, the first ones, are in `loop_threads_`.
  loopThreads : Nat
  acceptor : EventLoopThread AcceptorFunctor
  -- `haccept` has been called.
  accepting : Bool
  main : StartAt
  deriving DecidableEq, Repr

inductive ServerStartEvent where
  | main
  | worker (i : Nat)
  | acceptor
  deriving DecidableEq, Repr

namespace ServerStart

def new : ServerStart where
  poolStatus := .initialized
  startedCnt := 0
  workers := []
  loopThreads := 0
  acceptor := .new
  accepting := false
  main := .begin

def mainStep (threadNum : Nat) (wait : Bool) (s : ServerStart) : Option ServerStart :=
  match s.main with
  | .begin =>
    if threadNum = 0 then
      some { s with main := .posting }
    else if KStatus.starting.value ≤ s.poolStatus.value ∧
        s.poolStatus.value < KStatus.stopped.value then
      some { s with main := .posting }
    else
      some { s with poolStatus := .starting, main := .spawning 0 }
  | .spawning i =>
    if i < threadNum then
      some { s with workers := s.workers ++ [EventLoopThread.new.start], main := .pushing i }
    else
      some { s with main := .waitingPool }
  | .pushing i => some { s with loopThreads := s.loopThreads + 1, main := .spawning (i + 1) }
  | .waitingPool =>
    if wait ∧ s.poolStatus.value < KStatus.running.value then
      none
    else
      some { s with main := .posting }
  -- The thread is not that of the acceptor loop.
  | .posting =>
    some { s with acceptor := s.acceptor.queueInLoop .startAccept, main := .startingAcceptor }
  | .startingAcceptor =>
    if s.acceptor.isStarted then
      some { s with main := .returned }
    else
      some { s with acceptor := s.acceptor.start, main := .waitingAcceptor }
  | .waitingAcceptor =>
    if wait ∧ s.acceptor.loopStatus.value < KStatus.running.value then
      none
    else
      some { s with main := .returned }
  | .returned => none

-- A thread that has found itself to be the last one sets the status of the pool in another step.
def workerStep (threadNum : Nat) (s : ServerStart) (i : Nat) : Option ServerStart :=
  match s.workers[i]? with
  | some t =>
    if t.isCalling then
      some
        { s with
          poolStatus := .running
          workers := s.workers.set i { t with loopThread := .looping } }
    else
      match t.step (some .pre) with
      | some (t, some .pre) =>
        let startedCnt := s.startedCnt + 1
        some
          { s with
            startedCnt := startedCnt
            workers := s.workers.set i
              (if startedCnt = threadNum then { t with loopThread := .calling .pre } else t) }
      | some (t, none) => some { s with workers := s.workers.set i t }
      | none => none
  | none => none

def acceptorStep (s : ServerStart) : Option ServerStart :=
  match s.acceptor.step none with
  | some (t, some .startAccept) => some { s with acceptor := t, accepting := true }
  | some (t, none) => some { s with acceptor := t }
  | none => none

def step (threadNum : Nat) (wait : Bool) (s : ServerStart) (event : ServerStartEvent)
    : Option ServerStart :=
  match event with
  | .main => s.mainStep threadNum wait
  | .worker i => s.workerStep threadNum i
  | .acceptor => s.acceptorStep

end ServerStart

end Libhv
