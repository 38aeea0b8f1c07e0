import NetDemo.Lib.ExceptState

/-!
This module contains the `io_service_pool` of the asio demo: the four parallel vectors, the
watermark `m_nNext_io_service` and the operations on them. `get_io_service` and `threadQuit` hold
`m_mtx` for their whole body, so each of them is one step.

Serial numbers are `int` in the source and `Nat` here, the demo is only built for Win32 where a
vector cannot grow to 2^31 elements.
-/

structure IoService where
  stopped : Bool
  deriving DecidableEq, Repr

abbrev ServiceRef := Nat

abbrev ThreadRef := Nat

structure IoServicePool where
  -- The objects created so far, a reference is an index. A thread is the service that it runs.
  ioServices : List IoService
  threads : List ServiceRef
  arrIoServices : List ServiceRef
  -- A work object is the service that it keeps from running out of work.
  arrWork : List ServiceRef
  arrThreads : List ThreadRef
  arrThreadStatus : List Int
  nextIoService : Nat
  deriving DecidableEq, Repr

-- What an operation ends with if it does not return. The first three are exceptions.
inductive Fault where
  | badAlloc
  | systemError
  | badAddressCast
  | outOfRange
  | invalidParameter
  deriving DecidableEq, Repr

/--
The places of `create_io_service` that can throw: allocations, `push_back` and the thread creation.
-/
inductive GrowStep where
  | newIoService
  | newWork
  | pushIoService
  | pushWork
  | newThread
  | pushThreadStatus
  | pushThread
  deriving DecidableEq, Repr

def GrowStep.fault (place : GrowStep) : Fault :=
  match place with
  | .newThread => .systemError
  | .newIoService | .newWork | .pushIoService | .pushWork | .pushThreadStatus | .pushThread =>
    .badAlloc

abbrev PoolM := ExceptT Fault (StateM IoServicePool)

namespace IoServicePool

open ExceptState

def empty : IoServicePool where
  ioServices := []
  threads := []
  arrIoServices := []
  arrWork := []
  arrThreads := []
  arrThreadStatus := []
  nextIoService := 0

def index (xs : List α) (i : Nat) : PoolM α :=
  match xs[i]? with
  | some x => pure x
  | none => throw .outOfRange

def attempt (fails : GrowStep → Bool) (place : GrowStep) : PoolM Unit :=
  if fails place then throw place.fault else pure ()

def noFailure : GrowStep → Bool :=
  fun _ => false

def newIoService : PoolM ServiceRef :=
  modifyGet fun pool =>
    (pool.ioServices.length, { pool with ioServices := pool.ioServices ++ [⟨false⟩] })

def newThread (ioService : ServiceRef) : PoolM ThreadRef :=
  modifyGet fun pool =>
    (pool.threads.length, { pool with threads := pool.threads ++ [ioService] })

def pushIoService (ioService : ServiceRef) : PoolM Unit :=
  modify fun pool => { pool with arrIoServices := pool.arrIoServices ++ [ioService] }

def pushWork (work : ServiceRef) : PoolM Unit :=
  modify fun pool => { pool with arrWork := pool.arrWork ++ [work] }

def pushThread (thread : ThreadRef) : PoolM Unit :=
  modify fun pool => { pool with arrThreads := pool.arrThreads ++ [thread] }

def pushThreadStatus (status : Int) : PoolM Unit :=
  modify fun pool => { pool with arrThreadStatus := pool.arrThreadStatus ++ [status] }

def setThreadStatus (i : Nat) (status : Int) : PoolM Unit := do
  let _ ← index (← get).arrThreadStatus i
  modify fun pool => { pool with arrThreadStatus := pool.arrThreadStatus.set i status }

def incNext : PoolM Unit :=
  modify fun pool => { pool with nextIoService := pool.nextIoService + 1 }

-- Every allocation succeeds.
def construct (poolSize : Nat) : PoolM Unit := do
  forLoop poolSize fun _ => do
    let ioService ← newIoService
    let work := ioService
    pushIoService ioService
    pushWork work
  forLoop (← get).arrIoServices.length fun i => do
    let thread ← newThread (← index (← get).arrIoServices i)
    pushThreadStatus 0
    pushThread thread

def new (poolSize : Nat) : IoServicePool :=
  (exec (construct poolSize) empty).2

def createIoService (fails : GrowStep → Bool) : PoolM Nat := do
  attempt fails .newIoService
  let ioService ← newIoService
  attempt fails .newWork
  let work := ioService
  attempt fails .pushIoService
  pushIoService ioService
  attempt fails .pushWork
  pushWork work
  -- The thread gets the service at the watermark, not `ioService`.
  let bound ← index (← get).arrIoServices (← get).nextIoService
  attempt fails .newThread
  let thread ← newThread bound
  attempt fails .pushThreadStatus
  pushThreadStatus 1
  attempt fails .pushThread
  pushThread thread
  return (← get).nextIoService

def checkIdleIOService : PoolM (Option Nat) := do
  match (← get).arrThreadStatus.findIdx? (· == 0) with
  | some i =>
    setThreadStatus i 1
    return some i
  | none => return none

def getIoService (fails : GrowStep → Bool) : PoolM (Nat × ServiceRef) := do
  if (← get).nextIoService = (← get).arrIoServices.length then
    let sn ←
      match ← checkIdleIOService with
      | some sn => pure sn
      | none => do
        let _ ← createIoService fails
        let sn := (← get).nextIoService
        incNext
        pure sn
    let ioService ← index (← get).arrIoServices sn
    return (sn, ioService)
  else
    let sn := (← get).nextIoService
    let ioService ← index (← get).arrIoServices sn
    setThreadStatus sn 1
    incNext
    return (sn, ioService)

def threadQuit (threadNum : Nat) : PoolM Unit :=
  setThreadStatus threadNum 0

-- One round of the loop of `stop`, which reads the size anew each time and does not take the lock.
def stopRound (i : Nat) : PoolM Bool := do
  if i < (← get).arrIoServices.length then
    let ioService ← index (← get).arrIoServices i
    modify fun pool => { pool with ioServices := pool.ioServices.set ioService ⟨true⟩ }
    return true
  else
    return false

-- `join` waits for the thread: it runs a service that has work left and was not stopped.
def WaitsFor (pool : IoServicePool) (thread : ThreadRef) : Prop :=
  ∃ ref, thread ∈ pool.arrThreads ∧ pool.threads[thread]? = some ref ∧ ref ∈ pool.arrWork ∧
    pool.ioServices[ref]? = some ⟨false⟩

end IoServicePool
