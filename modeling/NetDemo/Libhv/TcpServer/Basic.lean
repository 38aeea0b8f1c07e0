import NetDemo.Libhv.Channel
import NetDemo.Lib.Transition
import Mathlib.Data.List.Sort

/-!
This module contains the `TcpServer` of libhv together with the callbacks that the demo gives it: an
acceptor thread, the worker threads and a thread that broadcasts, with every order of their steps.

There are worker threads: after `setThreadNum(0)` the acceptor loop would run `newConnEvent` itself.
Which worker `nextLoop` returns is left open, it reads counters that the workers change.
-/

namespace Libhv

abbrev IoRef := Nat

structure Connio where
  hio : Hio
  -- No other socket is given the descriptor.
  fdInUse : Bool
  loop : Nat
  channel : Option Channel
  -- History: the number of broadcasts when the channel was added.
  joined : Nat
  deriving DecidableEq, Repr

/--
Where a worker thread is. It runs one callback at a time, and the other threads see the callbacks
only through what is done under `mutex_` and under the `mtx` of the demo:
- `checked`: `newConnEvent` has compared `connectionNum()` with `max_connections`
- `added`: it has added the channel and has not called `onConnection` yet
- `closing`: `onclose` has not called `onConnection` yet
- `disconnected`: `onclose` has called `onConnection` and has not removed the channel yet
-/
inductive Doing where
  | idle
  | checked (io : IoRef)
  | added (io : IoRef)
  | closing (io : IoRef)
  | disconnected (io : IoRef)
  deriving DecidableEq, Repr

structure Worker where
  connectionNum : UInt32
  customEvents : List IoRef
  doing : Doing
  deriving DecidableEq, Repr

structure TcpServer where
  maxConnections : Nat
  workers : List Worker
  ios : List Connio
  channels : List IoRef
  -- What the thread in `broadcast`, which holds `mutex_`, still has to write.
  broadcasting : Option (Bytes × List IoRef)
  dictChannel : Int → Option IoRef
  -- History: the data of all broadcasts.
  broadcasts : List Bytes

inductive TcpServerEvent where
  | onAccept (fd : Nat) (w : Nat)
  | newConnEvent (w : Nat)
  | addChannel (w : Nat)
  | onConnection (w : Nat)
  | onClose (io : IoRef)
  | onDisconnection (w : Nat)
  | removeChannel (w : Nat)
  | releaseFd (io : IoRef)
  | broadcast (data : Bytes)
  | write
  | broadcastDone
  deriving DecidableEq, Repr

namespace TcpServer

def new (threadNum maxConnections : Nat) : TcpServer where
  maxConnections := maxConnections
  workers := List.replicate threadNum ⟨0, [], .idle⟩
  ios := []
  channels := []
  broadcasting := none
  dictChannel := fun _ => none
  broadcasts := []

def connectionNum (s : TcpServer) : Nat :=
  s.channels.length

def fdFree (s : TcpServer) (fd : Int) : Bool :=
  s.ios.all fun io => !io.fdInUse || io.hio.fd ≠ fd

def onAccept (s : TcpServer) (fd : Nat) (w : Nat) : Option TcpServer :=
  if s.fdFree fd then
    match s.workers[w]? with
    | some worker =>
      some
        { s with
          ios := s.ios ++ [⟨⟨fd, true⟩, true, w, none, 0⟩]
          workers := s.workers.set w
            { worker with
              connectionNum := worker.connectionNum + 1
              customEvents := worker.customEvents ++ [s.ios.length] } }
    | none => none
  else
    none

-- `hio_close` of an io without a channel calls nothing back.
def newConnEvent (s : TcpServer) (w : Nat) : Option TcpServer :=
  match s.workers[w]?, s.broadcasting with
  | some ⟨num, k :: customEvents, .idle⟩, none =>
    if s.connectionNum ≥ s.maxConnections then
      some
        { s with
          ios := s.ios.modify k fun io => { io with hio.opened := false }
          workers := s.workers.set w ⟨num, customEvents, .idle⟩ }
    else
      some { s with workers := s.workers.set w ⟨num, customEvents, .checked k⟩ }
  | _, _ => none

def addChannel (s : TcpServer) (w : Nat) : Option TcpServer :=
  match s.workers[w]?, s.broadcasting with
  | some ⟨num, customEvents, .checked k⟩, none =>
    some
      { s with
        ios := s.ios.modify k fun io =>
          { io with
            channel := some { Channel.new io.hio with status := .connected }
            joined := s.broadcasts.length }
        channels := s.channels.orderedInsert (· ≤ ·) k
        workers := s.workers.set w ⟨num, customEvents, .added k⟩ }
  | _, _ => none

def callOnConnection (s : TcpServer) (k : IoRef) : TcpServer :=
  match s.ios[k]? with
  | some ⟨hio, _, _, some channel, _⟩ =>
    if channel.isConnected hio then
      { s with dictChannel := Function.update s.dictChannel hio.fd (some k) }
    else
      { s with dictChannel := Function.update s.dictChannel hio.fd none }
  | _ => s

def onConnection (s : TcpServer) (w : Nat) : Option TcpServer :=
  match s.workers[w]? with
  | some ⟨num, customEvents, .added k⟩ =>
    some { s.callOnConnection k with workers := s.workers.set w ⟨num, customEvents, .idle⟩ }
  | _ => none

-- Up to the call of `onConnection`.
def onClose (s : TcpServer) (k : IoRef) : Option TcpServer :=
  match s.ios[k]? with
  | some ⟨hio, fdInUse, w, some channel, joined⟩ =>
    match s.workers[w]? with
    | some ⟨num, customEvents, .idle⟩ =>
      if hio.opened then
        some
          { s with
            ios := s.ios.set k
              ⟨{ hio with opened := false }, fdInUse, w, some { channel with status := .closed },
                joined⟩
            workers := s.workers.set w ⟨num - 1, customEvents, .closing k⟩ }
      else
        none
    | _ => none
  | _ => none

def onDisconnection (s : TcpServer) (w : Nat) : Option TcpServer :=
  match s.workers[w]? with
  | some ⟨num, customEvents, .closing k⟩ =>
    some { s.callOnConnection k with workers := s.workers.set w ⟨num, customEvents, .disconnected k⟩ }
  | _ => none

def removeChannel (s : TcpServer) (w : Nat) : Option TcpServer :=
  match s.workers[w]?, s.broadcasting with
  | some ⟨num, customEvents, .disconnected k⟩, none =>
    some
      { s with
        channels := s.channels.erase k
        workers := s.workers.set w ⟨num, customEvents, .idle⟩ }
  | _, _ => none

-- The socket is closed before or after the callbacks.
def releaseFd (s : TcpServer) (k : IoRef) : Option TcpServer :=
  match s.ios[k]? with
  | some io =>
    if io.hio.opened then
      none
    else
      some { s with ios := s.ios.set k { io with fdInUse := false } }
  | none => none

def broadcast (s : TcpServer) (data : Bytes) : Option TcpServer :=
  match s.broadcasting with
  | none =>
    some
      { s with
        broadcasting := some (data, s.channels)
        broadcasts := s.broadcasts ++ [data] }
  | some _ => none

def writeNext (s : TcpServer) : Option TcpServer :=
  match s.broadcasting with
  | some (data, k :: rest) =>
    some
      { s with
        ios := s.ios.modify k fun io =>
          { io with channel := io.channel.map fun channel => channel.write io.hio data }
        broadcasting := some (data, rest) }
  | _ => none

def broadcastDone (s : TcpServer) : Option TcpServer :=
  match s.broadcasting with
  | some (_, []) => some { s with broadcasting := none }
  | _ => none

def step (s : TcpServer) (event : TcpServerEvent) : Option TcpServer :=
  match event with
  | .onAccept fd w => s.onAccept fd w
  | .newConnEvent w => s.newConnEvent w
  | .addChannel w => s.addChannel w
  | .onConnection w => s.onConnection w
  | .onClose k => s.onClose k
  | .onDisconnection w => s.onDisconnection w
  | .removeChannel w => s.removeChannel w
  | .releaseFd k => s.releaseFd k
  | .broadcast data => s.broadcast data
  | .write => s.writeNext
  | .broadcastDone => s.broadcastDone

end TcpServer

end Libhv
