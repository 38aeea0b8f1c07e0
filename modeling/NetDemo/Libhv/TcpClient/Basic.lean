import NetDemo.Libhv.Channel
import NetDemo.Libhv.ReconnSetting
import NetDemo.Lib.Transition

/-!
This module contains the `TcpClient` of libhv: connecting, being closed and connecting again. All of
it runs in the thread of its loop. Left out are TLS, `createsocket` for a channel that is open, which
it would destroy, and `closesocket` with data that is still to be written.
-/

namespace Libhv

structure TcpClient where
  io : Hio
  channel : Option Channel
  -- `onconnect` and `onclose` are set.
  callbacks : Bool
  reconnSetting : Option ReconnSetting
  timers : List UInt32
  -- History: the calls of `hio_connect` and `onConnection`, and since the last connection those of
  -- `startReconnect` with the delays they asked for.
  connects : Nat
  notified : List Bool
  losses : Nat
  delays : List UInt32
  deriving DecidableEq, Repr

-- `connfd` is what `::socket` returns, `i` the timer that runs out.
inductive TcpClientEvent where
  | createsocket (connfd : Int)
  | start (connfd : Int)
  | onConnect
  | onClose
  | timeout (i : Nat) (connfd : Int)
  | closesocket
  | setReconnect (setting : Option ReconnSetting)
  deriving DecidableEq, Repr

namespace TcpClient

def new (setting : Option ReconnSetting) : TcpClient where
  io := ⟨-1, false⟩
  channel := none
  callbacks := false
  reconnSetting := setting
  timers := []
  connects := 0
  notified := []
  losses := 0
  delays := []

def isClosed (c : TcpClient) : Bool :=
  match c.channel with
  | some channel => !channel.isOpened c.io
  | none => true

def createsocket (c : TcpClient) (connfd : Int) : TcpClient :=
  if connfd < 0 then
    c
  else
    let io : Hio := ⟨connfd, true⟩
    { c with io := io, channel := some (Channel.new io), callbacks := false }

def startConnect (c : TcpClient) (connfd : Int) : TcpClient :=
  let c := if c.isClosed then c.createsocket connfd else c
  match c.channel with
  | some channel =>
    if channel.status.started then
      c
    else
      { c with
        channel := some { channel with status := .connecting }
        callbacks := true
        connects := c.connects + 1 }
  | none => c

def startReconnect (c : TcpClient) : TcpClient :=
  match c.reconnSetting with
  | some reconn =>
    let (reconn, retry) := reconn.canRetry
    let c := { c with reconnSetting := some reconn, losses := c.losses + 1 }
    if retry then
      let reconn := reconn.calcDelay
      { c with
        reconnSetting := some reconn
        timers := c.timers ++ [reconn.curDelay]
        delays := c.delays ++ [reconn.curDelay] }
    else
      c
  | none => c

def callOnConnection (c : TcpClient) : TcpClient :=
  match c.channel with
  | some channel => { c with notified := c.notified ++ [channel.isConnected c.io] }
  | none => c

def onConnect (c : TcpClient) : Option TcpClient :=
  match c.channel with
  | some channel =>
    if channel.status = .connecting && c.io.opened then
      let c := callOnConnection { c with channel := some { channel with status := .connected } }
      some
        { c with
          reconnSetting := c.reconnSetting.map ReconnSetting.reset
          losses := 0
          delays := [] }
    else
      none
  | none => none

def handleClose (c : TcpClient) (channel : Channel) : TcpClient :=
  let c :=
    { c with
      io := { c.io with opened := false }
      channel := some { channel with status := .closed } }
  if c.callbacks then
    (callOnConnection c).startReconnect
  else
    c

-- The loop watches only an io that is connecting or connected.
def onClose (c : TcpClient) : Option TcpClient :=
  match c.channel with
  | some channel =>
    if channel.status.started && channel.isOpened c.io then
      some (c.handleClose channel)
    else
      none
  | none => none

def closesocket (c : TcpClient) : TcpClient :=
  match c.channel with
  | some channel =>
    let c := { c with reconnSetting := none }
    if channel.isOpened c.io then
      c.handleClose channel
    else
      c
  | none => c

def timeout (c : TcpClient) (i : Nat) (connfd : Int) : Option TcpClient :=
  if i < c.timers.length then
    some (startConnect { c with timers := c.timers.eraseIdx i } connfd)
  else
    none

def step (c : TcpClient) (event : TcpClientEvent) : Option TcpClient :=
  match event with
  | .createsocket connfd => if c.isClosed then some (c.createsocket connfd) else none
  | .start connfd => some (c.startConnect connfd)
  | .onConnect => c.onConnect
  | .onClose => c.onClose
  | .timeout i connfd => c.timeout i connfd
  | .closesocket => some c.closesocket
  | .setReconnect setting => some { c with reconnSetting := setting }

end TcpClient

end Libhv
