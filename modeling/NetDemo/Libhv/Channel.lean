import NetDemo.Session.Basic

/-!
This module contains what the server and the client of libhv have in common: the channel on top of
a socket.
-/

namespace Libhv

inductive Status where
  | opened
  | connecting
  | connected
  | disconnected
  | closed
  deriving DecidableEq, Repr

structure Hio where
  fd : Int
  opened : Bool
  deriving DecidableEq, Repr

structure Channel where
  status : Status
  -- History: what `write` has handed to `hio_write`.
  written : List Bytes
  deriving DecidableEq, Repr

def Status.down (status : Status) : Bool :=
  match status with
  | .opened | .connecting | .connected => false
  | .disconnected | .closed => true

def Status.started (status : Status) : Bool :=
  match status with
  | .opened => false
  | .connecting | .connected | .disconnected | .closed => true

namespace Channel

def new (io : Hio) : Channel where
  status := if io.opened then .opened else .closed
  written := []

def isOpened (io : Hio) (channel : Channel) : Bool :=
  !channel.status.down && io.opened

def isConnected (io : Hio) (channel : Channel) : Bool :=
  channel.status = .connected && channel.isOpened io

def write (io : Hio) (channel : Channel) (data : Bytes) : Channel :=
  if channel.isOpened io then
    { channel with written := channel.written ++ [data] }
  else
    channel

@[simp]
theorem status_write (io : Hio) (channel : Channel) (data : Bytes)
    : (channel.write io data).status = channel.status := by
  unfold write
  split
  . rfl
  . rfl

theorem write_of_isOpened {io : Hio} {channel : Channel} (h : channel.isOpened io = true)
    (data : Bytes)
    : channel.write io data = { channel with written := channel.written ++ [data] } := by
  simp [write, h]

theorem write_of_isClosed {io : Hio} {channel : Channel} (h : channel.isOpened io = false)
    (data : Bytes)
    : channel.write io data = channel := by
  simp [write, h]

end Channel

end Libhv
