import NetDemo.IoServicePool.Basic
import NetDemo.Lib.StringStorage

/-!
This module contains the sending half of a `Session` of the asio demo and what the socket under it
does with the writes that were started.
-/

abbrev Bytes := List UInt8

structure ErrorCode where
  value : Int
  deriving DecidableEq, Repr

def ErrorCode.failed (error : ErrorCode) : Bool :=
  error.value != 0

def ErrorCode.success : ErrorCode :=
  ⟨0⟩

inductive IpAddress where
  | v4
  | v6
  deriving DecidableEq, Repr

-- The region that an `async_write` has borrowed, and how much of it was sent.
structure AsyncWrite where
  block : Nat
  size : Nat
  sent : Nat
  deriving DecidableEq, Repr

structure Session where
  ioService : ServiceRef
  serialNum : Nat
  msg : StringStorage UInt8
  writes : List AsyncWrite
  peer : Bytes
  -- History: `started` says that `start` has returned, `asked` what was passed to `SendData`.
  accepted : Bool
  started : Bool
  asked : List Bytes
  completed : List ErrorCode
  deriving DecidableEq, Repr

namespace Session

def new (ioService : ServiceRef) (sn : Nat) : Session where
  ioService := ioService
  serialNum := sn
  msg := .empty 0
  writes := []
  peer := []
  accepted := false
  started := false
  asked := []
  completed := []

def sendData (s : Session) (msg1 : Bytes) (slack : Nat) : Session :=
  let msg := s.msg.assign 0 msg1 slack
  { s with
    msg := msg
    writes := s.writes ++ [⟨msg.block, msg.size, 0⟩]
    asked := s.asked ++ [msg1] }

-- `sig` is connected to `threadQuit`. The other errors are only printed.
def initHandler (s : Session) (error : ErrorCode) : PoolM Unit :=
  if error.value = 2 then
    IoServicePool.threadQuit s.serialNum
  else
    pure ()

-- `local_endpoint` throws if there is none any more, `to_v4` if its address is not an IPv4 one.
def start (s : Session) (localEndpoint : Option IpAddress) : PoolM Unit := do
  match localEndpoint with
  | some .v4 => s.initHandler .success
  | some .v6 => throw .badAddressCast
  | none => throw .systemError

-- The bytes are read from the borrowed region at this moment.
def transfer (s : Session) (w n : Nat) (stale : Bytes) : Option Session :=
  match s.writes[w]? with
  | some write =>
    if 0 < n ∧ write.sent + n ≤ write.size ∧ stale.length = n then
      some
        { s with
          writes := s.writes.set w { write with sent := write.sent + n }
          peer := s.peer ++ s.msg.read write.block write.sent n stale }
    else
      none
  | none => none

def complete (s : Session) (w : Nat) (error : ErrorCode) : Option Session :=
  match s.writes[w]? with
  | some write =>
    if error.failed ∨ write.sent = write.size then
      some { s with writes := s.writes.eraseIdx w, completed := s.completed ++ [error] }
    else
      none
  | none => none

def hasFailed (s : Session) : Bool :=
  s.completed.any ErrorCode.failed

variable {s t : Session}

theorem transfer_eq_some {w n : Nat} {stale : Bytes} (h : s.transfer w n stale = some t)
    : ∃ write, s.writes[w]? = some write ∧ 0 < n ∧ write.sent + n ≤ write.size ∧
        t =
          { s with
            writes := s.writes.set w { write with sent := write.sent + n }
            peer := s.peer ++ s.msg.read write.block write.sent n stale } := by
  unfold transfer at h
  split at h
  . next write hwrite =>
    split at h
    . next hn =>
      simp only [Option.some.injEq] at h
      exact ⟨write, hwrite, hn.left, hn.right.left, h.symm⟩
    . simp at h
  . simp at h

theorem complete_eq_some {w : Nat} {error : ErrorCode} (h : s.complete w error = some t)
    : ∃ write, s.writes[w]? = some write ∧ (error.failed ∨ write.sent = write.size) ∧
        t = { s with writes := s.writes.eraseIdx w, completed := s.completed ++ [error] } := by
  unfold complete at h
  split at h
  . next write hwrite =>
    split at h
    . next hdone =>
      simp only [Option.some.injEq] at h
      exact ⟨write, hwrite, hdone, h.symm⟩
    . simp at h
  . simp at h

end Session
