import Mathlib.Algebra.Group.Int.Defs
import NetDemo.Lib.CharArray
import NetDemo.Lib.ExceptState
import NetDemo.Session.Basic

/-!
This module contains the receiving half of a `Session` of the asio demo: the buffer `msg_`, the
message that is put together from it and the five completion handlers.

`boost::asio::buffer(msg_, n)` is limited to the bytes of `msg_`. The reply of `read_handler` lies in
an array of its own block: a write is armed with what the array has in it at the call, and what the
transport finds there once the block has been left is not modelled.
-/

inductive SizeT where
  | w32
  | w64
  deriving DecidableEq, Repr

def SizeT.bits (w : SizeT) : Nat :=
  match w with
  | .w32 => 32
  | .w64 => 64

def replySize : Nat :=
  32

def flushSize : Nat :=
  1024 * 512

-- `char msg[REPLY_SIZE]` with a text and its NUL at the front.
structure ReplyArray where
  text : String
  fits : text.length < replySize
  deriving DecidableEq, Repr

inductive AsyncOp where
  | analyseRead (size : Nat)
  | read (size : Nat)
  | write (msg : ReplyArray)
  deriving DecidableEq, Repr

-- `midTransfer` tells `read_handler` from `done_handler`.
structure HandedOver where
  address : String
  msg : Bytes
  midTransfer : Bool
  deriving DecidableEq, Repr

structure Receiver where
  msg : CharArray 1024
  currentMsg : Bytes
  sumSize : Int32
  maxSize : UInt32
  callback : Bool
  serialNum : Nat
  armed : List AsyncOp
  -- History: `uses` has `msg_` wherever it was used as a `char *`, `doneAt` the number of bytes that
  -- had come in at each call of `done_handler`.
  handed : List HandedOver
  signals : List Nat
  replies : List String
  uses : List (CharArray 1024)
  received : Nat
  doneAt : List Nat
  deriving DecidableEq

/--
What a handler finds outside the session: the memory behind `msg_` and the answers of the socket,
`none` for an exception.
-/
structure Outside where
  beyond : Bytes
  remoteEndpoint : Option String
  available : Option Nat
  deriving DecidableEq, Repr

abbrev ReceiverM := ExceptT Fault (StateM Receiver)

def bufferSize (maxSize : UInt32) : Nat :=
  min maxSize.toNat 1024

def replyText (sumSize : Int) : String :=
  "001:" ++ toString sumSize ++ "."

-- A text that does not fit ends the program.
def sprintfS (text : String) : Option ReplyArray :=
  if h : text.length < replySize then some ⟨text, h⟩ else none

-- `sum -= n` for an int and a size_t.
def subSize (w : SizeT) (sum : Int32) (n : Nat) : Int32 :=
  Int32.ofInt ((sum.toInt % 2 ^ w.bits - n) % 2 ^ w.bits)

namespace Receiver

open ExceptState

def new (sumSize : Int32) (maxSize : UInt32) (callback : Bool) (sn : Nat) : Receiver where
  msg := .zero 1024
  currentMsg := []
  sumSize := sumSize
  maxSize := maxSize
  callback := callback
  serialNum := sn
  armed := []
  handed := []
  signals := []
  replies := []
  uses := []
  received := 0
  doneAt := []

def readSize (s : Receiver) : Nat :=
  bufferSize s.maxSize

def arm (op : AsyncOp) : ReceiverM Unit :=
  modify fun s => { s with armed := s.armed ++ [op] }

def sig : ReceiverM Unit :=
  modify fun s => { s with signals := s.signals ++ [s.serialNum] }

def useMsg (beyond : Bytes) : ReceiverM Bytes :=
  modifyGet fun s => (s.msg.cString beyond, { s with uses := s.uses ++ [s.msg] })

def appendMsg (beyond : Bytes) : ReceiverM Unit := do
  let text ← useMsg beyond
  modify fun s => { s with currentMsg := s.currentMsg ++ text }

def clearMsg (k : Nat) : ReceiverM Unit :=
  modify fun s => { s with msg := s.msg.clear k }

def answer (x : Option α) : ReceiverM α :=
  match x with
  | some a => pure a
  | none => throw .systemError

def handOver (remoteEndpoint : Option String) (midTransfer : Bool) : ReceiverM Unit := do
  let address ← answer remoteEndpoint
  modify fun s =>
    { s with
      handed := s.handed ++ [⟨address, s.currentMsg, midTransfer⟩]
      currentMsg := [] }

def handOverLong (remoteEndpoint : Option String) : ReceiverM Unit := do
  if (← get).currentMsg.length > flushSize then
    if (← get).callback then
      handOver remoteEndpoint true

def handOverRest (remoteEndpoint : Option String) : ReceiverM Unit := do
  if (← get).currentMsg ≠ [] ∧ (← get).callback then
    handOver remoteEndpoint false

def initHandler (error : ErrorCode) : ReceiverM Unit :=
  if error.value = 2 then
    sig
  else
    pure ()

def analyseHandler (error : ErrorCode) (out : Outside) : ReceiverM Unit := do
  if error.failed ∧ error.value = 2 then
    sig
  else
    let _ ← useMsg out.beyond
    let _ ← answer out.available
    clearMsg 35
    arm (.analyseRead 34)

def noteDone : ReceiverM Unit :=
  modify fun s => { s with doneAt := s.doneAt ++ [s.received] }

def doneHandler (error : ErrorCode) (out : Outside) : ReceiverM Unit := do
  noteDone
  if error.failed then
    return
  else
    appendMsg out.beyond
    handOverRest out.remoteEndpoint
    clearMsg 1024

def takeOff (w : SizeT) (readSize : Nat) : ReceiverM Unit :=
  modify fun s => { s with sumSize := subSize w s.sumSize readSize }

def reply : ReceiverM Unit := do
  match sprintfS (replyText (← get).sumSize.toInt) with
  | some msg =>
    modify fun s => { s with replies := s.replies ++ [msg.text] }
    arm (.write msg)
  | none => throw .invalidParameter

def readHandler (w : SizeT) (error : ErrorCode) (readSize : Nat) (out : Outside)
    : ReceiverM Unit := do
  if error.failed then
    return
  else
    appendMsg out.beyond
    handOverLong out.remoteEndpoint
    clearMsg 1024
    takeOff w readSize
    if 0 > (← get).sumSize then
      doneHandler error out
    else
      reply

def writeHandler (error : ErrorCode) : ReceiverM Unit := do
  if error.failed then
    return
  else
    arm (.read (← get).readSize)

-- The transport puts the bytes that have come in into `msg_` before the handler is invoked.
def deliver (chunk : Bytes) : ReceiverM Unit :=
  modify fun s => { s with msg := s.msg.write chunk, received := s.received + chunk.length }

end Receiver

inductive Invocation where
  | initHandler (error : ErrorCode)
  | analyseHandler (error : ErrorCode) (chunk : Bytes) (out : Outside)
  | doneHandler (error : ErrorCode) (out : Outside)
  | readHandler (error : ErrorCode) (chunk : Bytes) (out : Outside)
  | writeHandler (error : ErrorCode)
  deriving DecidableEq, Repr

def Invocation.error (i : Invocation) : ErrorCode :=
  match i with
  | .initHandler error | .analyseHandler error _ _ | .doneHandler error _
  | .readHandler error _ _ | .writeHandler error => error

namespace Receiver

open ExceptState

def invoke (w : SizeT) (i : Invocation) : ReceiverM Unit := do
  match i with
  | .initHandler error => initHandler error
  | .analyseHandler error chunk out =>
    deliver chunk
    analyseHandler error out
  | .doneHandler error out => doneHandler error out
  | .readHandler error chunk out =>
    deliver chunk
    readHandler w error chunk.length out
  | .writeHandler error => writeHandler error

-- An exception leaves `io_service::run` and with it the thread function, which ends the program.
def step (w : SizeT) (s : Receiver) (i : Invocation) : Option Receiver :=
  match exec (invoke w i) s with
  | (.ok (), t) => some t
  | (.error _, _) => none

/--
The operations complete in the order in which they were armed, each with its own handler and at most
the bytes that it asked for.
-/
def loopStep (w : SizeT) (s : Receiver) (i : Invocation) : Option Receiver :=
  match s.armed, i with
  | .analyseRead size :: rest, .analyseHandler _ chunk _
  | .read size :: rest, .readHandler _ chunk _ =>
    if chunk.length ≤ size then step w { s with armed := rest } i else none
  | .write _ :: rest, .writeHandler _ => step w { s with armed := rest } i
  | _, _ => none

end Receiver
