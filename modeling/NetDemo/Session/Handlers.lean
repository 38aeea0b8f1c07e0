import Mathlib.Data.Nat.Digits.Defs
import NetDemo.Session.Receive

/-!
This module says once what the completion handlers of a `Session` do: the state in which they leave
it if nothing throws, and how little is different if something does.
-/

-- Ten digits and a sign, the four characters in front of them and the one behind.
theorem length_replyText {v : Int} (hge : -2 ^ 31 ≤ v) (hlt : v < 2 ^ 31)
    : (replyText v).length ≤ 16 := by
  have hdigits : ∀ n : Nat, n ≤ 2 ^ 31 → (Nat.repr n).length ≤ 10 := by
    intro n hn
    apply Nat.repr_length
    . omega
    . omega
  have hrepr : (toString v).length ≤ 11 := by
    rw [Int.toString_eq_repr, Int.repr_eq_if]
    split
    . have := hdigits v.toNat (by omega)
      omega
    . have := hdigits (-v).toNat (by omega)
      rw [String.length_append]
      change 1 + _ ≤ 11
      omega
  unfold replyText
  rw [String.length_append, String.length_append]
  change 4 + _ + 1 ≤ 16
  omega

def replyArray (sumSize : Int32) : ReplyArray where
  text := replyText sumSize.toInt
  fits := Nat.lt_of_le_of_lt (length_replyText sumSize.le_toInt sumSize.toInt_lt) (by decide)

-- `sprintf_s` never runs out of the array.
theorem sprintfS_replyText (sumSize : Int32)
    : sprintfS (replyText sumSize.toInt) = some (replyArray sumSize) := by
  have hfits : (replyText sumSize.toInt).length < replySize := (replyArray sumSize).fits
  unfold sprintfS
  rw [dif_pos hfits]
  rfl

namespace Receiver

open ExceptState

def appended (s : Receiver) (beyond : Bytes) : Receiver :=
  { s with
    currentMsg := s.currentMsg ++ s.msg.cString beyond
    uses := s.uses ++ [s.msg] }

def handedIf (s : Receiver) (address : String) (midTransfer : Bool) (c : Prop) [Decidable c]
    : Receiver :=
  { s with
    handed := if c then s.handed ++ [⟨address, s.currentMsg, midTransfer⟩] else s.handed
    currentMsg := if c then [] else s.currentMsg }

def flushed (s : Receiver) (address : String) : Receiver :=
  s.handedIf address true (s.currentMsg.length > flushSize ∧ s.callback)

def delivered (s : Receiver) (address : String) : Receiver :=
  s.handedIf address false (s.currentMsg ≠ [] ∧ s.callback)

def cleared (s : Receiver) : Receiver :=
  { s with msg := .zero 1024 }

def noted (s : Receiver) : Receiver :=
  { s with doneAt := s.doneAt ++ [s.received] }

def finished (s : Receiver) (beyond : Bytes) (address : String) : Receiver :=
  ((s.noted.appended beyond).delivered address).cleared

def counted (s : Receiver) (w : SizeT) (n : Nat) : Receiver :=
  { s with sumSize := subSize w s.sumSize n }

def replied (s : Receiver) : Receiver :=
  { s with
    replies := s.replies ++ [replyText s.sumSize.toInt]
    armed := s.armed ++ [.write (replyArray s.sumSize)] }

-- The state in which `read_handler` compares the counter with zero.
def taken (s : Receiver) (w : SizeT) (n : Nat) (beyond : Bytes) (address : String) : Receiver :=
  ((s.appended beyond).flushed address).cleared.counted w n

def afterRead (s : Receiver) (w : SizeT) (n : Nat) (beyond : Bytes) (address : String)
    : Receiver :=
  if (s.taken w n beyond address).sumSize < 0 then
    (s.taken w n beyond address).finished beyond address
  else
    (s.taken w n beyond address).replied

def written (s : Receiver) (chunk : Bytes) : Receiver :=
  { s with msg := s.msg.write chunk, received := s.received + chunk.length }

variable (s : Receiver)

section Exec

@[simp]
theorem exec_appendMsg (beyond : Bytes)
    : exec (appendMsg beyond) s = (.ok (), s.appended beyond) := by
  simp [appendMsg, useMsg, appended]

@[simp]
theorem exec_clearMsg : exec (clearMsg 1024) s = (.ok (), s.cleared) := by
  simp [clearMsg, cleared, CharArray.clear_all]

@[simp]
theorem exec_noteDone : exec noteDone s = (.ok (), s.noted) := by
  simp [noteDone, noted]

@[simp]
theorem exec_takeOff (w : SizeT) (n : Nat) : exec (takeOff w n) s = (.ok (), s.counted w n) := by
  simp [takeOff, counted]

@[simp]
theorem exec_reply : exec reply s = (.ok (), s.replied) := by
  simp [reply, arm, replied, sprintfS_replyText, replyArray]

@[simp]
theorem exec_deliver (chunk : Bytes) : exec (deliver chunk) s = (.ok (), s.written chunk) := by
  simp [deliver, written]

theorem handedIf_of_not {address : String} {midTransfer : Bool} {c : Prop} [Decidable c] (h : ¬ c)
    : s.handedIf address midTransfer c = s := by
  simp [handedIf, h]

theorem exec_handOver_some {c : Prop} [Decidable c] (h : c) (address : String) (midTransfer : Bool)
    : exec (handOver (some address) midTransfer) s =
        (.ok (), s.handedIf address midTransfer c) := by
  simp [handOver, answer, handedIf, h]

theorem exec_handOver_none (midTransfer : Bool)
    : exec (handOver none midTransfer) s = (.error .systemError, s) := by
  simp [handOver, answer]

theorem exec_handOverLong (remoteEndpoint : Option String)
    : exec (handOverLong remoteEndpoint) s =
        if s.currentMsg.length > flushSize ∧ s.callback then
          exec (handOver remoteEndpoint true) s
        else
          (.ok (), s) := by
  unfold handOverLong
  by_cases hlong : s.currentMsg.length > flushSize
  . by_cases hcallback : s.callback
    . simp [hlong, hcallback]
    . simp [hlong, hcallback]
  . simp [hlong]

theorem exec_handOverRest (remoteEndpoint : Option String)
    : exec (handOverRest remoteEndpoint) s =
        if s.currentMsg ≠ [] ∧ s.callback then
          exec (handOver remoteEndpoint false) s
        else
          (.ok (), s) := by
  unfold handOverRest
  by_cases hrest : s.currentMsg ≠ [] ∧ s.callback
  . simp [hrest]
  . simp [hrest]

theorem exec_handOverLong_some (address : String)
    : exec (handOverLong (some address)) s = (.ok (), s.flushed address) := by
  rw [exec_handOverLong]
  unfold flushed
  split
  . next h => rw [exec_handOver_some s h]
  . next h => rw [handedIf_of_not s h]

theorem exec_handOverRest_some (address : String)
    : exec (handOverRest (some address)) s = (.ok (), s.delivered address) := by
  rw [exec_handOverRest]
  unfold delivered
  split
  . next h => rw [exec_handOver_some s h]
  . next h => rw [handedIf_of_not s h]

-- If the peer's address cannot be had, this matters only where it is asked for.
theorem exec_handOverLong_none (address : String)
    : exec (handOverLong none) s = (.ok (), s.flushed address) ∨
        exec (handOverLong none) s = (.error .systemError, s) := by
  rw [exec_handOverLong]
  unfold flushed
  split
  . next h => exact .inr (exec_handOver_none s true)
  . next h => exact .inl (by rw [handedIf_of_not s h])

theorem exec_handOverRest_none (address : String)
    : exec (handOverRest none) s = (.ok (), s.delivered address) ∨
        exec (handOverRest none) s = (.error .systemError, s) := by
  rw [exec_handOverRest]
  unfold delivered
  split
  . next h => exact .inr (exec_handOver_none s false)
  . next h => exact .inl (by rw [handedIf_of_not s h])

variable {error : ErrorCode} {out : Outside} {address : String}

theorem exec_doneHandler (herror : error.failed = false) (hout : out.remoteEndpoint = some address)
    : exec (doneHandler error out) s = (.ok (), s.finished out.beyond address) := by
  simp [doneHandler, herror, hout, exec_handOverRest_some, finished]

theorem exec_doneHandler_none (herror : error.failed = false) (hout : out.remoteEndpoint = none)
    (address : String)
    : exec (doneHandler error out) s = (.ok (), s.finished out.beyond address) ∨
        exec (doneHandler error out) s = (.error .systemError, s.noted.appended out.beyond) := by
  unfold doneHandler
  simp only [exec_bind, exec_noteDone, herror, hout, Bool.false_eq_true, if_false, exec_appendMsg]
  cases exec_handOverRest_none (s.noted.appended out.beyond) address with
  | inl h => simp [h, finished]
  | inr h => simp [h]

theorem exec_doneHandler_cases (herror : error.failed = false)
    : ∃ address,
        exec (doneHandler error out) s = (.ok (), s.finished out.beyond address) ∨
          exec (doneHandler error out) s = (.error .systemError, s.noted.appended out.beyond) := by
  cases hout : out.remoteEndpoint with
  | some address => exact ⟨address, .inl (exec_doneHandler s herror hout)⟩
  | none => exact ⟨"", exec_doneHandler_none s herror hout ""⟩

theorem exec_readHandler (w : SizeT) (n : Nat) (herror : error.failed = false)
    (hout : out.remoteEndpoint = some address)
    : exec (readHandler w error n out) s = (.ok (), s.afterRead w n out.beyond address) := by
  unfold readHandler afterRead taken
  simp only [exec_bind, herror, hout, Bool.false_eq_true, if_false, exec_appendMsg,
    exec_handOverLong_some, exec_clearMsg, exec_takeOff, exec_get, gt_iff_lt]
  split
  . apply exec_doneHandler _ herror hout
  . apply exec_reply

-- Where the call throws, `msg_` was used once, or once more by `done_handler`.
theorem exec_readHandler_none (w : SizeT) (n : Nat) (herror : error.failed = false)
    (hout : out.remoteEndpoint = none) (address : String)
    : exec (readHandler w error n out) s = (.ok (), s.afterRead w n out.beyond address) ∨
        exec (readHandler w error n out) s = (.error .systemError, s.appended out.beyond) ∨
        exec (readHandler w error n out) s =
          (.error .systemError, (s.taken w n out.beyond address).noted.appended out.beyond) := by
  unfold readHandler afterRead taken
  simp only [exec_bind, herror, hout, Bool.false_eq_true, if_false, exec_appendMsg]
  cases exec_handOverLong_none (s.appended out.beyond) address with
  | inr h => simp [h]
  | inl h =>
    simp only [h, exec_clearMsg, exec_takeOff, exec_get, gt_iff_lt]
    split
    . next hneg =>
      cases exec_doneHandler_none (((s.appended out.beyond).flushed address).cleared.counted w n)
        herror hout address with
      | inl h => simp [h]
      | inr h => simp [h]
    . simp

theorem exec_readHandler_throws (w : SizeT) (n : Nat) (herror : error.failed = false)
    (hout : out.remoteEndpoint = none)
    (hlong : (s.appended out.beyond).currentMsg.length > flushSize ∧
      (s.appended out.beyond).callback)
    : exec (readHandler w error n out) s = (.error .systemError, s.appended out.beyond) := by
  unfold readHandler
  simp only [exec_bind, herror, hout, Bool.false_eq_true, if_false, exec_appendMsg]
  rw [exec_handOverLong, if_pos hlong, exec_handOver_none]

theorem exec_readHandler_cases (w : SizeT) (n : Nat) (herror : error.failed = false)
    : ∃ address,
        exec (readHandler w error n out) s = (.ok (), s.afterRead w n out.beyond address) ∨
        exec (readHandler w error n out) s = (.error .systemError, s.appended out.beyond) ∨
        exec (readHandler w error n out) s =
          (.error .systemError, (s.taken w n out.beyond address).noted.appended out.beyond) := by
  cases hout : out.remoteEndpoint with
  | some address => exact ⟨address, .inl (exec_readHandler s w n herror hout)⟩
  | none => exact ⟨"", exec_readHandler_none s w n herror hout ""⟩

end Exec

section Step

variable {s : Receiver} {t : Receiver} {w : SizeT} {error : ErrorCode} {chunk : Bytes} {out : Outside}

theorem step_readHandler_of_failed (herror : error.failed = true)
    : step w s (.readHandler error chunk out) = some (s.written chunk) := by
  simp [step, invoke, readHandler, herror]

theorem step_readHandler_eq_some (herror : error.failed = false)
    (h : step w s (.readHandler error chunk out) = some t)
    : ∃ address, t = (s.written chunk).afterRead w chunk.length out.beyond address := by
  simp only [step, invoke, exec_bind, exec_deliver] at h
  rcases exec_readHandler_cases (s.written chunk) w chunk.length herror
    with ⟨address, hx | hx | hx⟩
  . rw [hx] at h
    simp only [Option.some.injEq] at h
    exact ⟨address, h.symm⟩
  . simp [hx] at h
  . simp [hx] at h

theorem step_readHandler_some {address : String} (herror : error.failed = false)
    (hout : out.remoteEndpoint = some address)
    : step w s (.readHandler error chunk out) =
        some ((s.written chunk).afterRead w chunk.length out.beyond address) := by
  simp [step, invoke, exec_readHandler _ w _ herror hout]

theorem step_writeHandler
    : step w s (.writeHandler error) =
        some (if error.failed then s else { s with armed := s.armed ++ [.read s.readSize] }) := by
  cases herror : error.failed with
  | true => simp [step, invoke, writeHandler, herror]
  | false => simp [step, invoke, writeHandler, herror, arm, readSize]

end Step

end Receiver
