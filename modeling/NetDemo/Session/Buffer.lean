import NetDemo.Lib.Transition
import NetDemo.Session.Handlers

/-!
This module contains the use of `msg_` as a C string: between two completions its last byte is NUL,
so only a read that fills all of it can leave it unterminated.
-/

namespace Receiver

open ExceptState Transition

-- Also if the invocation throws.
def UsesTerminated (w : SizeT) (s : Receiver) (i : Invocation) : Prop :=
  ∀ a, a ∈ (exec (invoke w i) s).2.uses → a.Terminated

-- A read brings at most what was asked for, and less than the whole buffer if it fails.
def Fits (s : Receiver) (i : Invocation) : Prop :=
  match i with
  | .analyseHandler _ chunk _ => chunk.length ≤ 34
  | .readHandler error chunk _ =>
    chunk.length ≤ s.readSize ∧ (error.failed → chunk.length < 1024)
  | .initHandler _ | .doneHandler _ _ | .writeHandler _ => True

def LeavesRoom (_ : Receiver) (i : Invocation) : Prop :=
  match i with
  | .readHandler error chunk _ => error.failed ∨ chunk.length < 1024 ∨ 0 ∈ chunk
  | .initHandler _ | .analyseHandler _ _ _ | .doneHandler _ _ | .writeHandler _ => True

instance (s : Receiver) (i : Invocation) : Decidable (Fits s i) :=
  match i with
  | .analyseHandler _ _ _ => inferInstanceAs (Decidable (_ ≤ _))
  | .readHandler _ _ _ => inferInstanceAs (Decidable (_ ∧ _))
  | .initHandler _ | .doneHandler _ _ | .writeHandler _ => isTrue trivial

instance (s : Receiver) (i : Invocation) : Decidable (LeavesRoom s i) :=
  match i with
  | .readHandler _ _ _ => inferInstanceAs (Decidable (_ ∨ _))
  | .initHandler _ | .analyseHandler _ _ _ | .doneHandler _ _ | .writeHandler _ => isTrue trivial

structure Guarded (s : Receiver) : Prop where
  lastZero : s.msg.LastZero
  uses : ∀ a, a ∈ s.uses → a.Terminated

theorem guarded_new (sumSize : Int32) (maxSize : UInt32) (callback : Bool) (sn : Nat)
    : (new sumSize maxSize callback sn).Guarded where
  lastZero := CharArray.lastZero_zero (by omega)
  uses := by simp [new]

theorem uses_analyseHandler (s : Receiver) (error : ErrorCode) (out : Outside)
    : (exec (analyseHandler error out) s).2.uses =
        if error.failed ∧ error.value = 2 then s.uses else s.uses ++ [s.msg] := by
  unfold analyseHandler
  split
  . simp [sig]
  . cases hout : out.available with
    | none => simp [useMsg, answer]
    | some n => simp [useMsg, answer, clearMsg, arm]

theorem uses_doneHandler (s : Receiver) (error : ErrorCode) (out : Outside)
    : (exec (doneHandler error out) s).2.uses =
        if error.failed then s.uses else s.uses ++ [s.msg] := by
  cases herror : error.failed with
  | true => simp [doneHandler, herror, noted]
  | false =>
    rcases exec_doneHandler_cases s herror with ⟨address, h | h⟩
    . rw [h]
      rfl
    . rw [h]
      rfl

-- `done_handler` uses `msg_` once more, when `read_handler` has cleared it.
theorem uses_readHandler (w : SizeT) (s : Receiver) (n : Nat) {error : ErrorCode} (out : Outside)
    (herror : error.failed = false)
    : (exec (readHandler w error n out) s).2.uses = s.uses ++ [s.msg] ∨
        (exec (readHandler w error n out) s).2.uses = s.uses ++ [s.msg] ++ [.zero 1024] := by
  rcases exec_readHandler_cases s w n herror with ⟨address, h | h | h⟩
  . rw [h]
    unfold afterRead
    split
    . exact .inr rfl
    . exact .inl rfl
  . rw [h]
    exact .inl rfl
  . rw [h]
    exact .inr rfl

theorem mem_uses_readHandler (w : SizeT) (s : Receiver) (n : Nat) {error : ErrorCode}
    (out : Outside) (herror : error.failed = false)
    : s.msg ∈ (exec (readHandler w error n out) s).2.uses ∧
        ∀ a, a ∈ (exec (readHandler w error n out) s).2.uses →
          a ∈ s.uses ∨ a = s.msg ∨ a = .zero 1024 := by
  cases uses_readHandler w s n out herror with
  | inl h =>
    rw [h]
    refine ⟨by simp, ?_⟩
    intro a ha
    simp only [List.mem_append, List.mem_singleton] at ha
    exact ha.imp_right .inl
  | inr h =>
    rw [h]
    refine ⟨by simp, ?_⟩
    intro a ha
    simp only [List.mem_append, List.mem_singleton, or_assoc] at ha
    exact ha

theorem lastZero_afterRead (s : Receiver) (w : SizeT) (n : Nat) (beyond : Bytes) (address : String)
    : (s.afterRead w n beyond address).msg.LastZero := by
  have hzero : (CharArray.zero 1024).LastZero := CharArray.lastZero_zero (by omega)
  unfold afterRead
  split
  . exact hzero
  . exact hzero

theorem lastZero_doneHandler {s t : Receiver} (hs : s.msg.LastZero) {error : ErrorCode}
    {out : Outside} (h : exec (doneHandler error out) s = (.ok (), t))
    : t.msg.LastZero := by
  have hzero : (CharArray.zero 1024).LastZero := CharArray.lastZero_zero (by omega)
  have ht : t = (exec (doneHandler error out) s).2 := by rw [h]
  cases herror : error.failed with
  | true =>
    rw [ht]
    simpa [doneHandler, herror, noted] using hs
  | false =>
    rcases exec_doneHandler_cases s herror with ⟨address, h' | h'⟩
    . rw [ht, h']
      exact hzero
    . simp [h'] at h

theorem lastZero_analyseHandler {s t : Receiver} (hs : s.msg.LastZero) {error : ErrorCode}
    {out : Outside} (h : exec (analyseHandler error out) s = (.ok (), t))
    : t.msg.LastZero := by
  unfold analyseHandler at h
  split at h
  . simp only [sig, exec_modify, Prod.mk.injEq, true_and] at h
    exact h ▸ hs
  . cases hout : out.available with
    | none => simp [useMsg, answer, hout] at h
    | some n =>
      simp only [useMsg, answer, hout, clearMsg, arm, exec_bind, exec_modifyGet, exec_pure,
        exec_modify, Prod.mk.injEq, true_and] at h
      subst h
      apply hs.write
      simp

theorem exec_of_step {s t : Receiver} {w : SizeT} {i : Invocation}
    (hstep : Receiver.step w s i = some t)
    : exec (invoke w i) s = (.ok (), t) := by
  unfold Receiver.step at hstep
  split at hstep
  . next heq =>
    simp only [Option.some.injEq] at hstep
    rw [heq, hstep]
  . simp at hstep

theorem Guarded.written {s : Receiver} (hs : s.Guarded) {chunk : Bytes} (h : chunk.length < 1024)
    : (s.written chunk).Guarded where
  lastZero := hs.lastZero.write h
  uses := hs.uses

theorem Guarded.mem_uses {s : Receiver} (hs : s.Guarded) {a : CharArray 1024}
    (ha : a ∈ s.uses ++ [s.msg])
    : a.Terminated := by
  cases List.mem_append.mp ha with
  | inl h => exact hs.uses a h
  | inr h =>
    rw [List.mem_singleton.mp h]
    exact hs.lastZero.terminated

-- The one place where a read can fill the whole array.
theorem Guarded.usesTerminated_readHandler_iff {s : Receiver} (hs : s.Guarded) (w : SizeT)
    {error : ErrorCode} {chunk : Bytes} {out : Outside} (hsize : chunk.length ≤ 1024)
    : UsesTerminated w s (.readHandler error chunk out) ↔
        error.failed ∨ chunk.length < 1024 ∨ 0 ∈ chunk := by
  have hzero : (CharArray.zero 1024).Terminated :=
    (CharArray.lastZero_zero (by omega)).terminated
  have huses : ∀ a, a ∈ (s.written chunk).uses → a.Terminated := hs.uses
  have hmsg : (s.written chunk).msg.Terminated ↔ chunk.length < 1024 ∨ 0 ∈ chunk :=
    CharArray.terminated_write_iff hs.lastZero hsize
  unfold UsesTerminated
  simp only [invoke, exec_bind, exec_deliver]
  cases herror : error.failed with
  | true =>
    simp only [readHandler, herror, true_or, iff_true, if_true]
    exact huses
  | false =>
    simp only [Bool.false_eq_true, false_or, ← hmsg]
    have hread := mem_uses_readHandler w (s.written chunk) chunk.length out herror
    constructor
    . intro h
      apply h
      exact hread.left
    . intro h a ha
      rcases hread.right a ha with ha | ha | ha
      . exact huses a ha
      . exact ha ▸ h
      . exact ha ▸ hzero

theorem Guarded.usesTerminated_iff_leavesRoom {s : Receiver} (hs : s.Guarded) (w : SizeT)
    {i : Invocation} (hfits : Fits s i)
    : UsesTerminated w s i ↔ LeavesRoom s i := by
  unfold UsesTerminated
  cases i with
  | initHandler error =>
    simp only [LeavesRoom, iff_true, invoke, initHandler]
    intro a ha
    apply hs.uses
    split at ha
    . exact ha
    . exact ha
  | writeHandler error =>
    simp only [LeavesRoom, iff_true, invoke, writeHandler]
    intro a ha
    apply hs.uses
    split at ha
    . exact ha
    . exact ha
  | doneHandler error out =>
    simp only [LeavesRoom, iff_true, invoke, uses_doneHandler]
    intro a ha
    split at ha
    . exact hs.uses a ha
    . exact hs.mem_uses ha
  | analyseHandler error chunk out =>
    have hwritten : (s.written chunk).Guarded := by
      apply hs.written
      unfold Fits at hfits
      omega
    simp only [LeavesRoom, iff_true, invoke, exec_bind, exec_deliver, uses_analyseHandler]
    intro a ha
    split at ha
    . exact hwritten.uses a ha
    . exact hwritten.mem_uses ha
  | readHandler error chunk out =>
    have hsize : chunk.length ≤ 1024 := by
      have := hfits.left
      unfold readSize bufferSize at this
      omega
    exact hs.usesTerminated_readHandler_iff w hsize

-- The array is zeroed, or too little was written to reach its last byte.
theorem Guarded.lastZero_of_step {s t : Receiver} (hs : s.Guarded) {w : SizeT} {i : Invocation}
    (hfits : Fits s i) (hstep : Receiver.step w s i = some t)
    : t.msg.LastZero := by
  have hexec := exec_of_step hstep
  cases i with
  | initHandler error =>
    simp only [invoke, initHandler] at hexec
    split at hexec
    . simp only [sig, exec_modify, Prod.mk.injEq, true_and] at hexec
      exact hexec ▸ hs.lastZero
    . simp only [exec_pure, Prod.mk.injEq, true_and] at hexec
      exact hexec ▸ hs.lastZero
  | writeHandler error =>
    rw [step_writeHandler] at hstep
    simp only [Option.some.injEq] at hstep
    subst hstep
    split
    . exact hs.lastZero
    . exact hs.lastZero
  | doneHandler error out => exact lastZero_doneHandler hs.lastZero hexec
  | analyseHandler error chunk out =>
    have hwritten : (s.written chunk).msg.LastZero := by
      apply hs.lastZero.write
      unfold Fits at hfits
      omega
    simp only [invoke, exec_bind, exec_deliver] at hexec
    exact lastZero_analyseHandler hwritten hexec
  | readHandler error chunk out =>
    cases herror : error.failed with
    | true =>
      rw [step_readHandler_of_failed herror] at hstep
      simp only [Option.some.injEq] at hstep
      subst hstep
      exact hs.lastZero.write (hfits.right herror)
    | false =>
      rcases step_readHandler_eq_some herror hstep with ⟨address, ht⟩
      rw [ht]
      apply lastZero_afterRead

theorem Guarded.step {s t : Receiver} (hs : s.Guarded) {w : SizeT} {i : Invocation}
    (hfits : Fits s i) (huses : UsesTerminated w s i) (hstep : Receiver.step w s i = some t)
    : t.Guarded where
  lastZero := hs.lastZero_of_step hfits hstep
  uses := by
    intro a ha
    apply huses
    rw [exec_of_step hstep]
    exact ha

/--
Wherever `msg_` is used as a C string there is a NUL in it, if and only if no read brings 1024 bytes
without one.
-/
theorem usesTerminated_iff (w : SizeT) (sumSize : Int32) (maxSize : UInt32) (callback : Bool)
    (sn : Nat) (invocations : List Invocation)
    (hfits : Meets (step w) Fits (new sumSize maxSize callback sn) invocations)
    : Meets (step w) (UsesTerminated w) (new sumSize maxSize callback sn) invocations ↔
        Meets (step w) LeavesRoom (new sumSize maxSize callback sn) invocations := by
  apply meets_congr_of_meets (I := Guarded) _ _ (guarded_new sumSize maxSize callback sn) hfits
  . intro s i t hs hfits huses hstep
    exact hs.step hfits huses hstep
  . intro s i hs hfits
    exact hs.usesTerminated_iff_leavesRoom w hfits

theorem usesTerminated_of_short_reads
    : Meets (step .w32) (UsesTerminated .w32) (new 3 1023 true 1)
        [.analyseHandler .success [72, 105] ⟨[7], none, some 0⟩, .writeHandler .success,
          .readHandler .success [65, 66] ⟨[7], some "10.0.0.1", none⟩,
          .readHandler ⟨10054⟩ [67] ⟨[7], none, none⟩] := by
  apply (usesTerminated_iff _ _ _ _ _ _ _).mpr
  . decide +kernel
  . decide +kernel

-- A read that fills `msg_` with text.
theorem not_usesTerminated_of_full_read
    : Meets (step .w32) Fits (new 1024 1024 true 1)
          [.readHandler .success (List.replicate 1024 65) ⟨[7], some "10.0.0.1", none⟩] ∧
        ¬ Meets (step .w32) (UsesTerminated .w32) (new 1024 1024 true 1)
          [.readHandler .success (List.replicate 1024 65) ⟨[7], some "10.0.0.1", none⟩] := by
  have hlength : (List.replicate 1024 (65 : UInt8)).length = 1024 := List.length_replicate
  have hmem : (0 : UInt8) ∉ List.replicate 1024 65 := by
    rw [List.mem_replicate]
    decide
  generalize List.replicate 1024 (65 : UInt8) = chunk at hlength hmem
  have hfits : Fits (new 1024 1024 true 1)
      (.readHandler .success chunk ⟨[7], some "10.0.0.1", none⟩) := by
    simp [Fits, new, readSize, bufferSize, hlength, ErrorCode.success, ErrorCode.failed]
  rw [meets_singleton, meets_singleton]
  refine ⟨hfits, ?_⟩
  rw [(guarded_new 1024 1024 true 1).usesTerminated_iff_leavesRoom .w32 hfits]
  simp [LeavesRoom, hlength, hmem, ErrorCode.success, ErrorCode.failed]

end Receiver
