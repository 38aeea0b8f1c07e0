import NetDemo.Session.Bookkeeping
import NetDemo.Session.Loop

/-!
This module contains whether the receive loop keeps what it counts: the counter goes by the bytes
that came in, the message by the C string that they form in `msg_`.
-/

namespace Receiver

open Transition

-- What was taken off the counter is what was handed over or kept.
def Agrees (total : Int) (s : Receiver) : Prop :=
  total - s.sumSize.toInt = s.stored.length

def NoNul (_ : Receiver) (i : Invocation) : Prop :=
  match i with
  | .readHandler error chunk _ => error.failed ∨ 0 ∉ chunk
  | .initHandler _ | .analyseHandler _ _ _ | .doneHandler _ _ | .writeHandler _ => True

instance (s : Receiver) (i : Invocation) : Decidable (NoNul s i) :=
  match i with
  | .readHandler _ _ _ => inferInstanceAs (Decidable (_ ∨ _))
  | .initHandler _ | .analyseHandler _ _ _ | .doneHandler _ _ | .writeHandler _ => isTrue trivial

/--
Whenever something is armed, the next chunk meets an empty buffer and a counter that is not below
zero.
-/
structure Agreeing (total : Int) (s : Receiver) : Prop where
  agrees : Agrees total s
  readSize : s.readSize ≤ 1023
  armed : s.armed = [] ∨ s.armed = [.read s.readSize] ∨ ∃ reply, s.armed = [.write reply]
  msg : s.armed ≠ [] → s.msg = .zero 1024
  sumSize : s.armed ≠ [] → 0 ≤ s.sumSize.toInt

variable {s t : Receiver} {w : SizeT} {i : Invocation} {total : Int}

theorem agreeing_start (sumSize : Int32) (maxSize : UInt32) (callback : Bool) (sn : Nat)
    (hsum : 0 ≤ sumSize.toInt) (hmax : maxSize.toNat ≤ 1023)
    : Agreeing sumSize.toInt (start sumSize maxSize callback sn) := by
  rw [start_eq]
  constructor
  case agrees => simp [Agrees, stored, new]
  case readSize =>
    change min maxSize.toNat 1024 ≤ 1023
    omega
  case armed => exact .inr (.inl rfl)
  case msg => exact fun _ => rfl
  case sumSize => exact fun _ => hsum

theorem length_text_eq_iff (chunk : Bytes)
    : (CharArray.text chunk).length = chunk.length ↔ 0 ∉ chunk := by
  rw [← CharArray.text_eq_self_iff]
  constructor
  . intro h
    exact (List.takeWhile_prefix _).eq_of_length h
  . intro h
    rw [h]

theorem agrees_afterRead_iff (hs : Agrees total s) (hmsg : s.msg = .zero 1024)
    (hsum : 0 ≤ s.sumSize.toInt) {chunk : Bytes} (hchunk : chunk.length ≤ 1023) (beyond : Bytes)
    (address : String)
    : Agrees total ((s.idle.written chunk).afterRead w chunk.length beyond address) ↔
        0 ∉ chunk := by
  have hstored : ((s.idle.written chunk).afterRead w chunk.length beyond address).stored =
      s.stored ++ CharArray.text chunk := by
    rw [stored_afterRead, stored_written]
    change s.stored ++ (s.msg.write chunk).cString beyond = _
    rw [hmsg, CharArray.cString_write_zero (by omega)]
  have hcount : ((s.idle.written chunk).afterRead w chunk.length beyond address).sumSize.toInt =
      s.sumSize.toInt - chunk.length := by
    rcases afterRead_cases (w := w) (s.idle.written chunk) chunk.length beyond address hsum
      (by omega) with ⟨h, ⟨_, hafter⟩ | ⟨_, hafter⟩⟩
    . rw [hafter]
      exact h
    . rw [hafter]
      exact h
  rw [← length_text_eq_iff]
  unfold Agrees at hs ⊢
  rw [hcount, hstored, List.length_append]
  omega

theorem Agreeing.step_cases (hs : Agreeing total s) (hstep : loopStep w s i = some t)
    : s.armed ≠ [] ∧
        ((∃ error chunk out, i = .readHandler error chunk out ∧ error.failed = true ∧
          t = s.idle.written chunk) ∨
        (∃ error chunk out address, i = .readHandler error chunk out ∧ error.failed = false ∧
          chunk.length ≤ 1023 ∧
          t = (s.idle.written chunk).afterRead w chunk.length out.beyond address) ∨
        ∃ error, i = .writeHandler error ∧
          t = if error.failed then s.idle else { s with armed := [.read s.readSize] }) := by
  rcases hs.armed with harmed | harmed | ⟨reply, harmed⟩
  . rw [loopStep_idle harmed] at hstep
    simp at hstep
  . refine ⟨by simp [harmed], ?_⟩
    rcases loopStep_read harmed hstep with ⟨error, chunk, out, hi, hsize, hread⟩
    subst hi
    cases herror : error.failed with
    | true =>
      rw [step_readHandler_of_failed herror] at hread
      simp only [Option.some.injEq] at hread
      exact .inl ⟨error, chunk, out, rfl, herror, hread.symm⟩
    | false =>
      rcases step_readHandler_eq_some herror hread with ⟨address, ht⟩
      have := hs.readSize
      exact .inr (.inl ⟨error, chunk, out, address, rfl, herror, by omega, ht⟩)
  . refine ⟨by simp [harmed], ?_⟩
    rcases loopStep_write harmed hstep with ⟨error, hi, ht⟩
    exact .inr (.inr ⟨error, hi, ht⟩)

theorem Agreeing.of_idle (ht : Agrees total t) (hsize : t.readSize ≤ 1023) (harmed : t.armed = [])
    : Agreeing total t where
  agrees := ht
  readSize := hsize
  armed := .inl harmed
  msg := fun h => absurd harmed h
  sumSize := fun h => absurd harmed h

theorem Agreeing.step (hs : Agreeing total s) (hi : NoNul s i)
    (hstep : loopStep w s i = some t)
    : Agreeing total t := by
  rcases hs.step_cases hstep with ⟨hbusy, ⟨error, chunk, out, _, _, ht⟩ |
    ⟨error, chunk, out, address, hread, herror, hchunk, ht⟩ | ⟨error, _, ht⟩⟩
  . subst ht
    exact .of_idle hs.agrees hs.readSize rfl
  . subst hread
    have hnul : 0 ∉ chunk := by
      simpa [NoNul, herror] using hi
    have hagrees : Agrees total t := by
      rw [ht]
      exact (agrees_afterRead_iff hs.agrees (hs.msg hbusy) (hs.sumSize hbusy) hchunk _ _).mpr hnul
    have hframe : t.msg = .zero 1024 ∧ t.readSize = s.readSize := by
      rw [ht]
      unfold afterRead
      split
      . exact ⟨rfl, rfl⟩
      . exact ⟨rfl, rfl⟩
    have hsize : t.readSize ≤ 1023 := hframe.right ▸ hs.readSize
    have harmed := armed_afterRead (w := w) (s.idle.written chunk) rfl chunk.length out.beyond
      address
    rw [← ht] at harmed
    by_cases hnonneg : 0 ≤ t.sumSize.toInt
    . rw [if_pos hnonneg] at harmed
      constructor
      case agrees => exact hagrees
      case readSize => exact hsize
      case armed => exact .inr (.inr ⟨_, harmed⟩)
      case msg => exact fun _ => hframe.left
      case sumSize => exact fun _ => hnonneg
    . rw [if_neg hnonneg] at harmed
      exact .of_idle hagrees hsize harmed
  . rw [ht]
    split
    . exact .of_idle hs.agrees hs.readSize rfl
    . constructor
      case agrees => exact hs.agrees
      case readSize => exact hs.readSize
      case armed => exact .inr (.inl rfl)
      case msg => exact fun _ => hs.msg hbusy
      case sumSize => exact fun _ => hs.sumSize hbusy

theorem Agreeing.noNul (hs : Agreeing total s) (hstep : loopStep w s i = some t)
    (ht : Agrees total t)
    : NoNul s i := by
  rcases hs.step_cases hstep with ⟨hbusy, ⟨error, chunk, out, hread, herror, _⟩ |
    ⟨error, chunk, out, address, hread, herror, hchunk, hafter⟩ | ⟨error, hwrite, _⟩⟩
  . subst hread
    exact .inl herror
  . subst hread
    rw [hafter] at ht
    right
    exact (agrees_afterRead_iff hs.agrees (hs.msg hbusy) (hs.sumSize hbusy) hchunk _ _).mp ht
  . subst hwrite
    trivial

/--
The bytes taken off the counter are all handed over or kept, in every state of the loop, if and only
if no chunk has a NUL byte in it.
-/
theorem agrees_iff_noNul (w : SizeT) (sumSize : Int32) (maxSize : UInt32) (callback : Bool)
    (sn : Nat) (hsum : 0 ≤ sumSize.toInt) (hmax : maxSize.toNat ≤ 1023)
    (invocations : List Invocation) (s : Receiver)
    (hrun : run (loopStep w) (start sumSize maxSize callback sn) invocations = some s)
    : Along (loopStep w) (Agrees sumSize.toInt) (start sumSize maxSize callback sn) invocations ↔
        Meets (loopStep w) NoNul (start sumSize maxSize callback sn) invocations := by
  apply along_iff_meets (p := Agrees sumSize.toInt) (I := Agreeing sumSize.toInt) Agreeing.agrees
    _ _ (agreeing_start sumSize maxSize callback sn hsum hmax) hrun
  . intro s i t hs hi hstep
    exact hs.step hi hstep
  . intro s i t hs hstep ht
    exact hs.noNul hstep ht

theorem agrees_of_text
    : Along (loopStep .w32) (Agrees 3) (start 3 2 true 1)
        [.readHandler .success [65, 66] ⟨[], some "10.0.0.1", none⟩, .writeHandler .success,
          .readHandler .success [67, 68] ⟨[], some "10.0.0.1", none⟩] := by
  cases hrun : run (loopStep .w32) (start 3 2 true 1)
      [.readHandler .success [65, 66] ⟨[], some "10.0.0.1", none⟩, .writeHandler .success,
        .readHandler .success [67, 68] ⟨[], some "10.0.0.1", none⟩] with
  | none => exact absurd hrun (by decide +kernel)
  | some s =>
    exact (agrees_iff_noNul .w32 3 2 true 1 (by decide) (by decide) _ s hrun).mpr
      (by decide +kernel)

-- One byte has come in and was taken off the counter, but there is no message.
theorem not_agrees_of_nul
    : ∃ s, run (loopStep .w32) (start 5 1 true 1)
          [.readHandler .success [0] ⟨[], some "10.0.0.1", none⟩] = some s ∧
        ¬ Agrees 5 s := by
  have hrun : (run (loopStep .w32) (start 5 1 true 1)
      [.readHandler .success [0] ⟨[], some "10.0.0.1", none⟩]).map
      (fun s => (s.sumSize.toInt, s.stored)) = some (4, []) := by
    decide +kernel
  rcases Option.map_eq_some_iff.mp hrun with ⟨s, hrun, hfields⟩
  simp only [Prod.mk.injEq] at hfields
  refine ⟨s, hrun, ?_⟩
  unfold Agrees
  rw [hfields.left, hfields.right]
  decide

end Receiver
