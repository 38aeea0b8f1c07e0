import Mathlib.Algebra.Group.Nat.Defs
import NetDemo.Lib.Transition
import NetDemo.Session.Handlers

/-!
This module contains the receive loop, in which `write_handler` and `read_handler` follow each other
through their completions, and its counter of the bytes that are still to come.
-/

theorem SizeT.dvd_pow_bits (w : SizeT) : (2 : Int) ^ 32 ∣ 2 ^ w.bits := by
  cases w with
  | w32 => simp [SizeT.bits]
  | w64 => decide

-- The detour over the size_t does not show as long as the result is an int.
theorem toInt_subSize (w : SizeT) (sum : Int32) (n : Nat) (h : -2 ^ 31 ≤ sum.toInt - n)
    : (subSize w sum n).toInt = sum.toInt - n := by
  have hdvd := w.dvd_pow_bits
  have hlt := sum.toInt_lt
  have hmod : (sum.toInt % 2 ^ w.bits - n) % 2 ^ w.bits % 2 ^ 32 = (sum.toInt - n) % 2 ^ 32 := by
    calc (sum.toInt % 2 ^ w.bits - n) % 2 ^ w.bits % 2 ^ 32
      _ = (sum.toInt % 2 ^ w.bits - n) % 2 ^ 32 := by rw [Int.emod_emod_of_dvd _ hdvd]
      _ = (sum.toInt % 2 ^ w.bits % 2 ^ 32 - n) % 2 ^ 32 := by rw [Int.emod_sub_emod]
      _ = (sum.toInt - n) % 2 ^ 32 := by rw [Int.emod_emod_of_dvd _ hdvd, Int.emod_sub_emod]
  unfold subSize
  rw [Int32.toInt_ofInt, ← Int.emod_bmod]
  change ((sum.toInt % 2 ^ w.bits - n) % 2 ^ w.bits % 2 ^ 32).bmod Int32.size = _
  rw [hmod]
  change ((sum.toInt - n) % (Int32.size : Int)).bmod Int32.size = _
  rw [Int.emod_bmod]
  apply Int.bmod_eq_of_le
  . simp only [Int32.size]
    omega
  . simp only [Int32.size]
    omega

def Invocation.isRead (i : Invocation) : Bool :=
  match i with
  | .readHandler _ _ _ => true
  | .initHandler _ | .analyseHandler _ _ _ | .doneHandler _ _ | .writeHandler _ => false

namespace Receiver

open ExceptState Transition

-- The loop starts with a call of `write_handler`.
def start (sumSize : Int32) (maxSize : UInt32) (callback : Bool) (sn : Nat) : Receiver :=
  (exec (writeHandler .success) (new sumSize maxSize callback sn)).2

-- The operation succeeds, and a read brings all the bytes that it asked for.
def Fills (s : Receiver) (i : Invocation) : Prop :=
  i.error.failed = false ∧
    match i with
    | .readHandler _ chunk _ => chunk.length = s.readSize
    | .initHandler _ | .analyseHandler _ _ _ | .doneHandler _ _ | .writeHandler _ => True

instance (s : Receiver) (i : Invocation) : Decidable (Fills s i) :=
  match i with
  | .readHandler _ _ _ => inferInstanceAs (Decidable (_ ∧ _))
  | .initHandler _ | .analyseHandler _ _ _ | .doneHandler _ _ | .writeHandler _ =>
    inferInstanceAs (Decidable (_ ∧ True))

def idle (s : Receiver) : Receiver :=
  { s with armed := [] }

section Step

variable {s t : Receiver} {w : SizeT} {i : Invocation}

theorem start_eq (sumSize : Int32) (maxSize : UInt32) (callback : Bool) (sn : Nat)
    : start sumSize maxSize callback sn =
        { new sumSize maxSize callback sn with armed := [.read (bufferSize maxSize)] } := by
  rfl

theorem loopStep_idle (harmed : s.armed = []) : loopStep w s i = none := by
  simp [loopStep, harmed]

theorem loopStep_readHandler {size : Nat} (harmed : s.armed = [.read size]) {chunk : Bytes}
    (hsize : chunk.length ≤ size) (error : ErrorCode) (out : Outside)
    : loopStep w s (.readHandler error chunk out) =
        step w s.idle (.readHandler error chunk out) := by
  simp [loopStep, harmed, idle, hsize]

theorem loopStep_writeHandler {msg : ReplyArray} (harmed : s.armed = [.write msg])
    (error : ErrorCode)
    : loopStep w s (.writeHandler error) = step w s.idle (.writeHandler error) := by
  simp [loopStep, harmed, idle]

theorem loopStep_read {size : Nat} (harmed : s.armed = [.read size])
    (hstep : loopStep w s i = some t)
    : ∃ error chunk out, i = .readHandler error chunk out ∧ chunk.length ≤ size ∧
        step w s.idle i = some t := by
  cases i with
  | readHandler error chunk out =>
    simp only [loopStep, harmed] at hstep
    split at hstep
    . next hsize => exact ⟨error, chunk, out, rfl, hsize, hstep⟩
    . simp at hstep
  | initHandler _ | analyseHandler _ _ _ | doneHandler _ _ | writeHandler _ =>
    simp [loopStep, harmed] at hstep

theorem loopStep_write {msg : ReplyArray} (harmed : s.armed = [.write msg])
    (hstep : loopStep w s i = some t)
    : ∃ error, i = .writeHandler error ∧
        t = if error.failed then s.idle else { s with armed := [.read s.readSize] } := by
  cases i with
  | writeHandler error =>
    simp only [loopStep, harmed] at hstep
    change step w s.idle (.writeHandler error) = some t at hstep
    rw [step_writeHandler] at hstep
    simp only [Option.some.injEq] at hstep
    exact ⟨error, rfl, hstep.symm⟩
  | initHandler _ | analyseHandler _ _ _ | doneHandler _ _ | readHandler _ _ _ =>
    simp [loopStep, harmed] at hstep

-- What is armed after a successful read depends on the counter only.
theorem afterRead_cases (u : Receiver) (n : Nat) (beyond : Bytes) (address : String)
    (hleft : 0 ≤ u.sumSize.toInt) (hn : n ≤ 1024)
    : (u.taken w n beyond address).sumSize.toInt = u.sumSize.toInt - n ∧
        (u.sumSize.toInt - n < 0 ∧
          u.afterRead w n beyond address =
            (u.taken w n beyond address).finished beyond address ∨
        0 ≤ u.sumSize.toInt - n ∧
          u.afterRead w n beyond address = (u.taken w n beyond address).replied) := by
  have hsum : (u.taken w n beyond address).sumSize.toInt = u.sumSize.toInt - n := by
    apply toInt_subSize
    change -2 ^ 31 ≤ u.sumSize.toInt - (n : Int)
    omega
  refine ⟨hsum, ?_⟩
  unfold afterRead
  rw [← hsum]
  split
  . next h => exact .inl ⟨Int32.lt_iff_toInt_lt.mp h, rfl⟩
  . next h =>
    right
    refine ⟨?_, rfl⟩
    rw [Int32.lt_iff_toInt_lt] at h
    exact Int.not_lt.mp h

theorem armed_afterRead (u : Receiver) (hidle : u.armed = []) (n : Nat) (beyond : Bytes)
    (address : String)
    : (u.afterRead w n beyond address).armed =
        if 0 ≤ (u.afterRead w n beyond address).sumSize.toInt then
          [.write (replyArray (u.afterRead w n beyond address).sumSize)]
        else
          [] := by
  unfold afterRead
  split
  . next hneg =>
    rw [Int32.lt_iff_toInt_lt] at hneg
    rw [if_neg]
    . exact hidle
    . exact Int.not_le.mpr hneg
  . next hnonneg =>
    rw [Int32.lt_iff_toInt_lt, Int.not_lt] at hnonneg
    rw [if_pos]
    . change u.armed ++ _ = _
      rw [hidle]
      rfl
    . exact hnonneg

end Step

-- What the first `j` reads acknowledge: the bytes that are still to come, as long as there are any.
def acked (total : Int) (c j : Nat) : List Int :=
  ((List.range j).map fun i : Nat => total - (i + 1) * c).filter (0 ≤ ·)

structure Counts (total : Int) (c j : Nat) (s : Receiver) : Prop where
  sumSize : s.sumSize.toInt = total - j * c
  received : s.received = j * c
  replies : s.replies = (acked total c j).map replyText
  readSize : s.readSize = c

inductive InLoop (total : Int) (c : Nat) (s : Receiver) : Prop
  | reading (j : Nat) (hcounts : Counts total c j s) (harmed : s.armed = [.read c])
      (hleft : 0 ≤ total - j * c) (hdone : s.doneAt = [])
  | replying (j : Nat) (msg : ReplyArray) (hcounts : Counts total c j s)
      (harmed : s.armed = [.write msg]) (hleft : 0 ≤ total - j * c) (hdone : s.doneAt = [])
  | ended (j : Nat) (hcounts : Counts total c (j + 1) s) (harmed : s.armed = [])
      (hleft : 0 ≤ total - j * c) (hover : total - (j + 1) * c < 0)
      (hdone : s.doneAt = [(j + 1) * c])

-- How many completions are still to come at most.
def left (c : Nat) (s : Receiver) : Nat :=
  match s.armed with
  | [.read _] => 2 * (s.sumSize.toInt.toNat / c) + 1
  | [.write _] => 2 * (s.sumSize.toInt.toNat / c) + 2
  | _ => 0

section Acked

variable {total : Int} {c : Nat}

theorem acked_succ_of_nonneg {j : Nat} (h : 0 ≤ total - (j + 1) * c)
    : acked total c (j + 1) = acked total c j ++ [total - (j + 1) * c] := by
  unfold acked
  rw [List.range_succ, List.map_append, List.filter_append]
  simpa using h

theorem acked_succ_of_neg {j : Nat} (h : total - (j + 1) * c < 0)
    : acked total c (j + 1) = acked total c j := by
  unfold acked
  rw [List.range_succ, List.map_append, List.filter_append]
  simpa using h

end Acked

section InLoop

variable {s t : Receiver} {w : SizeT} {i : Invocation} {total : Int} {c : Nat}

theorem inLoop_start (sumSize : Int32) (maxSize : UInt32) (callback : Bool) (sn : Nat)
    (hsum : 0 ≤ sumSize.toInt)
    : InLoop sumSize.toInt (bufferSize maxSize) (start sumSize maxSize callback sn) := by
  rw [start_eq]
  apply InLoop.reading 0
  . constructor
    case sumSize => simp [new]
    case received => simp [new]
    case replies => simp [new, acked]
    case readSize => rfl
  . rfl
  . simpa using hsum
  . rfl

theorem InLoop.read {j : Nat} {chunk : Bytes} {beyond : Bytes} {address : String}
    (hc : c ≤ 1024) (hcounts : Counts total c j s) (hleft : 0 ≤ total - j * c)
    (hdone : s.doneAt = []) (hchunk : chunk.length = c)
    : InLoop total c ((s.idle.written chunk).afterRead w chunk.length beyond address) := by
  have hsumSize : (s.idle.written chunk).sumSize.toInt = total - j * c := hcounts.sumSize
  have hreceived : s.received + chunk.length = (j + 1) * c := by
    rw [hcounts.received, hchunk, Nat.add_mul, Nat.one_mul]
  have hnext : total - j * c - chunk.length = total - (j + 1) * c := by
    rw [hchunk, Int.add_mul]
    omega
  rcases afterRead_cases (w := w) (s.idle.written chunk) chunk.length beyond address
    (by omega) (by omega) with ⟨hsum, ⟨hneg, hafter⟩ | ⟨hnonneg, hafter⟩⟩
  . rw [hsumSize, hnext] at hneg hsum
    rw [hafter]
    apply InLoop.ended j
    . constructor
      case sumSize => exact_mod_cast hsum
      case received => exact hreceived
      case replies =>
        rw [acked_succ_of_neg hneg]
        exact hcounts.replies
      case readSize => exact hcounts.readSize
    . rfl
    . exact hleft
    . exact hneg
    . change s.doneAt ++ [s.received + chunk.length] = _
      rw [hdone, hreceived, List.nil_append]
  . rw [hsumSize, hnext] at hnonneg hsum
    rw [hafter]
    apply InLoop.replying (j + 1)
    . constructor
      case sumSize => exact_mod_cast hsum
      case received => exact hreceived
      case replies =>
        rw [acked_succ_of_nonneg hnonneg, List.map_append, ← hcounts.replies, ← hsum]
        rfl
      case readSize => exact hcounts.readSize
    . rfl
    . exact_mod_cast hnonneg
    . exact hdone

theorem InLoop.step_cases (hs : InLoop total c s) (hfills : Fills s i)
    (hstep : loopStep w s i = some t)
    : ∃ j, Counts total c j s ∧ 0 ≤ total - j * c ∧ s.doneAt = [] ∧
        ((∃ chunk beyond address, s.armed = [.read c] ∧ i.isRead ∧ chunk.length = c ∧
          t = (s.idle.written chunk).afterRead w chunk.length beyond address) ∨
        ∃ msg, s.armed = [.write msg] ∧ ¬ i.isRead ∧ t = { s with armed := [.read c] }) := by
  cases hs with
  | reading j hcounts harmed hleft hdone =>
    rcases loopStep_read harmed hstep with ⟨error, chunk, out, hi, _, hread⟩
    subst hi
    rcases step_readHandler_eq_some hfills.left hread with ⟨address, ht⟩
    have hchunk : chunk.length = c := by
      rw [← hcounts.readSize]
      exact hfills.right
    exact ⟨j, hcounts, hleft, hdone, .inl ⟨chunk, out.beyond, address, harmed, rfl, hchunk, ht⟩⟩
  | replying j msg hcounts harmed hleft hdone =>
    rcases loopStep_write harmed hstep with ⟨error, hi, ht⟩
    subst hi
    have herror : error.failed = false := hfills.left
    rw [if_neg (by simp [herror]), hcounts.readSize] at ht
    exact ⟨j, hcounts, hleft, hdone, .inr ⟨msg, harmed, by simp [Invocation.isRead], ht⟩⟩
  | ended j hcounts harmed hleft hover hdone =>
    rw [loopStep_idle harmed] at hstep
    simp at hstep

theorem InLoop.step (hc : c ≤ 1024) (hs : InLoop total c s) (hfills : Fills s i)
    (hstep : loopStep w s i = some t)
    : InLoop total c t := by
  rcases hs.step_cases hfills hstep with ⟨j, hcounts, hleft, hdone, hcases⟩
  rcases hcases with ⟨chunk, beyond, address, _, _, hchunk, ht⟩ | ⟨msg, _, _, ht⟩
  . rw [ht]
    exact InLoop.read hc hcounts hleft hdone hchunk
  . rw [ht]
    apply InLoop.reading j
    . exact ⟨hcounts.sumSize, hcounts.received, hcounts.replies, hcounts.readSize⟩
    . rfl
    . exact hleft
    . exact hdone

theorem InLoop.received_of_step (hs : InLoop total c s) (hfills : Fills s i)
    (hstep : loopStep w s i = some t)
    : t.received = s.received + if i.isRead then c else 0 := by
  rcases hs.step_cases hfills hstep with ⟨j, hcounts, hleft, hdone, hcases⟩
  rcases hcases with ⟨chunk, beyond, address, _, hread, hchunk, ht⟩ | ⟨msg, _, hread, ht⟩
  . rw [if_pos hread, ht, ← hchunk]
    unfold afterRead
    split
    . rfl
    . rfl
  . rw [if_neg hread, ht, Nat.add_zero]

theorem left_of_finished (u : Receiver) (beyond : Bytes) (address : String) (hu : u.armed = [])
    : left c (u.finished beyond address) = 0 := by
  have : (u.finished beyond address).armed = [] := hu
  simp [left, this]

theorem left_of_replied (u : Receiver) (hu : u.armed = [])
    : left c u.replied = 2 * (u.sumSize.toInt.toNat / c) + 2 := by
  have : u.replied.armed = [.write (replyArray u.sumSize)] := by
    simp [replied, hu]
  simp only [left, this]
  rfl

-- A read that leaves the counter at zero or above takes one chunk off it.
theorem left_read (hc : 1 ≤ c) (hc' : c ≤ 1024) {size : Nat} (harmed : s.armed = [.read size])
    (hleft : 0 ≤ s.sumSize.toInt) {chunk : Bytes} (hchunk : chunk.length = c) (beyond : Bytes)
    (address : String)
    : left c ((s.idle.written chunk).afterRead w chunk.length beyond address) < left c s := by
  have hs : left c s = 2 * (s.sumSize.toInt.toNat / c) + 1 := by
    simp only [left, harmed]
  have hsumSize : (s.idle.written chunk).sumSize.toInt = s.sumSize.toInt := rfl
  rcases afterRead_cases (w := w) (s.idle.written chunk) chunk.length beyond address hleft
    (by omega) with ⟨hsum, ⟨_, hafter⟩ | ⟨hnonneg, hafter⟩⟩
  . rw [hafter, left_of_finished, hs]
    . omega
    . rfl
  . rw [hafter, left_of_replied, hs, hsum, hsumSize]
    . have hle : c ≤ s.sumSize.toInt.toNat := by omega
      have hdiv := Nat.div_eq_sub_div (by omega : 0 < c) hle
      have hsub : (s.sumSize.toInt - chunk.length).toNat = s.sumSize.toInt.toNat - c := by omega
      rw [hsub]
      omega
    . rfl

theorem InLoop.left_lt (hc : 1 ≤ c) (hc' : c ≤ 1024) (hs : InLoop total c s) (hfills : Fills s i)
    (hstep : loopStep w s i = some t)
    : left c t < left c s := by
  rcases hs.step_cases hfills hstep with ⟨j, hcounts, hleft, hdone, hcases⟩
  rcases hcases with ⟨chunk, beyond, address, harmed, _, hchunk, ht⟩ | ⟨msg, harmed, _, ht⟩
  . rw [ht]
    apply left_read hc hc' harmed _ hchunk
    rw [hcounts.sumSize]
    exact hleft
  . rw [ht]
    simp [left, harmed]

-- Unless the loop has ended, the operation that is armed can succeed.
theorem InLoop.progress (hs : InLoop total c s) (w : SizeT) (harmed : s.armed ≠ [])
    : ∃ i t, Fills s i ∧ loopStep w s i = some t := by
  cases hs with
  | reading j hcounts hread hleft hdone =>
    have hlength : (List.replicate c (0 : UInt8)).length = c := List.length_replicate
    have hstep := loopStep_readHandler (w := w) hread (Nat.le_of_eq hlength) .success
      ⟨[], some "10.0.0.1", none⟩
    refine ⟨_, _, ⟨rfl, ?_⟩, hstep.trans (step_readHandler_some rfl rfl)⟩
    exact hlength.trans hcounts.readSize.symm
  | replying j msg hcounts hwrite hleft hdone =>
    have hstep := loopStep_writeHandler (w := w) hwrite .success
    exact ⟨.writeHandler .success, _, ⟨rfl, trivial⟩, hstep.trans step_writeHandler⟩
  | ended j hcounts hidle hleft hover hdone => exact absurd hidle harmed

end InLoop

section Run

variable {w : SizeT} {total : Int} {c : Nat}

theorem inLoop_of_run (hc : c ≤ 1024) {s t : Receiver} {invocations : List Invocation}
    (hs : InLoop total c s) (hfills : Meets (loopStep w) Fills s invocations)
    (hrun : run (loopStep w) s invocations = some t)
    : InLoop total c t := by
  apply inv_of_run (c := Fills) _ hs hfills hrun
  intro s i t hs hi hstep
  exact hs.step hc hi hstep

def AsksOutstanding (total : Int) (s : Receiver) : Prop :=
  ∀ size : Nat, .read size ∈ s.armed → s.received + size ≤ total

-- As long as a read asks for no more than is outstanding, another one follows.
theorem InLoop.armed_of_asksOutstanding (hc : c ≤ 1024) {s t : Receiver} {i : Invocation}
    (hs : InLoop total c s) (hasks : AsksOutstanding total s) (hfills : Fills s i)
    (hstep : loopStep w s i = some t)
    : t.armed ≠ [] := by
  rcases hs.step_cases hfills hstep with ⟨j, hcounts, hleft, hdone, hcases⟩
  rcases hcases with ⟨chunk, beyond, address, harmed, _, hchunk, ht⟩ | ⟨msg, _, _, ht⟩
  . have hle := hasks c (by simp [harmed])
    rw [hcounts.received] at hle
    have hsumSize : (s.idle.written chunk).sumSize.toInt = total - j * c := hcounts.sumSize
    rcases afterRead_cases (w := w) (s.idle.written chunk) chunk.length beyond address (by omega)
      (by omega) with ⟨hsum, ⟨hneg, hafter⟩ | ⟨hnonneg, hafter⟩⟩
    . rw [hsumSize, hchunk] at hneg
      push_cast at hle
      omega
    . rw [ht, hafter]
      simp [replied]
  . simp [ht]

theorem InLoop.doneAt_eq {s : Receiver} (hs : InLoop total c s) (harmed : s.armed = [])
    : s.doneAt = [(total.toNat / c + 1) * c] := by
  cases hs with
  | reading j hcounts harmed' => simp [harmed'] at harmed
  | replying j msg hcounts harmed' => simp [harmed'] at harmed
  | ended j hcounts _ hleft hover hdone =>
    have hle : j * c ≤ total.toNat := by
      have : ((j * c : Nat) : Int) ≤ total := by
        push_cast
        omega
      omega
    have hlt : total.toNat < (j + 1) * c := by
      have : total < (((j + 1) * c : Nat) : Int) := by
        push_cast
        omega
      omega
    rw [hdone, Nat.div_eq_of_lt_le hle hlt]

theorem InLoop.doneAt_eq_nil {s : Receiver} (hs : InLoop total c s) (h : s.received ≤ total)
    : s.doneAt = [] := by
  cases hs with
  | reading j hcounts harmed hleft hdone => exact hdone
  | replying j msg hcounts harmed hleft hdone => exact hdone
  | ended j hcounts harmed hleft hover hdone =>
    rw [hcounts.received] at h
    push_cast at h
    omega

/--
Whatever the total and the chunk size, the loop can be run to its end, and it always asks for more
than is outstanding before that: `done_handler` runs when a multiple of the chunk size above the
total has come in, and a peer that sends just the total is never done.
-/
theorem done_after_total (w : SizeT) (sumSize : Int32) (maxSize : UInt32) (callback : Bool)
    (sn : Nat) (hsum : 1 ≤ sumSize.toInt) (hmax : 1 ≤ maxSize.toNat) (hmax' : maxSize.toNat ≤ 1024)
    : (∃ invocations s, Meets (loopStep w) Fills (start sumSize maxSize callback sn) invocations ∧
          run (loopStep w) (start sumSize maxSize callback sn) invocations = some s ∧
          s.armed = []) ∧
        ∀ invocations s, Meets (loopStep w) Fills (start sumSize maxSize callback sn) invocations →
          run (loopStep w) (start sumSize maxSize callback sn) invocations = some s →
          (s.armed = [] →
            ¬ Along (loopStep w) (AsksOutstanding sumSize.toInt)
              (start sumSize maxSize callback sn) invocations ∧
            s.doneAt = [(sumSize.toInt.toNat / maxSize.toNat + 1) * maxSize.toNat] ∧
            sumSize.toInt.toNat < (sumSize.toInt.toNat / maxSize.toNat + 1) * maxSize.toNat) ∧
          (s.received ≤ sumSize.toInt → s.doneAt = []) := by
  have hsize : bufferSize maxSize = maxSize.toNat := by
    unfold bufferSize
    omega
  have hstart := inLoop_start sumSize maxSize callback sn (by omega)
  rw [hsize] at hstart
  constructor
  . have hend : ∃ invocations s,
        Meets (loopStep w) Fills (start sumSize maxSize callback sn) invocations ∧
        run (loopStep w) (start sumSize maxSize callback sn) invocations = some s ∧
        InLoop sumSize.toInt maxSize.toNat s ∧ s.armed = [] := by
      apply exists_run_to_end (f := left maxSize.toNat) _ hstart
      intro s hs harmed
      rcases hs.progress w harmed with ⟨i, t, hfills, hstep⟩
      exact ⟨i, t, hfills, hstep, hs.step hmax' hfills hstep, hs.left_lt hmax hmax' hfills hstep⟩
    rcases hend with ⟨invocations, s, hfills, hrun, _, harmed⟩
    exact ⟨invocations, s, hfills, hrun, harmed⟩
  . intro invocations s hfills hrun
    have hs := inLoop_of_run hmax' hstart hfills hrun
    refine ⟨?_, hs.doneAt_eq_nil⟩
    intro harmed
    refine ⟨?_, hs.doneAt_eq harmed, ?_⟩
    . intro halong
      have hmore : InLoop sumSize.toInt maxSize.toNat s ∧ s.armed ≠ [] := by
        apply inv_of_run (I := fun s => InLoop sumSize.toInt maxSize.toNat s ∧ s.armed ≠ []) _ _
          (hfills.and halong.meets) hrun
        . intro s i t hs hi hstep
          exact ⟨hs.left.step hmax' hi.left hstep,
            hs.left.armed_of_asksOutstanding hmax' hi.right hi.left hstep⟩
        . refine ⟨hstart, ?_⟩
          simp [start_eq]
      exact hmore.right harmed
    . have := Nat.lt_div_mul_add (a := sumSize.toInt.toNat) (b := maxSize.toNat) hmax
      rw [Nat.add_mul, Nat.one_mul]
      exact this

theorem done_after_total_of_three
    : ∃ invocations s, run (loopStep .w32) (start 3 2 true 1) invocations = some s ∧
        s.doneAt = [4] := by
  have h := done_after_total .w32 3 2 true 1 (by decide) (by decide) (by decide)
  rcases h.left with ⟨invocations, s, hfills, hrun, harmed⟩
  exact ⟨invocations, s, hrun, ((h.right invocations s hfills hrun).left harmed).right.left⟩

-- The two bytes of the transfer have come in, and the next read asks for two more.
theorem not_done_at_total
    : ∃ s, run (loopStep .w32) (start 2 2 true 1)
          [.readHandler .success [65, 66] ⟨[], some "10.0.0.1", none⟩,
            .writeHandler .success] = some s ∧
        s.received = 2 ∧ s.doneAt = [] ∧ ¬ AsksOutstanding 2 s := by
  have hrun : (run (loopStep .w32) (start 2 2 true 1)
      [.readHandler .success [65, 66] ⟨[], some "10.0.0.1", none⟩, .writeHandler .success]).map
      (fun s => (s.received, s.doneAt, s.armed)) = some (2, [], [.read 2]) := by
    decide +kernel
  rcases Option.map_eq_some_iff.mp hrun with ⟨s, hrun, hfields⟩
  simp only [Prod.mk.injEq] at hfields
  rcases hfields with ⟨hreceived, hdone, harmed⟩
  refine ⟨s, hrun, hreceived, hdone, ?_⟩
  intro hasks
  have hle := hasks 2 (by simp [harmed])
  rw [hreceived] at hle
  omega

end Run

end Receiver
