import NetDemo.Session.Complete

/-!
This module contains the receive loop of a `Session` together with its connection: bytes arrive at any
time and in pieces of any size, and an `async_read` completes once as many as it asks for are there.
-/

structure Transfer where
  receiver : Receiver
  -- What has arrived and has not been read.
  incoming : Bytes
  -- History: all that has arrived.
  stream : Bytes

inductive TransferEvent where
  | arrive (bytes : Bytes)
  | read (out : Outside)
  | written
  deriving DecidableEq, Repr

namespace Transfer

open Transition Receiver

def start (sumSize : Int32) (maxSize : UInt32) (sn : Nat) : Transfer where
  receiver := Receiver.start sumSize maxSize true sn
  incoming := []
  stream := []

def step (w : SizeT) (t : Transfer) (event : TransferEvent) : Option Transfer :=
  match event with
  | .arrive bytes => some { t with incoming := t.incoming ++ bytes, stream := t.stream ++ bytes }
  | .read out =>
    match t.receiver.armed with
    | .read size :: _ =>
      if size ≤ t.incoming.length then
        let chunk := t.incoming.take size
        (loopStep w t.receiver (.readHandler .success chunk out)).map fun receiver =>
          { t with receiver := receiver, incoming := t.incoming.drop size }
      else
        none
    | _ => none
  | .written =>
    (loopStep w t.receiver (.writeHandler .success)).map fun receiver =>
      { t with receiver := receiver }

-- No operation that has been armed can complete.
def Quiet (w : SizeT) (t : Transfer) : Prop :=
  step w t .written = none ∧
    ∀ beyond address, step w t (.read ⟨beyond, some address, none⟩) = none

def delivered (t : Transfer) : Bytes :=
  (t.receiver.handed.map HandedOver.msg).flatten

-- After so many bytes the counter falls below zero.
def needed (total : Int) (c : Nat) : Nat :=
  (total.toNat / c + 1) * c

structure InTransfer (total : Int) (c : Nat) (t : Transfer) : Prop where
  loop : InLoop total c t.receiver
  balanced : t.receiver.Balanced
  callback : t.receiver.callback = true
  stored : 0 ∉ t.stream → t.receiver.stored ++ t.incoming = t.stream
  received : t.receiver.received + t.incoming.length = t.stream.length
  rest : t.receiver.armed = [] → t.receiver.currentMsg = []

variable {w : SizeT} {t u : Transfer} {total : Int} {c : Nat}

theorem armed_read {s : Receiver} (hs : InLoop total c s) {size : Nat} {rest : List AsyncOp}
    (harmed : s.armed = .read size :: rest)
    : size = c ∧ s.readSize = c ∧ rest = [] := by
  cases hs with
  | reading j hcounts hread hleft hdone =>
    rw [hread] at harmed
    simp only [List.cons.injEq, AsyncOp.read.injEq] at harmed
    exact ⟨harmed.left.symm, hcounts.readSize, harmed.right.symm⟩
  | replying j reply hcounts hwrite hleft hdone => simp [hwrite] at harmed
  | ended j hcounts hidle hleft hover hdone => simp [hidle] at harmed

theorem InTransfer.arrive (ht : InTransfer total c t) (bytes : Bytes)
    : InTransfer total c { t with incoming := t.incoming ++ bytes, stream := t.stream ++ bytes } := by
  constructor
  . exact ht.loop
  . exact ht.balanced
  . exact ht.callback
  . intro hnul
    rw [List.mem_append, not_or] at hnul
    rw [← ht.stored hnul.left, List.append_assoc]
  . have := ht.received
    simp only [List.length_append]
    omega
  . exact ht.rest

theorem read_cases {out : Outside} (hstep : step w t (.read out) = some u)
    : ∃ size rest receiver, t.receiver.armed = .read size :: rest ∧ size ≤ t.incoming.length ∧
        loopStep w t.receiver (.readHandler .success (t.incoming.take size) out) = some receiver ∧
        u = { t with receiver := receiver, incoming := t.incoming.drop size } := by
  simp only [step] at hstep
  split at hstep
  . next size rest harmed =>
    split at hstep
    . next hsize =>
      rcases Option.map_eq_some_iff.mp hstep with ⟨receiver, hloop, hu⟩
      exact ⟨size, rest, receiver, harmed, hsize, hloop, hu.symm⟩
    . simp at hstep
  . simp at hstep

theorem rest_afterRead {s : Receiver} (hs : s.Balanced) (hcallback : s.callback = true)
    (chunk : Bytes) (beyond : Bytes) (address : String)
    : ((s.written chunk).afterRead w chunk.length beyond address).armed = [] →
        ((s.written chunk).afterRead w chunk.length beyond address).currentMsg = [] := by
  unfold afterRead
  split
  . intro _
    apply ((hs.taken w chunk beyond address).finished beyond address).right
    exact hcallback
  . intro harmed
    simp [replied] at harmed

/--
A completion is one of the receive loop, and a read brings all the bytes that it asked for.
-/
theorem read_fills {out : Outside} (hloop : InLoop total c t.receiver)
    (hstep : step w t (.read out) = some u)
    : t.receiver.armed = [.read c] ∧ (t.incoming.take c).length = c ∧
        ∃ receiver, Fills t.receiver (.readHandler .success (t.incoming.take c) out) ∧
          loopStep w t.receiver (.readHandler .success (t.incoming.take c) out) = some receiver ∧
          u = { t with receiver := receiver, incoming := t.incoming.drop c } := by
  rcases read_cases hstep with ⟨size, rest, receiver, harmed, hsize, hnext, hu⟩
  rcases armed_read hloop harmed with ⟨hc, hreadSize, hrest⟩
  subst hc
  subst hrest
  have hlength : (t.incoming.take size).length = size := List.length_take_of_le hsize
  exact ⟨harmed, hlength, receiver, ⟨rfl, hlength.trans hreadSize.symm⟩, hnext, hu⟩

theorem InTransfer.read (hc : c ≤ 1023) {out : Outside} (ht : InTransfer total c t)
    (hstep : step w t (.read out) = some u)
    : InTransfer total c u := by
  rcases read_fills ht.loop hstep with ⟨harmed, hlength, receiver, hfills, hloop, hu⟩
  rcases loopStep_read harmed hloop with ⟨_, chunk, _, hi, _, hread⟩
  simp only [Invocation.readHandler.injEq] at hi
  rcases hi with ⟨herror, hchunk, hout⟩
  subst herror
  subst hout
  rcases step_readHandler_eq_some rfl hread with ⟨address, hafter⟩
  have hidle : t.receiver.idle.Balanced :=
    ⟨ht.balanced.msg, ht.balanced.long, ht.balanced.short, ht.balanced.kept⟩
  rw [hchunk] at hafter
  subst hu
  constructor
  . exact ht.loop.step (by omega) hfills hloop
  . rw [hafter]
    exact hidle.afterRead w chunk out.beyond address
  . rw [hafter]
    unfold afterRead
    split
    . exact ht.callback
    . exact ht.callback
  . intro hnul
    have hstored := ht.stored hnul
    have hchunkNul : 0 ∉ chunk := by
      intro hmem
      apply hnul
      rw [← hstored]
      apply List.mem_append_right
      rw [← hchunk] at hmem
      exact List.mem_of_mem_take hmem
    have hstep : receiver.stored = t.receiver.stored ++ chunk := by
      rw [hafter, stored_afterRead, stored_written]
      unfold written
      rw [hidle.msg, CharArray.cString_write_zero (by omega),
        (CharArray.text_eq_self_iff chunk).mpr hchunkNul]
      rfl
    rw [hstep, List.append_assoc, ← hchunk, List.take_append_drop]
    exact hstored
  . have hreceived := ht.loop.received_of_step hfills hloop
    have := ht.received
    rw [List.length_take] at hlength
    simp only [Invocation.isRead, if_true] at hreceived
    simp only [List.length_drop]
    omega
  . rw [hafter]
    exact rest_afterRead hidle ht.callback chunk out.beyond address

theorem InTransfer.written (hc : c ≤ 1023) (ht : InTransfer total c t)
    (hstep : step w t .written = some u)
    : InTransfer total c u := by
  rcases Option.map_eq_some_iff.mp hstep with ⟨receiver, hloop, hu⟩
  have hfills : Fills t.receiver (.writeHandler .success) := ⟨rfl, trivial⟩
  have hnext := ht.loop.step (by omega) hfills hloop
  have hreceived := ht.loop.received_of_step hfills hloop
  rcases ht.loop.step_cases hfills hloop with ⟨_, _, _, _, hcases⟩
  rcases hcases with ⟨_, _, _, _, hread, _, _⟩ | ⟨reply, _, _, hafter⟩
  . simp [Invocation.isRead] at hread
  . subst hu
    subst hafter
    constructor
    . exact hnext
    . exact ⟨ht.balanced.msg, ht.balanced.long, ht.balanced.short, ht.balanced.kept⟩
    . exact ht.callback
    . exact ht.stored
    . exact ht.received
    . simp

theorem InTransfer.step (hc : c ≤ 1023) {e : TransferEvent} (ht : InTransfer total c t)
    (hstep : step w t e = some u)
    : InTransfer total c u := by
  cases e with
  | arrive bytes =>
    simp only [Transfer.step, Option.some.injEq] at hstep
    exact hstep ▸ ht.arrive bytes
  | read out => exact ht.read hc hstep
  | written => exact ht.written hc hstep

theorem needed_eq {j : Nat} (hleft : 0 ≤ total - j * c) (hover : total - (j + 1) * c < 0)
    : needed total c = (j + 1) * c := by
  have hc : 0 < c := by
    by_contra hzero
    simp [Nat.eq_zero_of_not_pos hzero] at hleft hover
    omega
  have hdiv : total.toNat / c = j := by
    rw [Nat.div_eq_iff hc]
    have : ((j * c : Nat) : Int) = j * c := by simp
    have : (((j + 1) * c : Nat) : Int) = (j + 1) * c := by simp
    have : (j + 1) * c = j * c + c := by rw [Nat.add_mul, Nat.one_mul]
    omega
  rw [needed, hdiv]

theorem InTransfer.done (ht : InTransfer total c t) (harmed : t.receiver.armed = [])
    : needed total c ≤ t.stream.length ∧ t.receiver.doneAt = [needed total c] ∧
        (0 ∉ t.stream → t.delivered = t.stream.take (needed total c)) := by
  have hreceived := ht.received
  cases ht.loop with
  | reading j hcounts hread hleft hdone => simp [hread] at harmed
  | replying j reply hcounts hwrite hleft hdone => simp [hwrite] at harmed
  | ended j hcounts hidle hleft hover hdone =>
    have hneeded := needed_eq hleft hover
    rw [hcounts.received, ← hneeded] at hreceived
    refine ⟨by omega, hneeded ▸ hdone, ?_⟩
    intro hnul
    have hstored := ht.stored hnul
    have hdelivered : t.receiver.stored = t.delivered := by
      rw [Receiver.stored, ht.rest harmed, List.append_nil]
      rfl
    rw [hdelivered] at hstored
    have hlength : t.delivered.length = needed total c := by
      have := congrArg List.length hstored
      rw [List.length_append] at this
      omega
    rw [← hstored, ← hlength, List.take_left]

end Transfer
