import NetDemo.Session.Basic
import NetDemo.Lib.Transition

/-!
This module contains what the peer of a session receives: the calls of `SendData` interleave with
the partial writes and the completions of the writes that earlier calls have started.
-/

inductive SessionEvent where
  | sendData (msg1 : Bytes) (slack : Nat)
  | transfer (w n : Nat) (stale : Bytes)
  | complete (w : Nat) (error : ErrorCode)
  deriving DecidableEq, Repr

namespace Session

open Transition

def step (s : Session) (event : SessionEvent) : Option Session :=
  match event with
  | .sendData msg1 slack => some (s.sendData msg1 slack)
  | .transfer w n stale => s.transfer w n stale
  | .complete w error => s.complete w error

def NoFailure (_ : Session) (event : SessionEvent) : Prop :=
  match event with
  | .complete _ error => error.failed = false
  | _ => True

-- `SendData` is called only when all bytes of the earlier writes are with the peer.
def SendsWhenSent (s : Session) (event : SessionEvent) : Prop :=
  match event with
  | .sendData _ _ => ∀ write, write ∈ s.writes → write.sent = write.size
  | _ => True

instance (s : Session) (event : SessionEvent) : Decidable (NoFailure s event) :=
  match event with
  | .complete _ error => inferInstanceAs (Decidable (error.failed = false))
  | .sendData _ _ => isTrue trivial
  | .transfer _ _ _ => isTrue trivial

instance (s : Session) (event : SessionEvent) : Decidable (SendsWhenSent s event) :=
  match event with
  | .sendData _ _ =>
    inferInstanceAs (Decidable (∀ write, write ∈ s.writes → write.sent = write.size))
  | .complete _ _ => isTrue trivial
  | .transfer _ _ _ => isTrue trivial

-- The bytes that a write would send if nobody touched the string any more.
def unsent (s : Session) (write : AsyncWrite) : Bytes :=
  (s.msg.bytes.take write.size).drop write.sent

def Pending (write : AsyncWrite) : Prop :=
  write.sent < write.size

/--
At most one write has bytes left to send. It borrows the current contents of `m_msg`, and its bytes
are all that the peer still misses.
-/
structure InOrder (s : Session) : Prop where
  sent_le : ∀ write, write ∈ s.writes → write.sent ≤ write.size
  borrows : ∀ write, write ∈ s.writes → Pending write →
    write.block = s.msg.block ∧ write.size ≤ s.msg.bytes.length
  unique : s.writes.Pairwise fun a b => ¬ (Pending a ∧ Pending b)
  stream : s.peer ++ (s.writes.map s.unsent).flatten = s.asked.flatten

theorem inOrder_new (ioService : ServiceRef) (sn : Nat) : (new ioService sn).InOrder where
  sent_le := by simp [new]
  borrows := by simp [new]
  unique := by simp [new]
  stream := by simp [new]

theorem unsent_eq_nil {s : Session} {write : AsyncWrite} (h : write.size ≤ write.sent)
    : s.unsent write = [] := by
  unfold unsent
  apply List.drop_eq_nil_of_le
  rw [List.length_take]
  omega

theorem flatten_map_eq_nil {f : AsyncWrite → Bytes} {writes : List AsyncWrite}
    (h : ∀ write, write ∈ writes → f write = [])
    : (writes.map f).flatten = [] := by
  rw [List.flatten_eq_nil_iff]
  intro bytes hbytes
  rcases List.mem_map.mp hbytes with ⟨write, hwrite, heq⟩
  rw [← heq]
  exact h write hwrite

theorem flatten_map_split {f : AsyncWrite → Bytes} {writes : List AsyncWrite} {w : Nat}
    (hw : w < writes.length)
    : (writes.map f).flatten =
        ((writes.take w).map f).flatten ++
          (f writes[w] ++ ((writes.drop (w + 1)).map f).flatten) := by
  rw [← List.flatten_cons, ← List.map_cons, ← List.flatten_append, ← List.map_append,
    List.getElem_cons_drop, List.take_append_drop]

theorem flatten_map_eq_getElem {f : AsyncWrite → Bytes} {writes : List AsyncWrite} {w : Nat}
    (hw : w < writes.length) (h : ∀ i (hi : i < writes.length), i ≠ w → f writes[i] = [])
    : (writes.map f).flatten = f writes[w] := by
  have hbefore : ((writes.take w).map f).flatten = [] := by
    apply flatten_map_eq_nil
    intro write hwrite
    rcases List.mem_take_iff_getElem.mp hwrite with ⟨i, hi, hget⟩
    rw [← hget]
    apply h
    omega
  have hafter : ((writes.drop (w + 1)).map f).flatten = [] := by
    apply flatten_map_eq_nil
    intro write hwrite
    rcases List.mem_drop_iff_getElem.mp hwrite with ⟨i, hi, hget⟩
    rw [← hget]
    apply h
    omega
  rw [flatten_map_split hw, hbefore, hafter]
  simp

theorem flatten_map_eraseIdx {f : AsyncWrite → Bytes} {writes : List AsyncWrite} {w : Nat}
    (hw : w < writes.length) (h : f writes[w] = [])
    : ((writes.eraseIdx w).map f).flatten = (writes.map f).flatten := by
  rw [flatten_map_split hw, h, List.eraseIdx_eq_take_drop_succ, List.map_append,
    List.flatten_append, List.nil_append]

theorem InOrder.sendData {s : Session} (hs : s.InOrder) (msg1 : Bytes) (slack : Nat)
    (hsent : ∀ write, write ∈ s.writes → write.sent = write.size)
    : (s.sendData msg1 slack).InOrder := by
  have hidle : ∀ write, write ∈ s.writes → ¬ Pending write := by
    intro write hwrite
    have := hsent write hwrite
    unfold Pending
    omega
  have hnil : ∀ (s' : Session), (s.writes.map s'.unsent).flatten = [] := by
    intro s'
    apply flatten_map_eq_nil
    intro write hwrite
    apply unsent_eq_nil
    have := hsent write hwrite
    omega
  constructor
  case sent_le =>
    intro write hwrite
    cases List.mem_append.mp hwrite with
    | inl h => exact hs.sent_le write h
    | inr h => simp [List.mem_singleton.mp h]
  case borrows =>
    intro write hwrite hpending
    cases List.mem_append.mp hwrite with
    | inl h => exact absurd hpending (hidle write h)
    | inr h =>
      rw [List.mem_singleton.mp h]
      refine ⟨rfl, ?_⟩
      dsimp only
      rw [StringStorage.size_assign]
      apply StringStorage.length_le_length_bytes_assign
  case unique =>
    apply List.pairwise_append.mpr
    refine ⟨hs.unique, by simp, ?_⟩
    intro a ha b _ hboth
    exact hidle a ha hboth.left
  case stream =>
    have hstream := hs.stream
    rw [hnil s, List.append_nil] at hstream
    have hold := hnil (s.sendData msg1 slack)
    simp only [Session.sendData, List.map_append, List.flatten_append] at hold ⊢
    rw [hold, ← hstream]
    simp [unsent]

theorem InOrder.complete {s t : Session} {w : Nat} {error : ErrorCode} (hs : s.InOrder)
    (herror : error.failed = false) (h : s.complete w error = some t)
    : t.InOrder := by
  rcases complete_eq_some h with ⟨write, hwrite, hdone, ht⟩
  rcases List.getElem?_eq_some_iff.mp hwrite with ⟨hw, hget⟩
  simp only [herror, Bool.false_eq_true, false_or] at hdone
  subst ht
  have hsub := List.eraseIdx_sublist s.writes w
  constructor
  case sent_le =>
    intro write' hwrite'
    exact hs.sent_le write' (hsub.mem hwrite')
  case borrows =>
    intro write' hwrite'
    exact hs.borrows write' (hsub.mem hwrite')
  case unique => exact hs.unique.sublist hsub
  case stream =>
    have hnil : s.unsent s.writes[w] = [] := by
      apply unsent_eq_nil
      rw [hget]
      omega
    have hstream := hs.stream
    rw [← flatten_map_eraseIdx hw hnil] at hstream
    exact hstream

theorem InOrder.not_pending_of_ne {s : Session} (hs : s.InOrder) {i w : Nat}
    (hi : i < s.writes.length) (hw : w < s.writes.length) (hne : i ≠ w)
    (hpending : Pending s.writes[w])
    : ¬ Pending s.writes[i] := by
  intro hi'
  have hunique := List.pairwise_iff_getElem.mp hs.unique
  cases Nat.lt_or_gt_of_ne hne with
  | inl hlt => exact hunique i w hi hw hlt ⟨hi', hpending⟩
  | inr hgt => exact hunique w i hw hi hgt ⟨hpending, hi'⟩

theorem InOrder.transfer {s t : Session} {w n : Nat} {stale : Bytes} (hs : s.InOrder)
    (h : s.transfer w n stale = some t)
    : t.InOrder := by
  rcases transfer_eq_some h with ⟨write, hwrite, hpos, hle, ht⟩
  rcases List.getElem?_eq_some_iff.mp hwrite with ⟨hw, hget⟩
  subst ht
  have hpending : Pending s.writes[w] := by
    unfold Pending
    rw [hget]
    omega
  have hothers : ∀ i (hi : i < s.writes.length), i ≠ w → ¬ Pending s.writes[i] := by
    intro i hi hne
    exact hs.not_pending_of_ne hi hw hne hpending
  have hmem : write ∈ s.writes := List.mem_of_getElem? hwrite
  have hborrows := hs.borrows write hmem (hget ▸ hpending)
  constructor
  case sent_le =>
    intro write' hwrite'
    cases List.mem_or_eq_of_mem_set hwrite' with
    | inl h => exact hs.sent_le write' h
    | inr h =>
      rw [h]
      exact hle
  case borrows =>
    intro write' hwrite' hpending'
    cases List.mem_or_eq_of_mem_set hwrite' with
    | inl h => exact hs.borrows write' h hpending'
    | inr h =>
      rw [h]
      exact hborrows
  case unique =>
    apply List.pairwise_iff_getElem.mpr
    intro i j hi hj hij hboth
    simp only [List.length_set] at hi hj
    have hiw : i = w := by
      by_cases h : i = w
      . exact h
      . rw [List.getElem_set_ne (by omega)] at hboth
        exact absurd hboth.left (hothers i hi h)
    have hjw : j ≠ w := by omega
    rw [List.getElem_set_ne (by omega : w ≠ j)] at hboth
    exact hothers j hj hjw hboth.right
  case stream =>
    have hnil : ∀ i (hi : i < s.writes.length), i ≠ w → s.unsent s.writes[i] = [] := by
      intro i hi hne
      apply unsent_eq_nil
      have := hothers i hi hne
      unfold Pending at this
      omega
    have hstream := hs.stream
    rw [flatten_map_eq_getElem hw hnil, hget] at hstream
    dsimp only
    have hw' : w < (s.writes.set w { write with sent := write.sent + n }).length := by
      rwa [List.length_set]
    rw [flatten_map_eq_getElem hw']
    . rw [List.getElem_set_self, ← hstream, List.append_assoc]
      unfold StringStorage.read unsent
      rw [if_pos hborrows.left]
      dsimp only
      rw [StringStorage.take_drop_append_take_drop _ _ _ _ hle]
    . intro i hi hne
      rw [List.getElem_set_ne (by omega)]
      rw [List.length_set] at hi
      exact hnil i hi hne

theorem InOrder.step {s t : Session} {event : SessionEvent} (hs : s.InOrder)
    (hevent : NoFailure s event ∧ SendsWhenSent s event) (hstep : Session.step s event = some t)
    : t.InOrder := by
  cases event with
  | sendData msg1 slack =>
    simp only [Session.step, Option.some.injEq] at hstep
    subst hstep
    exact hs.sendData msg1 slack hevent.right
  | transfer w n stale => exact hs.transfer hstep
  | complete w error => exact hs.complete hevent.left hstep

def messages (events : List SessionEvent) : List Bytes :=
  events.filterMap fun event =>
    match event with
    | .sendData msg1 _ => some msg1
    | _ => none

theorem asked_of_step {s t : Session} {event : SessionEvent} (hstep : step s event = some t)
    : t.asked = s.asked ++ messages [event] := by
  cases event with
  | sendData msg1 slack =>
    simp only [step, Option.some.injEq] at hstep
    subst hstep
    rfl
  | transfer w n stale =>
    rcases transfer_eq_some hstep with ⟨write, _, _, _, ht⟩
    simp [ht, messages]
  | complete w error =>
    rcases complete_eq_some hstep with ⟨write, _, _, ht⟩
    simp [ht, messages]

theorem asked_of_run {events : List SessionEvent}
    : ∀ {s t : Session}, run step s events = some t → t.asked = s.asked ++ messages events := by
  induction events with
  | nil =>
    intro s t hrun
    simp only [run_nil, Option.some.injEq] at hrun
    simp [hrun, messages]
  | cons event events ih =>
    intro s t hrun
    rcases (run_cons_eq_some _ _ _ _).mp hrun with ⟨u, hu, hrun⟩
    rw [ih hrun, asked_of_step hu, List.append_assoc]
    unfold messages
    rw [← List.filterMap_append]
    rfl

/--
If `SendData` is never called before the peer has everything that was passed to it earlier, the peer
receives the messages one after the other.
-/
theorem peer_eq_messages (ioService : ServiceRef) (sn : Nat) (events : List SessionEvent)
    (s : Session) (hrun : run step (new ioService sn) events = some s)
    (hok : Meets step NoFailure (new ioService sn) events)
    (hsent : Meets step SendsWhenSent (new ioService sn) events)
    : s.peer <+: (messages events).flatten ∧
        (s.writes = [] → s.peer = (messages events).flatten) := by
  have hs : s.InOrder := inv_of_run InOrder.step (inOrder_new ioService sn) (hok.and hsent) hrun
  have hasked : s.asked = messages events := asked_of_run hrun
  have hstream := hs.stream
  rw [hasked] at hstream
  refine ⟨⟨_, hstream⟩, ?_⟩
  intro hwrites
  rw [hwrites] at hstream
  simpa using hstream

-- Two messages in several pieces, the second one when all of the first one has been sent but its
-- completion is still to come.
theorem peer_eq_messages_of_two
    : ∃ s, run step (new 0 1) [.sendData [97, 98, 99] 0, .transfer 0 2 [0, 0], .transfer 0 1 [0],
          .sendData [100] 0, .complete 0 .success, .transfer 0 1 [0],
          .complete 0 .success] = some s ∧
        s.peer = [97, 98, 99, 100] := by
  have hrun : run step (new 0 1) [.sendData [97, 98, 99] 0, .transfer 0 2 [0, 0],
      .transfer 0 1 [0], .sendData [100] 0, .complete 0 .success, .transfer 0 1 [0],
      .complete 0 .success] =
      some
        { new 0 1 with
          msg := ⟨1, [100, 0, 99, 0], 1⟩
          peer := [97, 98, 99, 100]
          asked := [[97, 98, 99], [100]]
          completed := [.success, .success] } := by
    decide
  exact ⟨_, hrun, (peer_eq_messages 0 1 _ _ hrun (by decide) (by decide)).right rfl⟩

-- The second call overwrites the two bytes that the first write still has to read.
theorem peer_ne_messages_of_overlap
    : ¬ ∀ (ioService : ServiceRef) (sn : Nat) (events : List SessionEvent) (s : Session),
        run step (new ioService sn) events = some s →
        Meets step NoFailure (new ioService sn) events →
        s.writes = [] → s.peer = (messages events).flatten := by
  intro h
  have hrun : run step (new 0 1) [.sendData [97, 98] 0, .sendData [99, 100] 0,
      .transfer 0 2 [0, 0], .transfer 1 2 [0, 0], .complete 0 .success, .complete 0 .success] =
      some
        { new 0 1 with
          msg := ⟨1, [99, 100, 0], 2⟩
          peer := [99, 100, 99, 100]
          asked := [[97, 98], [99, 100]]
          completed := [.success, .success] } := by
    decide
  have hpeer := h _ _ _ _ hrun (by decide) rfl
  exact absurd hpeer (by decide)

end Session
