import NetDemo.Lib.Transition
import NetDemo.Session.Handlers

/-!
This module contains what becomes of the bytes that `read_handler` is given: what was handed over
together with what is kept in `currentMsg_` is what the chunks show as C strings.
-/

/--
A chunk that completes a read without an error and leaves at least one byte of `msg_` alone.
-/
structure Arrival where
  bytes : Bytes
  length_bytes : bytes.length ≤ 1023
  beyond : Bytes
  address : String
  deriving DecidableEq, Repr

def Arrival.invocation (a : Arrival) : Invocation :=
  .readHandler .success a.bytes ⟨a.beyond, some a.address, none⟩

-- What a chunk that is read shows as a C string.
def Invocation.text (i : Invocation) : Bytes :=
  match i with
  | .readHandler _ chunk _ => CharArray.text chunk
  | .initHandler _ | .analyseHandler _ _ _ | .doneHandler _ _ | .writeHandler _ => []

namespace Receiver

open Transition

def stored (s : Receiver) : Bytes :=
  (s.handed.map HandedOver.msg).flatten ++ s.currentMsg

structure Balanced (s : Receiver) : Prop where
  msg : s.msg = .zero 1024
  long : ∀ h, h ∈ s.handed → h.midTransfer → flushSize < h.msg.length
  short : s.callback → s.currentMsg.length ≤ flushSize
  kept : s.callback = false → s.handed = []

theorem balanced_new (sumSize : Int32) (maxSize : UInt32) (callback : Bool) (sn : Nat)
    : (new sumSize maxSize callback sn).Balanced where
  msg := rfl
  long := by simp [new]
  short := by simp [new]
  kept := by simp [new]

section Stored

variable (s : Receiver)

@[simp]
theorem stored_cleared : s.cleared.stored = s.stored := by
  rfl

@[simp]
theorem stored_counted (w : SizeT) (n : Nat) : (s.counted w n).stored = s.stored := by
  rfl

@[simp]
theorem stored_noted : s.noted.stored = s.stored := by
  rfl

@[simp]
theorem stored_replied : s.replied.stored = s.stored := by
  rfl

@[simp]
theorem stored_written (chunk : Bytes) : (s.written chunk).stored = s.stored := by
  rfl

@[simp]
theorem stored_appended (beyond : Bytes)
    : (s.appended beyond).stored = s.stored ++ s.msg.cString beyond := by
  simp [stored, appended]

-- A message that is handed over is not kept.
@[simp]
theorem stored_handedIf (address : String) (midTransfer : Bool) (c : Prop) [Decidable c]
    : (s.handedIf address midTransfer c).stored = s.stored := by
  unfold stored handedIf
  split
  . simp
  . rfl

@[simp]
theorem stored_flushed (address : String) : (s.flushed address).stored = s.stored := by
  apply stored_handedIf

@[simp]
theorem stored_delivered (address : String) : (s.delivered address).stored = s.stored := by
  apply stored_handedIf

theorem stored_taken (w : SizeT) (n : Nat) (beyond : Bytes) (address : String)
    : (s.taken w n beyond address).stored = s.stored ++ s.msg.cString beyond := by
  simp [taken]

-- `done_handler` appends `msg_` once more, which is empty by then.
theorem stored_afterRead (w : SizeT) (n : Nat) (beyond : Bytes) (address : String)
    : (s.afterRead w n beyond address).stored = s.stored ++ s.msg.cString beyond := by
  have hmsg : (s.taken w n beyond address).noted.msg = .zero 1024 := rfl
  unfold afterRead
  split
  . simp [finished, stored_taken, hmsg]
  . simp [stored_taken]

end Stored

section Balanced

variable {s : Receiver}

theorem handedIf_kept {c : Prop} [Decidable c] (hs : s.callback = false → s.handed = [])
    (hc : c → s.callback = true) (address : String) (midTransfer : Bool)
    : (s.handedIf address midTransfer c).callback = false →
        (s.handedIf address midTransfer c).handed = [] := by
  intro hcallback
  change s.callback = false at hcallback
  have hnot : ¬ c := by
    intro h
    rw [hc h] at hcallback
    simp at hcallback
  rw [handedIf_of_not s hnot]
  exact hs hcallback

theorem Balanced.taken (hs : s.Balanced) (w : SizeT) (chunk : Bytes) (beyond : Bytes)
    (address : String)
    : ((s.written chunk).taken w chunk.length beyond address).Balanced := by
  constructor
  case msg => rfl
  case long =>
    intro h hmem hmid
    change h ∈ ite _ _ _ at hmem
    split at hmem
    . next hlong =>
      cases List.mem_append.mp hmem with
      | inl hold => exact hs.long h hold hmid
      | inr hnew =>
        rw [List.mem_singleton.mp hnew]
        exact hlong.left
    . exact hs.long h hmem hmid
  case short =>
    intro hcallback
    change (ite _ _ _ : Bytes).length ≤ _
    split
    . simp
    . next hlong =>
      have : ¬ (((s.written chunk).appended beyond).currentMsg.length > flushSize) := by
        intro h
        exact hlong ⟨h, hcallback⟩
      omega
  case kept =>
    apply handedIf_kept (s := (s.written chunk).appended beyond) hs.kept
    intro h
    exact h.right

theorem Balanced.finished (hs : s.Balanced) (beyond : Bytes) (address : String)
    : (s.finished beyond address).Balanced ∧
        (s.callback → (s.finished beyond address).currentMsg = []) := by
  have hempty : s.callback → (s.finished beyond address).currentMsg = [] := by
    intro hcallback
    change (ite _ _ _ : Bytes) = []
    split
    . rfl
    . next h =>
      by_cases hnil : (s.noted.appended beyond).currentMsg = []
      . exact hnil
      . exact absurd ⟨hnil, hcallback⟩ h
  refine ⟨?_, hempty⟩
  constructor
  case msg => rfl
  case long =>
    intro h hmem hmid
    change h ∈ ite _ _ _ at hmem
    split at hmem
    . cases List.mem_append.mp hmem with
      | inl hold => exact hs.long h hold hmid
      | inr hnew =>
        rw [List.mem_singleton.mp hnew] at hmid
        simp at hmid
    . exact hs.long h hmem hmid
  case short =>
    intro hcallback
    rw [hempty hcallback]
    simp
  case kept =>
    apply handedIf_kept (s := s.noted.appended beyond) hs.kept
    intro h
    exact h.right

theorem Balanced.afterRead (hs : s.Balanced) (w : SizeT) (chunk : Bytes) (beyond : Bytes)
    (address : String)
    : ((s.written chunk).afterRead w chunk.length beyond address).Balanced := by
  have htaken := hs.taken w chunk beyond address
  unfold Receiver.afterRead
  split
  . exact (htaken.finished beyond address).left
  . exact ⟨htaken.msg, htaken.long, htaken.short, htaken.kept⟩

end Balanced

/--
`done_handler` runs if and only if the counter has fallen below zero. With a callback nothing is kept
then, and what was kept has been handed over together with what the chunk shows.
-/
def EmptiesWhenDone (w : SizeT) (s : Receiver) (i : Invocation) : Prop :=
  ∀ t, step w s i = some t →
    if t.sumSize < 0 then
      t.doneAt = s.doneAt ++ [t.received] ∧
        (t.callback = true →
          t.currentMsg = [] ∧ (t.handed.map HandedOver.msg).flatten = s.stored ++ i.text)
    else
      t.doneAt = s.doneAt

theorem emptiesWhenDone_of_step {s t : Receiver} {w : SizeT} {i : Invocation}
    (hstep : Receiver.step w s i = some t) (hstored : t.stored = s.stored ++ i.text)
    (hdone : t.sumSize < 0 →
      t.doneAt = s.doneAt ++ [t.received] ∧ (t.callback = true → t.currentMsg = []))
    (hgoesOn : ¬ t.sumSize < 0 → t.doneAt = s.doneAt)
    : EmptiesWhenDone w s i := by
  intro u hu
  rw [hstep] at hu
  simp only [Option.some.injEq] at hu
  subst hu
  split
  . next hneg =>
    refine ⟨(hdone hneg).left, ?_⟩
    intro hcallback
    have hempty := (hdone hneg).right hcallback
    refine ⟨hempty, ?_⟩
    rw [← hstored]
    simp [stored, hempty]
  . next hnonneg => exact hgoesOn hnonneg

theorem Balanced.step {s : Receiver} (hs : s.Balanced) (w : SizeT) (a : Arrival)
    : ∃ t, Receiver.step w s a.invocation = some t ∧ t.Balanced ∧ t.callback = s.callback ∧
        t.stored = s.stored ++ CharArray.text a.bytes ∧
        EmptiesWhenDone w s a.invocation := by
  have hstep : Receiver.step w s a.invocation =
      some ((s.written a.bytes).afterRead w a.bytes.length a.beyond a.address) := by
    exact step_readHandler_some rfl rfl
  have hstored : ((s.written a.bytes).afterRead w a.bytes.length a.beyond a.address).stored =
      s.stored ++ CharArray.text a.bytes := by
    have hlt : a.bytes.length < 1024 := by
      have := a.length_bytes
      omega
    rw [stored_afterRead, stored_written]
    unfold written
    rw [hs.msg, CharArray.cString_write_zero hlt]
  refine ⟨_, hstep, hs.afterRead w a.bytes a.beyond a.address, ?_, hstored, ?_⟩
  . unfold Receiver.afterRead
    split
    . rfl
    . rfl
  . apply emptiesWhenDone_of_step hstep hstored
    . unfold Receiver.afterRead
      split
      . intro _
        exact ⟨rfl, ((hs.taken w a.bytes a.beyond a.address).finished a.beyond a.address).right⟩
      . next hnonneg =>
        intro hneg
        exact absurd hneg hnonneg
    . unfold Receiver.afterRead
      split
      . next hneg =>
        intro hnonneg
        exact absurd hneg hnonneg
      . intro _
        rfl

theorem stored_of_run (w : SizeT) (arrivals : List Arrival)
    : ∀ {s : Receiver}, s.Balanced →
        Meets (Receiver.step w) (EmptiesWhenDone w) s (arrivals.map Arrival.invocation) ∧
        ∃ t, run (Receiver.step w) s (arrivals.map Arrival.invocation) = some t ∧ t.Balanced ∧
          t.callback = s.callback ∧
          t.stored = s.stored ++ (arrivals.map fun a => CharArray.text a.bytes).flatten := by
  induction arrivals with
  | nil =>
    intro s hs
    exact ⟨trivial, s, rfl, hs, rfl, by simp⟩
  | cons a arrivals ih =>
    intro s hs
    rcases hs.step w a with ⟨u, hu, hbalanced, hcallback, hstored, hdone⟩
    rcases ih hbalanced with ⟨hmeets, t, ht, hbalanced, hcallback', hstored'⟩
    rw [List.map_cons, meets_cons hu]
    refine ⟨⟨hdone, hmeets⟩, t, ?_, hbalanced, ?_, ?_⟩
    . rw [run_cons_eq_some]
      exact ⟨u, hu, ht⟩
    . rw [hcallback', hcallback]
    . rw [hstored', hstored]
      simp

/--
The messages handed over and the rest that is kept are the chunks up to their first NUL bytes one
after the other. Only long messages are handed over before the end, a rest is never long, and none is
left once the counter has fallen below zero.
-/
theorem bookkeeping (w : SizeT) (sumSize : Int32) (maxSize : UInt32) (callback : Bool) (sn : Nat)
    (arrivals : List Arrival)
    : ∃ s, run (step w) (new sumSize maxSize callback sn) (arrivals.map Arrival.invocation) =
          some s ∧
        (s.handed.map HandedOver.msg).flatten ++ s.currentMsg =
          (arrivals.map fun a => CharArray.text a.bytes).flatten ∧
        Meets (step w) (EmptiesWhenDone w) (new sumSize maxSize callback sn)
          (arrivals.map Arrival.invocation) ∧
        (callback = true →
          (∀ h, h ∈ s.handed → h.midTransfer → 524288 < h.msg.length) ∧
          s.currentMsg.length ≤ 524288) ∧
        (callback = false →
          s.handed = [] ∧ s.currentMsg = (arrivals.map fun a => CharArray.text a.bytes).flatten) := by
  rcases stored_of_run w arrivals (balanced_new sumSize maxSize callback sn)
    with ⟨hmeets, s, hrun, hs, hcallback, hstored⟩
  have hnew : (new sumSize maxSize callback sn).stored = [] := rfl
  rw [hnew, List.nil_append] at hstored
  refine ⟨s, hrun, hstored, hmeets, ?_, ?_⟩
  . intro h
    exact ⟨hs.long, hs.short (hcallback.trans h)⟩
  . intro h
    have hkept := hs.kept (hcallback.trans h)
    refine ⟨hkept, ?_⟩
    rw [← hstored]
    simp [stored, hkept]

end Receiver
