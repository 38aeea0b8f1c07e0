import NetDemo.Lib.Transition
import Mathlib.Data.List.Basic

/-!
This module contains how the `EventLoop` of libhv takes functors from other threads. `postEvent` does
it in two steps that the other threads may come between: it pushes the event on the queue under
`mutex_` and then has hloop call `onCustomEvent` back, which runs whatever is in front of the queue.
-/

namespace Libhv

-- The number of events that were pushed before it.
abbrev EventRef := Nat

structure CustomEvents where
  customEvents : List EventRef
  posting : List EventRef
  posted : List EventRef
  -- `front` has been called on an empty queue, which is undefined.
  undefined : Bool
  -- History.
  pushed : Nat
  executed : List EventRef
  deriving DecidableEq, Repr

-- `i` is one of the threads in `postEvent` or one of the calls that hloop has to make.
inductive CustomEventsEvent where
  | push
  | post (i : Nat)
  | onCustomEvent (i : Nat)
  deriving DecidableEq, Repr

namespace CustomEvents

open Transition

def new : CustomEvents where
  customEvents := []
  posting := []
  posted := []
  undefined := false
  pushed := 0
  executed := []

def push (s : CustomEvents) : CustomEvents :=
  { s with
    customEvents := s.customEvents ++ [s.pushed]
    posting := s.posting ++ [s.pushed]
    pushed := s.pushed + 1 }

def post (s : CustomEvents) (i : Nat) : Option CustomEvents :=
  match s.posting[i]? with
  | some ev => some { s with posting := s.posting.eraseIdx i, posted := s.posted ++ [ev] }
  | none => none

-- Which event it was posted for does not matter.
def onCustomEvent (s : CustomEvents) (i : Nat) : Option CustomEvents :=
  if i < s.posted.length then
    let s := { s with posted := s.posted.eraseIdx i }
    match s.customEvents with
    | ev :: customEvents =>
      some { s with customEvents := customEvents, executed := s.executed ++ [ev] }
    | [] => some { s with undefined := true }
  else
    none

def step (s : CustomEvents) (event : CustomEventsEvent) : Option CustomEvents :=
  match event with
  | .push => some s.push
  | .post i => s.post i
  | .onCustomEvent i => s.onCustomEvent i

/--
Every event in the queue has a call of `onCustomEvent` that is still to come.
-/
structure Wf (s : CustomEvents) : Prop where
  length : s.customEvents.length = s.posting.length + s.posted.length
  defined : s.undefined = false
  order : s.executed ++ s.customEvents = List.range s.pushed

variable {s t : CustomEvents}

theorem Wf.push (hs : s.Wf) : s.push.Wf := by
  have ⟨hlength, hdefined, horder⟩ := hs
  constructor
  . simp only [CustomEvents.push, List.length_append, List.length_singleton]
    omega
  . exact hdefined
  . simp only [CustomEvents.push]
    rw [List.range_succ, ← horder, List.append_assoc]

theorem Wf.post (hs : s.Wf) {i : Nat} (h : s.post i = some t) : t.Wf := by
  have ⟨hlength, hdefined, horder⟩ := hs
  unfold CustomEvents.post at h
  split at h
  . next ev hev =>
    have hlt := (List.getElem?_eq_some_iff.mp hev).1
    simp only [Option.some.injEq] at h
    subst h
    constructor
    . simp only [List.length_append, List.length_singleton, List.length_eraseIdx_of_lt hlt]
      omega
    . exact hdefined
    . exact horder
  . simp at h

theorem Wf.onCustomEvent (hs : s.Wf) {i : Nat} (h : s.onCustomEvent i = some t) : t.Wf := by
  have ⟨hlength, hdefined, horder⟩ := hs
  unfold CustomEvents.onCustomEvent at h
  split at h
  . next hlt =>
    have herase := List.length_eraseIdx_of_lt hlt
    simp only at h
    split at h
    . next ev customEvents hqueue =>
      rw [hqueue] at hlength horder
      simp only [Option.some.injEq] at h
      subst h
      constructor
      . simp only [herase]
        simp only [List.length_cons] at hlength
        omega
      . exact hdefined
      . simpa using horder
    . next hqueue =>
      rw [hqueue] at hlength
      simp only [List.length_nil] at hlength
      omega
  . simp at h

theorem Wf.step (hs : s.Wf) {e : CustomEventsEvent} (h : step s e = some t) : t.Wf := by
  cases e with
  | push =>
    simp only [CustomEvents.step, Option.some.injEq] at h
    exact h ▸ hs.push
  | post i => exact hs.post h
  | onCustomEvent i => exact hs.onCustomEvent h

theorem wf_of_run {es : List CustomEventsEvent} (hrun : run step new es = some s) : s.Wf := by
  have hnew : new.Wf := ⟨rfl, rfl, rfl⟩
  apply inv_of_run (c := fun _ _ => True) _ hnew _ hrun
  . intro s e t hs _ h
    exact hs.step h
  . apply Meets.of_forall
    simp

/--
Whatever the threads do, the queue is never empty when `onCustomEvent` takes from it, the events are
executed in the order in which they were pushed and each of them once, and all of them have been as
soon as no thread is in `postEvent` and hloop has called everything back.
-/
theorem executed_of_run (es : List CustomEventsEvent) (s : CustomEvents)
    (hrun : run step new es = some s)
    : s.undefined = false ∧ s.executed <+: List.range s.pushed ∧
        (s.posting = [] ∧ s.posted = [] → s.executed = List.range s.pushed) := by
  have ⟨hlength, hdefined, horder⟩ := wf_of_run hrun
  refine ⟨hdefined, ⟨s.customEvents, horder⟩, ?_⟩
  intro hidle
  rw [hidle.left, hidle.right, List.length_nil] at hlength
  rw [← horder, List.eq_nil_of_length_eq_zero hlength, List.append_nil]

-- The event that was pushed first is posted last, and executed first all the same.
def overtaken : List CustomEventsEvent :=
  [.push, .push, .post 1, .onCustomEvent 0, .post 0, .onCustomEvent 0]

theorem executed_of_run_overtaken
    : ∃ s, run step new overtaken = some s ∧ s.executed = List.range 2 :=
  ⟨_, rfl, (executed_of_run overtaken _ rfl).right.right ⟨rfl, rfl⟩⟩

end CustomEvents

end Libhv
