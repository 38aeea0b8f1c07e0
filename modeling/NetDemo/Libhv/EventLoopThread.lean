import Mathlib.Data.List.Basic

/-!
This module contains how an `EventLoopThread` of libhv starts its loop, up to the point where the loop
runs the functors that have been queued.
-/

namespace Libhv

inductive KStatus where
  | null
  | initializing
  | initialized
  | starting
  | started
  | running
  | pause
  | stopping
  | stopped
  | destroyed
  deriving DecidableEq, Repr

def KStatus.value (status : KStatus) : Nat :=
  match status with
  | .null => 0
  | .initializing => 1
  | .initialized => 2
  | .starting => 3
  | .started => 4
  | .running => 5
  | .pause => 6
  | .stopping => 7
  | .stopped => 8
  | .destroyed => 9

/--
Where the thread of an `EventLoopThread` is in `loop_thread`:
- `spawned`: before `setStatus(kStarted)`
- `started`: before it queues `pre`
- `queued`: before `loop_->run()`
- `looping`: in `hloop_run`
- `calling`: in the functor, after what it has done first
-/
inductive LoopThreadAt (F : Type) where
  | notStarted
  | spawned
  | started
  | queued
  | looping
  | calling (fn : F)
  deriving DecidableEq, Repr

structure EventLoopThread (F : Type) where
  status : KStatus
  loopStatus : KStatus
  customEvents : List F
  loopThread : LoopThreadAt F
  deriving DecidableEq, Repr

namespace EventLoopThread

variable {F : Type}

def new : EventLoopThread F where
  status := .initialized
  loopStatus := .initialized
  customEvents := []
  loopThread := .notStarted

def isStarted (t : EventLoopThread F) : Bool :=
  KStatus.starting.value ≤ t.status.value && t.status.value < KStatus.stopped.value

-- `start` without the wait at its end.
def start (t : EventLoopThread F) : EventLoopThread F :=
  if t.isStarted then t else { t with status := .starting, loopThread := .spawned }

def queueInLoop (t : EventLoopThread F) (fn : F) : EventLoopThread F :=
  { t with customEvents := t.customEvents ++ [fn] }

-- What the thread does next, and the functor that it calls if it calls one.
def step (pre : Option F) (t : EventLoopThread F) : Option (EventLoopThread F × Option F) :=
  match t.loopThread with
  | .spawned => some ({ t with status := .started, loopThread := .started }, none)
  | .started =>
    match pre with
    | some pre => some ({ t.queueInLoop pre with loopThread := .queued }, none)
    | none => some ({ t with loopThread := .queued }, none)
  | .queued => some ({ t with loopStatus := .running, loopThread := .looping }, none)
  | .looping =>
    match t.customEvents with
    | fn :: customEvents => some ({ t with customEvents := customEvents }, some fn)
    | [] => none
  | .notStarted | .calling _ => none

/--
A thread whose loop is to run `fn` and nothing else: it is `pre` or has been queued before.
-/
inductive Starts (pre : Option F) (fn : F) : EventLoopThread F → Prop
  | spawned (customEvents : List F) (h : customEvents ++ pre.toList = [fn])
      : Starts pre fn ⟨.starting, .initialized, customEvents, .spawned⟩
  | started (customEvents : List F) (h : customEvents ++ pre.toList = [fn])
      : Starts pre fn ⟨.started, .initialized, customEvents, .started⟩
  | queued : Starts pre fn ⟨.started, .initialized, [fn], .queued⟩
  | looping : Starts pre fn ⟨.started, .running, [fn], .looping⟩
  | calling : Starts pre fn ⟨.started, .running, [], .calling fn⟩
  | called : Starts pre fn ⟨.started, .running, [], .looping⟩

def left (t : EventLoopThread F) : Nat :=
  match t.loopThread with
  | .notStarted | .spawned => 4
  | .started => 3
  | .queued => 2
  | .looping => t.customEvents.length
  | .calling _ => 0

def isCalling (t : EventLoopThread F) : Bool :=
  match t.loopThread with
  | .calling _ => true
  | .notStarted | .spawned | .started | .queued | .looping => false

variable {pre : Option F} {fn : F} {t u : EventLoopThread F} {out : Option F}

theorem starts_start (t : EventLoopThread F) (hnew : t = { new with customEvents := t.customEvents })
    (h : t.customEvents ++ pre.toList = [fn])
    : Starts pre fn t.start := by
  rw [hnew]
  exact .spawned t.customEvents h

/--
A thread that starts goes on until it has called its functor, after which its loop is running.
-/
theorem Starts.step (h : Starts pre fn t) (hstep : t.step pre = some (u, out))
    : u.left + 1 = t.left ∧ t.isCalling = false ∧
        ((out = none ∧ Starts pre fn u ∧ u.left ≠ 0 ∧ u.isCalling = false) ∨
          (out = some fn ∧ u = ⟨.started, .running, [], .looping⟩)) := by
  cases h with
  | spawned customEvents h =>
    simp only [EventLoopThread.step, Option.some.injEq, Prod.mk.injEq] at hstep
    rcases hstep with ⟨hu, hout⟩
    subst hu
    exact ⟨rfl, rfl, .inl ⟨hout.symm, .started customEvents h, by simp [left], rfl⟩⟩
  | started customEvents h =>
    cases pre with
    | none =>
      simp only [EventLoopThread.step, Option.some.injEq, Prod.mk.injEq] at hstep
      rcases hstep with ⟨hu, hout⟩
      subst hu
      simp only [Option.toList_none, List.append_nil] at h
      subst h
      exact ⟨rfl, rfl, .inl ⟨hout.symm, .queued, by simp [left], rfl⟩⟩
    | some pre =>
      simp only [EventLoopThread.step, queueInLoop, Option.some.injEq, Prod.mk.injEq] at hstep
      rcases hstep with ⟨hu, hout⟩
      subst hu
      simp only [Option.toList_some] at h
      rw [h]
      exact ⟨rfl, rfl, .inl ⟨hout.symm, .queued, by simp [left], rfl⟩⟩
  | queued =>
    simp only [EventLoopThread.step, Option.some.injEq, Prod.mk.injEq] at hstep
    rcases hstep with ⟨hu, hout⟩
    subst hu
    exact ⟨rfl, rfl, .inl ⟨hout.symm, .looping, by simp [left], rfl⟩⟩
  | looping =>
    simp only [EventLoopThread.step, Option.some.injEq, Prod.mk.injEq] at hstep
    rcases hstep with ⟨hu, hout⟩
    subst hu
    exact ⟨rfl, rfl, .inr ⟨hout.symm, rfl⟩⟩
  | calling => simp [EventLoopThread.step] at hstep
  | called => simp [EventLoopThread.step] at hstep

theorem Starts.left_eq_zero (h : Starts pre fn t) (hstep : t.step pre = none) : t.left = 0 := by
  cases h with
  | spawned customEvents h => simp [EventLoopThread.step] at hstep
  | started customEvents h =>
    cases pre with
    | none => simp [EventLoopThread.step] at hstep
    | some pre => simp [EventLoopThread.step] at hstep
  | queued => simp [EventLoopThread.step] at hstep
  | looping => simp [EventLoopThread.step] at hstep
  | calling => rfl
  | called => rfl

theorem Starts.running (h : Starts pre fn t) (hleft : t.left = 0) : t.loopStatus = .running := by
  cases h with
  | spawned customEvents h => simp [left] at hleft
  | started customEvents h => simp [left] at hleft
  | queued => simp [left] at hleft
  | looping => rfl
  | calling => rfl
  | called => rfl

end EventLoopThread

end Libhv
