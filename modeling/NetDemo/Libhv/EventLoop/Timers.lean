import NetDemo.Lib.ListUpdate
import NetDemo.Lib.Transition
import NetDemo.Libhv.ReconnSetting
import Mathlib.Logic.Function.Basic

/-!
This module contains the timers of the `EventLoop` of libhv. All of it runs in the thread of the loop:
`onTimer` calls a callback, and during the call the callback may set, kill and reset timers, its own
one included.

When hloop calls `onTimer` is left open, so it may do so for every id and any number of times.
-/

namespace Libhv

abbrev TimerID := Nat

-- The number of `Timer` objects made before it.
abbrev TimerRef := Nat

structure Timer where
  -- The id of its htimer.
  timerID : TimerID
  repeatCnt : UInt32
  -- History: what `repeat` was at first, the calls, and how often `resetTimer` brought the timer back.
  given : UInt32
  calls : Nat
  revived : Nat
  deriving DecidableEq, Repr

structure EventLoop where
  -- All `Timer` objects that have been made.
  objects : List Timer
  timers : TimerID → Option TimerRef
  -- `onTimer` is in the call of the callback.
  calling : Option (TimerID × TimerRef)
  -- History: the timer that was set last under the id, until it is killed or its last call is over.
  due : TimerID → Option TimerRef

inductive EventLoopEvent where
  | setTimer (timerID : TimerID) (repeatCnt : UInt32)
  | killTimer (timerID : TimerID)
  | resetTimer (timerID : TimerID)
  | onTimer (timerID : TimerID)
  | returned
  deriving DecidableEq, Repr

namespace Timer

def reset (timer : Timer) : Timer :=
  if timer.repeatCnt = 0 then
    { timer with repeatCnt := 1, revived := timer.revived + 1 }
  else
    timer

def call (timer : Timer) : Timer :=
  { timer with
    repeatCnt := if timer.repeatCnt ≠ infinite then timer.repeatCnt - 1 else timer.repeatCnt
    calls := timer.calls + 1 }

/--
The calls that have been made and those that are left are those that were asked for.
-/
def Exact (timer : Timer) : Prop :=
  if timer.given = infinite then
    timer.repeatCnt = infinite
  else
    timer.repeatCnt ≠ infinite ∧
      timer.calls + timer.repeatCnt.toNat = timer.given.toNat + timer.revived

theorem exact_new {timerID : TimerID} {repeatCnt : UInt32}
    : Exact ⟨timerID, repeatCnt, repeatCnt, 0, 0⟩ := by
  unfold Exact
  split
  . assumption
  . next hfinite => exact ⟨hfinite, by simp⟩

theorem Exact.reset {timer : Timer} (h : timer.Exact) : timer.reset.Exact := by
  unfold Timer.reset
  split
  . next hzero =>
    unfold Exact at h ⊢
    split at h
    . next hgiven =>
      rw [hzero] at h
      exact absurd h (by decide)
    . next hgiven =>
      rw [hzero, UInt32.toNat_zero] at h
      rw [if_neg hgiven]
      refine ⟨(by decide : (1 : UInt32) ≠ infinite), ?_⟩
      dsimp only
      rw [UInt32.toNat_one]
      omega
  . exact h

theorem Exact.call {timer : Timer} (h : timer.Exact) (hleft : timer.repeatCnt ≠ 0)
    : timer.call.Exact := by
  unfold Exact at h ⊢
  unfold Timer.call
  split at h
  . next hgiven =>
    rw [if_pos hgiven]
    simp [h]
  . next hgiven =>
    have ⟨hfinite, hcalls⟩ := h
    have hle : (1 : UInt32) ≤ timer.repeatCnt := by
      rw [UInt32.le_iff_toNat_le, UInt32.toNat_one]
      have : timer.repeatCnt.toNat ≠ 0 := by
        intro hzero
        apply hleft
        rw [← UInt32.toNat_inj, hzero]
        rfl
      omega
    have hsub := UInt32.toNat_sub_of_le _ _ hle
    rw [UInt32.toNat_one] at hsub
    rw [UInt32.le_iff_toNat_le, UInt32.toNat_one] at hle
    rw [if_neg hgiven]
    simp only [ne_eq, hfinite, not_false_eq_true, if_true]
    constructor
    . rw [← UInt32.toNat_inj, hsub]
      have := timer.repeatCnt.toNat_lt
      have : infinite.toNat = 4294967295 := by decide
      omega
    . rw [hsub]
      omega

theorem repeatCnt_reset_ne_zero (timer : Timer) : timer.reset.repeatCnt ≠ 0 := by
  unfold Timer.reset
  split
  . exact (by decide : (1 : UInt32) ≠ 0)
  . assumption

end Timer

namespace EventLoop

open Transition ListUpdate

def new : EventLoop where
  objects := []
  timers := fun _ => none
  calling := none
  due := fun _ => none

def setTimer (s : EventLoop) (timerID : TimerID) (repeatCnt : UInt32) : EventLoop :=
  { s with
    objects := s.objects ++ [⟨timerID, repeatCnt, repeatCnt, 0, 0⟩]
    timers := Function.update s.timers timerID (some s.objects.length)
    due := Function.update s.due timerID (some s.objects.length) }

def killTimer (s : EventLoop) (timerID : TimerID) : EventLoop :=
  { s with
    timers := Function.update s.timers timerID none
    due := Function.update s.due timerID none }

def resetTimer (s : EventLoop) (timerID : TimerID) : EventLoop :=
  match s.timers timerID with
  | some r => { s with objects := s.objects.modify r Timer.reset }
  | none => s

-- `onTimer` up to the call of the callback.
def onTimer (s : EventLoop) (timerID : TimerID) : Option EventLoop :=
  if s.calling.isSome then
    none
  else
    match s.timers timerID with
    | some r =>
      some { s with objects := s.objects.modify r Timer.call, calling := some (timerID, r) }
    | none => some s

-- What is left of `onTimer` after the call.
def returned (s : EventLoop) : Option EventLoop :=
  match s.calling with
  | some (timerID, r) =>
    match s.objects[r]? with
    | some timer =>
      if timer.repeatCnt = 0 then
        some
          { s with
            timers := Function.update s.timers timerID none
            calling := none
            due := if s.due timerID = some r then Function.update s.due timerID none else s.due }
      else
        some { s with calling := none }
    | none => none
  | none => none

def step (s : EventLoop) (event : EventLoopEvent) : Option EventLoop :=
  match event with
  | .setTimer timerID repeatCnt => some (s.setTimer timerID repeatCnt)
  | .killTimer timerID => some (s.killTimer timerID)
  | .resetTimer timerID => some (s.resetTimer timerID)
  | .onTimer timerID => s.onTimer timerID
  | .returned => s.returned

/--
A timer without calls that are left is registered only while its last call is being made.
-/
structure Wf (s : EventLoop) : Prop where
  exact : ∀ (r : TimerRef) (timer : Timer), s.objects[r]? = some timer → timer.Exact
  known : ∀ id r, s.timers id = some r → r < s.objects.length
  calling : ∀ id r, s.calling = some (id, r) → r < s.objects.length
  left : ∀ id r (timer : Timer), s.timers id = some r → s.objects[r]? = some timer →
    timer.repeatCnt = 0 → s.calling = some (id, r)
  unique : ∀ id id' r, s.timers id = some r → s.timers id' = some r → id = id'

variable {s t : EventLoop}

theorem wf_new : new.Wf := by
  constructor
  all_goals simp [new]

theorem Wf.setTimer (hs : s.Wf) (timerID : TimerID) {repeatCnt : UInt32} (hzero : repeatCnt ≠ 0)
    : (s.setTimer timerID repeatCnt).Wf := by
  have ⟨hexact, hknown, hcalling, hleft, hunique⟩ := hs
  have hobjects : ∀ r (timer : Timer), (s.setTimer timerID repeatCnt).objects[r]? = some timer →
      s.objects[r]? = some timer ∨
        r = s.objects.length ∧ timer = ⟨timerID, repeatCnt, repeatCnt, 0, 0⟩ := by
    intro r timer hr
    simp only [EventLoop.setTimer, List.getElem?_append, List.getElem?_singleton] at hr
    grind
  have hlength : (s.setTimer timerID repeatCnt).objects.length = s.objects.length + 1 := by
    simp [EventLoop.setTimer]
  have htimers : ∀ id, (s.setTimer timerID repeatCnt).timers id =
      if id = timerID then some s.objects.length else s.timers id := by
    intro id
    simp only [EventLoop.setTimer, Function.update_apply]
  constructor
  . intro r timer hr
    rcases hobjects r timer hr with hold | ⟨_, hnew⟩
    . exact hexact r timer hold
    . exact hnew ▸ Timer.exact_new
  . intro id r hid
    rw [htimers] at hid
    rw [hlength]
    grind
  . intro id r hid
    rw [hlength]
    exact Nat.lt_succ_of_lt (hcalling id r hid)
  . intro id r timer hid hr hempty
    rw [htimers] at hid
    rcases hobjects r timer hr with hold | ⟨hlast, hnew⟩
    . split at hid
      . have := (List.getElem?_eq_some_iff.mp hold).1
        grind
      . exact hleft id r timer hid hold hempty
    . rw [hnew] at hempty
      exact absurd hempty hzero
  . intro id id' r hid hid'
    rw [htimers] at hid hid'
    grind

theorem Wf.killTimer (hs : s.Wf) (timerID : TimerID) : (s.killTimer timerID).Wf := by
  have ⟨hexact, hknown, hcalling, hleft, hunique⟩ := hs
  have htimers : ∀ id r, (s.killTimer timerID).timers id = some r → s.timers id = some r := by
    intro id r hid
    simp only [EventLoop.killTimer, Function.update_apply] at hid
    grind
  constructor
  . exact hexact
  . exact fun id r hid => hknown id r (htimers id r hid)
  . exact hcalling
  . exact fun id r timer hid => hleft id r timer (htimers id r hid)
  . exact fun id id' r hid hid' => hunique id id' r (htimers id r hid) (htimers id' r hid')

theorem Wf.resetTimer (hs : s.Wf) (timerID : TimerID) : (s.resetTimer timerID).Wf := by
  have ⟨hexact, hknown, hcalling, hleft, hunique⟩ := hs
  unfold EventLoop.resetTimer
  split
  . next r' hid' =>
    constructor
    . intro r timer hr
      rw [List.getElem?_modify] at hr
      rcases Option.map_eq_some_iff.mp hr with ⟨old, hold, htimer⟩
      split at htimer
      . exact htimer ▸ (hexact r old hold).reset
      . exact htimer ▸ hexact r old hold
    . simpa using hknown
    . simpa using hcalling
    . intro id r timer hid hr hempty
      rw [List.getElem?_modify] at hr
      rcases Option.map_eq_some_iff.mp hr with ⟨old, hold, htimer⟩
      split at htimer
      . rw [← htimer] at hempty
        exact absurd hempty old.repeatCnt_reset_ne_zero
      . exact hleft id r old hid hold (htimer ▸ hempty)
    . exact hunique
  . exact hs

theorem Wf.onTimer (hs : s.Wf) {timerID : TimerID} (h : s.onTimer timerID = some t) : t.Wf := by
  have ⟨hexact, hknown, hcalling, hleft, hunique⟩ := hs
  unfold EventLoop.onTimer at h
  split at h
  . simp at h
  . next hidle =>
    split at h
    . next r' hid' =>
      simp only [Option.some.injEq] at h
      subst h
      constructor
      . intro r timer hr
        rw [List.getElem?_modify] at hr
        rcases Option.map_eq_some_iff.mp hr with ⟨old, hold, htimer⟩
        split at htimer
        . next heq =>
          subst heq
          have hrepeat : old.repeatCnt ≠ 0 := by
            intro hempty
            have := hleft timerID r' old hid' hold hempty
            simp [this] at hidle
          exact htimer ▸ (hexact r' old hold).call hrepeat
        . exact htimer ▸ hexact r old hold
      . simpa using hknown
      . intro id r hid
        simp only [Option.some.injEq, Prod.mk.injEq] at hid
        simpa [← hid.right] using hknown timerID r' hid'
      . intro id r timer hid hr hempty
        rw [List.getElem?_modify] at hr
        rcases Option.map_eq_some_iff.mp hr with ⟨old, hold, htimer⟩
        split at htimer
        . next heq =>
          subst heq
          rw [hunique id timerID r' hid hid']
        . have := hleft id r old hid hold (htimer ▸ hempty)
          simp [this] at hidle
      . exact hunique
    . simp only [Option.some.injEq] at h
      exact h ▸ hs

theorem returned_cases (h : s.returned = some t)
    : ∃ timerID r timer, s.calling = some (timerID, r) ∧ s.objects[r]? = some timer ∧
        t.objects = s.objects ∧ t.calling = none ∧
        (timer.repeatCnt = 0 ∧ t.timers = Function.update s.timers timerID none ∧
            t.due =
              (if s.due timerID = some r then Function.update s.due timerID none else s.due) ∨
          timer.repeatCnt ≠ 0 ∧ t.timers = s.timers ∧ t.due = s.due) := by
  unfold returned at h
  split at h
  . next timerID r hcalling =>
    split at h
    . next timer hr =>
      split at h
      . next hempty =>
        simp only [Option.some.injEq] at h
        subst h
        exact ⟨timerID, r, timer, hcalling, hr, rfl, rfl, .inl ⟨hempty, rfl, rfl⟩⟩
      . next hleft =>
        simp only [Option.some.injEq] at h
        subst h
        exact ⟨timerID, r, timer, hcalling, hr, rfl, rfl, .inr ⟨hleft, rfl, rfl⟩⟩
    . simp at h
  . simp at h

theorem Wf.returned (hs : s.Wf) (h : s.returned = some t) : t.Wf := by
  have ⟨hexact, hknown, hcalling, hleft, hunique⟩ := hs
  rcases returned_cases h with ⟨timerID, r', timer', hcall, hr', hobjects, hidle, hcases⟩
  have htimers : ∀ id r, t.timers id = some r → s.timers id = some r ∧
      (id = timerID → timer'.repeatCnt ≠ 0) := by
    intro id r hid
    rcases hcases with ⟨_, htimers, _⟩ | ⟨hrepeat, htimers, _⟩
    . rw [htimers, Function.update_apply] at hid
      grind
    . rw [htimers] at hid
      exact ⟨hid, fun _ => hrepeat⟩
  constructor
  . rw [hobjects]
    exact hexact
  . rw [hobjects]
    exact fun id r hid => hknown id r (htimers id r hid).left
  . simp [hidle]
  . rw [hobjects]
    intro id r timer hid hr hempty
    have ⟨hid, hrepeat⟩ := htimers id r hid
    have hsame := hleft id r timer hid hr hempty
    rw [hcall] at hsame
    simp only [Option.some.injEq, Prod.mk.injEq] at hsame
    rw [hsame.right, hr, Option.some.injEq] at hr'
    exact absurd (hr' ▸ hempty) (hrepeat hsame.left.symm)
  . exact fun id id' r hid hid' =>
      hunique id id' r (htimers id r hid).left (htimers id' r hid').left

theorem Wf.step (hs : s.Wf) {e : EventLoopEvent} (he : ∀ id, e ≠ .setTimer id 0)
    (h : step s e = some t)
    : t.Wf := by
  cases e with
  | setTimer id repeatCnt =>
    simp only [EventLoop.step, Option.some.injEq] at h
    apply h ▸ hs.setTimer id _
    intro hzero
    exact he id (by rw [hzero])
  | killTimer id =>
    simp only [EventLoop.step, Option.some.injEq] at h
    exact h ▸ hs.killTimer id
  | resetTimer id =>
    simp only [EventLoop.step, Option.some.injEq] at h
    exact h ▸ hs.resetTimer id
  | onTimer id => exact hs.onTimer h
  | returned => exact hs.returned h

/--
A timer that was set for `repeat` calls gets that many, as long as hloop has it called, and one more
for each `resetTimer` during its last call: never more, and what is missing is what is left of it. One
that was set without an end never has a last call.
-/
theorem calls_of_run (es : List EventLoopEvent) (hset : ∀ id, .setTimer id 0 ∉ es) (s : EventLoop)
    (hrun : run step new es = some s) (r : TimerRef) (timer : Timer)
    (hr : s.objects[r]? = some timer)
    : if timer.given = infinite then
        timer.repeatCnt = infinite
      else
        timer.repeatCnt ≠ infinite ∧
          timer.calls + timer.repeatCnt.toNat = timer.given.toNat + timer.revived := by
  have hs : s.Wf := by
    apply inv_of_run (c := fun _ e => ∀ id, e ≠ .setTimer id 0) _ wf_new _ hrun
    . intro s e t hs he h
      exact hs.step he h
    . apply Meets.of_forall_mem
      intro e he _ id heq
      exact hset id (heq ▸ he)
  exact hs.exact r timer hr

-- A timeout that is set again during its call is called a second time and then no more.
def rearmed : List EventLoopEvent :=
  [.setTimer 1 1, .onTimer 1, .resetTimer 1, .returned, .onTimer 1, .returned, .onTimer 1]

theorem calls_of_run_rearmed
    : ∃ s timer, run step new rearmed = some s ∧ s.objects[0]? = some timer ∧
        timer.calls + timer.repeatCnt.toNat = 1 + 1 := by
  have hcalls := calls_of_run rearmed (by simp [rearmed]) _ rfl 0 ⟨1, 0, 1, 2, 1⟩ rfl
  rw [if_neg (by decide)] at hcalls
  exact ⟨_, _, rfl, rfl, hcalls.right⟩

/--
The callback has not left another timer under the id of its own timer, whose last call is over.
-/
def KeepsId (s : EventLoop) (e : EventLoopEvent) : Prop :=
  e = .returned → ∀ id r (timer : Timer), s.calling = some (id, r) → s.objects[r]? = some timer →
    timer.repeatCnt = 0 → s.timers id = none ∨ s.timers id = some r

theorem due_of_step (hs : s.timers = s.due) {e : EventLoopEvent} (he : KeepsId s e)
    (h : step s e = some t)
    : t.timers = t.due := by
  cases e with
  | setTimer id repeatCnt =>
    simp only [step, Option.some.injEq] at h
    rw [← h, setTimer, hs]
  | killTimer id =>
    simp only [step, Option.some.injEq] at h
    rw [← h, killTimer, hs]
  | resetTimer id =>
    simp only [step, Option.some.injEq] at h
    rw [← h, resetTimer]
    split
    . exact hs
    . exact hs
  | onTimer id =>
    simp only [step, onTimer] at h
    split at h
    . simp at h
    . split at h
      . simp only [Option.some.injEq] at h
        exact h ▸ hs
      . simp only [Option.some.injEq] at h
        exact h ▸ hs
  | returned =>
    rcases returned_cases h with ⟨id, r, timer, hcall, hr, _, _, hcases⟩
    rcases hcases with ⟨hempty, htimers, hdue⟩ | ⟨_, htimers, hdue⟩
    . rw [htimers, hdue, ← hs]
      cases he rfl id r timer hcall hr hempty with
      | inl hnone => simp [hnone]
      | inr hsame => rw [if_pos hsame]
    . rw [htimers, hdue, hs]

theorem keepsId_of_step (hs : s.timers = s.due) {e : EventLoopEvent} (h : step s e = some t)
    (ht : t.timers = t.due)
    : KeepsId s e := by
  intro he id r timer hcall hr hempty
  subst he
  rcases returned_cases h with ⟨id', r', timer', hcall', hr', _, _, hcases⟩
  rw [hcall, Option.some.injEq, Prod.mk.injEq] at hcall'
  rcases hcall' with ⟨hid, hrr⟩
  subst hid
  subst hrr
  rw [hr, Option.some.injEq] at hr'
  subst hr'
  rcases hcases with ⟨_, htimers, hdue⟩ | ⟨hleft, _, _⟩
  . by_cases hsame : s.timers id = some r
    . exact .inr hsame
    . left
      have hid := congrFun ht id
      rw [htimers, hdue, ← hs, if_neg hsame, Function.update_self] at hid
      exact hid.symm
  . exact absurd hempty hleft

/--
In all states of a run every timer that was set, has not been killed and has calls left is the one
registered under its id, exactly if no callback returns from its timer's last call with another timer
set under the same id: `onTimer` then erases that one.
-/
theorem timers_eq_due_iff (es : List EventLoopEvent) (s : EventLoop)
    (hrun : run step new es = some s)
    : Along step (fun s => s.timers = s.due) new es ↔ Meets step KeepsId new es := by
  apply along_iff_meets (I := fun s => s.timers = s.due) _ _ _ _ hrun
  . exact fun hs => hs
  . intro s e t hs he h
    exact due_of_step hs he h
  . intro s e t hs h ht
    exact keepsId_of_step hs h ht
  . rfl

-- The callback of a timeout sets its timer again under the same id.
def setAgain : List EventLoopEvent :=
  [.setTimer 1 1, .onTimer 1, .setTimer 1 1, .returned]

theorem not_timers_eq_due_setAgain
    : ∃ s, run step new setAgain = some s ∧
        ¬ Along step (fun s => s.timers = s.due) new setAgain := by
  refine ⟨_, rfl, ?_⟩
  rw [timers_eq_due_iff setAgain _ rfl]
  intro h
  have hkeeps := h.right.right.right.left rfl 1 0 ⟨1, 0, 1, 1, 0⟩ rfl rfl rfl
  rcases hkeeps with hnone | hsame
  . exact absurd hnone (by decide)
  . exact absurd hsame (by decide)

end EventLoop

end Libhv
