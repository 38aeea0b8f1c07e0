import NetDemo.Libhv.EventLoop.Timers
import Mathlib.Data.List.Perm.Subperm
import Mathlib.Data.List.Nodup

/-!
This module contains the ids that `EventLoop` generates, and that timers which are set under such ids
are never lost.
-/

namespace Libhv

-- `nextTimerID` is the counter after it has been increased.
def generateTimerID (tid nextTimerID : UInt64) : UInt64 :=
  ((tid &&& 0xFFFFFFFF) <<< 32) ||| nextTimerID

-- The ids that one loop generates, whatever `tid` is at each time.
def generatedIDs (tids : List UInt64) : List TimerID :=
  tids.zipIdx.map fun (tid, i) => (generateTimerID tid (UInt64.ofNat (i + 1))).toNat

theorem generateTimerID_mod (tid : UInt64) {n : Nat} (hn : n < 2 ^ 32)
    : (generateTimerID tid (UInt64.ofNat n)).toNat % 2 ^ 32 = n := by
  have hnext : (UInt64.ofNat n).toNat = n := by
    rw [UInt64.toNat_ofNat']
    exact Nat.mod_eq_of_lt (by omega)
  have hhigh : ((tid &&& 0xFFFFFFFF) <<< 32).toNat % 2 ^ 32 = 0 := by
    have hshift : (32 : UInt64).toNat % 64 = 32 := by decide
    rw [UInt64.toNat_shiftLeft, hshift, Nat.shiftLeft_eq]
    omega
  unfold generateTimerID
  rw [UInt64.toNat_or, Nat.or_mod_two_pow, hhigh, hnext, Nat.zero_or]
  exact Nat.mod_eq_of_lt hn

theorem nodup_generatedIDs {tids : List UInt64} (h : tids.length < 2 ^ 32)
    : (generatedIDs tids).Nodup := by
  have hmod : (generatedIDs tids).map (· % 2 ^ 32) = (tids.zipIdx.map Prod.snd).map (· + 1) := by
    unfold generatedIDs
    rw [List.map_map, List.map_map]
    apply List.map_congr_left
    intro entry hentry
    have hlt : entry.2 < tids.length := List.snd_lt_of_mem_zipIdx hentry
    exact generateTimerID_mod entry.1 (by omega)
  apply List.Nodup.of_map (· % 2 ^ 32)
  rw [hmod, List.zipIdx_map_snd]
  apply List.Nodup.map
  . intro i j hij
    simpa using hij
  . exact List.nodup_range'

namespace EventLoop

open Transition

def setIDs (es : List EventLoopEvent) : List TimerID :=
  es.filterMap fun e =>
    match e with
    | .setTimer timerID _ => some timerID
    | .killTimer _ | .resetTimer _ | .onTimer _ | .returned => none

def ids (s : EventLoop) : List TimerID :=
  s.objects.map Timer.timerID

-- A timer is set under an id that no timer has been set under before.
def Fresh (s : EventLoop) (e : EventLoopEvent) : Prop :=
  ∀ id repeatCnt, e = .setTimer id repeatCnt → id ∉ s.ids

structure Named (s : EventLoop) : Prop where
  nodup : s.ids.Nodup
  timers : ∀ id r, s.timers id = some r → s.ids[r]? = some id
  calling : ∀ id r, s.calling = some (id, r) → s.ids[r]? = some id

variable {s t : EventLoop}

theorem ids_modify (s : EventLoop) (r : TimerRef) {f : Timer → Timer}
    (hf : ∀ timer, (f timer).timerID = timer.timerID)
    : (s.objects.modify r f).map Timer.timerID = s.ids := by
  apply List.ext_getElem?
  intro i
  rw [ids, List.getElem?_map, List.getElem?_map, List.getElem?_modify]
  cases s.objects[i]? with
  | none => rfl
  | some timer =>
    simp only [Option.map_eq_map, Option.map_some]
    split
    . rw [hf]
    . rfl

theorem timerID_reset (timer : Timer) : timer.reset.timerID = timer.timerID := by
  unfold Timer.reset
  split
  . rfl
  . rfl

theorem ids_of_step {e : EventLoopEvent} (h : step s e = some t)
    : t.ids = s.ids ++ setIDs [e] := by
  cases e with
  | setTimer id repeatCnt =>
    simp only [step, Option.some.injEq] at h
    subst h
    simp [ids, setTimer, setIDs]
  | killTimer id =>
    simp only [step, Option.some.injEq] at h
    subst h
    simp [ids, killTimer, setIDs]
  | resetTimer id =>
    simp only [step, Option.some.injEq] at h
    subst h
    have hnone : setIDs [.resetTimer id] = [] := rfl
    rw [hnone, List.append_nil, resetTimer]
    split
    . exact ids_modify s _ timerID_reset
    . rfl
  | onTimer id =>
    have hnone : setIDs [.onTimer id] = [] := rfl
    rw [hnone, List.append_nil]
    simp only [step, onTimer] at h
    split at h
    . simp at h
    . split at h
      . simp only [Option.some.injEq] at h
        exact h ▸ ids_modify s _ fun _ => rfl
      . simp only [Option.some.injEq] at h
        rw [h]
  | returned =>
    have hnone : setIDs [.returned] = [] := rfl
    rcases returned_cases h with ⟨_, _, _, _, _, hobjects, _⟩
    rw [hnone, List.append_nil, ids, hobjects, ids]

/--
What is registered or being called after a step was so before, or it is the timer that was set.
-/
theorem refs_of_step {e : EventLoopEvent} (h : step s e = some t) {id : TimerID} {r : TimerRef}
    (hid : t.timers id = some r ∨ t.calling = some (id, r))
    : (s.timers id = some r ∨ s.calling = some (id, r)) ∨
        r = s.objects.length ∧ ∃ repeatCnt, e = .setTimer id repeatCnt := by
  cases e with
  | setTimer id' repeatCnt =>
    simp only [step, Option.some.injEq] at h
    subst h
    simp only [setTimer, Function.update_apply] at hid
    by_cases heq : id = id'
    . subst heq
      grind
    . grind
  | killTimer id' =>
    simp only [step, Option.some.injEq] at h
    subst h
    simp only [killTimer, Function.update_apply] at hid
    grind
  | resetTimer id' =>
    simp only [step, Option.some.injEq] at h
    subst h
    left
    unfold resetTimer at hid
    split at hid
    . exact hid
    . exact hid
  | onTimer id' =>
    left
    simp only [step, onTimer] at h
    split at h
    . simp at h
    . split at h
      . next r' hid' =>
        simp only [Option.some.injEq] at h
        subst h
        simp only [Option.some.injEq, Prod.mk.injEq] at hid
        grind
      . simp only [Option.some.injEq] at h
        exact h ▸ hid
  | returned =>
    left
    rcases returned_cases h with ⟨id', _, _, _, _, _, hidle, hcases⟩
    simp only [hidle, reduceCtorEq, or_false] at hid
    rcases hcases with ⟨_, htimers, _⟩ | ⟨_, htimers, _⟩
    . rw [htimers, Function.update_apply] at hid
      grind
    . exact .inl (htimers ▸ hid)

theorem Named.of_step (hs : s.Named) {e : EventLoopEvent} (he : Fresh s e) (h : step s e = some t)
    : t.Named := by
  have hids := ids_of_step h
  have hrefs : ∀ id r, t.timers id = some r ∨ t.calling = some (id, r) → t.ids[r]? = some id := by
    intro id r hid
    rw [hids]
    rcases refs_of_step h hid with hold | ⟨hr, repeatCnt, he⟩
    . have hr : s.ids[r]? = some id := hold.elim (hs.timers id r) (hs.calling id r)
      rw [List.getElem?_append_left (List.getElem?_eq_some_iff.mp hr).1]
      exact hr
    . subst he
      have hlength : s.ids.length = r := by simp [ids, hr]
      rw [← hlength]
      exact List.getElem?_concat_length
  constructor
  . rw [hids]
    cases e with
    | setTimer id repeatCnt =>
      rw [List.nodup_append]
      refine ⟨hs.nodup, List.nodup_singleton id, ?_⟩
      intro id' hold id'' hnew heq
      have hsame : id'' = id := List.mem_singleton.mp hnew
      exact he id repeatCnt rfl (hsame ▸ heq ▸ hold)
    | _ => simpa [setIDs] using hs.nodup
  . exact fun id r hid => hrefs id r (.inl hid)
  . exact fun id r hid => hrefs id r (.inr hid)

theorem Named.keepsId (hs : s.Named) (e : EventLoopEvent) : KeepsId s e := by
  intro _ id r timer hcall _ _
  cases hid : s.timers id with
  | none => exact .inl rfl
  | some r' =>
    right
    have hr := hs.calling id r hcall
    have hr' := hs.timers id r' hid
    have hlt := (List.getElem?_eq_some_iff.mp hr').1
    rw [(List.getElem?_inj hlt hs.nodup).mp (hr'.trans hr.symm)]

theorem fresh_of_nodup
    : ∀ {es : List EventLoopEvent} {s : EventLoop}, (s.ids ++ setIDs es).Nodup →
        Meets step Fresh s es := by
  intro es
  induction es with
  | nil => exact fun _ => trivial
  | cons e es ih =>
    intro s hnodup
    have hsplit : setIDs (e :: es) = setIDs [e] ++ setIDs es := by
      rw [setIDs, setIDs, setIDs, ← List.filterMap_append]
      rfl
    rw [hsplit, ← List.append_assoc] at hnodup
    have hfresh : Fresh s e := by
      intro id repeatCnt he hold
      subst he
      have hnodup := (List.nodup_append.mp hnodup).left
      exact (List.nodup_append.mp hnodup).right.right id hold id List.mem_cons_self rfl
    cases h : step s e with
    | none => simp [Meets, h, hfresh]
    | some t =>
      rw [meets_cons h]
      refine ⟨hfresh, ih ?_⟩
      rw [ids_of_step h]
      exact hnodup

/--
Timers that are set under ids which the loop has generated, as `setTimeout` and `setInterval` do, are
never lost, until the loop has generated so many that the counter leaves its half of the id.
-/
theorem timers_eq_due_of_generated (tids : List UInt64) (hlength : tids.length < 2 ^ 32)
    (es : List EventLoopEvent) (hids : (setIDs es).Subperm (generatedIDs tids))
    : Along step (fun s => s.timers = s.due) new es := by
  have hnodup : (setIDs es).Nodup := by
    rcases hids with ⟨ids, hperm, hsublist⟩
    rw [← hperm.nodup_iff]
    exact (nodup_generatedIDs hlength).sublist hsublist
  have hnew : new.Named ∧ new.timers = new.due := by
    refine ⟨⟨List.nodup_nil, ?_, ?_⟩, rfl⟩
    . simp [new]
    . simp [new]
  apply along_of_meets (I := fun s => s.Named ∧ s.timers = s.due) (c := Fresh) And.right _ hnew
  . apply fresh_of_nodup
    exact hnodup
  . intro s e t hs he h
    exact ⟨hs.left.of_step he h, due_of_step hs.right (hs.left.keepsId e) h⟩

-- A timeout whose callback calls `setTimeout`.
def setTwice : List EventLoopEvent :=
  [.setTimer 4294967297 1, .onTimer 4294967297, .setTimer 4294967298 1, .returned,
    .onTimer 4294967298]

theorem timers_eq_due_of_generated_setTwice
    : Along step (fun s => s.timers = s.due) new setTwice := by
  apply timers_eq_due_of_generated [1, 1] (by decide) setTwice
  have hids : setIDs setTwice = generatedIDs [1, 1] := by decide
  rw [hids]

end EventLoop

end Libhv
