import NetDemo.Libhv.TcpServer.Start.Invariant

/-!
This module contains that `TcpServer::start` never gets stuck, and what it has done before the first
connection is accepted.
-/

namespace Libhv.ServerStart

open Transition ListUpdate EventLoopThread

variable {threadNum : Nat} {wait : Bool} {s t : ServerStart}

section Progress

-- No thread can make a step.
def Quiet (threadNum : Nat) (wait : Bool) (s : ServerStart) : Prop :=
  ∀ e, step threadNum wait s e = none

theorem Quiet.called (hs : s.Inv threadNum wait) (hquiet : s.Quiet threadNum wait) {i : Nat}
    {w : EventLoopThread PoolPre} (hw : s.workers[i]? = some w)
    : w.left = 0 ∧ w.isCalling = false := by
  have hnone := hquiet (.worker i)
  simp only [step, workerStep, hw] at hnone
  split at hnone
  . simp at hnone
  . next hcalling =>
    split at hnone
    . simp at hnone
    . simp at hnone
    . next hstep => exact ⟨(hs.starts i w hw).left_eq_zero hstep, by simpa using hcalling⟩

theorem Quiet.returned (hs : s.Inv threadNum wait) (hquiet : s.Quiet threadNum wait)
    (hrunning : s.workers.length = threadNum → 0 < threadNum → s.poolStatus = .running)
    : s.main = .returned ∧ s.accepting = true := by
  have hnone := hquiet .main
  have hacceptor := hs.acceptor
  have hworkers := hs.workers
  have hcalled : Starts none .startAccept s.acceptor → s.acceptor.left = 0 := by
    intro hstarts
    have hnone := hquiet .acceptor
    simp only [step, acceptorStep] at hnone
    split at hnone
    . simp at hnone
    . simp at hnone
    . next hstep => exact hstarts.left_eq_zero hstep
  unfold AcceptorAt at hacceptor
  unfold WorkersAt at hworkers
  simp only [step, mainStep] at hnone
  split at hnone
  . split at hnone
    . simp at hnone
    . split at hnone
      . simp at hnone
      . simp at hnone
  . split at hnone
    . simp at hnone
    . simp at hnone
  . simp at hnone
  . next hmain =>
    rw [hmain] at hworkers
    rw [if_neg (by simp [hrunning hworkers.right.left hworkers.left])] at hnone
    simp at hnone
  . simp at hnone
  . split at hnone
    . simp at hnone
    . simp at hnone
  . next hmain =>
    rw [hmain] at hacceptor
    have hstatus := hacceptor.left.running (hcalled hacceptor.left)
    rw [if_neg (by simp [hstatus])] at hnone
    simp at hnone
  . next hmain =>
    rw [hmain] at hacceptor
    exact ⟨hmain, hacceptor.right.mpr (hcalled hacceptor.left)⟩

theorem Quiet.running (hs : s.Inv threadNum wait) (hquiet : s.Quiet threadNum wait)
    (hlength : s.workers.length = threadNum)
    : s.startedCnt = threadNum ∧ (0 < threadNum → s.poolStatus = .running) := by
  have hall : s.startedCnt = threadNum := by
    rw [hs.counted, ← hlength, List.countP_eq_length]
    intro w hw
    rcases List.getElem?_of_mem hw with ⟨i, hw⟩
    exact decide_eq_true (hquiet.called hs hw).left
  refine ⟨hall, ?_⟩
  intro hpos
  have hidle : s.workers.countP isCalling = 0 := by
    rw [List.countP_eq_zero]
    intro w hw
    rcases List.getElem?_of_mem hw with ⟨i, hw⟩
    simp [(hquiet.called hs hw).right]
  have htold := hs.told
  have htrue : 0 < threadNum ∧ s.startedCnt = threadNum := ⟨hpos, hall⟩
  rw [hidle, if_pos htrue] at htold
  by_contra hnot
  rw [if_neg hnot] at htold
  omega

end Progress

section Accepting

-- `i` worker threads have been made, and none has got any further.
def spawned (i : Nat) : ServerStart where
  poolStatus := .starting
  startedCnt := 0
  workers := List.replicate i EventLoopThread.new.start
  loopThreads := i
  acceptor := .new
  accepting := false
  main := .spawning i

theorem exists_run_spawned (wait : Bool) (hpos : 0 < threadNum)
    : ∃ es, run (step threadNum wait) new es = some (spawned threadNum) := by
  have hbegin : run (step threadNum wait) new [.main] = some (spawned 0) := by
    have hne : threadNum ≠ 0 := Nat.ne_of_gt hpos
    simp [run, step, mainStep, new, hne, spawned, KStatus.value]
  have hround : ∀ {i s}, i < threadNum → s = spawned i →
      ∃ es t, run (step threadNum wait) s es = some t ∧ t = spawned (i + 1) := by
    intro i s hi hs
    subst hs
    refine ⟨[.main, .main], _, ?_, rfl⟩
    simp [run, step, mainStep, hi, spawned, List.replicate_succ']
  rcases exists_run_of_rounds (p := fun i s => s = spawned i) hround rfl with ⟨es, t, hrun, ht⟩
  subst ht
  refine ⟨[.main] ++ es, ?_⟩
  rw [run_append, hbegin, Option.bind_some, hrun]

-- The rest of `start(false)`, and the acceptor thread.
def early : List ServerStartEvent :=
  [.main, .main, .main, .main, .acceptor, .acceptor, .acceptor, .acceptor]

theorem exists_run_early (hpos : 0 < threadNum)
    : ∃ es s, run (step threadNum false) new es = some s ∧ s.accepting = true ∧
        s.workers = List.replicate threadNum EventLoopThread.new.start := by
  rcases exists_run_spawned false hpos with ⟨es, hrun⟩
  have hearly : ∃ s, run (step threadNum false) (spawned threadNum) early = some s ∧
      s.accepting = true ∧ s.workers = List.replicate threadNum EventLoopThread.new.start := by
    simp [run, early, step, mainStep, acceptorStep, spawned, EventLoopThread.new,
      EventLoopThread.start, EventLoopThread.isStarted, EventLoopThread.step, queueInLoop,
      KStatus.value]
  rcases hearly with ⟨s, hrun', hs⟩
  refine ⟨es ++ early, s, ?_, hs⟩
  rw [run_append, hrun, Option.bind_some, hrun']

theorem Inv.workers_of_accepting (hs : s.Inv threadNum wait) (h : s.accepting = true)
    : s.workers.length = threadNum ∧ s.loopThreads = threadNum ∧
        (wait = true → 0 < threadNum → s.poolStatus = .running) := by
  have hworkers := hs.workers
  have hacceptor := hs.acceptor
  unfold WorkersAt at hworkers
  unfold AcceptorAt at hacceptor
  split at hacceptor
  . simp [h] at hacceptor
  . simp [h] at hacceptor
  . simp [h] at hacceptor
  . simp [h] at hacceptor
  . simp [h] at hacceptor
  . simp [h] at hacceptor
  . next hmain =>
    rw [hmain] at hworkers
    exact hworkers
  . next hmain =>
    rw [hmain] at hworkers
    exact hworkers

theorem Inv.running (hs : s.Inv threadNum wait) (hlength : s.workers.length = threadNum)
    (hrunning : s.poolStatus = .running) (w : EventLoopThread PoolPre) (hw : w ∈ s.workers)
    : w.loopStatus = .running := by
  have hall : s.startedCnt = threadNum := by
    have htold := hs.told
    rw [if_pos hrunning] at htold
    split at htold
    . next hall => exact hall.right
    . omega
  rw [hs.counted, ← hlength, List.countP_eq_length] at hall
  rcases List.getElem?_of_mem hw with ⟨i, hi⟩
  exact (hs.starts i w hi).running (of_decide_eq_true (hall w hw))

/--
When a connection is accepted all worker threads are in `loop_threads_`. That all their loops are
running by then is so in every run exactly if `start` is told to wait, or there are no worker threads.
-/
theorem running_of_accepting_iff (threadNum : Nat) (wait : Bool)
    : (∀ es s, run (step threadNum wait) new es = some s → s.accepting = true →
          s.workers.length = threadNum ∧ s.loopThreads = threadNum) ∧
        ((∀ es s, run (step threadNum wait) new es = some s → s.accepting = true →
            ∀ w, w ∈ s.workers → w.loopStatus = .running) ↔
          wait = true ∨ threadNum = 0) := by
  constructor
  . intro es s hrun h
    have ⟨hlength, hloop, _⟩ := (Inv.of_run es hrun).workers_of_accepting h
    exact ⟨hlength, hloop⟩
  . constructor
    . intro hall
      by_contra hnot
      rw [not_or, Bool.not_eq_true] at hnot
      have hpos : 0 < threadNum := Nat.pos_of_ne_zero hnot.right
      rw [hnot.left] at hall
      rcases exists_run_early hpos with ⟨es, s, hrun, haccepting, hworkers⟩
      have hstatus := hall es s hrun haccepting EventLoopThread.new.start
        (by simp [hworkers, hnot.right])
      exact absurd hstatus (by decide)
    . intro hwait es s hrun h w hw
      have hs := Inv.of_run es hrun
      have ⟨hlength, _, hrunning⟩ := hs.workers_of_accepting h
      have hpos : 0 < threadNum := hlength ▸ List.length_pos_of_mem hw
      cases hwait with
      | inl hwait => exact hs.running hlength (hrunning hwait hpos) w hw
      | inr hzero => omega

end Accepting

end Libhv.ServerStart
