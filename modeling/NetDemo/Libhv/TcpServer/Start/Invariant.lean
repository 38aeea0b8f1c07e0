import NetDemo.Lib.ListUpdate
import NetDemo.Lib.Transition
import NetDemo.Libhv.TcpServer.Start.Basic

/-!
This module contains what is true at every moment of `TcpServer::start`: which threads there are, how
far they have got and what the pool has been told.
-/

namespace Libhv.ServerStart

open Transition ListUpdate EventLoopThread

-- How many worker threads there are.
def WorkersAt (threadNum : Nat) (wait : Bool) (s : ServerStart) : Prop :=
  match s.main with
  | .begin => s.workers.length = 0 ∧ s.loopThreads = 0 ∧ s.poolStatus = .initialized
  | .spawning i =>
    0 < threadNum ∧ i ≤ threadNum ∧ s.workers.length = i ∧ s.loopThreads = i
  | .pushing i => i < threadNum ∧ s.workers.length = i + 1 ∧ s.loopThreads = i
  | .waitingPool =>
    0 < threadNum ∧ s.workers.length = threadNum ∧ s.loopThreads = threadNum
  | .posting | .startingAcceptor | .waitingAcceptor | .returned =>
    s.workers.length = threadNum ∧ s.loopThreads = threadNum ∧
      (wait = true → 0 < threadNum → s.poolStatus = .running)

def AcceptorAt (s : ServerStart) : Prop :=
  match s.main with
  | .begin | .spawning _ | .pushing _ | .waitingPool | .posting =>
    s.acceptor = .new ∧ s.accepting = false
  | .startingAcceptor =>
    s.acceptor = { EventLoopThread.new with customEvents := [.startAccept] } ∧ s.accepting = false
  | .waitingAcceptor | .returned =>
    Starts none .startAccept s.acceptor ∧ (s.accepting = true ↔ s.acceptor.left = 0)

/--
The worker threads that have called `pre` are counted, and if they are all the threads of the pool the
last of them has told the pool or is about to.
-/
structure Inv (threadNum : Nat) (wait : Bool) (s : ServerStart) : Prop where
  starts : ∀ (i : Nat) (t : EventLoopThread PoolPre), s.workers[i]? = some t →
    Starts (some .pre) .pre t
  counted : s.startedCnt = s.workers.countP fun t => t.left = 0
  told : s.workers.countP isCalling + (if s.poolStatus = .running then 1 else 0) =
    if 0 < threadNum ∧ s.startedCnt = threadNum then 1 else 0
  status : s.poolStatus = .initialized ∨ s.poolStatus = .starting ∨ s.poolStatus = .running
  workers : s.WorkersAt threadNum wait
  acceptor : s.AcceptorAt

variable {threadNum : Nat} {wait : Bool} {s t : ServerStart}

theorem inv_new (threadNum : Nat) (wait : Bool) : new.Inv threadNum wait := by
  constructor
  . simp [new]
  . simp [new]
  . have h : ¬ (0 < threadNum ∧ new.startedCnt = threadNum) := by
      simp only [new]
      omega
    rw [if_neg h]
    rfl
  . exact .inl rfl
  . exact ⟨rfl, rfl, rfl⟩
  . exact ⟨rfl, rfl⟩

theorem WorkersAt.le (h : s.WorkersAt threadNum wait) : s.workers.length ≤ threadNum := by
  unfold WorkersAt at h
  split at h
  . omega
  all_goals grind

-- The parts of a state that a step of a worker thread leaves as they are.
theorem WorkersAt.of_eq (hs : s.WorkersAt threadNum wait) (hmain : t.main = s.main)
    (hlength : t.workers.length = s.workers.length) (hloop : t.loopThreads = s.loopThreads)
    (hstatus : t.poolStatus = s.poolStatus ∨ s.workers ≠ [] ∧ t.poolStatus = .running)
    : t.WorkersAt threadNum wait := by
  unfold WorkersAt at hs ⊢
  rw [hmain, hlength, hloop]
  have hne : s.workers ≠ [] → s.workers.length ≠ 0 := by simp
  grind

theorem AcceptorAt.of_eq (hs : s.AcceptorAt) (hmain : t.main = s.main)
    (hacceptor : t.acceptor = s.acceptor) (haccepting : t.accepting = s.accepting)
    : t.AcceptorAt := by
  unfold AcceptorAt at hs ⊢
  rw [hmain, hacceptor, haccepting]
  exact hs

theorem workerStep_cases (hs : s.Inv threadNum wait) {i : Nat}
    (h : s.workerStep threadNum i = some t)
    : ∃ w w' status cnt, s.workers[i]? = some w ∧ Starts (some .pre) .pre w' ∧
        t = { s with poolStatus := status, startedCnt := cnt, workers := s.workers.set i w' } ∧
        ((w.isCalling = true ∧ w.left = 0 ∧ w'.isCalling = false ∧ w'.left = 0 ∧
            status = .running ∧ cnt = s.startedCnt) ∨
          (w.isCalling = false ∧ w.left = w'.left + 1 ∧ w'.isCalling = false ∧ w'.left ≠ 0 ∧
            status = s.poolStatus ∧ cnt = s.startedCnt) ∨
          (w.isCalling = false ∧ w.left = 1 ∧
            w'.isCalling = decide (s.startedCnt + 1 = threadNum) ∧ w'.left = 0 ∧
            status = s.poolStatus ∧ cnt = s.startedCnt + 1)) := by
  unfold workerStep at h
  split at h
  . next w hw =>
    have hstarts := hs.starts i w hw
    split at h
    . next hcalling =>
      simp only [Option.some.injEq] at h
      cases hstarts with
      | calling => exact ⟨_, _, _, _, hw, .called, h.symm, .inl ⟨rfl, rfl, rfl, rfl, rfl, rfl⟩⟩
      | _ => simp [isCalling] at hcalling
    . split at h
      . next w' hstep =>
        rcases hstarts.step hstep with ⟨hleft, hidle, hcases⟩
        rcases hcases with ⟨hout, _⟩ | ⟨_, hw'⟩
        . simp at hout
        . subst hw'
          simp only [Option.some.injEq] at h
          refine ⟨w, _, _, _, hw, ?_, h.symm, .inr (.inr ⟨hidle, hleft.symm, ?_, ?_, rfl, rfl⟩)⟩
          . split
            . exact .calling
            . exact .called
          . split
            . next hlast => simp [isCalling, hlast]
            . next hlast => simp [isCalling, hlast]
          . split
            . rfl
            . rfl
      . next w' hstep =>
        rcases hstarts.step hstep with ⟨hleft, hidle, hcases⟩
        rcases hcases with ⟨_, hstarts', hne, hidle'⟩ | ⟨hout, _⟩
        . simp only [Option.some.injEq] at h
          exact ⟨w, w', _, _, hw, hstarts', h.symm,
            .inr (.inl ⟨hidle, hleft.symm, hidle', hne, rfl, rfl⟩)⟩
        . simp at hout
      . simp at h
  . simp at h

theorem Inv.workerStep (hs : s.Inv threadNum wait) {i : Nat}
    (h : s.workerStep threadNum i = some t)
    : t.Inv threadNum wait := by
  rcases workerStep_cases hs h with ⟨w, w', status, cnt, hw, hw', ht, hcases⟩
  have hcount := countP_set_add (p := fun t => decide (t.left = 0)) hw w'
  have hcalling := countP_set_add (p := isCalling) hw w'
  have hlt : i < s.workers.length := (List.getElem?_eq_some_iff.mp hw).1
  have hcounted := hs.counted
  have htold := hs.told
  have hstatus := hs.status
  have hle := hs.workers.le
  subst ht
  constructor
  . apply forall_set (p := fun _ (x : EventLoopThread PoolPre) => Starts (some .pre) .pre x) hw'
    intro j x _ hx
    exact hs.starts j x hx
  . dsimp only
    rcases hcases with ⟨_, h0, _, h0', _, hcnt⟩ | ⟨_, h1, _, h1', _, hcnt⟩ | ⟨_, h1, _, h0, _, hcnt⟩
    . simp only [h0, h0', decide_true] at hcount
      omega
    . have h1 : w.left ≠ 0 := by omega
      simp only [h1, h1', decide_false] at hcount
      omega
    . simp only [h1, h0, decide_true] at hcount
      simp at hcount
      omega
  . dsimp only
    rcases hcases with ⟨h1, _, h0, _, hrunning, hcnt⟩ | ⟨h0, _, h0', _, hsame, hcnt⟩ |
      ⟨h0, h1, hlast, _, hsame, hcnt⟩
    . simp only [h1, h0, Bool.toNat_true, Bool.toNat_false] at hcalling
      grind
    . simp only [h0, h0', Bool.toNat_false] at hcalling
      rw [hsame, hcnt]
      omega
    . have hfew := countP_lt_length (p := fun t => decide (t.left = 0)) hw (by simp [h1])
      have hnot : ¬ (0 < threadNum ∧ s.startedCnt = threadNum) := by omega
      rw [if_neg hnot] at htold
      rw [h0, hlast, Bool.toNat_false] at hcalling
      rw [hsame, hcnt]
      by_cases hall : s.startedCnt + 1 = threadNum
      . rw [decide_eq_true hall, Bool.toNat_true] at hcalling
        have hnew : 0 < threadNum ∧ s.startedCnt + 1 = threadNum := ⟨by omega, hall⟩
        rw [if_pos hnew]
        omega
      . rw [decide_eq_false hall, Bool.toNat_false] at hcalling
        have hnew : ¬ (0 < threadNum ∧ s.startedCnt + 1 = threadNum) := fun h => hall h.right
        rw [if_neg hnew]
        omega
  . dsimp only
    grind
  . have hne : s.workers ≠ [] := by
      apply List.ne_nil_of_length_pos
      omega
    apply WorkersAt.of_eq hs.workers
    . rfl
    . simp
    . rfl
    . dsimp only
      grind
  . exact hs.acceptor.of_eq rfl rfl rfl

theorem acceptorStep_cases (hs : s.AcceptorAt) (h : s.acceptorStep = some t)
    : ∃ a accepting, t = { s with acceptor := a, accepting := accepting } ∧
        (s.main = .waitingAcceptor ∨ s.main = .returned) ∧ Starts none .startAccept a ∧
        a.left + 1 = s.acceptor.left ∧ (accepting = true ↔ a.left = 0) := by
  have hlate : (s.main = .waitingAcceptor ∨ s.main = .returned) ∧
      Starts none .startAccept s.acceptor ∧ (s.accepting = true ↔ s.acceptor.left = 0) := by
    unfold AcceptorAt at hs
    unfold acceptorStep at h
    split at hs
    . simp [hs.left, EventLoopThread.step, EventLoopThread.new] at h
    . simp [hs.left, EventLoopThread.step, EventLoopThread.new] at h
    . simp [hs.left, EventLoopThread.step, EventLoopThread.new] at h
    . simp [hs.left, EventLoopThread.step, EventLoopThread.new] at h
    . simp [hs.left, EventLoopThread.step, EventLoopThread.new] at h
    . simp [hs.left, EventLoopThread.step, EventLoopThread.new] at h
    . next hmain => exact ⟨.inl hmain, hs⟩
    . next hmain => exact ⟨.inr hmain, hs⟩
  rcases hlate with ⟨hmain, hstarts, haccepting⟩
  unfold acceptorStep at h
  split at h
  . next a hstep =>
    rcases hstarts.step hstep with ⟨hleft, _, hcases⟩
    rcases hcases with ⟨hout, _⟩ | ⟨_, ha⟩
    . simp at hout
    . simp only [Option.some.injEq] at h
      subst ha
      exact ⟨_, _, h.symm, hmain, .called, hleft, by simp [left]⟩
  . next a hstep =>
    rcases hstarts.step hstep with ⟨hleft, _, hcases⟩
    rcases hcases with ⟨_, hstarts', hne, _⟩ | ⟨hout, _⟩
    . simp only [Option.some.injEq] at h
      have hnot : ¬ s.accepting = true := by
        rw [haccepting]
        omega
      exact ⟨a, _, h.symm, hmain, hstarts', hleft, by simp [hnot, hne]⟩
    . simp at hout
  . simp at h

theorem Inv.acceptorStep (hs : s.Inv threadNum wait) (h : s.acceptorStep = some t)
    : t.Inv threadNum wait := by
  rcases acceptorStep_cases hs.acceptor h with ⟨a, accepting, ht, hmain, hstarts, _, haccepting⟩
  subst ht
  constructor
  . exact hs.starts
  . exact hs.counted
  . exact hs.told
  . exact hs.status
  . exact hs.workers
  . unfold AcceptorAt
    rcases hmain with hmain | hmain
    . rw [hmain]
      exact ⟨hstarts, haccepting⟩
    . rw [hmain]
      exact ⟨hstarts, haccepting⟩

-- `TcpServer::start` has come to the next place and done nothing else.
theorem Inv.moved (hs : s.Inv threadNum wait) {main : StartAt}
    (hworkers : WorkersAt threadNum wait { s with main := main })
    (hacceptor : AcceptorAt { s with main := main })
    : Inv threadNum wait { s with main := main } := by
  exact ⟨hs.starts, hs.counted, hs.told, hs.status, hworkers, hacceptor⟩

theorem Inv.spawned (hs : s.Inv threadNum wait) {i : Nat} (hmain : s.main = .spawning i)
    (hi : i < threadNum)
    : Inv threadNum wait
        { s with workers := s.workers ++ [EventLoopThread.new.start], main := .pushing i } := by
  have hworkers := hs.workers
  have hacceptor := hs.acceptor
  unfold WorkersAt at hworkers
  unfold AcceptorAt at hacceptor
  rw [hmain] at hworkers hacceptor
  constructor
  . intro j x hx
    simp only [List.getElem?_append, List.getElem?_singleton] at hx
    split at hx
    . exact hs.starts j x hx
    . split at hx
      . simp only [Option.some.injEq] at hx
        rw [← hx]
        exact starts_start _ rfl rfl
      . simp at hx
  . rw [hs.counted, List.countP_append]
    rfl
  . rw [List.countP_append]
    exact hs.told
  . exact hs.status
  . refine ⟨hi, ?_, hworkers.right.right.right⟩
    rw [List.length_append, hworkers.right.right.left]
    rfl
  . exact hacceptor

theorem Inv.mainStep (hs : s.Inv threadNum wait) (h : s.mainStep threadNum wait = some t)
    : t.Inv threadNum wait := by
  have hworkers := hs.workers
  have hacceptor := hs.acceptor
  unfold ServerStart.mainStep at h
  unfold WorkersAt at hworkers
  unfold AcceptorAt at hacceptor
  split at h
  . next hmain =>
    rw [hmain] at hworkers hacceptor
    split at h
    . next hzero =>
      simp only [Option.some.injEq] at h
      subst h
      apply hs.moved
      . refine ⟨hworkers.left.trans hzero.symm, hworkers.right.left.trans hzero.symm, ?_⟩
        intro _ hpos
        omega
      . exact hacceptor
    . next hpos =>
      rw [if_neg (by simp [hworkers.right.right, KStatus.value])] at h
      simp only [Option.some.injEq] at h
      subst h
      constructor
      . exact hs.starts
      . exact hs.counted
      . have htold := hs.told
        rw [hworkers.right.right] at htold
        exact htold
      . exact .inr (.inl rfl)
      . exact ⟨by omega, Nat.zero_le _, hworkers.left, hworkers.right.left⟩
      . exact hacceptor
  . next i hmain =>
    split at h
    . next hi =>
      simp only [Option.some.injEq] at h
      exact h ▸ hs.spawned hmain hi
    . next hi =>
      rw [hmain] at hworkers hacceptor
      simp only [Option.some.injEq] at h
      subst h
      rcases hworkers with ⟨hpos, hle, hlength, hloop⟩
      have hall : i = threadNum := Nat.le_antisymm hle (Nat.le_of_not_lt hi)
      apply hs.moved
      . exact ⟨hpos, hlength.trans hall, hloop.trans hall⟩
      . exact hacceptor
  . next i hmain =>
    rw [hmain] at hworkers hacceptor
    simp only [Option.some.injEq] at h
    subst h
    constructor
    . exact hs.starts
    . exact hs.counted
    . exact hs.told
    . exact hs.status
    . refine ⟨by omega, hworkers.left, hworkers.right.left, ?_⟩
      rw [hworkers.right.right]
    . exact hacceptor
  . next hmain =>
    rw [hmain] at hworkers hacceptor
    split at h
    . simp at h
    . next hwait =>
      simp only [Option.some.injEq] at h
      subst h
      apply hs.moved
      . refine ⟨hworkers.right.left, hworkers.right.right, ?_⟩
        intro hwaits _
        rcases hs.status with hstatus | hstatus | hstatus
        . exact absurd ⟨hwaits, by simp [hstatus, KStatus.value]⟩ hwait
        . exact absurd ⟨hwaits, by simp [hstatus, KStatus.value]⟩ hwait
        . exact hstatus
      . exact hacceptor
  . next hmain =>
    rw [hmain] at hworkers hacceptor
    simp only [Option.some.injEq] at h
    subst h
    constructor
    . exact hs.starts
    . exact hs.counted
    . exact hs.told
    . exact hs.status
    . exact hworkers
    . refine ⟨?_, hacceptor.right⟩
      rw [hacceptor.left]
      rfl
  . next hmain =>
    rw [hmain] at hworkers hacceptor
    have hstopped : s.acceptor.isStarted = false := by
      rw [hacceptor.left]
      rfl
    rw [if_neg (by simp [hstopped])] at h
    simp only [Option.some.injEq] at h
    subst h
    have hstarts : Starts none .startAccept s.acceptor.start := by
      rw [hacceptor.left]
      exact starts_start _ rfl rfl
    constructor
    . exact hs.starts
    . exact hs.counted
    . exact hs.told
    . exact hs.status
    . exact hworkers
    . refine ⟨hstarts, ?_⟩
      simp [hacceptor.left, hacceptor.right, EventLoopThread.start, EventLoopThread.new,
        EventLoopThread.isStarted, KStatus.value, left]
  . next hmain =>
    rw [hmain] at hworkers hacceptor
    split at h
    . simp at h
    . simp only [Option.some.injEq] at h
      subst h
      apply hs.moved
      . exact hworkers
      . exact hacceptor
  . simp at h

theorem Inv.step (hs : s.Inv threadNum wait) {e : ServerStartEvent}
    (h : step threadNum wait s e = some t)
    : t.Inv threadNum wait := by
  cases e with
  | main => exact hs.mainStep h
  | worker i => exact hs.workerStep h
  | acceptor => exact hs.acceptorStep h

theorem Inv.of_run (es : List ServerStartEvent)
    (hrun : run (ServerStart.step threadNum wait) new es = some s)
    : s.Inv threadNum wait := by
  apply inv_of_run (c := fun _ _ => True) _ (inv_new threadNum wait) _ hrun
  . intro s e t hs _ h
    exact hs.step h
  . apply Meets.of_forall
    simp

end Libhv.ServerStart
